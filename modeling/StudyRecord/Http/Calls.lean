import StudyRecord.Http.Delivery
import StudyRecord.Http.Loop

/-!
The calls that a connection goes through between two requests, and the part of
its record that each of them can change.
-/

namespace StudyRecord.Http.HttpConn

open CString Machine

inductive Call
  | init
  | read (results : List Recv)
  | processRead (fs : FileSystem)
  | processWrite (ret : HttpCode)
  | write (results : List Writev)

def Call.run (c : HttpConn) : Call → HttpConn
  | .init => c.init
  | .read results => (c.read results).1
  | .processRead fs => (c.processRead fs).1
  | .processWrite ret => (c.processWrite ret).1
  | .write results => (c.write results).1

def runCalls (c : HttpConn) (calls : List Call) : HttpConn := calls.foldl Call.run c

/-! Frames. -/

def RequestFrame (before after : HttpConn) : Prop :=
  after = { before with
    realFile := after.realFile
    fileStat := after.fileStat
    fileAddress := after.fileAddress }

theorem doRequest_frame (c : HttpConn) (fs : FileSystem) : RequestFrame c (doRequest c fs).1 := by
  simp only [doRequest]
  split
  · rfl
  · split
    · rfl
    · split
      · rfl
      · split <;> rfl

theorem Appends.responseFrame {before after : HttpConn} (appends : Appends before after) :
    ResponseFrame before after := by
  rw [ResponseFrame, appends.frame]

theorem sendBuffer_frame (c : HttpConn) (result : HttpConn × Bool) (appends : Appends c result.1) :
    ResponseFrame c (sendBuffer result).1 := by
  simp only [sendBuffer]
  split
  · rw [ResponseFrame, appends.frame]
  · exact appends.responseFrame

theorem processWrite_frame (c : HttpConn) (ret : HttpCode) :
    ResponseFrame c (processWrite c ret).1 := by
  have page (status : Int) (title content : List UInt8) :=
    sendBuffer_frame c _ (addPage_appends c status title content)
  cases ret with
  | internalError => exact page _ _ _
  | noResource => exact page _ _ _
  | forbiddenRequest => exact page _ _ _
  | fileRequest =>
      simp only [processWrite]
      split
      · have appends := (addStatusLine_appends c 200 ok200Title).trans
          (addHeaders_appends (addStatusLine c 200 ok200Title).1
            (toInt (addStatusLine c 200 ok200Title).1.fileStat.size))
        rw [ResponseFrame, sendFile, appends.frame]
      · exact page _ _ _
  | noRequest => rfl
  | getRequest => rfl
  | badRequest => rfl
  | closedConnection => rfl

def SendFrame (before after : HttpConn) : Prop :=
  after = { before with
    iv0 := after.iv0
    iv1 := after.iv1
    bytesToSend := after.bytesToSend
    bytesHaveSend := after.bytesHaveSend
    fileAddress := after.fileAddress }

theorem SendFrame.trans {first second third : HttpConn} (early : SendFrame first second)
    (late : SendFrame second third) : SendFrame first third := by
  rw [SendFrame] at early late ⊢
  rw [late, early]

theorem advance_frame (c : HttpConn) (temp : Int) : SendFrame c (c.advance temp) := by
  simp only [SendFrame, HttpConn.advance]
  split <;> rfl

theorem unmap_frame (c : HttpConn) : SendFrame c c.unmap := by
  simp only [SendFrame, unmap]
  split <;> rfl

theorem finish_frame (c : HttpConn) :
    ∃ sent, SendFrame c sent ∧ ((c.finish).1 = sent ∨ (c.finish).1 = sent.init) := by
  refine ⟨c.unmap, unmap_frame c, ?_⟩
  simp only [finish]
  split
  · split
    · exact Or.inl rfl
    · exact Or.inr rfl
  · exact Or.inl rfl

theorem write_frame (c : HttpConn) (results : List Writev) :
    ∃ sent, SendFrame c sent ∧ ((c.write results).1 = sent ∨ (c.write results).1 = sent.init) := by
  have loop (results : List Writev) (c : HttpConn) :
      ∃ sent, SendFrame c sent ∧
        ((writeLoop results c).1 = sent ∨ (writeLoop results c).1 = sent.init) := by
    induction results generalizing c with
    | nil => exact ⟨c, rfl, Or.inl rfl⟩
    | cons result rest ih =>
        cases result with
        | error => exact ⟨c.unmap, unmap_frame c, Or.inl rfl⟩
        | sent count =>
            have moved := advance_frame c (toInt count)
            simp only [writeLoop]
            split
            · obtain ⟨sent, frame, ends⟩ := finish_frame (c.advance (toInt count))
              exact ⟨sent, moved.trans frame, ends⟩
            · obtain ⟨sent, frame, ends⟩ := ih (c.advance (toInt count))
              exact ⟨sent, moved.trans frame, ends⟩
  simp only [write]
  split
  · exact ⟨c, rfl, Or.inr rfl⟩
  · exact loop results c

theorem read_receive (c : HttpConn) (results : List Recv) :
    ∃ arrived, (c.read results).1 = c.receive arrived ∧
      (c.readIdx ≤ readBufferSize → c.readIdx + arrived.length ≤ readBufferSize) := by
  have loop (results : List Recv) (c : HttpConn) :
      ∃ arrived, (recvLoop results c).1 = c.receive arrived ∧
        (c.readIdx ≤ readBufferSize → c.readIdx + arrived.length ≤ readBufferSize) := by
    induction results generalizing c with
    | nil => exact ⟨[], (receive_nil c).symm, by simp⟩
    | cons result rest ih =>
        cases result with
        | error => exact ⟨[], (receive_nil c).symm, by simp⟩
        | data waiting =>
            simp only [recvLoop]
            split
            · exact ⟨[], (receive_nil c).symm, by simp⟩
            · obtain ⟨arrived, same, room⟩ :=
                ih (c.receive (waiting.take (readBufferSize - c.readIdx)))
              refine ⟨waiting.take (readBufferSize - c.readIdx) ++ arrived, ?_, ?_⟩
              · rw [same, receive_receive]
              · intro capacity
                have length := List.length_take_le (readBufferSize - c.readIdx) waiting
                rw [receive_readIdx] at room
                rw [List.length_append]
                omega
  simp only [read]
  split
  · exact ⟨[], (receive_nil c).symm, by simp⟩
  · exact loop results c

end StudyRecord.Http.HttpConn
