import StudyRecord.Http.Bounds

/-!
How many bytes a connection has to send: none until its request is answered, and
some from then on until the answer is out.
-/

namespace StudyRecord.Http.HttpConn

open CString Machine

/-! The header of an answer with a file. -/

theorem decimal_length {value : Int} (fits : FitsInt value) : (decimal value).length ≤ 11 := by
  have digits (number : Nat) (small : number < 10 ^ 10) : (Nat.repr number).length ≤ 10 :=
    (Nat.length_repr_le_iff (by decide)).mpr small
  simp only [FitsInt, intMin, intMax] at fits
  rw [decimal, bytes_length]
  cases value with
  | ofNat number =>
      rw [Int.ofNat_eq_natCast] at fits
      have short := digits number (by omega)
      change (Nat.repr number).length ≤ 11
      omega
  | negSucc number =>
      have short := digits (number + 1) (by omega)
      change ("-" ++ Nat.repr (number + 1)).length ≤ 11
      rw [String.length_append]
      change 1 + _ ≤ 11
      omega

def formatted (c : HttpConn) : List UInt8 := (List.range c.writeIdx).map c.writeBuf

@[simp] theorem formatted_length (c : HttpConn) : c.formatted.length = c.writeIdx := by
  simp [formatted]

structure Prints (text : List UInt8) (before : HttpConn) (result : HttpConn × Bool) : Prop where
  ok : result.2 = true
  appends : Appends before result.1
  formatted : result.1.formatted = before.formatted ++ text

theorem Prints.writeIdx {text : List UInt8} {before : HttpConn} {result : HttpConn × Bool}
    (prints : Prints text before result) : result.1.writeIdx = before.writeIdx + text.length := by
  have length := congrArg List.length prints.formatted
  simpa using length

theorem Prints.linger {text : List UInt8} {before : HttpConn} {result : HttpConn × Bool}
    (prints : Prints text before result) : result.1.linger = before.linger := by
  rw [prints.appends.frame]

theorem Prints.andThen {early late : List UInt8} {before : HttpConn} {result : HttpConn × Bool}
    {call : HttpConn → HttpConn × Bool} (first : Prints early before result)
    (second : Prints late result.1 (call result.1)) :
    Prints (early ++ late) before (andThen result call) := by
  rw [HttpConn.andThen, if_pos first.ok]
  refine ⟨second.ok, first.appends.trans second.appends, ?_⟩
  rw [second.formatted, first.formatted, List.append_assoc]

theorem Prints.then {early late : List UInt8} {before : HttpConn} {result last : HttpConn × Bool}
    (first : Prints early before result) (second : Prints late result.1 last) :
    Prints (early ++ late) before last := by
  refine ⟨second.ok, first.appends.trans second.appends, ?_⟩
  rw [second.formatted, first.formatted, List.append_assoc]

theorem addResponse_prints (c : HttpConn) (text : List UInt8)
    (room : c.writeIdx + text.length + 1 < writeBufferSize) :
    Prints text c (addResponse c text) := by
  have inside : ¬c.writeIdx ≥ writeBufferSize := by omega
  have short : ¬text.length ≥ writeBufferSize - c.writeIdx - 1 := by omega
  have some' : ¬writeBufferSize - c.writeIdx - 1 = 0 := by omega
  have whole : text.take (writeBufferSize - c.writeIdx - 1 - 1) = text :=
    List.take_of_length_le (by omega)
  have position : (addResponse c text).1.writeIdx = c.writeIdx + text.length := by
    simp [addResponse, inside, short]
  have buffer : (addResponse c text).1.writeBuf = copyIn c.writeBuf c.writeIdx (text ++ [0]) := by
    simp [addResponse, inside, short, some', whole]
  refine ⟨by simp [addResponse, inside, short], addResponse_appends c text, ?_⟩
  apply List.ext_getElem
  · rw [List.length_append, formatted_length, formatted_length, position]
  · intro index left right
    rw [formatted_length, position] at left
    simp only [HttpConn.formatted, List.getElem_map, List.getElem_range, buffer,
      List.getElem_append, List.length_map, List.length_range]
    split
    · rename_i before
      exact copyIn_below _ _ before
    · rename_i behind
      obtain ⟨offset, rfl⟩ : ∃ offset, index = c.writeIdx + offset := ⟨index - c.writeIdx, by omega⟩
      have within : offset < (text ++ [0]).length := by
        rw [List.length_append]
        omega
      rw [copyIn_inside _ _ within, List.getElem_append_left (by omega)]
      simp

def statusLine (status : Int) (title : List UInt8) : List UInt8 :=
  bytes "HTTP/1.0 " ++ decimal status ++ bytes " " ++ title ++ bytes "\r\n"

def headers (linger : Bool) (contentLen : Int) : List UInt8 :=
  bytes "Content-Length:" ++ decimal contentLen ++ bytes "\r\n" ++
    (bytes "Connection:" ++ (if linger then bytes "keep-alive" else bytes "close") ++ bytes "\r\n") ++
    bytes "\r\n"

theorem headers_length (linger : Bool) {contentLen : Int} (fits : FitsInt contentLen) :
    (headers linger contentLen).length ≤ 53 := by
  have digits := decimal_length fits
  have texts : (bytes "Content-Length:").length = 15 ∧ (bytes "\r\n").length = 2 ∧
      (bytes "Connection:").length = 11 ∧ (bytes "keep-alive").length = 10 ∧
      (bytes "close").length = 5 := by decide
  simp only [headers, List.length_append]
  split <;> omega

theorem addHeaders_prints {c : HttpConn} {contentLen : Int} (fits : FitsInt contentLen)
    (room : c.writeIdx + 54 < writeBufferSize) :
    Prints (headers c.linger contentLen) c (addHeaders c contentLen) := by
  have length := headers_length c.linger fits
  simp only [headers, List.length_append] at length
  have first : Prints _ c (addContentLength c contentLen) :=
    addResponse_prints c (bytes "Content-Length:" ++ decimal contentLen ++ bytes "\r\n")
      (by simp only [List.length_append]; omega)
  have position := first.writeIdx
  simp only [List.length_append] at position
  have linger : Prints _ _ (addLinger (addContentLength c contentLen).1) :=
    addResponse_prints _ _ (by
      rw [first.linger]
      simp only [List.length_append]
      omega)
  have second := first.andThen linger
  have position' := second.writeIdx
  rw [first.linger] at second position'
  simp only [List.length_append] at position'
  exact second.andThen (addResponse_prints _ (bytes "\r\n") (by omega))

theorem header_prints {c : HttpConn} {status : Int} {title : List UInt8} {contentLen : Int}
    (fits : FitsInt contentLen)
    (room : c.writeIdx + (statusLine status title).length + 54 < writeBufferSize) :
    Prints (statusLine status title ++ headers c.linger contentLen) c
      (addHeaders (addStatusLine c status title).1 contentLen) := by
  have line : Prints (statusLine status title) c (addStatusLine c status title) :=
    addResponse_prints c _ (by omega)
  have position := line.writeIdx
  have rest := addHeaders_prints (c := (addStatusLine c status title).1) fits (by omega)
  rw [line.linger] at rest
  exact line.then rest

def fileHeader (linger : Bool) (size : Nat) : List UInt8 :=
  statusLine 200 ok200Title ++ headers linger (toInt size)

theorem fileHeader_length (linger : Bool) (size : Nat) :
    0 < (fileHeader linger size).length ∧ (fileHeader linger size).length ≤ 70 := by
  have line : (statusLine 200 ok200Title).length = 17 := by decide
  have rest := headers_length linger (toInt_fits size)
  rw [fileHeader, List.length_append]
  omega

theorem fileHeader_prints {c : HttpConn} (start : c.writeIdx = 0) :
    Prints (fileHeader c.linger c.fileStat.size) c
      (addHeaders (addStatusLine c 200 ok200Title).1
        (toInt (addStatusLine c 200 ok200Title).1.fileStat.size)) := by
  have length : (statusLine 200 ok200Title).length = 17 := by decide
  have fileStat : (addStatusLine c 200 ok200Title).1.fileStat = c.fileStat := by
    rw [(addStatusLine_appends c 200 ok200Title).frame]
  rw [fileStat]
  exact header_prints (toInt_fits _) (by rw [start, length]; decide)

theorem sendFile_bytesToSend {c : HttpConn} (start : c.writeIdx = 0) :
    (sendFile c).1.bytesToSend =
      toInt ((fileHeader c.linger c.fileStat.size).length + c.fileStat.size) := by
  have header := fileHeader_prints start
  have position := header.writeIdx
  have frame := header.appends.frame
  rw [start, Nat.zero_add] at position
  simp only [sendFile]
  rw [position, frame]

theorem emptyAnswer_positive (linger : Bool) :
    0 < toInt ((fileHeader linger 0).length + (0 : Nat)) := by
  have length := fileHeader_length linger 0
  have fits : FitsInt ((fileHeader linger 0).length + (0 : Nat)) := by
    simp only [FitsInt, intMin, intMax]
    omega
  rw [toInt_of_fits fits]
  omega

/-! Answers. -/

structure Unanswered (c : HttpConn) : Prop where
  bytesToSend : c.bytesToSend = 0
  writeIdx : c.writeIdx = 0

theorem init_unanswered (c : HttpConn) : c.init.Unanswered := ⟨rfl, rfl⟩

def AnswerFits (c : HttpConn) (fs : FileSystem) : Prop :=
  (c.processRead fs).2 = some .fileRequest →
    0 < toInt ((fileHeader (c.processRead fs).1.linger (c.processRead fs).1.fileStat.size).length +
      (c.processRead fs).1.fileStat.size)

instance (c : HttpConn) (fs : FileSystem) : Decidable (c.AnswerFits fs) :=
  inferInstanceAs (Decidable (_ → _))

theorem addResponse_true {c : HttpConn} {text : List UInt8} (ok : (addResponse c text).2 = true) :
    (addResponse c text).1.writeIdx = c.writeIdx + text.length := by
  simp only [addResponse] at ok ⊢
  split at ok
  · simp at ok
  · split at ok
    · simp at ok
    · rename_i inside short
      simp only [inside, if_false, short]

theorem sendBuffer_true {result : HttpConn × Bool} (ok : (sendBuffer result).2 = true) :
    result.2 = true ∧ (sendBuffer result).1.bytesToSend = result.1.writeIdx := by
  simp only [sendBuffer] at ok ⊢
  split at ok
  · rename_i made
    simp only [made, if_true]
    exact ⟨trivial, trivial⟩
  · simp at ok

theorem processWrite_amount {c : HttpConn} {ret : HttpCode} (start : c.writeIdx = 0)
    (fits : ret = .fileRequest →
      0 < toInt ((fileHeader c.linger c.fileStat.size).length + c.fileStat.size))
    (ok : (c.processWrite ret).2 = true) : 0 < (c.processWrite ret).1.bytesToSend := by
  have page (status : Int) (title content : List UInt8) (some' : 0 < content.length)
      (sent : (sendBuffer (addPage c status title content)).2 = true) :
      0 < (sendBuffer (addPage c status title content)).1.bytesToSend := by
    obtain ⟨made, amount⟩ := sendBuffer_true sent
    have length := addResponse_true made
    rw [amount, addPage, addContent, length]
    omega
  cases ret with
  | internalError => exact page _ _ _ (by decide) ok
  | noResource => exact page _ _ _ (by decide) ok
  | forbiddenRequest => exact page _ _ _ (by decide) ok
  | fileRequest =>
      simp only [processWrite] at ok ⊢
      split
      · rw [sendFile_bytesToSend start]
        exact fits rfl
      · rename_i empty
        rw [if_neg empty] at ok
        exact page _ _ _ (by decide) ok
  | noRequest => simp [processWrite] at ok
  | getRequest => simp [processWrite] at ok
  | badRequest => simp [processWrite] at ok
  | closedConnection => simp [processWrite] at ok

structure Written (result : HttpConn × WriteEnd) : Prop where
  notIdle : result.2 ≠ .idle
  again : result.2 = .again → 0 < result.1.bytesToSend
  kept : result.2 = .complete true → result.1.Unanswered

theorem finish_written (c : HttpConn) : Written c.finish := by
  simp only [finish]
  split
  · split
    · exact ⟨by simp, by simp, by simp⟩
    · exact ⟨by simp, by simp, fun _ => init_unanswered _⟩
  · exact ⟨by simp, by simp, by simp⟩

theorem write_written (results : List Writev) {c : HttpConn} (pending : 0 < c.bytesToSend) :
    Written (c.write results) := by
  have loop : Written (writeLoop results c) := by
    induction results generalizing c with
    | nil => exact ⟨by simp [writeLoop], fun _ => pending, by simp [writeLoop]⟩
    | cons result rest ih =>
        cases result with
        | error => exact ⟨by simp [writeLoop], by simp [writeLoop], by simp [writeLoop]⟩
        | sent count =>
            simp only [writeLoop]
            split
            · exact finish_written _
            · rename_i more
              exact ih (by omega)
  have some' : ¬c.bytesToSend = 0 := by omega
  rw [write, if_neg some']
  exact loop

theorem read_unanswered {c : HttpConn} (waiting : c.Unanswered) (results : List Recv) :
    (c.read results).1.Unanswered := by
  obtain ⟨arrived, same, _⟩ := read_receive c results
  rw [same]
  exact ⟨waiting.bytesToSend, waiting.writeIdx⟩

theorem processRead_unanswered {c : HttpConn} (waiting : c.Unanswered) (fs : FileSystem)
    (bounded : c.Bounded) : (c.processRead fs).1.Unanswered := by
  obtain ⟨scanned, read, request⟩ := processRead_frame c fs bounded.ordered
  refine ⟨?_, ?_⟩
  · rw [request, read]
    exact waiting.bytesToSend
  · rw [request, read]
    exact waiting.writeIdx

end StudyRecord.Http.HttpConn
