import StudyRecord.Http.Reuse
import StudyRecord.Library.Runs

/-!
A slot of the connection table and the files mapped for it: the operations on the
slot, and what each call of the connection does to the mapping.
-/

namespace StudyRecord.Http

open CString Machine

/-- `MAP_FAILED`, which is what `mmap` returns for a file that could not be opened too. -/
def mapFailed : Nat := 2 ^ 64 - 1

/-- `mmap` fails for a file without bytes and never returns a null pointer. -/
def FileSystem.Documented (fs : FileSystem) : Prop :=
  ∀ path size, fs.mmap path size ≠ mapFailed → fs.mmap path size ≠ 0 ∧ size ≠ 0

def FileStat.served (stat : FileStat) : Bool := stat.othersRead && !stat.isDir

structure Mapping where
  address : Nat
  length : Nat
  deriving DecidableEq, Repr

structure Found where
  stat : FileStat
  address : Nat

def WriteEnd.unmaps : WriteEnd → Bool
  | .idle => false
  | .again => false
  | .failed => true
  | .complete _ => true

namespace HttpConn

def mapping (c : HttpConn) : Mapping := ⟨c.fileAddress, c.fileStat.size⟩

def asked (c : HttpConn) : Option (List UInt8) :=
  match scan c with
  | (c, .callsDoRequest) => c.url.map fun url => { c with realFile := buildRealFile c url }.realPath
  | _ => none

def found (c : HttpConn) (fs : FileSystem) : Option Found :=
  (asked c).bind fun path => (fs.stat path).map fun stat => ⟨stat, fs.mmap path stat.size⟩

end HttpConn

/-- A slot of the connection table with the mappings that were made for it and are
still there. A `munmap` with another length does not count as taking one away. -/
structure Slot where
  conn : HttpConn
  live : List Mapping

namespace Slot

inductive Op
  | accept (sockfd timer : Nat)
  | read (results : List HttpConn.Recv)
  | process (fs : FileSystem)
  | write (results : List Writev)
  | close
  | expire

inductive Crash
  | nullDereference
  deriving DecidableEq, Repr

def accept (s : Slot) (sockfd timer : Nat) : Slot :=
  { s with conn := { HttpConn.init { s.conn with sockfd := sockfd } with timer := some timer } }

/-- `close_conn`, and `timer_func` with the callback that calls it. -/
def closeConn (s : Slot) : Slot := { s with conn := { s.conn with sockfd := -1, timer := none } }

def closeUnless (s : Slot) (ok : Bool) : Slot := if ok then s else s.closeConn

def read (s : Slot) (results : List HttpConn.Recv) : Slot :=
  let (c, ok) := s.conn.read results
  { s with conn := c }.closeUnless ok

def munmapped (s : Slot) : List Mapping :=
  if s.conn.fileAddress ≠ 0 then s.live.filter (· ≠ s.conn.mapping) else s.live

def write (s : Slot) (results : List Writev) : Slot :=
  let (c, ending) := s.conn.write results
  let live := if ending.unmaps then s.munmapped else s.live
  (Slot.mk c live).closeUnless ending.result

def mmapped (s : Slot) (c : HttpConn) (ret : HttpCode) : List Mapping :=
  if ret = .fileRequest ∧ c.fileAddress ≠ mapFailed then c.mapping :: s.live else s.live

def process (s : Slot) (fs : FileSystem) : Except Crash Slot :=
  match s.conn.processRead fs with
  | (_, none) => .error .nullDereference
  | (c, some ret) =>
      let live := s.mmapped c ret
      if ret = .noRequest then .ok ⟨c, live⟩
      else
        let (c, ok) := c.processWrite ret
        .ok ((Slot.mk c live).closeUnless ok)

def step (s : Slot) : Op → Except Crash Slot
  | .accept sockfd timer => .ok (s.accept sockfd timer)
  | .read results => .ok (s.read results)
  | .process fs => s.process fs
  | .write results => .ok (s.write results)
  | .close => .ok s.closeConn
  | .expire => .ok s.closeConn

def Op.Documented : Op → Prop
  | .process fs => fs.Documented
  | _ => True

/-- The state behind the first `accept`. Nothing sets the fields of a slot before. -/
def accepted (c : HttpConn) (sockfd timer : Nat) : Slot := (Slot.mk c []).accept sockfd timer

end Slot

namespace HttpConn

/-! What the calls do to the mapping. -/

def Looked (c : HttpConn) (result : HttpConn × Option HttpCode) : Option Found → Prop
  | none => result.2 ≠ some .fileRequest ∧ result.1.mapping = c.mapping
  | some file =>
      result.1.fileStat = file.stat ∧
        if file.stat.served then
          result.2 = some .fileRequest ∧ result.1.fileAddress = file.address
        else
          result.1.fileAddress = c.fileAddress ∧
            ∃ ret, result.2 = some ret ∧ ret ≠ .fileRequest ∧ ret ≠ .noRequest

theorem requestFile_looked (c : HttpConn) (fs : FileSystem) :
    Looked c (requestFile c fs)
      ((fs.stat c.realPath).map fun stat => ⟨stat, fs.mmap c.realPath stat.size⟩) := by
  simp only [requestFile]
  cases fs.stat c.realPath with
  | none => exact ⟨by simp, rfl⟩
  | some stat =>
      cases readable : stat.othersRead with
      | false => simp [Looked, FileStat.served, readable]
      | true =>
          cases directory : stat.isDir with
          | false => simp [Looked, FileStat.served, readable, directory, realPath]
          | true => simp [Looked, FileStat.served, readable, directory]

theorem Looked.of_mapping {before c : HttpConn} {result : HttpConn × Option HttpCode}
    {file : Option Found} (looked : Looked c result file) (mapping : c.mapping = before.mapping) :
    Looked before result file := by
  cases file with
  | none => exact ⟨looked.1, looked.2.trans mapping⟩
  | some file =>
      have address : c.fileAddress = before.fileAddress := congrArg Mapping.address mapping
      rw [Looked, address] at looked
      exact looked

theorem processRead_looked (c : HttpConn) (fs : FileSystem) (ordered : c.Ordered) :
    Looked c (processRead c fs) (found c fs) := by
  have frame : ReadFrame c (scan c).1 := (runLoop_effect c .lineOk ordered).frame
  have returned {code : HttpCode} (ending : (scan c).2 = .returns code) : code ≠ .fileRequest :=
    readLoop_returns _ c .lineOk ending
  have mapping : (scan c).1.mapping = c.mapping := by
    rw [frame]
    rfl
  simp only [found, asked, processRead]
  cases result : scan c with
  | mk scanned ending =>
      rw [result] at returned mapping
      cases ending with
      | returns code =>
          refine ⟨?_, mapping⟩
          intro file
          exact returned rfl (Option.some.inj file)
      | nullDereference => exact ⟨by simp, mapping⟩
      | callsDoRequest =>
          simp only [doRequest_eq]
          cases scanned.url with
          | none => exact ⟨by simp, mapping⟩
          | some url => exact (requestFile_looked _ fs).of_mapping mapping

structure SameResponse (before after : HttpConn) : Prop where
  sockfd : after.sockfd = before.sockfd
  bytesToSend : after.bytesToSend = before.bytesToSend
  ivCount : after.ivCount = before.ivCount
  iv1 : after.iv1 = before.iv1

theorem processRead_response (c : HttpConn) (fs : FileSystem) (ordered : c.Ordered) :
    SameResponse c (processRead c fs).1 := by
  obtain ⟨scanned, parsed, requested⟩ := processRead_frame c fs ordered
  rw [requested, parsed]
  exact ⟨rfl, rfl, rfl, rfl⟩

structure Sent (before : HttpConn) (result : HttpConn × WriteEnd) : Prop where
  sockfd : result.1.sockfd = before.sockfd
  fileStat : result.1.fileStat = before.fileStat
  address : result.1.fileAddress = if result.2.unmaps then 0 else before.fileAddress
  ivCount : result.1.ivCount = before.ivCount
  region : result.1.iv1.base.region = before.iv1.base.region
  closing : result.2.result = false → result.2.unmaps = true

theorem unmap_address (c : HttpConn) : c.unmap.fileAddress = 0 := by
  simp only [unmap]
  split
  · rfl
  · rename_i none
    exact not_not.mp none

theorem advance_region (c : HttpConn) (temp : Int) :
    (c.advance temp).iv1.base.region = c.iv1.base.region := by
  simp only [advance]
  split <;> rfl

theorem Sent.of_advance {c : HttpConn} {result : HttpConn × WriteEnd} {temp : Int}
    (sent : Sent (c.advance temp) result) : Sent c result := by
  have region := advance_region c temp
  obtain ⟨moved, same⟩ : ∃ moved, moved = c.advance temp := ⟨_, rfl⟩
  have frame : SendFrame c moved := by
    rw [same]
    exact advance_frame c temp
  have address : moved.fileAddress = c.fileAddress := by
    rw [same, advance]
    simp only
    split <;> rfl
  rw [← same] at sent region
  rw [frame] at sent
  exact ⟨sent.sockfd, sent.fileStat, by rw [sent.address, address], sent.ivCount,
    sent.region.trans region, sent.closing⟩

theorem unmap_sent (c : HttpConn) {ending : WriteEnd} (unmaps : ending.unmaps = true) :
    Sent c (c.unmap, ending) := by
  have address := unmap_address c
  have frame := unmap_frame c
  refine ⟨by rw [frame], by rw [frame], by rw [address, unmaps, if_pos rfl], by rw [frame], ?_, ?_⟩
  · simp only [unmap]
    split <;> rfl
  · intro _
    exact unmaps

theorem Sent.init {before c : HttpConn} {ending : WriteEnd} (sent : Sent before (c, ending)) :
    Sent before (c.init, ending) :=
  ⟨sent.sockfd, sent.fileStat, sent.address, sent.ivCount, sent.region, sent.closing⟩

theorem finish_sent (c : HttpConn) : Sent c c.finish := by
  simp only [finish]
  split
  · split
    · exact unmap_sent c rfl
    · exact (unmap_sent c rfl).init
  · exact unmap_sent c rfl

theorem unchanged_sent (c : HttpConn) {ending : WriteEnd} (keeps : ending.unmaps = false)
    (result : ending.result = true) : Sent c (c, ending) := by
  refine ⟨rfl, rfl, by rw [keeps]; rfl, rfl, rfl, ?_⟩
  intro failed
  rw [result] at failed
  contradiction

theorem writeLoop_sent (results : List Writev) (c : HttpConn) : Sent c (writeLoop results c) := by
  induction results generalizing c with
  | nil => exact unchanged_sent c rfl rfl
  | cons result rest ih =>
      cases result with
      | error => exact unmap_sent c rfl
      | sent count =>
          simp only [writeLoop]
          split
          · exact (finish_sent _).of_advance
          · exact (ih _).of_advance

theorem write_sent (c : HttpConn) (results : List Writev) : Sent c (write c results) := by
  simp only [write]
  split
  · exact (unchanged_sent c rfl rfl).init
  · exact writeLoop_sent results c

theorem processWrite_response (c : HttpConn) (ret : HttpCode) :
    (processWrite c ret).1.ivCount = 2 →
      (ret = .fileRequest ∧ (processWrite c ret).1.iv1.base.region = .mapping c.fileAddress) ∨
        SameResponse c (processWrite c ret).1 := by
  have page (status : Int) (title content : List UInt8) :
      (sendBuffer (addPage c status title content)).1.ivCount = 2 →
        SameResponse c (sendBuffer (addPage c status title content)).1 := by
    have appends := addPage_appends c status title content
    simp only [sendBuffer]
    split
    · intro two
      have one : 1 = 2 := two
      contradiction
    · intro _
      rw [appends.frame]
      exact ⟨rfl, rfl, rfl, rfl⟩
  intro two
  cases ret with
  | internalError => exact Or.inr (page _ _ _ two)
  | noResource => exact Or.inr (page _ _ _ two)
  | forbiddenRequest => exact Or.inr (page _ _ _ two)
  | fileRequest =>
      simp only [processWrite] at two ⊢
      split at two
      · rename_i nonempty
        have appends := (addStatusLine_appends c 200 ok200Title).trans
          (addHeaders_appends (addStatusLine c 200 ok200Title).1
            (toInt (addStatusLine c 200 ok200Title).1.fileStat.size))
        rw [if_pos nonempty]
        refine Or.inl ⟨trivial, ?_⟩
        simp only [sendFile]
        rw [appends.frame]
      · rename_i empty
        rw [if_neg empty]
        exact Or.inr (page _ _ _ two)
  | noRequest => exact Or.inr ⟨rfl, rfl, rfl, rfl⟩
  | getRequest => exact Or.inr ⟨rfl, rfl, rfl, rfl⟩
  | badRequest => exact Or.inr ⟨rfl, rfl, rfl, rfl⟩
  | closedConnection => exact Or.inr ⟨rfl, rfl, rfl, rfl⟩

theorem processWrite_file {c : HttpConn} (nonempty : c.fileStat.size ≠ 0) :
    (processWrite c .fileRequest).2 = true := by
  simp only [processWrite, if_pos nonempty]
  rfl

theorem write_nothing {c : HttpConn} (results : List Writev) (nothing : c.bytesToSend = 0) :
    (write c results).1.bytesToSend = 0 := by
  rw [write, if_pos nothing]
  rfl

end HttpConn

end StudyRecord.Http
