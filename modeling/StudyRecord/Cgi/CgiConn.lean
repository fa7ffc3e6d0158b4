import StudyRecord.Library.CString

/-!
The connection of `practice/concurrentCgiServer.cpp`: `process` receives a line that names a
program, and runs the program with the connection as its standard output.
-/

namespace StudyRecord.Cgi

open CString

def bufferSize : Nat := 1024

/-- A result of `recv`: bytes that were waiting, none of them when the peer has closed,
EAGAIN, or another error. -/
inductive Recv
  | data (waiting : List UInt8)
  | again
  | error
  deriving DecidableEq

/-- What the system says of a program: whether `access` finds it, and whether `fork` succeeds. -/
structure World where
  access : List UInt8 → Bool
  fork : Bool

structure CgiConn where
  sockfd : Int
  buf : Buffer
  readIdx : Int
  /-- the names that `access` was asked for -/
  looked : List (List UInt8)
  /-- the programs that a child has executed -/
  executed : List (List UInt8)
  /-- how often `m_sockfd` has been removed and closed -/
  removed : Nat

inductive Outcome
  | running (c : CgiConn)
  | ended (c : CgiConn)

def Outcome.conn : Outcome → CgiConn
  | .running c => c
  | .ended c => c

namespace CgiConn

def init (c : CgiConn) (sockfd : Int) : CgiConn where
  sockfd := sockfd
  buf := memset c.buf 0 bufferSize
  readIdx := 0
  looked := []
  executed := []
  removed := 0

def removefd (c : CgiConn) : CgiConn := { c with removed := c.removed + 1 }

def offered (c : CgiConn) : Int := bufferSize - 1 - c.readIdx

/-- The letter before which `process` expects the LF. -/
def lineEnd : UInt8 := 114

def lf : UInt8 := 10

def findEnd (buf : Buffer) : Nat → Int → Int
  | 0, idx => idx
  | left + 1, idx =>
      if 1 ≤ idx ∧ buf (idx - 1).toNat = lineEnd ∧ buf idx.toNat = lf then idx
      else findEnd buf left (idx + 1)

/-- The program is looked up and run by a child; the parent is done with the client. -/
def runProgram (world : World) (c : CgiConn) : CgiConn :=
  let name := stringAt bufferSize c.buf 0
  let c := { c with looked := c.looked ++ [name] }
  if world.access name = false then c.removefd
  else if world.fork = false then c.removefd
  else { c with executed := c.executed ++ [name] }.removefd

/-- The part of the loop behind a `recv` that has returned `ret`, not the end of the stream. -/
def handle (world : World) (c : CgiConn) (ret : Int) : Outcome :=
  let idx := c.readIdx
  let c := { c with readIdx := c.readIdx + ret }
  let idx := findEnd c.buf (c.readIdx - idx).toNat idx
  if idx = c.readIdx then .running c
  else .ended (runProgram world { c with buf := storeInt c.buf (idx - 1) 0 })

/-- One round of the loop. An error and the end of the stream do not leave it, and EAGAIN
is handled like data. -/
def round (world : World) (c : CgiConn) : Recv → Outcome
  | .error => .running c.removefd
  | .again => handle world c (-1)
  | .data waiting =>
      let arrived := waiting.take c.offered.toNat
      if arrived = [] then .running c.removefd
      else handle world { c with buf := copyIn c.buf c.readIdx.toNat arrived } arrived.length

/-- `process`, as long as there are results of `recv`. On a descriptor that has been closed
each of them is an error. -/
def process (world : World) (outcome : Outcome) : List Recv → Outcome
  | [] => outcome
  | recv :: rest =>
      match outcome with
      | .ended c => .ended c
      | .running c => process world (round world c (if c.removed = 0 then recv else .error)) rest

/-! What a connection holds while it waits for the end of its line. -/

def HasEnd (bytes : List UInt8) : Prop :=
  ∃ index, bytes[index]? = some lineEnd ∧ bytes[index + 1]? = some lf

structure Holding (c : CgiConn) (bytes : List UInt8) : Prop where
  readIdx : c.readIdx = bytes.length
  inside : bytes.length ≤ bufferSize - 1
  content : ∀ index (bound : index < bytes.length), c.buf index = bytes[index]
  openLine : ¬HasEnd bytes
  looked : c.looked = []
  executed : c.executed = []
  removed : c.removed = 0

theorem init_holding (c : CgiConn) (sockfd : Int) : (c.init sockfd).Holding [] := by
  refine ⟨rfl, Nat.zero_le _, fun index bound => ?_, ?_, rfl, rfl, rfl⟩
  · simp at bound
  · rintro ⟨index, here, _⟩
    simp at here

theorem findEnd_eq_iff (buf : Buffer) (left start : Nat) :
    findEnd buf left start = ((start + left : Nat) : Int) ↔
      ∀ index, start ≤ index → index < start + left →
        ¬(1 ≤ index ∧ buf (index - 1) = lineEnd ∧ buf index = lf) := by
  induction left generalizing start with
  | zero => exact iff_of_true rfl fun index lower upper => by omega
  | succ left ih =>
      have previous : ((start : Int) - 1).toNat = start - 1 := by omega
      rw [findEnd, previous, Int.toNat_natCast]
      split
      · rename_i here
        refine iff_of_false (by omega) fun none' => ?_
        exact none' start (Nat.le_refl _) (by omega) ⟨by omega, here.2⟩
      · rename_i other
        have later := ih (start + 1)
        rw [Nat.add_right_comm, Nat.add_assoc] at later
        rw [show ((start : Int) + 1) = ((start + 1 : Nat) : Int) by omega, later]
        constructor
        · intro none' index lower upper
          by_cases first : index = start
          · subst first
            exact fun here => other ⟨by omega, here.2⟩
          · exact none' index (by omega) upper
        · intro none' index lower upper
          exact none' index (by omega) upper

theorem HasEnd.append {bytes arrived : List UInt8} (ended : HasEnd bytes) :
    HasEnd (bytes ++ arrived) := by
  obtain ⟨index, letter, feed⟩ := ended
  obtain ⟨inside, _⟩ := List.getElem?_eq_some_iff.mp feed
  refine ⟨index, ?_, ?_⟩
  · rwa [List.getElem?_append_left (by omega)]
  · rwa [List.getElem?_append_left inside]

theorem findEnd_of_content {buf : Buffer} {bytes arrived : List UInt8}
    (content : ∀ index (bound : index < (bytes ++ arrived).length), buf index = (bytes ++ arrived)[index])
    (openLine : ¬HasEnd bytes) :
    findEnd buf arrived.length bytes.length = ((bytes.length + arrived.length : Nat) : Int) ↔
      ¬HasEnd (bytes ++ arrived) := by
  have at' (index : Nat) (bound : index < bytes.length + arrived.length) (byte : UInt8) :
      buf index = byte ↔ (bytes ++ arrived)[index]? = some byte := by
    have bound' : index < (bytes ++ arrived).length := by rwa [List.length_append]
    rw [content index bound', List.getElem?_eq_getElem bound', Option.some.injEq]
  rw [findEnd_eq_iff]
  constructor
  · rintro none' ⟨index, letter, feed⟩
    obtain ⟨inside, _⟩ := List.getElem?_eq_some_iff.mp feed
    rw [List.length_append] at inside
    by_cases old : index + 1 < bytes.length
    · refine openLine ⟨index, ?_, ?_⟩
      · rwa [List.getElem?_append_left (by omega)] at letter
      · rwa [List.getElem?_append_left old] at feed
    · refine none' (index + 1) (by omega) inside ⟨by omega, ?_, ?_⟩
      · exact (at' index (by omega) lineEnd).mpr letter
      · exact (at' (index + 1) inside lf).mpr feed
  · rintro none' index lower upper ⟨positive, letter, feed⟩
    refine none' ⟨index - 1, (at' (index - 1) (by omega) lineEnd).mp letter, ?_⟩
    rw [Nat.sub_add_cancel positive]
    exact (at' index upper lf).mp feed

/-! One round. -/

theorem runProgram_removed (world : World) (c : CgiConn) :
    (runProgram world c).removed = c.removed + 1 ∧
      (runProgram world c).readIdx = c.readIdx := by
  simp only [runProgram]
  split
  · exact ⟨rfl, rfl⟩
  · split <;> exact ⟨rfl, rfl⟩

theorem Holding.offered {c : CgiConn} {bytes : List UInt8} (holding : c.Holding bytes) :
    c.offered.toNat = bufferSize - 1 - bytes.length := by
  have readIdx := holding.readIdx
  have size : bufferSize = 1024 := rfl
  simp only [CgiConn.offered, readIdx, size]
  omega

theorem Holding.again {c : CgiConn} {bytes : List UInt8} (holding : c.Holding bytes)
    (world : World) :
    ∃ next, c.round world .again = .ended next ∧ next.readIdx = c.readIdx - 1 ∧ next.removed = 1 := by
  have readIdx := holding.readIdx
  have none' : (c.readIdx + -1 - c.readIdx).toNat = 0 := by omega
  have missed : ¬c.readIdx = c.readIdx + -1 := by omega
  simp only [round, handle, none', findEnd, missed, if_false]
  refine ⟨_, rfl, ?_, ?_⟩
  · exact (runProgram_removed world _).2
  · rw [(runProgram_removed world _).1]
    simp only [holding.removed]

theorem Holding.data {c : CgiConn} {bytes waiting : List UInt8} (holding : c.Holding bytes)
    (world : World) (some' : waiting ≠ []) (room : bytes.length < bufferSize - 1) :
    (HasEnd (bytes ++ waiting.take (bufferSize - 1 - bytes.length)) ∧
        ∃ next, c.round world (.data waiting) = .ended next ∧ next.removed = 1) ∨
      ∃ next, c.round world (.data waiting) = .running next ∧
        next.Holding (bytes ++ waiting.take (bufferSize - 1 - bytes.length)) := by
  obtain ⟨arrived, taken⟩ : ∃ arrived, waiting.take (bufferSize - 1 - bytes.length) = arrived :=
    ⟨_, rfl⟩
  have more : arrived ≠ [] := by
    rw [← taken]
    simp only [ne_eq, List.take_eq_nil_iff, some', or_false]
    omega
  have length : arrived.length ≤ bufferSize - 1 - bytes.length := by
    rw [← taken]
    exact List.length_take_le _ _
  have content (index : Nat) (bound : index < (bytes ++ arrived).length) :
      copyIn c.buf bytes.length arrived index = (bytes ++ arrived)[index] := by
    by_cases old : index < bytes.length
    · rw [copyIn_below _ _ old, List.getElem_append_left old]
      exact holding.content index old
    · obtain ⟨offset, rfl⟩ := Nat.exists_eq_add_of_le (Nat.not_lt.mp old)
      rw [List.length_append] at bound
      rw [copyIn_inside _ _ (by omega), List.getElem_append_right (Nat.le_add_right _ _)]
      simp only [Nat.add_sub_cancel_left]
  have scan := findEnd_of_content content holding.openLine
  have left : ((bytes.length : Int) + arrived.length - bytes.length).toNat = arrived.length := by
    omega
  have total : ((bytes.length + arrived.length : Nat) : Int) = bytes.length + arrived.length := by
    omega
  rw [total] at scan
  rw [taken]
  simp only [round, holding.offered, taken, more, if_false, handle, holding.readIdx, left,
    Int.toNat_natCast]
  by_cases ended : HasEnd (bytes ++ arrived)
  · left
    refine ⟨ended, _, if_neg (mt scan.mp (not_not_intro ended)), ?_⟩
    rw [(runProgram_removed world _).1]
    simp only [holding.removed]
  · right
    refine ⟨_, if_pos (scan.mpr ended), ?_, ?_, content, ended, holding.looked, holding.executed,
      holding.removed⟩
    · rw [List.length_append]
      exact total.symm
    · rw [List.length_append]
      omega

theorem Holding.closed {c : CgiConn} {bytes waiting : List UInt8} (holding : c.Holding bytes)
    (world : World) (nothing : waiting = [] ∨ bufferSize - 1 ≤ bytes.length) :
    c.round world (.data waiting) = .running c.removefd := by
  have none' : waiting.take (bufferSize - 1 - bytes.length) = [] := by
    rw [List.take_eq_nil_iff]
    rcases nothing with empty | full
    · exact .inr empty
    · exact .inl (by omega)
  simp only [round, holding.offered, none', if_true]

end CgiConn

end StudyRecord.Cgi
