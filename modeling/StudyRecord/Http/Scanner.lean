import StudyRecord.Http.Core

/-!
What `parse_line` does: it skips plain bytes, and the bytes it stops at decide
its result. Bytes that arrive later leave a finished line as it was and let an
unfinished one be scanned on from where the scan stopped.
-/

namespace StudyRecord.Http.HttpConn

open CString Machine

def PlainTo (c : HttpConn) (stop : Nat) : Prop :=
  ∀ position, c.checkedIdx ≤ position → position < stop →
    c.readBuf position ≠ cr ∧ c.readBuf position ≠ lf

structure Ordered (c : HttpConn) : Prop where
  lineStart : c.startLine ≤ c.checkedIdx
  checked : c.checkedIdx ≤ c.readIdx

theorem cr_ne_lf : cr ≠ lf := by decide

theorem parseLineLoop_skip (c : HttpConn) (left count : Nat)
    (plain : c.PlainTo (c.checkedIdx + count)) :
    parseLineLoop (left + count) c =
      parseLineLoop left { c with checkedIdx := c.checkedIdx + count } := by
  induction count generalizing c with
  | zero => rfl
  | succ count ih =>
      have here := plain c.checkedIdx (Nat.le_refl _) (by omega)
      have next := ih { c with checkedIdx := c.checkedIdx + 1 } (by
        intro position lower upper
        have upper' : position < c.checkedIdx + 1 + count := upper
        exact plain position (Nat.le_of_succ_le lower) (by omega))
      rw [← Nat.add_assoc, parseLineLoop]
      simp only [here.1, here.2, if_false]
      rw [next]
      simp only [Nat.add_assoc, Nat.add_comm 1 count]

theorem parseLine_skip (c : HttpConn) (stop : Nat) (lower : c.checkedIdx ≤ stop)
    (upper : stop ≤ c.readIdx) (plain : c.PlainTo stop) :
    parseLine c = parseLine { c with checkedIdx := stop } := by
  have whole : c.readIdx - c.checkedIdx = (c.readIdx - stop) + (stop - c.checkedIdx) := by omega
  have target : c.checkedIdx + (stop - c.checkedIdx) = stop := by omega
  rw [parseLine, whole, parseLineLoop_skip c _ _ (by rw [target]; exact plain), target]
  rfl

theorem parseLine_end (c : HttpConn) (done : c.checkedIdx = c.readIdx) :
    parseLine c = (c, .lineOpen) := by
  rw [parseLine, done, Nat.sub_self]
  rfl

theorem parseLine_unfold (c : HttpConn) (more : c.checkedIdx < c.readIdx) :
    parseLine c =
      if c.readBuf c.checkedIdx = cr then
        if c.checkedIdx + 1 = c.readIdx then (c, .lineOpen)
        else if c.readBuf (c.checkedIdx + 1) = lf then
          ({ c with
              readBuf := store (store c.readBuf c.checkedIdx 0) (c.checkedIdx + 1) 0
              checkedIdx := c.checkedIdx + 2 }, .lineOk)
        else (c, .lineBad)
      else if c.readBuf c.checkedIdx = lf then
        if c.checkedIdx > 1 ∧ c.readBuf (c.checkedIdx - 1) = cr then
          ({ c with
              readBuf := store (store c.readBuf (c.checkedIdx - 1) 0) c.checkedIdx 0
              checkedIdx := c.checkedIdx + 1 }, .lineOk)
        else (c, .lineBad)
      else parseLine { c with checkedIdx := c.checkedIdx + 1 } := by
  have left : c.readIdx - c.checkedIdx = (c.readIdx - (c.checkedIdx + 1)) + 1 := by omega
  rw [parseLine, left]
  rfl

inductive Scanned (c : HttpConn) : HttpConn × LineStatus → Prop
  | exhausted (plain : c.PlainTo c.readIdx) :
      Scanned c ({ c with checkedIdx := c.readIdx }, .lineOpen)
  | lastCr (stop : Nat) (lower : c.checkedIdx ≤ stop) (plain : c.PlainTo stop)
      (isCr : c.readBuf stop = cr) (last : stop + 1 = c.readIdx) :
      Scanned c ({ c with checkedIdx := stop }, .lineOpen)
  | crLf (stop : Nat) (lower : c.checkedIdx ≤ stop) (plain : c.PlainTo stop)
      (isCr : c.readBuf stop = cr) (inside : stop + 1 < c.readIdx)
      (isLf : c.readBuf (stop + 1) = lf) :
      Scanned c ({ c with
        readBuf := store (store c.readBuf stop 0) (stop + 1) 0
        checkedIdx := stop + 2 }, .lineOk)
  | badCr (stop : Nat) (lower : c.checkedIdx ≤ stop) (plain : c.PlainTo stop)
      (isCr : c.readBuf stop = cr) (inside : stop + 1 < c.readIdx)
      (notLf : c.readBuf (stop + 1) ≠ lf) :
      Scanned c ({ c with checkedIdx := stop }, .lineBad)
  | lateLf (stop : Nat) (lower : c.checkedIdx ≤ stop) (plain : c.PlainTo stop)
      (isLf : c.readBuf stop = lf) (inside : stop < c.readIdx)
      (afterCr : stop > 1 ∧ c.readBuf (stop - 1) = cr) :
      Scanned c ({ c with
        readBuf := store (store c.readBuf (stop - 1) 0) stop 0
        checkedIdx := stop + 1 }, .lineOk)
  | badLf (stop : Nat) (lower : c.checkedIdx ≤ stop) (plain : c.PlainTo stop)
      (isLf : c.readBuf stop = lf) (inside : stop < c.readIdx)
      (notAfterCr : ¬(stop > 1 ∧ c.readBuf (stop - 1) = cr)) :
      Scanned c ({ c with checkedIdx := stop }, .lineBad)

theorem Scanned.result {c : HttpConn} {result : HttpConn × LineStatus}
    (ordered : c.checkedIdx ≤ c.readIdx) (scanned : Scanned c result) : parseLine c = result := by
  cases scanned with
  | exhausted plain =>
      rw [parseLine_skip c c.readIdx ordered (Nat.le_refl _) plain]
      exact parseLine_end _ rfl
  | lastCr stop lower plain isCr last =>
      rw [parseLine_skip c stop lower (by omega) plain, parseLine_unfold _ (by simp only; omega)]
      simp only [isCr, last, if_true]
  | crLf stop lower plain isCr inside isLf =>
      have notLast : stop + 1 ≠ c.readIdx := by omega
      rw [parseLine_skip c stop lower (by omega) plain, parseLine_unfold _ (by simp only; omega)]
      simp only [isCr, isLf, notLast, if_true, if_false]
  | badCr stop lower plain isCr inside notLf =>
      have notLast : stop + 1 ≠ c.readIdx := by omega
      rw [parseLine_skip c stop lower (by omega) plain, parseLine_unfold _ (by simp only; omega)]
      simp only [isCr, notLf, notLast, if_true, if_false]
  | lateLf stop lower plain isLf inside afterCr =>
      rw [parseLine_skip c stop lower (by omega) plain, parseLine_unfold _ inside]
      simp only [isLf, cr_ne_lf.symm, afterCr, and_self, if_true, if_false]
  | badLf stop lower plain isLf inside notAfterCr =>
      rw [parseLine_skip c stop lower (by omega) plain, parseLine_unfold _ inside]
      simp only [isLf, cr_ne_lf.symm, notAfterCr, if_true, if_false]

theorem scanned_exists (c : HttpConn) :
    ∃ result, Scanned c result := by
  by_cases plain : c.PlainTo c.readIdx
  · exact ⟨_, .exhausted plain⟩
  -- the first line end behind the scan position decides
  have some_end : ∃ position, c.checkedIdx ≤ position ∧ position < c.readIdx ∧
      (c.readBuf position = cr ∨ c.readBuf position = lf) := by
    simp only [PlainTo, not_forall] at plain
    obtain ⟨position, lower, upper, lineEnd⟩ := plain
    refine ⟨position, lower, upper, ?_⟩
    tauto
  classical
  obtain ⟨lower, inside, lineEnd⟩ := Nat.find_spec some_end
  have before : c.PlainTo (Nat.find some_end) := by
    intro position low high
    have earlier := Nat.find_min some_end high
    constructor
    · intro isCr
      exact earlier ⟨low, by omega, Or.inl isCr⟩
    · intro isLf
      exact earlier ⟨low, by omega, Or.inr isLf⟩
  rcases lineEnd with isCr | isLf
  · by_cases last : Nat.find some_end + 1 = c.readIdx
    · exact ⟨_, .lastCr _ lower before isCr last⟩
    by_cases next : c.readBuf (Nat.find some_end + 1) = lf
    · exact ⟨_, .crLf _ lower before isCr (by omega) next⟩
    · exact ⟨_, .badCr _ lower before isCr (by omega) next⟩
  · by_cases afterCr : Nat.find some_end > 1 ∧ c.readBuf (Nat.find some_end - 1) = cr
    · exact ⟨_, .lateLf _ lower before isLf inside afterCr⟩
    · exact ⟨_, .badLf _ lower before isLf inside afterCr⟩

theorem parseLine_scanned (c : HttpConn) (ordered : c.checkedIdx ≤ c.readIdx) :
    Scanned c (parseLine c) := by
  obtain ⟨result, scanned⟩ := scanned_exists c
  rw [scanned.result ordered]
  exact scanned

/-! What every scan keeps. -/

theorem Scanned.frame {c : HttpConn} {result : HttpConn × LineStatus}
    (scanned : Scanned c result) :
    result.1 = { c with readBuf := result.1.readBuf, checkedIdx := result.1.checkedIdx } := by
  cases scanned <;> rfl

theorem Scanned.forward {c : HttpConn} {result : HttpConn × LineStatus}
    (scanned : Scanned c result) (ordered : c.checkedIdx ≤ c.readIdx) :
    c.checkedIdx ≤ result.1.checkedIdx ∧ result.1.checkedIdx ≤ c.readIdx := by
  cases scanned <;> simp only <;> omega

theorem Scanned.unfinished {c : HttpConn} {result : HttpConn × LineStatus}
    (scanned : Scanned c result) (notOk : result.2 ≠ .lineOk) :
    result.1 = { c with checkedIdx := result.1.checkedIdx } ∧ c.PlainTo result.1.checkedIdx := by
  cases scanned with
  | exhausted plain => exact ⟨rfl, plain⟩
  | lastCr _ _ plain => exact ⟨rfl, plain⟩
  | badCr _ _ plain => exact ⟨rfl, plain⟩
  | badLf _ _ plain => exact ⟨rfl, plain⟩
  | crLf => contradiction
  | lateLf => contradiction

theorem Scanned.complete {c : HttpConn} {result : HttpConn × LineStatus}
    (scanned : Scanned c result) (ok : result.2 = .lineOk) :
    c.checkedIdx < result.1.checkedIdx ∧
      result.1.readBuf (result.1.checkedIdx - 1) = 0 := by
  cases scanned with
  | crLf stop lower => exact ⟨by simp only; omega, by simp⟩
  | lateLf stop lower => exact ⟨by simp only; omega, by simp⟩
  | exhausted => contradiction
  | lastCr => contradiction
  | badCr => contradiction
  | badLf => contradiction

theorem parseLine_readIdx (c : HttpConn) (ordered : c.checkedIdx ≤ c.readIdx) :
    (parseLine c).1.readIdx = c.readIdx := by
  rw [(parseLine_scanned c ordered).frame]

theorem parseLine_startLine (c : HttpConn) (ordered : c.checkedIdx ≤ c.readIdx) :
    (parseLine c).1.startLine = c.startLine := by
  rw [(parseLine_scanned c ordered).frame]

theorem Ordered.parseLine {c : HttpConn} (ordered : c.Ordered) :
    (HttpConn.parseLine c).1.Ordered := by
  have forward := (parseLine_scanned c ordered.checked).forward ordered.checked
  have start := ordered.lineStart
  constructor
  · rw [parseLine_startLine c ordered.checked]
    omega
  · rw [parseLine_readIdx c ordered.checked]
    exact forward.2

/-! Bytes that arrive behind the ones already there. -/

@[simp] theorem receive_readIdx (c : HttpConn) (arrived : List UInt8) :
    (c.receive arrived).readIdx = c.readIdx + arrived.length := rfl

@[simp] theorem receive_checkedIdx (c : HttpConn) (arrived : List UInt8) :
    (c.receive arrived).checkedIdx = c.checkedIdx := rfl

@[simp] theorem receive_startLine (c : HttpConn) (arrived : List UInt8) :
    (c.receive arrived).startLine = c.startLine := rfl

@[simp] theorem receive_checkState (c : HttpConn) (arrived : List UInt8) :
    (c.receive arrived).checkState = c.checkState := rfl

theorem receive_below (c : HttpConn) (arrived : List UInt8) {position : Nat}
    (below : position < c.readIdx) :
    (c.receive arrived).readBuf position = c.readBuf position :=
  copyIn_below _ _ below

theorem receive_inside (c : HttpConn) (arrived : List UInt8) (offset : Nat)
    (inside : offset < arrived.length) :
    (c.receive arrived).readBuf (c.readIdx + offset) = arrived[offset] :=
  copyIn_inside c.readBuf arrived inside

theorem receive_nil (c : HttpConn) : c.receive [] = c := by
  simp [receive, copyIn_nil]

theorem receive_receive (c : HttpConn) (first second : List UInt8) :
    (c.receive first).receive second = c.receive (first ++ second) := by
  simp only [receive, copyIn_copyIn, List.length_append, Nat.add_assoc]

theorem PlainTo.receive {c : HttpConn} {stop : Nat} (plain : c.PlainTo stop)
    (upper : stop ≤ c.readIdx) (arrived : List UInt8) : (c.receive arrived).PlainTo stop := by
  intro position lower high
  rw [receive_below c arrived (by omega)]
  exact plain position lower high

theorem Ordered.receive {c : HttpConn} (ordered : c.Ordered) (arrived : List UInt8) :
    (c.receive arrived).Ordered :=
  ⟨ordered.lineStart, Nat.le_trans ordered.checked (Nat.le_add_right _ _)⟩

theorem Scanned.receive {c : HttpConn} {result : HttpConn × LineStatus}
    (scanned : Scanned c result) (ok : result.2 = .lineOk) (arrived : List UInt8) :
    Scanned (c.receive arrived) (result.1.receive arrived, .lineOk) := by
  cases scanned with
  | crLf stop lower plain isCr inside isLf =>
      have received := Scanned.crLf (c := c.receive arrived) stop lower
        (plain.receive (by omega) arrived) (by rw [receive_below c arrived (by omega), isCr])
        (by simp only [receive_readIdx]; omega)
        (by rw [receive_below c arrived inside, isLf])
      simpa only [HttpConn.receive, copyIn_store _ _ _ inside,
        copyIn_store _ _ _ (show stop < c.readIdx by omega)] using received
  | lateLf stop lower plain isLf inside afterCr =>
      have before : stop - 1 < c.readIdx := by omega
      have received := Scanned.lateLf (c := c.receive arrived) stop lower
        (plain.receive (by omega) arrived) (by rw [receive_below c arrived inside, isLf])
        (by simp only [receive_readIdx]; omega)
        (by rw [receive_below c arrived before]; exact afterCr)
      simpa only [HttpConn.receive, copyIn_store _ _ _ inside, copyIn_store _ _ _ before] using received
  | exhausted => contradiction
  | lastCr => contradiction
  | badCr => contradiction
  | badLf => contradiction

theorem parseLine_receive_ok (c : HttpConn) (ordered : c.checkedIdx ≤ c.readIdx)
    (arrived : List UInt8) (ok : (parseLine c).2 = .lineOk) :
    parseLine (c.receive arrived) = ((parseLine c).1.receive arrived, .lineOk) :=
  ((parseLine_scanned c ordered).receive ok arrived).result
    (Nat.le_trans ordered (Nat.le_add_right _ _))

/-- A scan that found no line is resumed, not repeated, when more bytes arrive. -/
theorem parseLine_receive_resumed (c : HttpConn) (ordered : c.checkedIdx ≤ c.readIdx)
    (arrived : List UInt8) (notOk : (parseLine c).2 ≠ .lineOk) :
    parseLine (c.receive arrived) = parseLine ((parseLine c).1.receive arrived) := by
  have forward := (parseLine_scanned c ordered).forward ordered
  obtain ⟨stopped, plain⟩ := (parseLine_scanned c ordered).unfinished notOk
  rw [parseLine_skip (c.receive arrived) (parseLine c).1.checkedIdx forward.1
    (Nat.le_trans forward.2 (Nat.le_add_right _ _)) (plain.receive forward.2 arrived)]
  rw [stopped]
  rfl

end StudyRecord.Http.HttpConn
