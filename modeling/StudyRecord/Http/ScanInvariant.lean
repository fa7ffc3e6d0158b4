import StudyRecord.Http.Bounds

/-!
What the scan has passed: in every state of a connection, between the calls and in the rounds
of `process_read`, it lies in order and holds no line end, so that the first line end
behind it decides what `parse_line` returns.
-/

namespace StudyRecord.Http.HttpConn

open CString Machine

structure ScanInvariant (c : HttpConn) : Prop where
  lineStart : c.startLine ≤ c.checkedIdx
  checked : c.checkedIdx ≤ c.readIdx
  capacity : c.readIdx ≤ readBufferSize
  passed : ∀ position, c.startLine ≤ position → position < c.checkedIdx →
    c.readBuf position ≠ cr ∧ c.readBuf position ≠ lf
  behind : c.checkedIdx = 0 ∨ c.readBuf (c.checkedIdx - 1) ≠ cr

structure FirstEnd (c : HttpConn) (stop : Nat) : Prop where
  lower : c.checkedIdx ≤ stop
  received : stop < c.readIdx
  lineEnd : c.readBuf stop = cr ∨ c.readBuf stop = lf
  plain : c.PlainTo stop

def EndsInCrLf (c : HttpConn) : Prop :=
  ∃ stop, c.FirstEnd stop ∧ c.readBuf stop = cr ∧ stop + 1 < c.readIdx ∧ c.readBuf (stop + 1) = lf

def EndsOpen (c : HttpConn) : Prop :=
  (∀ stop, ¬c.FirstEnd stop) ∨ ∃ stop, c.FirstEnd stop ∧ c.readBuf stop = cr ∧ stop + 1 = c.readIdx

/-- Whether the loop of `parse_line` ends in its branch for an LF behind a CR that it has
passed. -/
def takesLateLf : Nat → HttpConn → Bool
  | 0, _ => false
  | left + 1, c =>
      let temp := c.readBuf c.checkedIdx
      if temp = cr then
        false
      else if temp = lf then
        decide (c.checkedIdx > 1 ∧ c.readBuf (c.checkedIdx - 1) = cr)
      else
        takesLateLf left { c with checkedIdx := c.checkedIdx + 1 }

structure ParseLineDecided (c : HttpConn) : Prop where
  ok : (parseLine c).2 = .lineOk ↔ c.EndsInCrLf
  isOpen : (parseLine c).2 = .lineOpen ↔ c.EndsOpen
  bad : (parseLine c).2 = .lineBad ↔ ¬c.EndsInCrLf ∧ ¬c.EndsOpen
  neverLate : takesLateLf (c.readIdx - c.checkedIdx) c = false

/-- The states in one round of the loop of `process_read`: before the scan, behind it, and
behind the handling of the line. -/
def stepStates (c : HttpConn) (status : LineStatus) : List HttpConn :=
  [c, (loopGuard c status).1, (loopStep c status).conn]

def loopStates : Nat → HttpConn → LineStatus → List HttpConn
  | 0, _, _ => []
  | fuel + 1, c, status =>
      stepStates c status ++
        match loopStep c status with
        | .stop _ _ => []
        | .next c status => loopStates fuel c status

def states (c : HttpConn) : List Call → List HttpConn
  | [] => [c]
  | call :: rest =>
      c :: (match call with
        | .processRead _ => loopStates (loopFuel c .lineOk) c .lineOk
        | _ => []) ++ states (call.run c) rest

/-! What `parse_line` returns. -/

theorem takesLateLf_false (left : Nat) (c : HttpConn)
    (behind : c.checkedIdx = 0 ∨ c.readBuf (c.checkedIdx - 1) ≠ cr) : takesLateLf left c = false := by
  induction left generalizing c with
  | zero => rfl
  | succ left ih =>
      simp only [takesLateLf]
      split
      · rfl
      rename_i notCr
      split
      · rw [decide_eq_false_iff_not]
        rintro ⟨later, isCr⟩
        rcases behind with start | other
        · omega
        · exact other isCr
      · exact ih { c with checkedIdx := c.checkedIdx + 1 } (Or.inr notCr)

theorem ScanInvariant.noLateLf {c : HttpConn} (invariant : c.ScanInvariant) {stop : Nat}
    (lower : c.checkedIdx ≤ stop) (plain : c.PlainTo stop) :
    ¬(stop > 1 ∧ c.readBuf (stop - 1) = cr) := by
  rintro ⟨later, isCr⟩
  by_cases here : stop = c.checkedIdx
  · rcases invariant.behind with start | other
    · omega
    · exact other (here ▸ isCr)
  · exact (plain (stop - 1) (by omega) (by omega)).1 isCr

theorem ScanInvariant.ok_iff {c : HttpConn} (invariant : c.ScanInvariant) :
    (parseLine c).2 = .lineOk ↔ c.EndsInCrLf := by
  constructor
  · intro ok
    have scanned := parseLine_scanned c invariant.checked
    generalize parseLine c = result at scanned ok
    cases scanned with
    | crLf stop lower plain isCr inside isLf =>
        exact ⟨stop, ⟨lower, by omega, .inl isCr, plain⟩, isCr, inside, isLf⟩
    | lateLf stop lower plain isLf inside afterCr =>
        exact absurd afterCr (invariant.noLateLf lower plain)
    | exhausted => contradiction
    | lastCr => contradiction
    | badCr => contradiction
    | badLf => contradiction
  · rintro ⟨stop, first, isCr, inside, isLf⟩
    have scanned := Scanned.crLf stop first.lower first.plain isCr inside isLf
    rw [scanned.result invariant.checked]

theorem ScanInvariant.open_iff {c : HttpConn} (invariant : c.ScanInvariant) :
    (parseLine c).2 = .lineOpen ↔ c.EndsOpen := by
  constructor
  · intro isOpen
    have scanned := parseLine_scanned c invariant.checked
    generalize parseLine c = result at scanned isOpen
    cases scanned with
    | exhausted plain =>
        refine .inl fun stop first => ?_
        have byte := plain stop first.lower first.received
        exact first.lineEnd.elim byte.1 byte.2
    | lastCr stop lower plain isCr last =>
        exact .inr ⟨stop, ⟨lower, by omega, .inl isCr, plain⟩, isCr, last⟩
    | crLf => contradiction
    | lateLf => contradiction
    | badCr => contradiction
    | badLf => contradiction
  · rintro (none | ⟨stop, first, isCr, last⟩)
    · obtain ⟨result, scanned⟩ := scanned_exists c
      rw [scanned.result invariant.checked]
      cases scanned with
      | exhausted => rfl
      | lastCr => rfl
      | crLf stop lower plain isCr inside =>
          exact absurd ⟨lower, by omega, .inl isCr, plain⟩ (none stop)
      | badCr stop lower plain isCr inside =>
          exact absurd ⟨lower, by omega, .inl isCr, plain⟩ (none stop)
      | lateLf stop lower plain isLf inside =>
          exact absurd ⟨lower, inside, .inr isLf, plain⟩ (none stop)
      | badLf stop lower plain isLf inside =>
          exact absurd ⟨lower, inside, .inr isLf, plain⟩ (none stop)
    · have scanned := Scanned.lastCr stop first.lower first.plain isCr last
      rw [scanned.result invariant.checked]

theorem ScanInvariant.decided {c : HttpConn} (invariant : c.ScanInvariant) :
    c.ParseLineDecided where
  ok := invariant.ok_iff
  isOpen := invariant.open_iff
  bad := by
    rw [← invariant.ok_iff, ← invariant.open_iff]
    cases (parseLine c).2 <;> simp
  neverLate := takesLateLf_false _ c invariant.behind

/-! The invariant is kept. -/

theorem ScanInvariant.skip {c : HttpConn} (invariant : c.ScanInvariant) {stop : Nat}
    (lower : c.checkedIdx ≤ stop) (upper : stop ≤ c.readIdx) (plain : c.PlainTo stop) :
    { c with checkedIdx := stop }.ScanInvariant where
  lineStart := Nat.le_trans invariant.lineStart lower
  checked := upper
  capacity := invariant.capacity
  passed := fun position start below => by
    by_cases early : position < c.checkedIdx
    · exact invariant.passed position start early
    · exact plain position (by omega) below
  behind := by
    by_cases here : stop = c.checkedIdx
    · rw [here]
      exact invariant.behind
    · exact .inr (plain (stop - 1) (by omega) (by omega)).1

theorem ScanInvariant.parseLine {c : HttpConn} (invariant : c.ScanInvariant) :
    (HttpConn.parseLine c).1.ScanInvariant := by
  have scanned := parseLine_scanned c invariant.checked
  generalize HttpConn.parseLine c = result at scanned ⊢
  cases scanned with
  | exhausted plain => exact invariant.skip invariant.checked (Nat.le_refl _) plain
  | lastCr stop lower plain isCr last => exact invariant.skip lower (by omega) plain
  | badCr stop lower plain isCr inside notLf => exact invariant.skip lower (by omega) plain
  | badLf stop lower plain isLf inside notAfterCr => exact invariant.skip lower (by omega) plain
  | lateLf stop lower plain isLf inside afterCr =>
      exact absurd afterCr (invariant.noLateLf lower plain)
  | crLf stop lower plain isCr inside isLf =>
      have start := invariant.lineStart
      refine ⟨?_, ?_, invariant.capacity, fun position start below => ?_, .inr ?_⟩
      · simp only
        omega
      · simp only
        omega
      · -- the two bytes of the line end are zero, and what is before them was passed
        simp only at start below ⊢
        by_cases last : position = stop + 1
        · rw [last, store_self]
          decide
        rw [store_other _ _ last]
        by_cases here : position = stop
        · rw [here, store_self]
          decide
        rw [store_other _ _ here]
        exact (invariant.skip lower (by omega) plain).passed position start
          (show position < stop by omega)
      · show store _ (stop + 1) 0 (stop + 1) ≠ cr
        rw [store_self]
        decide

theorem ScanInvariant.loopGuard {c : HttpConn} (invariant : c.ScanInvariant)
    (status : LineStatus) : (HttpConn.loopGuard c status).1.ScanInvariant := by
  simp only [HttpConn.loopGuard]
  split
  · exact invariant
  · exact invariant.parseLine

theorem loopBody_behind {c : HttpConn} (ready : c.LineReady)
    (behind : c.checkedIdx = 0 ∨ c.readBuf (c.checkedIdx - 1) ≠ cr)
    (ended : c.checkState ≠ .content → c.readBuf (c.checkedIdx - 1) = 0) :
    c.checkedIdx = 0 ∨ (loopBody c).conn.readBuf (c.checkedIdx - 1) ≠ cr := by
  by_cases inBody : c.checkState = .content
  · refine behind.imp_right fun other => ?_
    rw [loopBody_content c inBody, contentStep_conn, parseContent]
    split
    · intro isCr
      rcases storeInt_nul c.readBuf (contentIndex { c with startLine := c.checkedIdx } c.startLine)
        (c.checkedIdx - 1) with same | zero
      · exact other (same.symm.trans isCr)
      · exact absurd (zero.symm.trans isCr) (by decide)
    · exact other
  · have zero := loopBody_zeros inBody ready _ (ended inBody)
    rw [zero]
    exact .inr (by decide)

theorem ScanInvariant.loopStep {c : HttpConn} (invariant : c.ScanInvariant) (bounded : c.Bounded)
    (status : LineStatus) : (HttpConn.loopStep c status).conn.ScanInvariant := by
  have guarded := invariant.loopGuard status
  have ready := loopGuard_ready c status bounded.ordered
  have ended (ok : (HttpConn.loopGuard c status).2 = .lineOk)
      (header : (HttpConn.loopGuard c status).1.checkState ≠ .content) :
      (HttpConn.loopGuard c status).1.readBuf ((HttpConn.loopGuard c status).1.checkedIdx - 1) = 0 := by
    simp only [HttpConn.loopGuard] at ok header ⊢
    split
    · rename_i inBody
      simp only [inBody, and_self, if_true] at header
      exact absurd rfl header
    · rename_i lines
      simp only [lines, if_false] at ok
      exact ((parseLine_scanned c bounded.ordered.checked).complete ok).2
  simp only [HttpConn.loopStep]
  split
  · rename_i next same
    rw [same] at guarded ready ended
    obtain ⟨_, readIdx, checkedIdx, startLine⟩ := loopBody_frame next (ready rfl)
    have behind := loopBody_behind (ready rfl) guarded.behind (ended rfl)
    refine ⟨by rw [startLine, checkedIdx], ?_, ?_, fun position start below => ?_, ?_⟩
    · rw [checkedIdx, readIdx]
      exact guarded.checked
    · rw [readIdx]
      exact guarded.capacity
    · omega
    · rw [checkedIdx]
      exact behind
  · rename_i next _ _ same
    rw [same] at guarded
    exact guarded

theorem loopStates_invariant (fuel : Nat) (c : HttpConn) (status : LineStatus)
    (invariant : c.ScanInvariant) (bounded : c.Bounded) :
    (∀ state ∈ loopStates fuel c status, state.ScanInvariant) ∧
      (readLoop fuel c status).1.ScanInvariant := by
  induction fuel generalizing c status with
  | zero => exact ⟨List.forall_mem_nil _, invariant⟩
  | succ fuel ih =>
      have step := invariant.loopStep bounded status
      have stepBounded := loopStep_bounded c status bounded
      have here : ∀ state ∈ stepStates c status, state.ScanInvariant := by
        simp only [stepStates, List.forall_mem_cons]
        exact ⟨invariant, invariant.loopGuard status, step, List.forall_mem_nil _⟩
      simp only [loopStates, readLoop, List.forall_mem_append]
      cases continued : HttpConn.loopStep c status with
      | stop final ending =>
          rw [continued] at step
          exact ⟨⟨here, List.forall_mem_nil _⟩, step⟩
      | next next status' =>
          rw [continued] at step stepBounded
          obtain ⟨later, final⟩ := ih next status' step stepBounded
          exact ⟨⟨here, later⟩, final⟩

theorem ScanInvariant.kept {c after : HttpConn} (invariant : c.ScanInvariant)
    (buffer : after.readBuf = c.readBuf) (readIdx : after.readIdx = c.readIdx)
    (checkedIdx : after.checkedIdx = c.checkedIdx) (startLine : after.startLine = c.startLine) :
    after.ScanInvariant := by
  obtain ⟨lineStart, checked, capacity, passed, behind⟩ := invariant
  refine ⟨by omega, by omega, by omega, ?_, ?_⟩
  · rw [buffer, checkedIdx, startLine]
    exact passed
  · rw [buffer, checkedIdx]
    exact behind

theorem init_invariant (c : HttpConn) : c.init.ScanInvariant :=
  ⟨Nat.le_refl _, Nat.le_refl _, Nat.zero_le _, fun _ _ below => absurd below (Nat.not_lt_zero _),
    .inl rfl⟩

theorem ScanInvariant.receive {c : HttpConn} (invariant : c.ScanInvariant) (arrived : List UInt8)
    (room : c.readIdx + arrived.length ≤ readBufferSize) :
    (c.receive arrived).ScanInvariant := by
  have checked := invariant.checked
  refine ⟨invariant.lineStart, Nat.le_trans checked (Nat.le_add_right _ _), room, ?_, ?_⟩
  · intro position start below
    rw [receive_checkedIdx] at below
    rw [receive_below c arrived (by omega)]
    exact invariant.passed position start below
  · rcases invariant.behind with start | other
    · exact .inl start
    · by_cases start : c.checkedIdx = 0
      · exact .inl start
      · rw [receive_checkedIdx, receive_below c arrived (by omega)]
        exact .inr other

theorem ScanInvariant.call {c : HttpConn} (invariant : c.ScanInvariant) (bounded : c.Bounded)
    (call : Call) : (call.run c).ScanInvariant := by
  cases call with
  | init => exact init_invariant c
  | read results =>
      obtain ⟨arrived, same, room⟩ := read_receive c results
      rw [Call.run, same]
      exact invariant.receive arrived (room invariant.capacity)
  | processRead fs =>
      have scanned := (loopStates_invariant (loopFuel c .lineOk) c .lineOk invariant bounded).2
      rw [Call.run, processRead_request]
      exact scanned.kept rfl rfl rfl rfl
  | processWrite ret =>
      rw [Call.run, processWrite_frame c ret]
      exact invariant.kept rfl rfl rfl rfl
  | write results =>
      obtain ⟨sent, frame, ends⟩ := write_frame c results
      rw [Call.run]
      rcases ends with stays | fresh
      · rw [stays, frame]
        exact invariant.kept rfl rfl rfl rfl
      · rw [fresh]
        exact init_invariant sent

theorem states_invariant (calls : List Call) (c : HttpConn) (invariant : c.ScanInvariant)
    (bounded : c.Bounded) : ∀ state ∈ states c calls, state.ScanInvariant := by
  induction calls generalizing c with
  | nil =>
      simp only [states, List.forall_mem_singleton]
      exact invariant
  | cons call rest ih =>
      have later := ih (call.run c) (invariant.call bounded call) (call.run_bounded c bounded)
      simp only [states, List.forall_mem_append, List.forall_mem_cons]
      refine ⟨⟨invariant, ?_⟩, later⟩
      cases call with
      | processRead fs =>
          exact (loopStates_invariant (loopFuel c .lineOk) c .lineOk invariant bounded).1
      | init => exact List.forall_mem_nil _
      | read results => exact List.forall_mem_nil _
      | processWrite ret => exact List.forall_mem_nil _
      | write results => exact List.forall_mem_nil _

/-- In every state that a connection goes through, whatever arrives and however it is called,
the scan has passed no line end, and the first line end behind it decides what `parse_line`
returns. Here a terminator of the body outside of the buffer changes nothing in it. -/
theorem scanner_invariant (c : HttpConn) (calls : List Call) :
    ∀ state ∈ states c.init calls, state.ScanInvariant ∧ state.ParseLineDecided := by
  intro state member
  have invariant := states_invariant calls c.init (init_invariant c) (init_bounded c) state member
  exact ⟨invariant, invariant.decided⟩

/-- A CR is the last byte that has come in. -/
theorem scanner_invariant_last_cr :
    (zeroed.init.read [.data (bytes "GET\r")]).1.ScanInvariant ∧
      (zeroed.init.read [.data (bytes "GET\r")]).1.ParseLineDecided :=
  scanner_invariant zeroed [.read [.data (bytes "GET\r")]]
    (zeroed.init.read [.data (bytes "GET\r")]).1 (.tail _ (.head _))

end StudyRecord.Http.HttpConn
