import StudyRecord.Http.Lines

/-!
The loop of `process_read`: it ends, and while it reads the header it treats
bytes that arrive later as if they had been there from the start.
-/

namespace StudyRecord.Http.HttpConn

open CString Machine

def LineReady (c : HttpConn) : Prop :=
  c.checkState = .content ∨ ∃ final, c.Terminated c.startLine final ∧ final < c.checkedIdx

theorem LineReady.line {c : HttpConn} (ready : c.LineReady) (header : c.checkState ≠ .content) :
    ∃ final, { c with startLine := c.checkedIdx }.Terminated c.startLine final := by
  obtain ⟨final, line, _⟩ := ready.resolve_left header
  exact ⟨final, line.lower, line.received, line.zero⟩

theorem loopGuard_ready (c : HttpConn) (status : LineStatus) (ordered : c.Ordered)
    (ok : (loopGuard c status).2 = .lineOk) : (loopGuard c status).1.LineReady := by
  simp only [loopGuard] at ok ⊢
  split
  · rename_i inBody
    exact Or.inl inBody.1
  · rename_i lines
    simp only [lines, if_false] at ok
    have complete := (parseLine_scanned c ordered.checked).complete ok
    have forward := (parseLine_scanned c ordered.checked).forward ordered.checked
    have start := ordered.lineStart
    refine Or.inr ⟨(parseLine c).1.checkedIdx - 1, ⟨?_, ?_, complete.2⟩, by omega⟩
    · rw [parseLine_startLine c ordered.checked]
      omega
    · rw [parseLine_readIdx c ordered.checked]
      omega

theorem loopGuard_ordered (c : HttpConn) (status : LineStatus) (ordered : c.Ordered) :
    (loopGuard c status).1.Ordered ∧ (loopGuard c status).1.readIdx = c.readIdx ∧
      c.checkedIdx ≤ (loopGuard c status).1.checkedIdx := by
  simp only [loopGuard]
  split
  · exact ⟨ordered, rfl, Nat.le_refl _⟩
  · exact ⟨ordered.parseLine, parseLine_readIdx c ordered.checked,
      ((parseLine_scanned c ordered.checked).forward ordered.checked).1⟩

/-! One round of the loop. -/

@[simp] theorem lineStep_conn (parsed : Parsed) : (lineStep parsed).conn = parsed.conn := by
  simp only [lineStep]
  split <;> rfl

@[simp] theorem contentStep_conn (parsed : HttpConn × HttpCode) :
    (contentStep parsed).conn = parsed.1 := by
  simp only [contentStep]
  split <;> rfl

theorem parseContent_frame (c : HttpConn) (text : Nat) :
    (parseContent c text).1 = { c with readBuf := (parseContent c text).1.readBuf } := by
  simp only [parseContent]
  split <;> rfl

theorem loopBody_content (c : HttpConn) (inBody : c.checkState = .content) :
    loopBody c = contentStep (parseContent { c with startLine := c.checkedIdx } c.startLine) := by
  simp only [loopBody]
  rw [inBody]

def ReadFrame (before after : HttpConn) : Prop :=
  after = { before with
    readBuf := after.readBuf
    readIdx := after.readIdx
    checkedIdx := after.checkedIdx
    startLine := after.startLine
    checkState := after.checkState
    method := after.method
    url := after.url
    version := after.version
    host := after.host
    contentLength := after.contentLength
    linger := after.linger }

theorem ReadFrame.trans {first second third : HttpConn} (early : ReadFrame first second)
    (late : ReadFrame second third) : ReadFrame first third := by
  cases first
  cases second
  cases third
  simp only [ReadFrame, HttpConn.mk.injEq] at early late ⊢
  simp_all

theorem loopGuard_frame (c : HttpConn) (status : LineStatus) (ordered : c.Ordered) :
    ReadFrame c (loopGuard c status).1 := by
  simp only [loopGuard]
  split
  · rfl
  · have frame := (parseLine_scanned c ordered.checked).frame
    rw [ReadFrame]
    rw [frame]

theorem loopBody_frame (c : HttpConn) (ready : c.LineReady) :
    ReadFrame c (loopBody c).conn ∧ (loopBody c).conn.readIdx = c.readIdx ∧
      (loopBody c).conn.checkedIdx = c.checkedIdx ∧
      (loopBody c).conn.startLine = c.checkedIdx := by
  simp only [loopBody]
  split
  · rename_i state
    obtain ⟨final, line⟩ := ready.line (by rw [state]; decide)
    have frame := (parseRequestLine_effect line).frame
    rw [lineStep_conn]
    rw [LineFrame] at frame
    rw [ReadFrame, frame]
    exact ⟨rfl, rfl, rfl, rfl⟩
  · rename_i state
    obtain ⟨final, line⟩ := ready.line (by rw [state]; decide)
    have frame := (parseHeaders_effect line).frame
    rw [lineStep_conn]
    rw [ReadFrame, frame]
    exact ⟨rfl, rfl, rfl, rfl⟩
  · have frame := parseContent_frame { c with startLine := c.checkedIdx } c.startLine
    rw [contentStep_conn]
    rw [ReadFrame, frame]
    exact ⟨rfl, rfl, rfl, rfl⟩

structure StepEffect (c : HttpConn) (step : LoopStep) : Prop where
  frame : ReadFrame c step.conn
  ordered : step.conn.Ordered
  readIdx : step.conn.readIdx = c.readIdx
  forward : c.checkedIdx ≤ step.conn.checkedIdx

theorem loopStep_effect (c : HttpConn) (status : LineStatus) (ordered : c.Ordered) :
    StepEffect c (loopStep c status) := by
  have guardFrame := loopGuard_frame c status ordered
  obtain ⟨guardOrdered, guardRead, guardForward⟩ := loopGuard_ordered c status ordered
  have ready := loopGuard_ready c status ordered
  simp only [loopStep]
  split
  · rename_i next same
    rw [same] at guardFrame guardOrdered guardRead guardForward ready
    obtain ⟨frame, readIdx, checkedIdx, startLine⟩ := loopBody_frame next (ready rfl)
    refine ⟨guardFrame.trans frame, ⟨?_, ?_⟩, by rw [readIdx, guardRead], by rw [checkedIdx]; exact guardForward⟩
    · rw [startLine, checkedIdx]
    · rw [checkedIdx, readIdx]
      exact guardOrdered.checked
  · rename_i next status' notOk same
    rw [same] at guardFrame guardOrdered guardRead guardForward
    exact ⟨guardFrame, guardOrdered, guardRead, guardForward⟩

theorem contentStep_status {parsed : HttpConn × HttpCode} {next : HttpConn} {status : LineStatus}
    (continued : contentStep parsed = .next next status) : status = .lineOpen := by
  simp only [contentStep] at continued
  split at continued
  · simp at continued
  · simp only [LoopStep.next.injEq] at continued
    exact continued.2.symm

theorem loopStep_decreases (c next : HttpConn) (status status' : LineStatus) (ordered : c.Ordered)
    (continued : loopStep c status = .next next status') :
    loopFuel next status' < loopFuel c status := by
  have effect := loopStep_effect c status ordered
  rw [continued] at effect
  have readIdx : next.readIdx = c.readIdx := effect.readIdx
  have inside : next.checkedIdx ≤ next.readIdx := effect.ordered.checked
  by_cases inBody : c.checkState = .content ∧ status = .lineOk
  · -- the body is looked at without a scan, and the status drops to open
    have same : loopStep c status = loopBody c := by
      simp only [loopStep, loopGuard, inBody, and_self, if_true]
    rw [same] at continued
    simp only [loopBody, inBody.1] at continued
    have open' := contentStep_status continued
    have forward : c.checkedIdx ≤ next.checkedIdx := effect.forward
    simp only [loopFuel, open', inBody.2]
    simp
    omega
  · -- a line was taken out of the buffer
    have guard : loopGuard c status = parseLine c := by
      simp only [loopGuard, inBody, if_false]
    have ready := loopGuard_ready c status ordered
    have complete := (parseLine_scanned c ordered.checked).complete
    rw [loopStep] at continued
    rw [guard] at continued ready
    split at continued
    · rename_i parsed same
      rw [same] at complete ready
      have position := (loopBody_frame parsed (ready rfl)).2.2.1
      rw [continued] at position
      have further : c.checkedIdx < parsed.checkedIdx := (complete rfl).1
      have checkedIdx : next.checkedIdx = parsed.checkedIdx := position
      simp only [loopFuel]
      split <;> split <;> omega
    · simp at continued

/-! The fuel of the loop is never used up. -/

theorem readLoop_enough (fuel : Nat) (c : HttpConn) (status : LineStatus) (ordered : c.Ordered)
    (enough : loopFuel c status ≤ fuel) : readLoop fuel c status = runLoop c status := by
  induction fuel using Nat.strongRecOn generalizing c status with
  | ind fuel ih =>
      obtain ⟨less, rfl⟩ : ∃ less, fuel = less + 1 := ⟨fuel - 1, by simp only [loopFuel] at enough; omega⟩
      obtain ⟨left, size⟩ : ∃ left, loopFuel c status = left + 1 := ⟨_, rfl⟩
      rw [runLoop, size]
      simp only [readLoop]
      split
      · rfl
      · rename_i next status' continued
        have decreases := loopStep_decreases c next status status' ordered continued
        have effect := loopStep_effect c status ordered
        rw [continued] at effect
        rw [ih less (by omega) next status' effect.ordered (by omega),
          ih left (by omega) next status' effect.ordered (by omega)]

theorem runLoop_eq (c : HttpConn) (status : LineStatus) (ordered : c.Ordered) :
    runLoop c status =
      match loopStep c status with
      | .stop c ending => (c, ending)
      | .next c status => runLoop c status := by
  obtain ⟨left, size⟩ : ∃ left, loopFuel c status = left + 1 := ⟨_, rfl⟩
  rw [runLoop, size, readLoop]
  cases continued : loopStep c status with
  | stop => rfl
  | next next status' =>
      have decreases := loopStep_decreases c next status status' ordered continued
      have effect := loopStep_effect c status ordered
      rw [continued] at effect
      exact readLoop_enough left next status' effect.ordered (by omega)

@[elab_as_elim] theorem loop_induction {motive : HttpConn → LineStatus → Prop}
    (round : ∀ c status, c.Ordered →
      (∀ next status', loopStep c status = .next next status' → motive next status') →
        motive c status)
    (c : HttpConn) (status : LineStatus) (ordered : c.Ordered) : motive c status := by
  generalize size : loopFuel c status = fuel
  induction fuel using Nat.strongRecOn generalizing c status with
  | ind fuel ih =>
      apply round c status ordered
      intro next status' continued
      have decreases := loopStep_decreases c next status status' ordered continued
      have effect := loopStep_effect c status ordered
      rw [continued] at effect
      exact ih _ (by omega) next status' effect.ordered rfl

theorem runLoop_effect (c : HttpConn) (status : LineStatus) (ordered : c.Ordered) :
    StepEffect c (.next (runLoop c status).1 status) := by
  refine loop_induction ?_ c status ordered
  intro c status ordered ih
  have effect := loopStep_effect c status ordered
  rw [runLoop_eq c status ordered]
  split
  · rename_i stopped
    rw [stopped] at effect
    exact ⟨effect.frame, effect.ordered, effect.readIdx, effect.forward⟩
  · rename_i next status' continued
    have later := ih next status' continued
    rw [continued] at effect
    exact ⟨effect.frame.trans later.frame, later.ordered, later.readIdx.trans effect.readIdx,
      Nat.le_trans effect.forward later.forward⟩

/-! The header phase: the rounds before the loop first stands in the body. -/

inductive HeaderEnd
  | entersContent
  | ends (ending : ReadEnd)
  deriving DecidableEq, Repr

/-- The rounds of one call of `process_read` up to the end of the header phase.
Nothing is returned when the call ends with NO_REQUEST inside the header. -/
def headerLoop : Nat → HttpConn → HttpConn × Option HeaderEnd
  | 0, c => (c, none)
  | fuel + 1, c =>
      match loopStep c .lineOk with
      | .stop c ending => (c, if ending = .returns .noRequest then none else some (.ends ending))
      | .next c _ => if c.checkState = .content then (c, some .entersContent) else headerLoop fuel c

def headerPhase (c : HttpConn) : HttpConn × Option HeaderEnd :=
  headerLoop (loopFuel c .lineOk) c

theorem contentStep_ending {parsed : HttpConn × HttpCode} {c : HttpConn} {ending : ReadEnd}
    (stopped : contentStep parsed = .stop c ending) : ending = .callsDoRequest := by
  simp only [contentStep] at stopped
  split at stopped
  · simp only [LoopStep.stop.injEq] at stopped
    exact stopped.2.symm
  · simp at stopped

theorem lineStep_ending {parsed : Parsed} {c : HttpConn} {ending : ReadEnd}
    (stopped : lineStep parsed = .stop c ending) : ending ≠ .returns .noRequest := by
  simp only [lineStep] at stopped
  split at stopped <;> simp only [LoopStep.stop.injEq, reduceCtorEq] at stopped
  all_goals
    rw [← stopped.2]
    decide

theorem loopBody_ending {c stopped : HttpConn} {ending : ReadEnd}
    (stop : loopBody c = .stop stopped ending) : ending ≠ .returns .noRequest := by
  simp only [loopBody] at stop
  split at stop
  · exact lineStep_ending stop
  · exact lineStep_ending stop
  · rw [contentStep_ending stop]
    decide

theorem lineStep_status {parsed : Parsed} {next : HttpConn} {status : LineStatus}
    (continued : lineStep parsed = .next next status) : status = .lineOk := by
  simp only [lineStep] at continued
  split at continued <;> simp only [LoopStep.next.injEq, reduceCtorEq] at continued
  exact continued.2.symm

theorem loopBody_status {c next : HttpConn} {status : LineStatus} (header : c.checkState ≠ .content)
    (continued : loopBody c = .next next status) : status = .lineOk := by
  simp only [loopBody] at continued
  split at continued
  · exact lineStep_status continued
  · exact lineStep_status continued
  · contradiction

theorem loopStep_header (c : HttpConn) (header : c.checkState ≠ .content) :
    loopStep c .lineOk =
      if (parseLine c).2 = .lineOk then loopBody (parseLine c).1
      else .stop (parseLine c).1 (.returns .noRequest) := by
  simp only [loopStep, loopGuard, header, false_and, if_false]
  split
  · rename_i same
    simp only [same, if_true]
  · rename_i status notOk same
    have different : status ≠ .lineOk := fun ok => notOk ok
    simp only [same, different, if_false]

theorem headerLoop_enough (fuel : Nat) (c : HttpConn) (ordered : c.Ordered)
    (header : c.checkState ≠ .content) (enough : loopFuel c .lineOk ≤ fuel) :
    headerLoop fuel c = headerPhase c := by
  induction fuel using Nat.strongRecOn generalizing c with
  | ind fuel ih =>
      obtain ⟨less, rfl⟩ : ∃ less, fuel = less + 1 := ⟨fuel - 1, by simp only [loopFuel] at enough; omega⟩
      obtain ⟨left, size⟩ : ∃ left, loopFuel c .lineOk = left + 1 := ⟨_, rfl⟩
      rw [headerPhase, size, headerLoop, headerLoop]
      cases continued : loopStep c .lineOk with
      | stop => rfl
      | next next status =>
          have decreases := loopStep_decreases c next _ _ ordered continued
          have effect := loopStep_effect c .lineOk ordered
          have ok : status = .lineOk := by
            rw [loopStep_header c header] at continued
            split at continued
            · exact loopBody_status (by
                rw [(parseLine_scanned c ordered.checked).frame]
                exact header) continued
            · simp at continued
          rw [continued] at effect
          rw [ok] at decreases
          by_cases body : next.checkState = .content
          · simp only [body, if_true]
          · simp only [body, if_false]
            rw [ih less (by omega) next effect.ordered body (by omega),
              ih left (by omega) next effect.ordered body (by omega)]

theorem headerPhase_eq (c : HttpConn) (ordered : c.Ordered) (header : c.checkState ≠ .content) :
    headerPhase c =
      if (parseLine c).2 = .lineOk then
        match loopBody (parseLine c).1 with
        | .stop c ending => (c, some (.ends ending))
        | .next c _ => if c.checkState = .content then (c, some .entersContent) else headerPhase c
      else ((parseLine c).1, none) := by
  obtain ⟨left, size⟩ : ∃ left, loopFuel c .lineOk = left + 1 := ⟨_, rfl⟩
  rw [headerPhase, size, headerLoop]
  have decreases (next : HttpConn) := loopStep_decreases c next .lineOk .lineOk ordered
  have effect := loopStep_effect c .lineOk ordered
  rw [loopStep_header c header] at decreases effect ⊢
  by_cases ok : (parseLine c).2 = .lineOk
  · simp only [ok, if_true] at decreases effect ⊢
    cases body : loopBody (parseLine c).1 with
    | stop stopped ending => simp only [loopBody_ending body, if_false]
    | next next status =>
        have header' : (parseLine c).1.checkState ≠ .content := by
          rw [(parseLine_scanned c ordered.checked).frame]
          exact header
        obtain rfl := loopBody_status header' body
        have less := decreases next body
        rw [body] at effect
        simp only
        split
        · rfl
        · rename_i still
          exact headerLoop_enough left next effect.ordered still (by omega)
  · simp only [ok, if_false, if_true]

theorem parseLine_ready (c : HttpConn) (ordered : c.Ordered) (header : c.checkState ≠ .content)
    (ok : (parseLine c).2 = .lineOk) :
    (parseLine c).1.LineReady ∧ (parseLine c).1.checkState ≠ .content := by
  have guard : loopGuard c .lineOk = parseLine c := by
    simp only [loopGuard, header, false_and, if_false]
  have ready := loopGuard_ready c .lineOk ordered
  rw [guard] at ready
  refine ⟨ready ok, ?_⟩
  rw [(parseLine_scanned c ordered.checked).frame]
  exact header

@[elab_as_elim] theorem header_induction {motive : HttpConn → Prop}
    (round : ∀ c, c.Ordered → c.checkState ≠ .content →
      (∀ next, (parseLine c).2 = .lineOk → loopBody (parseLine c).1 = .next next .lineOk →
        next.checkState ≠ .content → motive next) → motive c)
    (c : HttpConn) (ordered : c.Ordered) (header : c.checkState ≠ .content) : motive c := by
  have main (c : HttpConn) (status : LineStatus) (ordered : c.Ordered) :
      status = .lineOk → c.checkState ≠ .content → motive c := by
    refine loop_induction ?_ c status ordered
    intro c status ordered ih isOk header
    subst isOk
    apply round c ordered header
    intro next ok body still
    refine ih next .lineOk ?_ rfl still
    rw [loopStep_header c header, ok]
    exact body
  exact main c .lineOk ordered rfl header

theorem scan_eq (c : HttpConn) (ordered : c.Ordered) (header : c.checkState ≠ .content) :
    scan c =
      match (headerPhase c).2 with
      | none => ((headerPhase c).1, .returns .noRequest)
      | some (.ends ending) => ((headerPhase c).1, ending)
      | some .entersContent => runLoop (headerPhase c).1 .lineOk := by
  refine header_induction ?_ c ordered header
  intro c ordered header ih
  rw [scan, runLoop_eq c .lineOk ordered, headerPhase_eq c ordered header,
    loopStep_header c header]
  by_cases ok : (parseLine c).2 = .lineOk
  · simp only [ok, if_true]
    have header' := (parseLine_ready c ordered header ok).2
    cases body : loopBody (parseLine c).1 with
    | stop => rfl
    | next next status =>
        obtain rfl := loopBody_status header' body
        by_cases inBody : next.checkState = .content
        · simp only [inBody, if_true]
        · simp only [inBody, if_false]
          exact ih next ok body inBody
  · simp only [ok, if_false]

end StudyRecord.Http.HttpConn
