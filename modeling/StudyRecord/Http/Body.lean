import StudyRecord.Http.Segmentation

/-!
Request bodies. `parse_content` compares the bytes received with the scan
position, and the scan position has to stay at the start of the body for that.
It does when the line scanner cannot get past the first byte of the body.
-/

namespace StudyRecord.Http.HttpConn

open CString Machine

structure AtBody (c : HttpConn) (size : Nat) : Prop where
  inBody : c.checkState = .content
  lineStart : c.startLine = c.checkedIdx
  checked : c.checkedIdx = c.readIdx
  amount : c.contentLength = size
  lineEnd : c.readBuf (c.checkedIdx - 1) = 0

/-- The line scanner stays at the first of these bytes: there is none, or it is
an LF, or a CR that no LF follows. -/
def Stalls (part : List UInt8) : Prop :=
  part = [] ∨ part.head? = some lf ∨ (part.head? = some cr ∧ part[1]? ≠ some lf)

instance (part : List UInt8) : Decidable (Stalls part) := inferInstanceAs (Decidable (_ ∨ _))

theorem AtBody.ordered {c : HttpConn} {size : Nat} (start : c.AtBody size) : c.Ordered :=
  ⟨Nat.le_of_eq start.lineStart, Nat.le_of_eq start.checked⟩

@[simp] theorem receive_contentLength (c : HttpConn) (arrived : List UInt8) :
    (c.receive arrived).contentLength = c.contentLength := rfl

/-! One look at the body. -/

theorem parseContent_short (c : HttpConn) (text : Nat)
    (fits : FitsInt (contentSum c)) (short : (c.readIdx : Int) < contentSum c) :
    parseContent c text = (c, .noRequest) := by
  have below : ¬(c.readIdx : Int) ≥ toInt (contentSum c) := by
    rw [toInt_of_fits fits]
    omega
  simp only [parseContent, below, if_false]

theorem parseContent_whole (c : HttpConn) (text : Nat)
    (fits : FitsInt (contentSum c)) (whole : contentSum c ≤ c.readIdx) :
    (parseContent c text).2 = .getRequest := by
  have enough : (c.readIdx : Int) ≥ toInt (contentSum c) := by
    rw [toInt_of_fits fits]
    exact whole
  simp only [parseContent, enough, if_true]

theorem loopBody_short (c : HttpConn) (inBody : c.checkState = .content)
    (fits : FitsInt (contentSum c)) (short : (c.readIdx : Int) < contentSum c) :
    loopBody c = .next { c with startLine := c.checkedIdx } .lineOpen := by
  rw [loopBody_content c inBody,
    parseContent_short { c with startLine := c.checkedIdx } c.startLine fits short]
  rfl

theorem loopBody_whole (c : HttpConn) (inBody : c.checkState = .content)
    (fits : FitsInt (contentSum c)) (whole : contentSum c ≤ c.readIdx) :
    ∃ stopped, loopBody c = .stop stopped .callsDoRequest := by
  have code := parseContent_whole { c with startLine := c.checkedIdx } c.startLine fits whole
  rw [loopBody_content c inBody, contentStep, code]
  exact ⟨_, rfl⟩

theorem loopStep_body (c : HttpConn) (inBody : c.checkState = .content) :
    loopStep c .lineOk = loopBody c := by
  simp only [loopStep, loopGuard, inBody, and_self, if_true]

theorem loopStep_open (c : HttpConn) :
    loopStep c .lineOpen =
      if (parseLine c).2 = .lineOk then loopBody (parseLine c).1
      else .stop (parseLine c).1 (.returns .noRequest) := by
  have guard : loopGuard c .lineOpen = parseLine c := by simp [loopGuard]
  simp only [loopStep, guard]
  split
  · rename_i same
    simp only [same, if_true]
  · rename_i status notOk same
    have different : status ≠ .lineOk := fun ok => notOk ok
    simp only [same, different, if_false]

theorem runLoop_open_forward (c : HttpConn) (ordered : c.Ordered) :
    (parseLine c).1.checkedIdx ≤ (runLoop c .lineOpen).1.checkedIdx := by
  have guard : loopGuard c .lineOpen = parseLine c := by simp [loopGuard]
  have ready := loopGuard_ready c .lineOpen ordered
  have effect := loopStep_effect c .lineOpen ordered
  rw [guard] at ready
  rw [loopStep_open] at effect
  rw [runLoop_eq c _ ordered, loopStep_open]
  by_cases ok : (parseLine c).2 = .lineOk
  · have position := (loopBody_frame _ (ready ok)).2.2.1
    rw [if_pos ok] at effect ⊢
    cases body : loopBody (parseLine c).1 with
    | stop stopped ending =>
        rw [body] at position
        exact Nat.le_of_eq position.symm
    | next next status =>
        rw [body] at position effect
        have later := (runLoop_effect next status effect.ordered).forward
        exact Nat.le_trans (Nat.le_of_eq position.symm) later
  · rw [if_neg ok]

/-! A scan position past the start of the body. -/

structure Waiting (c : HttpConn) (size : Nat) : Prop where
  ordered : c.Ordered
  inBody : c.checkState = .content
  amount : c.contentLength = size
  short : c.readIdx < size + c.checkedIdx

theorem Waiting.body {c : HttpConn} {size : Nat} (waiting : c.Waiting size)
    (small : size + c.readIdx < 2 ^ 31) :
    loopBody c = .next { c with startLine := c.checkedIdx } .lineOpen := by
  have inside := waiting.ordered.checked
  have amount := waiting.amount
  have short := waiting.short
  apply loopBody_short c waiting.inBody
  · simp only [FitsInt, intMin, intMax, contentSum]
    omega
  · simp only [contentSum]
    omega

theorem Waiting.parseLine {c : HttpConn} {size : Nat} (waiting : c.Waiting size) :
    (HttpConn.parseLine c).1.Waiting size := by
  have scanned := parseLine_scanned c waiting.ordered.checked
  have forward := scanned.forward waiting.ordered.checked
  have readIdx := parseLine_readIdx c waiting.ordered.checked
  have short := waiting.short
  refine ⟨waiting.ordered.parseLine, ?_, ?_, by omega⟩
  · rw [scanned.frame]
    exact waiting.inBody
  · rw [scanned.frame]
    exact waiting.amount

structure StillWaiting (c : HttpConn) (size : Nat) (result : HttpConn × ReadEnd) : Prop where
  ending : result.2 = .returns .noRequest
  waiting : result.1.Waiting size
  readIdx : result.1.readIdx = c.readIdx
  forward : c.checkedIdx ≤ result.1.checkedIdx

theorem Waiting.runLoop {c : HttpConn} {size : Nat} (waiting : c.Waiting size)
    (status : LineStatus) (small : size + c.readIdx < 2 ^ 31) :
    StillWaiting c size (HttpConn.runLoop c status) := by
  have ordered := waiting.ordered
  revert waiting small
  refine loop_induction ?_ c status ordered
  intro c status ordered ih waiting small
  rw [runLoop_eq c status ordered]
  by_cases look : status = .lineOk
  · subst look
    rw [loopStep_body c waiting.inBody, waiting.body small] at ih ⊢
    have start : { c with startLine := c.checkedIdx }.Waiting size :=
      ⟨⟨Nat.le_refl _, ordered.checked⟩, waiting.inBody, waiting.amount, waiting.short⟩
    have later := ih _ _ rfl start small
    exact ⟨later.ending, later.waiting, later.readIdx, later.forward⟩
  · have scanning : loopStep c status = loopStep c .lineOpen := by
      simp [loopStep, loopGuard, look]
    have forward := (parseLine_scanned c ordered.checked).forward ordered.checked
    have readIdx := parseLine_readIdx c ordered.checked
    have moved := waiting.parseLine
    rw [scanning, loopStep_open] at ih ⊢
    by_cases ok : (HttpConn.parseLine c).2 = .lineOk
    · rw [if_pos ok, moved.body (by omega)] at ih ⊢
      have start : { (HttpConn.parseLine c).1 with
          startLine := (HttpConn.parseLine c).1.checkedIdx }.Waiting size :=
        ⟨⟨Nat.le_refl _, moved.ordered.checked⟩, moved.inBody, moved.amount, moved.short⟩
      have later := ih _ _ rfl start (by simp only; omega)
      exact ⟨later.ending, later.waiting, later.readIdx.trans readIdx,
        Nat.le_trans forward.1 later.forward⟩
    · rw [if_neg ok]
      exact ⟨rfl, moved, readIdx, forward.1⟩

/-! The first look at bytes of the body. -/

theorem AtBody.head {c : HttpConn} {size : Nat} (start : c.AtBody size) (first : UInt8)
    (rest : List UInt8) : (c.receive (first :: rest)).readBuf c.checkedIdx = first := by
  have inside := receive_inside c (first :: rest) 0 (by simp)
  rw [start.checked]
  exact inside

theorem AtBody.parseLine_cr {c : HttpConn} {size : Nat} (start : c.AtBody size) (rest : List UInt8) :
    (rest.head? ≠ some lf → (HttpConn.parseLine (c.receive (cr :: rest))).1 = c.receive (cr :: rest) ∧
        (HttpConn.parseLine (c.receive (cr :: rest))).2 ≠ .lineOk) ∧
      (rest.head? = some lf →
        c.checkedIdx < (HttpConn.parseLine (c.receive (cr :: rest))).1.checkedIdx) := by
  have checked := start.checked
  have here := start.head cr rest
  rw [parseLine_unfold (c.receive (cr :: rest)) (by simp [checked])]
  simp only [receive_checkedIdx, here, receive_readIdx, List.length_cons]
  cases rest with
  | nil => simp [checked]
  | cons second rest =>
      have next : (c.receive (cr :: second :: rest)).readBuf (c.checkedIdx + 1) = second := by
        have inside := receive_inside c (cr :: second :: rest) 1 (by simp)
        rw [checked]
        exact inside
      have notLast : ¬c.checkedIdx + 1 = c.readIdx + ((second :: rest).length + 1) := by
        simp only [List.length_cons]
        omega
      simp only [if_true, next, notLast, if_false]
      by_cases isLf : second = lf
      · simp [isLf]
      · simp [isLf]

theorem AtBody.parseLine_lf {c : HttpConn} {size : Nat} (start : c.AtBody size) (rest : List UInt8) :
    (HttpConn.parseLine (c.receive (lf :: rest))).1 = c.receive (lf :: rest) ∧
      (HttpConn.parseLine (c.receive (lf :: rest))).2 ≠ .lineOk := by
  have checked := start.checked
  have here := start.head lf rest
  -- the byte in front of the body ends the header, so it is no CR
  have notAfterCr : ¬(c.checkedIdx > 1 ∧
      (c.receive (lf :: rest)).readBuf (c.checkedIdx - 1) = cr) := by
    rintro ⟨later, isCr⟩
    rw [receive_below c _ (by omega), start.lineEnd] at isCr
    exact absurd isCr (by decide)
  rw [parseLine_unfold (c.receive (lf :: rest)) (by simp [checked])]
  simp only [receive_checkedIdx, here, cr_ne_lf.symm, notAfterCr, if_true, if_false]
  simp

theorem AtBody.parseLine_plain {c : HttpConn} {size : Nat} (start : c.AtBody size) {first : UInt8}
    (notCr : first ≠ cr) (notLf : first ≠ lf) (rest : List UInt8) :
    c.checkedIdx < (HttpConn.parseLine (c.receive (first :: rest))).1.checkedIdx := by
  have checked := start.checked
  have here := start.head first rest
  rw [parseLine_unfold (c.receive (first :: rest)) (by simp [checked])]
  simp only [receive_checkedIdx, here, notCr, notLf, if_false]
  have further : { c.receive (first :: rest) with
      checkedIdx := c.checkedIdx + 1 }.checkedIdx ≤ c.readIdx + (first :: rest).length := by
    simp only [List.length_cons]
    omega
  have forward := (parseLine_scanned { c.receive (first :: rest) with
    checkedIdx := c.checkedIdx + 1 } further).forward further
  exact forward.1

theorem AtBody.parseLine {c : HttpConn} {size : Nat} (start : c.AtBody size) (part : List UInt8) :
    (Stalls part → (HttpConn.parseLine (c.receive part)).1 = c.receive part ∧
        (HttpConn.parseLine (c.receive part)).2 ≠ .lineOk) ∧
      (¬Stalls part → c.checkedIdx < (HttpConn.parseLine (c.receive part)).1.checkedIdx) := by
  cases part with
  | nil =>
      refine ⟨fun _ => ?_, fun moves => absurd (Or.inl rfl) moves⟩
      rw [receive_nil, parseLine_end c start.checked]
      simp
  | cons first rest =>
      by_cases isCr : first = cr
      · subst isCr
        have stalls : Stalls (cr :: rest) ↔ rest.head? ≠ some lf := by
          simp [Stalls, cr_ne_lf, List.head?_eq_getElem?]
        rw [stalls, not_not]
        exact start.parseLine_cr rest
      by_cases isLf : first = lf
      · subst isLf
        refine ⟨fun _ => start.parseLine_lf rest, fun moves => ?_⟩
        exact absurd (Or.inr (Or.inl rfl)) moves
      · have moves : ¬Stalls (first :: rest) := by
          simp [Stalls, isCr, isLf]
        exact ⟨fun stalls => absurd stalls moves, fun _ => start.parseLine_plain isCr isLf rest⟩

theorem AtBody.waiting {c : HttpConn} {size : Nat} (start : c.AtBody size) (part : List UInt8)
    (inside : part.length < size) : (c.receive part).Waiting size := by
  have checked := start.checked
  refine ⟨start.ordered.receive part, start.inBody, start.amount, ?_⟩
  simp only [receive_readIdx, receive_checkedIdx]
  omega

theorem AtBody.complete {c : HttpConn} {size : Nat} (start : c.AtBody size) {part : List UInt8}
    (whole : size ≤ part.length) (small : size + c.readIdx < 2 ^ 31) :
    (HttpConn.runLoop (c.receive part) .lineOk).2 = .callsDoRequest := by
  have checked := start.checked
  have amount := start.amount
  have inBody : (c.receive part).checkState = .content := start.inBody
  obtain ⟨stopped, look⟩ := loopBody_whole (c.receive part) inBody
    (by simp only [FitsInt, intMin, intMax, contentSum, receive_checkedIdx, receive_contentLength]; omega)
    (by simp only [contentSum, receive_readIdx, receive_checkedIdx, receive_contentLength]; omega)
  rw [runLoop_eq _ _ (start.ordered.receive part), loopStep_body _ inBody, look]

theorem AtBody.short {c : HttpConn} {size : Nat} (start : c.AtBody size) (part : List UInt8)
    (inside : part.length < size) (small : size + c.readIdx + part.length < 2 ^ 31) :
    (Stalls part → HttpConn.runLoop (c.receive part) .lineOk = (c.receive part, .returns .noRequest)) ∧
      (¬Stalls part → c.checkedIdx < (HttpConn.runLoop (c.receive part) .lineOk).1.checkedIdx) := by
  have waiting := start.waiting part inside
  have ordered := waiting.ordered
  have kept : { c.receive part with startLine := (c.receive part).checkedIdx } = c.receive part := by
    simp only [receive, ← start.lineStart]
  have look : loopStep (c.receive part) .lineOk = .next (c.receive part) .lineOpen := by
    rw [loopStep_body _ waiting.inBody, waiting.body (by simp only [receive_readIdx]; omega), kept]
  have scanning : HttpConn.runLoop (c.receive part) .lineOk =
      HttpConn.runLoop (c.receive part) .lineOpen := by
    rw [runLoop_eq _ _ ordered, look]
  obtain ⟨stays, moves⟩ := start.parseLine part
  rw [scanning]
  constructor
  · intro stalls
    obtain ⟨same, notOk⟩ := stays stalls
    rw [runLoop_eq _ _ ordered, loopStep_open]
    simp only [notOk, if_false, same]
  · intro notStalls
    exact Nat.lt_of_lt_of_le (moves notStalls) (runLoop_open_forward _ ordered)

/-! Rounds. -/

/-- `process_read` calls `do_request` in the first round by which `missing` bytes
have come in, and wants more in every round before. -/
def OnTime (c : HttpConn) (missing : Nat) : List Round → Prop
  | [] => False
  | round :: rest =>
      let result := scan (readRound c round)
      let left := missing - round.bytes.length
      if left = 0 then result.2 = .callsDoRequest
      else result.2 = .returns .noRequest ∧ OnTime result.1 left rest

instance OnTime.decide (c : HttpConn) (missing : Nat) (rounds : List Round) :
    Decidable (OnTime c missing rounds) :=
  match rounds with
  | [] => inferInstanceAs (Decidable False)
  | round :: rest =>
      have := OnTime.decide (scan (readRound c round)).1 (missing - round.bytes.length) rest
      inferInstanceAs (Decidable (if missing - round.bytes.length = 0 then
        (scan (readRound c round)).2 = .callsDoRequest
      else (scan (readRound c round)).2 = .returns .noRequest ∧
        OnTime (scan (readRound c round)).1 (missing - round.bytes.length) rest))

/-- The header block is read to its last byte, and it asks for a body of this size. -/
structure Accepts (c : HttpConn) (header : List UInt8) (size : Nat) : Prop where
  whole : (headerPhase (c.receive header)).1.checkedIdx = c.readIdx + header.length
  amount : (headerPhase (c.receive header)).1.contentLength = size
  ending : (headerPhase (c.receive header)).2 =
    some (if size = 0 then .ends .callsDoRequest else .entersContent)

def BoundariesStall (header : List UInt8) (rounds : List Round) (size : Nat) : Prop :=
  ∀ count part, delivered (rounds.take count) = header ++ part → part.length < size → Stalls part

theorem delivered_cons (round : Round) (rest : List Round) :
    delivered (round :: rest) = round.bytes ++ delivered rest := by
  simp [delivered]

theorem delivered_take_succ (round : Round) (rest : List Round) (count : Nat) :
    delivered ((round :: rest).take (count + 1)) = round.bytes ++ delivered (rest.take count) := by
  rw [List.take_succ_cons, delivered_cons]

/-- What the scanner has before it at each end of a round, from a round on that has
brought the first bytes of the body. -/
def BodyStalls (part : List UInt8) (rest : List Round) (size : Nat) : Prop :=
  ∀ count, (part ++ delivered (rest.take count)).length < size →
    Stalls (part ++ delivered (rest.take count))

theorem bodyStalls_cons (part : List UInt8) (round : Round) (rest : List Round) (size : Nat) :
    BodyStalls part (round :: rest) size ↔
      (part.length < size → Stalls part) ∧ BodyStalls (part ++ round.bytes) rest size := by
  constructor
  · intro all
    refine ⟨by simpa [delivered] using all 0, fun count => ?_⟩
    have boundary := all (count + 1)
    rw [delivered_take_succ, ← List.append_assoc] at boundary
    exact boundary
  · rintro ⟨here, later⟩ count
    cases count with
    | zero => simpa [delivered] using here
    | succ count =>
        rw [delivered_take_succ, ← List.append_assoc]
        exact later count

theorem boundariesStall_inside {round : Round} {left : List UInt8} (more : left ≠ [])
    (rest : List Round) (size : Nat) :
    BoundariesStall (round.bytes ++ left) (round :: rest) size ↔ BoundariesStall left rest size := by
  constructor
  · intro all count part same short
    exact all (count + 1) part (by rw [delivered_take_succ, same, List.append_assoc]) short
  · intro later count part same short
    cases count with
    | zero => simp [delivered, more] at same
    | succ count =>
        rw [delivered_take_succ, List.append_assoc, List.append_cancel_left_eq] at same
        exact later count part same short

theorem boundariesStall_whole {round : Round} {header part : List UInt8} (more : header ≠ [])
    (bytes : round.bytes = header ++ part) (rest : List Round) (size : Nat) :
    BoundariesStall header (round :: rest) size ↔ BodyStalls part rest size := by
  constructor
  · intro all count short
    exact all (count + 1) _ (by rw [delivered_take_succ, bytes, List.append_assoc]) short
  · intro later count other same short
    cases count with
    | zero => simp [delivered, more] at same
    | succ count =>
        rw [delivered_take_succ, bytes, List.append_assoc, List.append_cancel_left_eq] at same
        rw [← same] at short ⊢
        exact later count short

theorem waiting_never_ends (rounds : List Round) (c : HttpConn) (size missing top : Nat)
    (waiting : c.Waiting size) (past : top < c.checkedIdx) (solid : Solid rounds)
    (total : c.readIdx + (delivered rounds).length ≤ top + size)
    (room : top + size < readBufferSize) : ¬OnTime c missing rounds := by
  induction rounds generalizing c missing with
  | nil => simp [OnTime]
  | cons round rest ih =>
      rw [delivered_cons, List.length_append] at total
      have capacity : readBufferSize = 2048 := rfl
      have moved : (c.receive round.bytes).Waiting size :=
        ⟨waiting.ordered.receive _, waiting.inBody, waiting.amount, by
          simp only [receive_readIdx, receive_checkedIdx]
          omega⟩
      have still := moved.runLoop .lineOk (by simp only [receive_readIdx]; omega)
      have readIdx := still.readIdx
      have forward := still.forward
      rw [receive_readIdx] at readIdx
      rw [receive_checkedIdx] at forward
      simp only [OnTime]
      rw [readRound_eq c round (solid round (by simp)) (by omega), scan, still.ending]
      split
      · simp
      · rintro ⟨_, later⟩
        exact ih _ _ still.waiting (by omega) (fun other member => solid other (by simp [member]))
          (by omega) later

theorem body_rounds (rest : List Round) (c : HttpConn) (size : Nat) (start : c.AtBody size)
    (room : c.readIdx + size < readBufferSize) (part : List UInt8) (solid : Solid rest)
    (total : part.length + (delivered rest).length = size) :
    (if size - part.length = 0 then (scan (c.receive part)).2 = .callsDoRequest
      else (scan (c.receive part)).2 = .returns .noRequest ∧
        OnTime (scan (c.receive part)).1 (size - part.length) rest) ↔
      BodyStalls part rest size := by
  have capacity : readBufferSize = 2048 := rfl
  induction rest generalizing part with
  | nil =>
      have whole : part.length = size := by simpa [delivered] using total
      have done := start.complete (Nat.le_of_eq whole.symm) (by omega)
      simp [whole, scan, done, delivered, BodyStalls]
  | cons round rest ih =>
      rw [delivered_cons, List.length_append] at total
      have solidRest : Solid rest := fun other member => solid other (by simp [member])
      by_cases whole : size ≤ part.length
      · have done := start.complete whole (by omega)
        have none : size - part.length = 0 := by omega
        simp only [none, if_true, scan, done, true_iff]
        intro count short
        simp only [List.length_append] at short
        omega
      have some : ¬size - part.length = 0 := by omega
      obtain ⟨stays, moves⟩ := start.short part (by omega) (by omega)
      have still := (start.waiting part (by omega)).runLoop .lineOk
        (by simp only [receive_readIdx]; omega)
      simp only [some, if_false, scan, still.ending, true_and]
      by_cases stalls : Stalls part
      · -- the state is that of the start of the body, with the part received
        have next : OnTime (c.receive part) (size - part.length) (round :: rest) ↔
            if size - (part ++ round.bytes).length = 0 then
              (scan (c.receive (part ++ round.bytes))).2 = .callsDoRequest
            else (scan (c.receive (part ++ round.bytes))).2 = .returns .noRequest ∧
              OnTime (scan (c.receive (part ++ round.bytes))).1
                (size - (part ++ round.bytes).length) rest := by
          simp only [OnTime]
          rw [readRound_eq _ round (solid round (by simp)) (by simp only [receive_readIdx]; omega),
            receive_receive, List.length_append, Nat.sub_add_eq]
        have later := ih (part ++ round.bytes) solidRest (by
          rw [List.length_append]
          omega)
        rw [stays stalls]
        rw [bodyStalls_cons]
        refine (next.trans later).trans ?_
        exact ⟨fun later => ⟨fun _ => stalls, later⟩, fun all => all.2⟩
      · have never := waiting_never_ends (round :: rest) _ size (size - part.length) c.checkedIdx
          still.waiting (moves stalls) solid (by
            have readIdx := still.readIdx
            rw [receive_readIdx] at readIdx
            have checked := start.checked
            rw [delivered_cons, List.length_append]
            omega) (by
            have checked := start.checked
            omega)
        refine ⟨fun onTime => absurd onTime never, fun all => ?_⟩
        have here := ((bodyStalls_cons part round rest size).mp all).1
        exact absurd (here (by omega)) stalls

theorem headerPhase_enters (c : HttpConn) (ordered : c.Ordered) (header : c.checkState ≠ .content)
    (enters : (headerPhase c).2 = some .entersContent) :
    (headerPhase c).1.checkState = .content ∧
      (headerPhase c).1.startLine = (headerPhase c).1.checkedIdx ∧
      (headerPhase c).1.readBuf ((headerPhase c).1.checkedIdx - 1) = 0 := by
  revert enters
  refine header_induction ?_ c ordered header
  intro c ordered header ih enters
  rw [headerPhase_eq c ordered header] at enters ⊢
  by_cases ok : (parseLine c).2 = .lineOk
  · obtain ⟨ready, header'⟩ := parseLine_ready c ordered header ok
    have complete := ((parseLine_scanned c ordered.checked).complete ok).2
    simp only [ok, if_true] at enters ⊢
    cases body : loopBody (parseLine c).1 with
    | stop stopped ending =>
        rw [body] at enters
        simp at enters
    | next next status =>
        obtain rfl := loopBody_status header' body
        obtain ⟨_, _, checkedIdx, startLine⟩ := loopBody_frame _ ready
        have zeros := loopBody_zeros header' ready ((parseLine c).1.checkedIdx - 1) complete
        rw [body] at enters checkedIdx startLine zeros
        simp only at enters ⊢
        by_cases inBody : next.checkState = .content
        · simp only [inBody, if_true, true_and]
          exact ⟨startLine.trans checkedIdx.symm, by
            have same : next.checkedIdx = (parseLine c).1.checkedIdx := checkedIdx
            rw [same]
            exact zeros⟩
        · simp only [inBody, if_false] at enters ⊢
          exact ih next ok body inBody enters
  · simp only [ok, if_false] at enters
    simp at enters

/-! Rounds in the header. -/

theorem Accepts.longer {c : HttpConn} {header : List UInt8} {size : Nat}
    (accepts : c.Accepts header size) (state : c.HeaderState) (part : List UInt8) :
    headerPhase (c.receive (header ++ part)) =
      ((headerPhase (c.receive header)).1.receive part,
        some (if size = 0 then .ends .callsDoRequest else .entersContent)) := by
  have state' := state.receive header
  have resumed := headerPhase_receive (c.receive header) state'.ordered state'.header part
  rw [receive_receive, accepts.ending] at resumed
  exact resumed

theorem Accepts.rest {c : HttpConn} {arrived left : List UInt8} {size : Nat}
    (accepts : c.Accepts (arrived ++ left) size) (state : c.HeaderState) (more : left ≠ []) :
    (headerPhase (c.receive arrived)).2 = none ∧
      (headerPhase (c.receive arrived)).1.Accepts left size := by
  have state' := state.receive arrived
  have effect := headerPhase_effect _ state'
  have resumed := headerPhase_receive (c.receive arrived) state'.ordered state'.header left
  rw [receive_receive] at resumed
  have readIdx : (headerPhase (c.receive arrived)).1.readIdx = c.readIdx + arrived.length :=
    effect.step.readIdx
  have room : 0 < left.length := List.length_pos_of_ne_nil more
  cases ending : (headerPhase (c.receive arrived)).2 with
  | none =>
      rw [ending] at resumed
      simp only at resumed
      refine ⟨rfl, ?_, ?_, ?_⟩
      · rw [← resumed, accepts.whole, readIdx, List.length_append, Nat.add_assoc]
      · rw [← resumed, accepts.amount]
      · rw [← resumed, accepts.ending]
  | some ended =>
      rw [ending] at resumed
      have whole := accepts.whole
      have inside : (headerPhase (c.receive arrived)).1.checkedIdx ≤
          (headerPhase (c.receive arrived)).1.readIdx := effect.step.ordered.checked
      rw [resumed, List.length_append] at whole
      simp only [receive_checkedIdx] at whole
      omega

theorem Accepts.atBody {c : HttpConn} {header : List UInt8} {size : Nat}
    (accepts : c.Accepts header size) (state : c.HeaderState) (some' : size ≠ 0) :
    (headerPhase (c.receive header)).1.AtBody size := by
  have state' := state.receive header
  have enters := accepts.ending
  rw [if_neg some'] at enters
  obtain ⟨inBody, lineStart, lineEnd⟩ :=
    headerPhase_enters _ state'.ordered state'.header enters
  have readIdx : (headerPhase (c.receive header)).1.readIdx = c.readIdx + header.length :=
    (headerPhase_effect _ state').step.readIdx
  exact ⟨inBody, lineStart, accepts.whole.trans readIdx.symm, accepts.amount, lineEnd⟩

theorem Accepts.scan {c : HttpConn} {header : List UInt8} {size : Nat}
    (accepts : c.Accepts header size) (state : c.HeaderState) (part : List UInt8) :
    (size = 0 → (HttpConn.scan (c.receive (header ++ part))).2 = .callsDoRequest) ∧
      (size ≠ 0 → HttpConn.scan (c.receive (header ++ part)) =
        HttpConn.scan ((headerPhase (c.receive header)).1.receive part)) := by
  have state' := state.receive (header ++ part)
  have phases := scan_eq _ state'.ordered state'.header
  rw [accepts.longer state part] at phases
  constructor
  · intro none
    rw [phases, if_pos none]
  · intro some'
    rw [phases, if_neg some']
    rfl

theorem Accepts.onTime_rest {c : HttpConn} {left : List UInt8} {size missing : Nat} {round : Round}
    {rest : List Round} (accepts : c.Accepts (round.bytes ++ left) size) (state : c.HeaderState)
    (more : left ≠ []) (solid : ∀ piece ∈ round, piece ≠ [])
    (room : c.readIdx + round.bytes.length < readBufferSize) (far : round.bytes.length < missing) :
    OnTime c missing (round :: rest) ↔
      OnTime (headerPhase (c.receive round.bytes)).1 (missing - round.bytes.length) rest := by
  have state' := state.receive round.bytes
  have phases := scan_eq _ state'.ordered state'.header
  rw [(accepts.rest state more).1] at phases
  have short : ¬missing - round.bytes.length = 0 := by omega
  simp only [OnTime]
  rw [readRound_eq c round solid room, phases]
  simp only [short, if_false, true_and]

theorem header_split {bytes later header behind : List UInt8}
    (whole : bytes ++ later = header ++ behind) :
    (∃ left, left ≠ [] ∧ header = bytes ++ left ∧ later = left ++ behind) ∨
      ∃ part, bytes = header ++ part := by
  rcases List.append_eq_append_iff.mp whole with ⟨left, same, rest⟩ | ⟨part, same, _⟩
  · by_cases nothing : left = []
    · exact .inr ⟨[], by rw [same, nothing, List.append_nil, List.append_nil]⟩
    · exact .inl ⟨left, nothing, same, rest⟩
  · exact .inr ⟨part, same⟩

theorem header_rounds (rounds : List Round) (c : HttpConn) (header body : List UInt8)
    (state : c.HeaderState) (settled : headerPhase c = (c, none))
    (accepts : c.Accepts header body.length) (more : header ≠ []) (solid : Solid rounds)
    (whole : delivered rounds = header ++ body)
    (room : c.readIdx + header.length + body.length < readBufferSize) :
    OnTime c (header.length + body.length) rounds ↔
      BoundariesStall header rounds body.length := by
  induction rounds generalizing c header with
  | nil =>
      have nothing : header = [] ∧ body = [] := by simpa [delivered] using whole.symm
      exact absurd nothing.1 more
  | cons round rest ih =>
      have solidRest : Solid rest := fun other member => solid other (by simp [member])
      have solidHere := solid round (by simp)
      rw [delivered_cons] at whole
      have sizes := congrArg List.length whole
      simp only [List.length_append] at sizes
      rcases header_split whole with ⟨left, left', rfl, whole'⟩ | ⟨part, bytes⟩
      · simp only [List.length_append] at room sizes ⊢
        have state' := state.receive round.bytes
        have effect := headerPhase_effect _ state'
        obtain ⟨none, accepts'⟩ := accepts.rest state left'
        have readIdx : (headerPhase (c.receive round.bytes)).1.readIdx =
            c.readIdx + round.bytes.length := effect.step.readIdx
        have left_pos : 0 < left.length := List.length_pos_of_ne_nil left'
        have amount : round.bytes.length + left.length + body.length - round.bytes.length =
            left.length + body.length := by omega
        rw [accepts.onTime_rest state left' solidHere (by omega) (by omega), amount,
          ih _ left (effect.headerState none)
            (by rw [headerPhase_settled _ state' none, ← none]) accepts' left' solidRest whole' (by omega),
          boundariesStall_inside left']
      · -- the round completes the header block
        rw [bytes, List.length_append] at sizes
        obtain ⟨empty, full⟩ := accepts.scan state part
        have amount : header.length + body.length - round.bytes.length = body.length - part.length := by
          rw [bytes, List.length_append]
          omega
        simp only [OnTime]
        rw [readRound_eq c round solidHere (by rw [bytes, List.length_append]; omega), amount, bytes]
        by_cases none : body.length = 0
        · have here : body.length - part.length = 0 := by omega
          simp only [here, if_true, empty none, true_iff]
          intro count part _ short
          omega
        rw [full none]
        have start := accepts.atBody state none
        have readIdx : (headerPhase (c.receive header)).1.readIdx = c.readIdx + header.length :=
          (headerPhase_effect _ (state.receive header)).step.readIdx
        rw [boundariesStall_whole more bytes]
        exact body_rounds rest _ body.length start (by omega) part solidRest (by omega)

/-- A request with a body is answered in the round that completes it, and not
before, exactly when the line scanner cannot enter the body in an earlier round. -/
theorem request_onTime_iff (c : HttpConn) (header body : List UInt8) (rounds : List Round)
    (accepts : c.init.Accepts header body.length)
    (short : header.length + body.length < readBufferSize) (solid : Solid rounds)
    (whole : delivered rounds = header ++ body) :
    OnTime c.init (header.length + body.length) rounds ↔
      BoundariesStall header rounds body.length := by
  have fresh : c.init.readIdx = 0 := rfl
  have more : header ≠ [] := by
    rintro rfl
    have ending := accepts.ending
    rw [receive_nil, init_settled] at ending
    simp at ending
  exact header_rounds rounds c.init header body (init_headerState c) (init_settled c) accepts more
    solid whole (by omega)

def twoByteHeader : List UInt8 := bytes "GET / HTTP/1.1\r\nContent-Length: 2\r\n\r\n"

theorem twoByteHeader_accepted : zeroed.init.Accepts twoByteHeader 2 := by
  refine ⟨?_, ?_, ?_⟩ <;> decide

theorem request_onTime_iff_split :
    OnTime zeroed.init (twoByteHeader.length + 2) [[twoByteHeader], [bytes "\n", bytes "b"]] ↔
      BoundariesStall twoByteHeader [[twoByteHeader], [bytes "\n", bytes "b"]] 2 :=
  request_onTime_iff zeroed twoByteHeader (bytes "\nb") _ twoByteHeader_accepted (by decide)
    (by decide) (by decide)

/-- The second byte of the body comes a round later than the first: no round
calls `do_request`. -/
theorem request_split_in_body :
    zeroed.init.Accepts twoByteHeader 2 ∧
      delivered [[twoByteHeader ++ bytes "a"], [bytes "b"]] = twoByteHeader ++ bytes "ab" ∧
      Solid [[twoByteHeader ++ bytes "a"], [bytes "b"]] ∧
      ¬OnTime zeroed.init (twoByteHeader.length + 2) [[twoByteHeader ++ bytes "a"], [bytes "b"]] :=
  ⟨twoByteHeader_accepted, by decide, by decide, by decide⟩

end StudyRecord.Http.HttpConn
