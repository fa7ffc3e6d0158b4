import StudyRecord.Http.Loop

/-!
The header phase does not depend on how the bytes of a request are cut into
chunks: resuming the scan after more bytes have arrived reaches the state of a
single scan over all of them.
-/

namespace StudyRecord.Http.HttpConn

open CString Machine

def LoopStep.receive (arrived : List UInt8) : LoopStep → LoopStep
  | .next c status => .next (c.receive arrived) status
  | .stop c ending => .stop (c.receive arrived) ending

theorem lineStep_receive (parsed : Parsed) (arrived : List UInt8) :
    lineStep (parsed.receive arrived) = (lineStep parsed).receive arrived := by
  simp only [lineStep, Parsed.receive]
  split <;> rfl

theorem loopBody_receive {c : HttpConn} (header : c.checkState ≠ .content) (ready : c.LineReady)
    (arrived : List UInt8) : loopBody (c.receive arrived) = (loopBody c).receive arrived := by
  obtain ⟨final, line⟩ := ready.line header
  have request := parseRequestLine_receive line arrived
  have headers := parseHeaders_receive line arrived
  cases state : c.checkState with
  | requestLine =>
      have step : loopBody (c.receive arrived) =
          lineStep (parseRequestLine ({ c with startLine := c.checkedIdx }.receive arrived) c.startLine) := by
        simp only [loopBody, receive_checkState, state]
        rfl
      rw [step, request, lineStep_receive]
      simp only [loopBody, state]
  | header =>
      have step : loopBody (c.receive arrived) =
          lineStep (parseHeaders ({ c with startLine := c.checkedIdx }.receive arrived) c.startLine) := by
        simp only [loopBody, receive_checkState, state]
        rfl
      rw [step, headers, lineStep_receive]
      simp only [loopBody, state]
  | content => contradiction

theorem headerPhase_receive (c : HttpConn) (ordered : c.Ordered) (header : c.checkState ≠ .content)
    (arrived : List UInt8) :
    headerPhase (c.receive arrived) =
      match (headerPhase c).2 with
      | none => headerPhase ((headerPhase c).1.receive arrived)
      | some ending => ((headerPhase c).1.receive arrived, some ending) := by
  refine header_induction ?_ c ordered header
  intro c ordered header ih
  have scannedOrdered := ordered.parseLine
  rw [headerPhase_eq c ordered header,
    headerPhase_eq (c.receive arrived) (ordered.receive arrived) header]
  by_cases ok : (parseLine c).2 = .lineOk
  · obtain ⟨ready, header'⟩ := parseLine_ready c ordered header ok
    rw [parseLine_receive_ok c ordered.checked arrived ok]
    simp only [ok, if_true, loopBody_receive header' ready arrived]
    cases body : loopBody (parseLine c).1 with
    | stop stopped ending => rfl
    | next next status =>
        obtain rfl := loopBody_status header' body
        simp only [LoopStep.receive, receive_checkState]
        by_cases inBody : next.checkState = .content
        · simp only [inBody, if_true]
        · simp only [inBody, if_false]
          exact ih next ok body inBody
  · -- no line yet: the second scan resumes the first
    have header' : (parseLine c).1.checkState ≠ .content := by
      rw [(parseLine_scanned c ordered.checked).frame]
      exact header
    rw [parseLine_receive_resumed c ordered.checked arrived ok]
    simp only [ok, if_false]
    rw [headerPhase_eq ((parseLine c).1.receive arrived) (scannedOrdered.receive arrived) header']

def PointerClosed (c : HttpConn) (pointer : Option Nat) : Prop :=
  ∀ index, pointer = some index → ∃ final, c.Terminated index final ∧ final < c.checkedIdx

structure HeaderState (c : HttpConn) : Prop where
  ordered : c.Ordered
  header : c.checkState ≠ .content
  url : c.PointerClosed c.url
  host : c.PointerClosed c.host

theorem PointerClosed.later {c next : HttpConn} {pointer : Option Nat}
    (closed : c.PointerClosed pointer) (readIdx : c.readIdx ≤ next.readIdx)
    (forward : c.checkedIdx ≤ next.checkedIdx)
    (zeros : ∀ index, index < c.readIdx → c.readBuf index = 0 → next.readBuf index = 0) :
    next.PointerClosed pointer := by
  intro index same
  obtain ⟨final, line, below⟩ := closed index same
  exact ⟨final, ⟨line.lower, Nat.lt_of_lt_of_le line.received readIdx, zeros final line.received line.zero⟩,
    Nat.lt_of_lt_of_le below forward⟩

theorem parseLine_zeros (c : HttpConn) (ordered : c.checkedIdx ≤ c.readIdx) (index : Nat)
    (zero : c.readBuf index = 0) : (parseLine c).1.readBuf index = 0 := by
  have scanned := parseLine_scanned c ordered
  generalize parseLine c = result at scanned ⊢
  cases scanned with
  | crLf => exact store_zero _ _ _ (store_zero _ _ _ zero)
  | lateLf => exact store_zero _ _ _ (store_zero _ _ _ zero)
  | exhausted => exact zero
  | lastCr => exact zero
  | badCr => exact zero
  | badLf => exact zero

theorem loopBody_zeros {c : HttpConn} (header : c.checkState ≠ .content) (ready : c.LineReady)
    (index : Nat) (zero : c.readBuf index = 0) : (loopBody c).conn.readBuf index = 0 := by
  obtain ⟨final, line, _⟩ := ready.resolve_left header
  have line' : { c with startLine := c.checkedIdx }.Terminated c.startLine final :=
    ⟨line.lower, line.received, line.zero⟩
  cases state : c.checkState with
  | requestLine =>
      have body : (loopBody c).conn =
          (parseRequestLine { c with startLine := c.checkedIdx } c.startLine).conn := by
        simp only [loopBody, state, lineStep_conn]
      rw [body]
      exact (parseRequestLine_effect line').zeros index zero
  | header =>
      have body : (loopBody c).conn =
          (parseHeaders { c with startLine := c.checkedIdx } c.startLine).conn := by
        simp only [loopBody, state, lineStep_conn]
      rw [body, (parseHeaders_effect line').frame]
      exact zero
  | content => contradiction

theorem loopBody_pointers {c : HttpConn} (header : c.checkState ≠ .content) (ready : c.LineReady)
    (url : c.PointerClosed c.url) (host : c.PointerClosed c.host) :
    (loopBody c).conn.PointerClosed (loopBody c).conn.url ∧
      (loopBody c).conn.PointerClosed (loopBody c).conn.host := by
  obtain ⟨_, readIdx, checkedIdx, _⟩ := loopBody_frame c ready
  obtain ⟨final, line, below⟩ := ready.resolve_left header
  have line' : { c with startLine := c.checkedIdx }.Terminated c.startLine final :=
    ⟨line.lower, line.received, line.zero⟩
  have zeros (index : Nat) (_ : index < c.readIdx) := loopBody_zeros header ready index
  -- the end of the line closes every pointer into it
  have inLine (pointer : Nat) (inside : pointer ≤ final) :
      ∃ final, (loopBody c).conn.Terminated pointer final ∧ final < (loopBody c).conn.checkedIdx :=
    ⟨final, ⟨inside, by rw [readIdx]; exact line.received, zeros final line.received line.zero⟩,
      by rw [checkedIdx]; exact below⟩
  cases state : c.checkState with
  | requestLine =>
      have effect := parseRequestLine_effect line'
      have body : (loopBody c).conn =
          (parseRequestLine { c with startLine := c.checkedIdx } c.startLine).conn := by
        simp only [loopBody, state, lineStep_conn]
      have sameHost : (loopBody c).conn.host = c.host := by
        rw [body, effect.frame]
      rw [sameHost]
      refine ⟨?_, host.later (by omega) (by omega) zeros⟩
      intro index same
      rw [body] at same
      exact inLine index (effect.pointer index same).2
  | header =>
      have effect := parseHeaders_effect line'
      have body : (loopBody c).conn =
          (parseHeaders { c with startLine := c.checkedIdx } c.startLine).conn := by
        simp only [loopBody, state, lineStep_conn]
      have sameUrl : (loopBody c).conn.url = c.url := by
        rw [body, effect.frame]
      rw [sameUrl]
      refine ⟨url.later (by omega) (by omega) zeros, ?_⟩
      rcases effect.pointer with kept | ⟨index, moved, lower, upper⟩
      · have sameHost : (loopBody c).conn.host = c.host := by rw [body, kept]
        rw [sameHost]
        exact host.later (by omega) (by omega) zeros
      · intro pointer same
        rw [body, moved, Option.some.injEq] at same
        subst pointer
        exact inLine index upper
  | content => contradiction

structure PhaseEffect (c : HttpConn) (result : HttpConn × Option HeaderEnd) : Prop where
  step : StepEffect c (.next result.1 .lineOk)
  still : result.2 = none → result.1.checkState ≠ .content
  url : result.1.PointerClosed result.1.url
  host : result.1.PointerClosed result.1.host

theorem headerPhase_effect (c : HttpConn) (state : c.HeaderState) :
    PhaseEffect c (headerPhase c) := by
  obtain ⟨ordered, header, url, host⟩ := state
  revert url host
  refine header_induction ?_ c ordered header
  intro c ordered header ih url host
  have effect := loopStep_effect c .lineOk ordered
  have forward := (parseLine_scanned c ordered.checked).forward ordered.checked
  have readIdx := parseLine_readIdx c ordered.checked
  have frame := (parseLine_scanned c ordered.checked).frame
  have zeros (index : Nat) (_ : index < c.readIdx) := parseLine_zeros c ordered.checked index
  have lineUrl : (parseLine c).1.PointerClosed (parseLine c).1.url := by
    have kept : (parseLine c).1.url = c.url := by rw [frame]
    rw [kept]
    exact url.later (by omega) forward.1 zeros
  have lineHost : (parseLine c).1.PointerClosed (parseLine c).1.host := by
    have kept : (parseLine c).1.host = c.host := by rw [frame]
    rw [kept]
    exact host.later (by omega) forward.1 zeros
  rw [headerPhase_eq c ordered header]
  rw [loopStep_header c header] at effect
  by_cases ok : (parseLine c).2 = .lineOk
  · obtain ⟨ready, header'⟩ := parseLine_ready c ordered header ok
    obtain ⟨bodyUrl, bodyHost⟩ := loopBody_pointers header' ready lineUrl lineHost
    simp only [ok, if_true] at effect ⊢
    cases body : loopBody (parseLine c).1 with
    | stop stopped ending =>
        rw [body] at effect bodyUrl bodyHost
        exact ⟨⟨effect.frame, effect.ordered, effect.readIdx, effect.forward⟩, by simp,
          bodyUrl, bodyHost⟩
    | next next status =>
        obtain rfl := loopBody_status header' body
        rw [body] at effect bodyUrl bodyHost
        by_cases inBody : next.checkState = .content
        · simp only [inBody, if_true]
          exact ⟨effect, by simp, bodyUrl, bodyHost⟩
        · simp only [inBody, if_false]
          have later := ih next ok body inBody bodyUrl bodyHost
          exact ⟨⟨effect.frame.trans later.step.frame, later.step.ordered,
            later.step.readIdx.trans effect.readIdx,
            Nat.le_trans effect.forward later.step.forward⟩, later.still, later.url, later.host⟩
  · simp only [ok, if_false] at effect ⊢
    refine ⟨⟨effect.frame, effect.ordered, effect.readIdx, effect.forward⟩, fun _ => ?_,
      lineUrl, lineHost⟩
    rw [frame]
    exact header

theorem PhaseEffect.headerState {c : HttpConn} {result : HttpConn × Option HeaderEnd}
    (effect : PhaseEffect c result) (open' : result.2 = none) : result.1.HeaderState :=
  ⟨effect.step.ordered, effect.still open', effect.url, effect.host⟩

theorem headerPhase_settled (c : HttpConn) (state : c.HeaderState)
    (open' : (headerPhase c).2 = none) : headerPhase (headerPhase c).1 = headerPhase c := by
  have resumed := headerPhase_receive c state.ordered state.header []
  simp only [receive_nil, open'] at resumed
  exact resumed.symm

/-! Delivery in rounds. One round is a call of `read`, which takes some pieces
from the socket until EAGAIN, and the call of `process_read` behind it. -/

abbrev Round := List (List UInt8)

def Round.bytes (round : Round) : List UInt8 := List.flatten round

def delivered (rounds : List Round) : List UInt8 := (rounds.map Round.bytes).flatten

/-- `recv` never hands over an empty piece: that is how it reports the end of the stream. -/
def Solid (rounds : List Round) : Prop := ∀ round ∈ rounds, ∀ piece ∈ round, piece ≠ []

instance (rounds : List Round) : Decidable (Solid rounds) :=
  inferInstanceAs (Decidable (∀ round ∈ rounds, ∀ piece ∈ round, piece ≠ []))

def readRound (c : HttpConn) (round : Round) : HttpConn := (read c (round.map Recv.data)).1

/-- The header phase over rounds, up to the round in which it ends. -/
def deliverHeader (c : HttpConn) : List Round → HttpConn × Option HeaderEnd
  | [] => (c, none)
  | round :: rest =>
      let result := headerPhase (readRound c round)
      match result.2 with
      | none => deliverHeader result.1 rest
      | some ending => (result.1, some ending)

theorem recvLoop_pieces (c : HttpConn) (round : Round) (solid : ∀ piece ∈ round, piece ≠ [])
    (room : c.readIdx + round.bytes.length ≤ readBufferSize) :
    recvLoop (round.map Recv.data) c = (c.receive round.bytes, true) := by
  induction round generalizing c with
  | nil => simp [recvLoop, Round.bytes, receive_nil]
  | cons piece rest ih =>
      have size : (Round.bytes (piece :: rest)).length = piece.length + (Round.bytes rest).length := by
        simp [Round.bytes]
      have whole : piece.take (readBufferSize - c.readIdx) = piece :=
        List.take_of_length_le (by omega)
      have nonempty : piece ≠ [] := solid piece (by simp)
      simp only [List.map_cons, recvLoop, whole, nonempty, if_false]
      rw [ih (c.receive piece) (fun other member => solid other (by simp [member]))
        (by simp only [receive_readIdx]; omega), receive_receive]
      rfl

theorem readRound_eq (c : HttpConn) (round : Round) (solid : ∀ piece ∈ round, piece ≠ [])
    (room : c.readIdx + round.bytes.length < readBufferSize) :
    readRound c round = c.receive round.bytes := by
  have space : ¬c.readIdx ≥ readBufferSize := by omega
  simp only [readRound, read, space, if_false]
  rw [recvLoop_pieces c round solid (by omega)]

theorem HeaderState.receive {c : HttpConn} (state : c.HeaderState) (arrived : List UInt8) :
    (c.receive arrived).HeaderState := by
  have zeros (index : Nat) (below : index < c.readIdx) (zero : c.readBuf index = 0) :
      (c.receive arrived).readBuf index = 0 := by
    rw [receive_below c arrived below, zero]
  exact ⟨state.ordered.receive arrived, state.header,
    state.url.later (Nat.le_add_right _ _) (Nat.le_refl _) zeros,
    state.host.later (Nat.le_add_right _ _) (Nat.le_refl _) zeros⟩

theorem init_headerState (c : HttpConn) : c.init.HeaderState := by
  refine ⟨⟨Nat.le_refl _, Nat.le_refl _⟩, by simp [init], ?_, ?_⟩
  · intro index same
    simp [init] at same
  · intro index same
    simp [init] at same

theorem init_settled (c : HttpConn) : headerPhase c.init = (c.init, none) := by
  have state := init_headerState c
  rw [headerPhase_eq c.init state.ordered state.header, parseLine_end c.init rfl]
  simp

theorem deliverHeader_receive (rounds : List Round) (c : HttpConn) (state : c.HeaderState)
    (settled : headerPhase c = (c, none)) (solid : Solid rounds)
    (room : c.readIdx + (delivered rounds).length < readBufferSize) :
    ∃ later, ((deliverHeader c rounds).2 = none → later = []) ∧
      headerPhase (c.receive (delivered rounds)) =
        ((deliverHeader c rounds).1.receive later, (deliverHeader c rounds).2) ∧
      (deliverHeader c rounds).1.PointerClosed (deliverHeader c rounds).1.url ∧
      (deliverHeader c rounds).1.PointerClosed (deliverHeader c rounds).1.host := by
  induction rounds generalizing c with
  | nil =>
      refine ⟨[], fun _ => rfl, ?_, state.url, state.host⟩
      simp only [delivered, List.map_nil, List.flatten_nil, receive_nil, deliverHeader]
      exact settled
  | cons round rest ih =>
      have all : delivered (round :: rest) = round.bytes ++ delivered rest := by simp [delivered]
      rw [all, List.length_append] at room
      have solidRest : Solid rest := fun other member => solid other (by simp [member])
      have state' := state.receive round.bytes
      have effect := headerPhase_effect _ state'
      have resumed := headerPhase_receive (c.receive round.bytes) state'.ordered state'.header
        (delivered rest)
      rw [receive_receive, ← all] at resumed
      simp only [deliverHeader]
      rw [readRound_eq c round (solid round (by simp)) (by omega), resumed]
      cases result : (headerPhase (c.receive round.bytes)).2 with
      | some ending => exact ⟨delivered rest, by simp, rfl, effect.url, effect.host⟩
      | none =>
          have settled' := headerPhase_settled _ state' result
          have readIdx : (headerPhase (c.receive round.bytes)).1.readIdx =
              c.readIdx + round.bytes.length := effect.step.readIdx
          exact ih _ (effect.headerState result) (by rw [settled', ← result]) solidRest (by omega)

theorem PointerClosed.string {c : HttpConn} {pointer : Option Nat} (closed : c.PointerClosed pointer)
    (arrived : List UInt8) : pointer.map (c.receive arrived).str = pointer.map c.str := by
  cases pointer with
  | none => rfl
  | some index =>
      obtain ⟨final, line, _⟩ := closed index rfl
      simp only [Option.map_some, str_receive line]

/-- The header phase over two segmentations of the same bytes: it ends in both or
in neither, in the same way and at the same offset, with the same request read. -/
theorem headerPhase_segmentation (c : HttpConn) (first second : List Round)
    (solidFirst : Solid first) (solidSecond : Solid second)
    (same : delivered first = delivered second)
    (short : (delivered first).length < readBufferSize) :
    let left := deliverHeader c.init first
    let right := deliverHeader c.init second
    left.2 = right.2 ∧ left.1.checkedIdx = right.1.checkedIdx ∧
      left.1.checkState = right.1.checkState ∧ left.1.startLine = right.1.startLine ∧
      left.1.url.map left.1.str = right.1.url.map right.1.str ∧
      left.1.host.map left.1.str = right.1.host.map right.1.str ∧
      left.1.linger = right.1.linger ∧ left.1.contentLength = right.1.contentLength := by
  have start := init_headerState c
  have fresh : c.init.readIdx = 0 := rfl
  obtain ⟨laterLeft, _, wholeLeft, urlLeft, hostLeft⟩ :=
    deliverHeader_receive first c.init start (init_settled c) solidFirst (by omega)
  obtain ⟨laterRight, _, wholeRight, urlRight, hostRight⟩ :=
    deliverHeader_receive second c.init start (init_settled c) solidSecond (by rw [← same]; omega)
  rw [same, wholeRight, Prod.mk.injEq] at wholeLeft
  obtain ⟨conns, endings⟩ := wholeLeft
  have field {α : Type} (read : HttpConn → α)
      (kept : ∀ conn : HttpConn, ∀ arrived, read (conn.receive arrived) = read conn) :
      read (deliverHeader c.init first).1 = read (deliverHeader c.init second).1 := by
    rw [← kept _ laterLeft, ← conns, kept]
  have url := field HttpConn.url fun _ _ => rfl
  have host := field HttpConn.host fun _ _ => rfl
  refine ⟨endings.symm, field HttpConn.checkedIdx fun _ _ => rfl,
    field HttpConn.checkState fun _ _ => rfl, field HttpConn.startLine fun _ _ => rfl, ?_, ?_,
    field HttpConn.linger fun _ _ => rfl, field HttpConn.contentLength fun _ _ => rfl⟩
  · rw [← urlLeft.string laterLeft, ← urlRight.string laterRight, url, conns]
  · rw [← hostLeft.string laterLeft, ← hostRight.string laterRight, host, conns]

theorem headerPhase_segmentation_crLf :
    let left := deliverHeader zeroed.init [[bytes "GET /a HTTP/1.1\r"], [bytes "\nHost: x\r\n\r\n"]]
    let right := deliverHeader zeroed.init [[bytes "GET /a HTTP/1.1\r\nHost: x\r\n\r\n"]]
    left.2 = right.2 ∧ left.1.checkedIdx = right.1.checkedIdx ∧
      left.1.checkState = right.1.checkState ∧ left.1.startLine = right.1.startLine ∧
      left.1.url.map left.1.str = right.1.url.map right.1.str ∧
      left.1.host.map left.1.str = right.1.host.map right.1.str ∧
      left.1.linger = right.1.linger ∧ left.1.contentLength = right.1.contentLength :=
  headerPhase_segmentation zeroed _ _ (by decide) (by decide) (by decide) (by decide)

end StudyRecord.Http.HttpConn
