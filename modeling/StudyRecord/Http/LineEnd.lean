import StudyRecord.Http.Response
import StudyRecord.Http.Segmentation
import StudyRecord.Http.Unread
import StudyRecord.Parse.Grammar

/-!
Broken line ends in a request. `parse_line` reports them, but the loop of
`process_read` leaves on them as it does when the line is not complete yet.
-/

namespace StudyRecord.Http.HttpConn

open CString Machine LineStream

def verdicts (c : HttpConn) (fs : FileSystem) : List Round → List (Option HttpCode)
  | [] => []
  | round :: rest =>
      let result := processRead (readRound c round) fs
      result.2 :: verdicts result.1 fs rest

/-- A stream with a broken line end in its request line or its header block: every
complete line before it is taken, and `process_read` is still in the header. -/
def BrokenHeader (c : HttpConn) (stream : List UInt8) : Prop :=
  ∃ lines content tail, stream = joined cr lf lines ++ (content ++ tail) ∧
    (∀ line ∈ lines, Plain cr lf line) ∧ (headerPhase (c.receive (joined cr lf lines))).2 = none ∧
    Plain cr lf content ∧ Break cr lf tail

/-! Complete lines that are taken. -/

theorem Unread.checked {c : HttpConn} (here : c.Unread []) : c.checkedIdx = c.readIdx := by
  have received : c.readIdx = c.startLine := here.received
  have lower := here.ordered.lineStart
  have upper := here.ordered.checked
  omega

theorem headerPhase_atEnd {c : HttpConn} (header : c.checkState ≠ .content) (here : c.Unread []) :
    headerPhase c = (c, none) := by
  rw [headerPhase_eq c here.ordered header, parseLine_end c here.checked]
  simp only [reduceCtorEq, if_false]

theorem headerPhase_line {c : HttpConn} (state : c.HeaderState) (here : c.Unread [])
    {line : List UInt8} (plain : Plain cr lf line)
    (taken : (headerPhase (c.receive (line ++ [cr, lf]))).2 = none) :
    (headerPhase (c.receive (line ++ [cr, lf]))).1.Unread [] := by
  have state' := state.receive (line ++ [cr, lf])
  have later := (headerPhase_effect _ state').headerState taken
  have arrived := here.receive (line ++ [cr, lf])
  rw [List.nil_append] at arrived
  have found := parseLine_found arrived
  have ready := parseLine_ready _ state'.ordered state'.header
  have received := arrived.received
  rw [List.length_append, List.length_cons, List.length_singleton] at received
  rw [firstLine_line plain] at found
  rw [headerPhase_eq _ state'.ordered state'.header] at taken later ⊢
  generalize c.receive (line ++ [cr, lf]) = whole at *
  generalize parseLine whole = parsed at *
  cases found with
  | line _ _ _ _ =>
      obtain ⟨ready, header⟩ := ready rfl
      have frame := loopBody_frame _ ready
      have zeros := loopBody_zeros header ready
      simp only [if_true] at taken later ⊢
      generalize loopBody (whole.lineCut (whole.startLine + line.length)) = body at *
      cases body with
      | stop stopped ending => contradiction
      | next next status =>
          obtain ⟨_, readIdx, checkedIdx, startLine⟩ := frame
          have last : (whole.lineCut (whole.startLine + line.length)).readBuf
              (whole.startLine + line.length + 1) = 0 := store_self _ _ _
          have atEnd : next.Unread [] := by
            have sameRead : next.readIdx = whole.readIdx := readIdx
            have sameStart : next.startLine = whole.startLine + line.length + 2 := startLine
            have sameChecked : next.checkedIdx = whole.startLine + line.length + 2 := checkedIdx
            refine .empty (by omega) ⟨by omega, by omega⟩ (Or.inr ?_)
            rw [sameStart]
            exact zeros _ last
          by_cases inBody : next.checkState = .content
          · simp only [inBody, if_true] at taken
            contradiction
          · simp only [inBody, if_false] at taken later ⊢
            rw [headerPhase_atEnd inBody atEnd]
            exact atEnd

theorem headerPhase_lines (lines : List (List UInt8)) {c : HttpConn} (state : c.HeaderState)
    (here : c.Unread []) (plain : ∀ line ∈ lines, Plain cr lf line)
    (taken : (headerPhase (c.receive (joined cr lf lines))).2 = none) :
    (headerPhase (c.receive (joined cr lf lines))).1.Unread [] := by
  induction lines generalizing c with
  | nil =>
      have nothing : joined cr lf [] = [] := rfl
      rw [nothing, receive_nil, headerPhase_atEnd state.header here]
      exact here
  | cons line lines ih =>
      have split : joined cr lf (line :: lines) = line ++ [cr, lf] ++ joined cr lf lines := by
        simp [joined]
      have state' := state.receive (line ++ [cr, lf])
      have resumed := headerPhase_receive _ state'.ordered state'.header (joined cr lf lines)
      rw [receive_receive, ← split] at resumed
      rw [resumed] at taken ⊢
      cases first : (headerPhase (c.receive (line ++ [cr, lf]))).2 with
      | some ending =>
          rw [first] at taken
          contradiction
      | none =>
          rw [first] at taken
          have later := (headerPhase_effect _ state').headerState first
          have atEnd := headerPhase_line state here (plain line List.mem_cons_self) first
          exact ih later atEnd (fun other member => plain other (List.mem_cons_of_mem _ member)) taken

theorem BrokenHeader.open {c : HttpConn} {stream : List UInt8} (broken : c.init.BrokenHeader stream) :
    (headerPhase (c.init.receive stream)).2 = none := by
  obtain ⟨lines, content, tail, rfl, plain, taken, plainContent, bad⟩ := broken
  have start : c.init.Unread [] := .empty rfl ⟨Nat.le_refl _, Nat.le_refl _⟩ (Or.inl rfl)
  have state := init_headerState c
  have state' := state.receive (joined cr lf lines)
  have resumed := headerPhase_receive _ state'.ordered state'.header (content ++ tail)
  rw [receive_receive] at resumed
  have later := (headerPhase_effect _ state').headerState taken
  have arrived := (headerPhase_lines lines state start plain taken).receive (content ++ tail)
  rw [resumed, taken]
  generalize (headerPhase (c.init.receive (joined cr lf lines))).1 = next at later arrived
  have found := parseLine_found arrived
  have header := (later.receive (content ++ tail)).header
  rw [List.nil_append, firstLine_broken (by decide) plainContent bad] at found
  simp only
  rw [headerPhase_eq _ arrived.ordered header]
  generalize parseLine (next.receive (content ++ tail)) = parsed at found
  cases found with
  | broken stop => simp only [reduceCtorEq, if_false]

/-! Rounds. -/

theorem verdicts_open (fs : FileSystem) (rounds : List Round) {c : HttpConn} (state : c.HeaderState)
    (solid : Solid rounds) (room : c.readIdx + (delivered rounds).length < readBufferSize)
    (open' : (deliverHeader c rounds).2 = none) :
    ∀ verdict ∈ verdicts c fs rounds, verdict = some .noRequest := by
  induction rounds generalizing c with
  | nil =>
      intro verdict member
      contradiction
  | cons round rest ih =>
      have all : (delivered (round :: rest)).length = round.bytes.length + (delivered rest).length := by
        simp [delivered]
      have state' := state.receive round.bytes
      have effect := headerPhase_effect _ state'
      have scanned := scan_eq _ state'.ordered state'.header
      simp only [deliverHeader, verdicts] at open' ⊢
      rw [readRound_eq c round (solid round List.mem_cons_self) (by omega)] at open' ⊢
      cases first : (headerPhase (c.receive round.bytes)).2 with
      | some ending =>
          rw [first] at open'
          contradiction
      | none =>
          rw [first] at open' scanned
          have read : processRead (c.receive round.bytes) fs =
              ((headerPhase (c.receive round.bytes)).1, some .noRequest) := by
            simp only [processRead, scanned]
          have readIdx : (headerPhase (c.receive round.bytes)).1.readIdx =
              c.readIdx + round.bytes.length := effect.step.readIdx
          have solidRest : Solid rest := fun other member => solid other (List.mem_cons_of_mem _ member)
          have later := ih (effect.headerState first) solidRest (by omega) open'
          rw [read, List.forall_mem_cons]
          exact ⟨rfl, later⟩

/-- A broken line end in the header is never reported: the round that receives it
returns NO_REQUEST, and so does every round behind it. -/
theorem broken_header_waits (c : HttpConn) (fs : FileSystem) (rounds : List Round)
    (solid : Solid rounds) (short : (delivered rounds).length < readBufferSize)
    (broken : c.init.BrokenHeader (delivered rounds)) :
    (verdicts c.init fs rounds).getLast? = some (some .noRequest) ∧
      ∀ verdict ∈ verdicts c.init fs rounds, verdict = some .noRequest := by
  have fresh : c.init.readIdx = 0 := rfl
  obtain ⟨later, _, whole, _⟩ := deliverHeader_receive rounds c.init (init_headerState c)
    (init_settled c) solid (by omega)
  have ends := broken.open
  rw [whole] at ends
  have all := verdicts_open fs rounds (init_headerState c) solid (by omega) ends
  refine ⟨?_, all⟩
  cases last : (verdicts c.init fs rounds).getLast? with
  | some verdict => rw [all verdict (List.mem_of_getLast? last)]
  | none =>
      cases rounds with
      | cons round rest => simp [verdicts] at last
      | nil =>
          obtain ⟨lines, content, tail, nothing, _, _, _, bad⟩ := broken
          have empty : tail = [] := by simp_all [delivered]
          rw [empty] at bad
          contradiction

theorem broken_header_waits_bareLf :
    (verdicts zeroed.init ⟨fun _ => none, fun _ _ => 0⟩ [[bytes "GET / HT", bytes "TP/1.0\n"],
        [bytes "\r\n"]]).getLast? = some (some .noRequest) ∧
      ∀ verdict ∈ verdicts zeroed.init ⟨fun _ => none, fun _ _ => 0⟩
        [[bytes "GET / HT", bytes "TP/1.0\n"], [bytes "\r\n"]], verdict = some .noRequest :=
  broken_header_waits zeroed _ _ (by decide) (by decide)
    ⟨[], bytes "GET / HTTP/1.0", bytes "\n\r\n", by decide, fun _ _ => by contradiction,
      by decide +kernel, by decide, .bareLf _⟩

/-- The stand-alone parser reports the broken line end that the server waits on. -/
theorem broken_header_unreported :
    zeroed.init.BrokenHeader (bytes "GET / HTTP/1.1\r\nHost: x\n\r\n") ∧
      verdicts zeroed.init ⟨fun _ => none, fun _ _ => 0⟩
        [[bytes "GET / HTTP/1.1\r\nHost: x\n\r\n"]] = [some .noRequest] ∧
      (Parse.RequestParser.serve .start [bytes "GET / HTTP/1.1\r\nHost: x\n\r\n"]).2 =
        .badRequest :=
  ⟨⟨[bytes "GET / HTTP/1.1"], bytes "Host: x", bytes "\n\r\n", by decide, by decide,
    by decide +kernel, by decide, .bareLf _⟩, by decide +kernel, by decide +kernel⟩

end StudyRecord.Http.HttpConn
