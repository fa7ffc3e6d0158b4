import StudyRecord.Http.Unread
import StudyRecord.Parse.RequestLine

/-!
The stand-alone parser accepts the streams of its grammar, however they are cut
into chunks.
-/

namespace StudyRecord.Parse

open CString RequestParser LineStream
open Http.HttpConn (cr lf)

/-! The two implementations of `parse_line` are the same function. -/

namespace RequestParser

def asConn (p : RequestParser) : Http.HttpConn :=
  { Http.HttpConn.zeroed with
    readBuf := p.buffer
    readIdx := p.readIndex
    checkedIdx := p.checkedIndex
    startLine := p.startLine }

def ofConn (p : RequestParser) (c : Http.HttpConn) : RequestParser :=
  { p with buffer := c.readBuf, checkedIndex := c.checkedIdx }

def ofStatus : Http.LineStatus → LineStatus
  | .lineOk => .lineOk
  | .lineBad => .lineBad
  | .lineOpen => .lineOpen

theorem parseLineLoop_asConn (left : Nat) (p : RequestParser) :
    parseLineLoop left p =
      (p.ofConn (Http.HttpConn.parseLineLoop left p.asConn).1,
        ofStatus (Http.HttpConn.parseLineLoop left p.asConn).2) := by
  induction left generalizing p with
  | zero => rfl
  | succ left ih =>
      have later := ih { p with checkedIndex := p.checkedIndex + 1 }
      have buffer : p.asConn.readBuf = p.buffer := rfl
      have checked : p.asConn.checkedIdx = p.checkedIndex := rfl
      have read : p.asConn.readIdx = p.readIndex := rfl
      simp only [parseLineLoop, Http.HttpConn.parseLineLoop, buffer, checked, read]
      by_cases isCr : p.buffer p.checkedIndex = cr
      · simp only [isCr, if_true]
        by_cases last : p.checkedIndex + 1 = p.readIndex
        · simp only [last, if_true]
          rfl
        · simp only [last, if_false]
          by_cases next : p.buffer (p.checkedIndex + 1) = lf
          · simp only [next, if_true]
            rfl
          · simp only [next, if_false]
            rfl
      · simp only [isCr, if_false]
        by_cases isLf : p.buffer p.checkedIndex = lf
        · simp only [isLf, if_true]
          by_cases afterCr : p.checkedIndex > 1 ∧ p.buffer (p.checkedIndex - 1) = cr
          · simp only [afterCr, and_self, if_true]
            rfl
          · simp only [afterCr, if_false]
            rfl
        · simp only [isLf, if_false]
          exact later

theorem parseLine_asConn (p : RequestParser) :
    parseLine p = (p.ofConn (Http.HttpConn.parseLine p.asConn).1,
      ofStatus (Http.HttpConn.parseLine p.asConn).2) :=
  parseLineLoop_asConn _ p

end RequestParser

/-! The parser between two calls. -/

structure Reads (p : RequestParser) (pending : List UInt8) : Prop where
  here : p.asConn.Unread pending
  fits : p.readIndex ≤ bufferSize

theorem start_reads : Reads start [] :=
  ⟨.empty rfl ⟨Nat.le_refl _, Nat.le_refl _⟩ (Or.inl rfl), Nat.zero_le _⟩

theorem Reads.receive {p : RequestParser} {pending : List UInt8} (reads : Reads p pending)
    (chunk : List UInt8) (fits : p.readIndex + chunk.length ≤ bufferSize) :
    Reads (p.receive chunk) (pending ++ chunk) :=
  ⟨reads.here.receive chunk, fits⟩

def lineCut (p : RequestParser) (stop : Nat) : RequestParser :=
  p.ofConn (p.asConn.lineCut stop)

def nextLine (p : RequestParser) (stop : Nat) : RequestParser :=
  { lineCut p stop with startLine := stop + 2 }

/-! The loop of `parse_content` reads the stream line by line. -/

def lineStep : CheckState → List UInt8 → Except HttpCode CheckState
  | .requestline, line => if acceptsRequestLine line then .ok .header else .error .badRequest
  | .header, line => if line = [] then .error .getRequest else .ok .header

theorem Reads.written {p : RequestParser} {content rest : List UInt8}
    (reads : Reads p (content ++ cr :: lf :: rest)) (nonzero : ∀ byte ∈ content, byte ≠ 0) :
    Written bufferSize (lineCut p (p.startLine + content.length)).buffer p.startLine content := by
  have received : p.readIndex = p.startLine + (content ++ cr :: lf :: rest).length :=
    reads.here.received
  have fits := reads.fits
  rw [List.length_append, List.length_cons, List.length_cons] at received
  have kept (index : Nat) (inside : index < content.length) :
      (lineCut p (p.startLine + content.length)).buffer (p.startLine + index) =
        p.buffer (p.startLine + index) := by
    simp only [lineCut, Http.HttpConn.lineCut, ofConn]
    rw [store_other _ _ (by omega), store_other _ _ (by omega)]
    rfl
  refine ⟨by omega, fun index inside => ?_, store_zero _ _ _ (store_self _ _ _), nonzero⟩
  rw [kept index inside]
  exact reads.here.contentByte index inside

theorem Reads.next {p q : RequestParser} {content rest : List UInt8}
    (reads : Reads p (content ++ cr :: lf :: rest)) (readIndex : q.readIndex = p.readIndex)
    (checkedIndex : q.checkedIndex = p.startLine + content.length + 2)
    (startLine : q.startLine = p.startLine + content.length + 2)
    (kept : ∀ position, p.startLine + content.length ≤ position →
      q.buffer position = (lineCut p (p.startLine + content.length)).buffer position) :
    Reads q rest := by
  refine ⟨reads.here.next readIndex checkedIndex startLine kept, ?_⟩
  rw [readIndex]
  exact reads.fits

inductive Answers (p : RequestParser) :
    RequestParser × HttpCode → Outcome UInt8 CheckState HttpCode → Prop
  | waits (q : RequestParser) (pending : List UInt8) (reads : Reads q pending)
      (readIndex : q.readIndex = p.readIndex) :
      Answers p (q, .noRequest) (.waits q.checkState pending)
  | ends (q : RequestParser) (code : HttpCode) (finished : code ≠ .noRequest) :
      Answers p (q, code) (.ends code)
  | broken (q : RequestParser) : Answers p (q, .badRequest) .broken

theorem Answers.later {p q : RequestParser} {result : RequestParser × HttpCode}
    {outcome : Outcome UInt8 CheckState HttpCode} (answers : Answers q result outcome)
    (readIndex : q.readIndex = p.readIndex) : Answers p result outcome := by
  cases answers with
  | waits r pending reads same => exact .waits r pending reads (same.trans readIndex)
  | ends r code finished => exact .ends r code finished
  | broken r => exact .broken r

inductive Handled (p : RequestParser) (stop : Nat) (rest : List UInt8) :
    LoopStep → Except HttpCode CheckState → Prop
  | next (q : RequestParser) (reads : Reads q rest) (readIndex : q.readIndex = p.readIndex)
      (checkedIndex : q.checkedIndex = stop + 2) : Handled p stop rest (.next q) (.ok q.checkState)
  | stop (q : RequestParser) (code : HttpCode) (finished : code ≠ .noRequest) :
      Handled p stop rest (.stop q code) (.error code)

theorem loopBody_requestline (p : RequestParser) (state : p.checkState = .requestline) :
    loopBody p =
      match parseRequestline { p with startLine := p.checkedIndex } p.startLine with
      | (q, .badRequest) => .stop q .badRequest
      | (q, _) => .next q := by
  obtain ⟨buffer, checkedIndex, checkState, readIndex, startLine⟩ := p
  obtain rfl : checkState = .requestline := state
  rfl

theorem loopBody_header (p : RequestParser) (state : p.checkState = .header) :
    loopBody p =
      if p.buffer p.startLine = 0 then .stop { p with startLine := p.checkedIndex } .getRequest
      else .next { p with startLine := p.checkedIndex } := by
  obtain ⟨buffer, checkedIndex, checkState, readIndex, startLine⟩ := p
  obtain rfl : checkState = .header := state
  simp only [loopBody, parseHeaders]
  by_cases empty : buffer startLine = 0
  · simp only [empty, if_true]
  · simp only [empty, if_false]

theorem requestline_handled {p : RequestParser} {content rest : List UInt8}
    (reads : Reads p (content ++ cr :: lf :: rest)) (nonzero : ∀ byte ∈ content, byte ≠ 0)
    (state : p.checkState = .requestline) :
    Handled p (p.startLine + content.length) rest
      (loopBody (lineCut p (p.startLine + content.length))) (lineStep .requestline content) := by
  have written : Written bufferSize (nextLine p (p.startLine + content.length)).buffer p.startLine
      content := reads.written nonzero
  have result := parseRequestline_result written
  have body : loopBody (lineCut p (p.startLine + content.length)) =
      match parseRequestline (nextLine p (p.startLine + content.length)) p.startLine with
      | (q, .badRequest) => .stop q .badRequest
      | (q, _) => .next q := loopBody_requestline _ state
  rw [body, lineStep]
  generalize parseRequestline _ _ = parsed at result
  obtain ⟨q, code⟩ := parsed
  have frame : q = { nextLine p (p.startLine + content.length) with
      buffer := q.buffer, checkState := q.checkState } := result.frame
  have same : code = if acceptsRequestLine content then .noRequest else .badRequest := result.code
  cases accepted : acceptsRequestLine content with
  | true =>
      rw [accepted] at same
      obtain rfl : code = .noRequest := same
      have header : q.checkState = .header := result.header accepted
      have readIndex : q.readIndex = p.readIndex := by
        rw [frame]
        rfl
      have checkedIndex : q.checkedIndex = p.startLine + content.length + 2 := by
        rw [frame]
        rfl
      have startLine : q.startLine = p.startLine + content.length + 2 := by
        rw [frame]
        rfl
      have later := reads.next readIndex checkedIndex startLine result.behind
      rw [if_pos rfl, ← header]
      exact .next q later readIndex checkedIndex
  | false =>
      rw [accepted] at same
      obtain rfl : code = .badRequest := same
      exact .stop q _ (by decide)

theorem header_handled {p : RequestParser} {content rest : List UInt8}
    (reads : Reads p (content ++ cr :: lf :: rest)) (nonzero : ∀ byte ∈ content, byte ≠ 0)
    (state : p.checkState = .header) :
    Handled p (p.startLine + content.length) rest
      (loopBody (lineCut p (p.startLine + content.length))) (lineStep .header content) := by
  have written := reads.written nonzero
  have body : loopBody (lineCut p (p.startLine + content.length)) =
      if (lineCut p (p.startLine + content.length)).buffer p.startLine = 0 then
        .stop (nextLine p (p.startLine + content.length)) .getRequest
      else .next (nextLine p (p.startLine + content.length)) := loopBody_header _ state
  rw [body, lineStep]
  cases content with
  | nil =>
      have zero : (lineCut p (p.startLine + ([] : List UInt8).length)).buffer p.startLine = 0 :=
        written.terminator
      rw [if_pos zero, if_pos rfl]
      exact .stop _ _ (by decide)
  | cons byte content =>
      have first := written.content 0 (by simp)
      have solid : (lineCut p (p.startLine + (byte :: content).length)).buffer p.startLine ≠ 0 :=
        fun zero => nonzero byte List.mem_cons_self (first.symm.trans zero)
      have later : Reads (nextLine p (p.startLine + (byte :: content).length)) rest :=
        reads.next rfl rfl rfl fun _ _ => rfl
      rw [if_neg solid, if_neg (List.cons_ne_nil _ _), ← state]
      exact .next _ later rfl rfl

theorem loopBody_handled {p : RequestParser} {content rest : List UInt8}
    (reads : Reads p (content ++ cr :: lf :: rest)) (nonzero : ∀ byte ∈ content, byte ≠ 0) :
    Handled p (p.startLine + content.length) rest
      (loopBody (lineCut p (p.startLine + content.length))) (lineStep p.checkState content) := by
  cases state : p.checkState with
  | requestline => exact requestline_handled reads nonzero state
  | header => exact header_handled reads nonzero state

theorem contentLoop_feed (fuel : Nat) {p : RequestParser} {pending : List UInt8}
    (reads : Reads p pending) (nonzero : ∀ byte ∈ pending, byte ≠ 0)
    (enough : p.readIndex - p.checkedIndex < fuel) :
    Answers p (contentLoop fuel p) (feed cr lf lineStep p.checkState pending) := by
  induction fuel generalizing p pending with
  | zero => omega
  | succ fuel ih =>
      have found := Http.HttpConn.parseLine_found reads.here
      rw [feed_eq, contentLoop, parseLine_asConn]
      generalize Http.HttpConn.parseLine p.asConn = parsed at found
      generalize firstLine cr lf pending = cut at found
      cases found with
      | broken stop => exact .broken _
      | unfinished stop here => exact .waits _ pending ⟨here, reads.fits⟩ rfl
      | line content rest whole plain =>
          subst whole
          have nonzeroLine : ∀ byte ∈ content, byte ≠ 0 :=
            fun byte member => nonzero byte (List.mem_append_left _ member)
          have nonzeroRest : ∀ byte ∈ rest, byte ≠ 0 := fun byte member =>
            nonzero byte (List.mem_append_right _ (List.mem_cons_of_mem _ (List.mem_cons_of_mem _ member)))
          have handled := loopBody_handled reads nonzeroLine
          have received : p.readIndex = p.startLine + (content ++ cr :: lf :: rest).length :=
            reads.here.received
          have lower : p.checkedIndex ≤ p.startLine + content.length :=
            (reads.here.scan plain fun byte first => Or.inl (Option.some.inj first).symm).1
          rw [List.length_append, List.length_cons, List.length_cons] at received
          have status : ofStatus .lineOk = .lineOk := rfl
          have start : p.asConn.startLine = p.startLine := rfl
          simp only [status, start]
          rw [lineCut] at handled
          generalize loopBody _ = body at handled ⊢
          generalize lineStep p.checkState content = stepped at handled ⊢
          cases handled with
          | next q reads' readIndex checkedIndex =>
              exact (ih reads' nonzeroRest (by omega)).later readIndex
          | stop q code finished => exact .ends q code finished

theorem parseContent_feed {p : RequestParser} {pending : List UInt8} (reads : Reads p pending)
    (nonzero : ∀ byte ∈ pending, byte ≠ 0) :
    Answers p (parseContent p) (feed cr lf lineStep p.checkState pending) :=
  contentLoop_feed _ reads nonzero (Nat.lt_succ_self _)

def verdict : Outcome UInt8 CheckState HttpCode → HttpCode
  | .waits _ _ => .noRequest
  | .ends code => code
  | .broken => .badRequest

theorem serve_feed (chunks : List (List UInt8)) {p : RequestParser} {pending : List UInt8}
    (reads : Reads p pending) (unfinished : firstLine cr lf pending = .unfinished)
    (nonzero : ∀ byte ∈ pending ++ chunks.flatten, byte ≠ 0)
    (fits : p.readIndex + chunks.flatten.length ≤ bufferSize) :
    (serve p chunks).2 = verdict (feed cr lf lineStep p.checkState (pending ++ chunks.flatten)) := by
  induction chunks generalizing p pending with
  | nil =>
      rw [List.flatten_nil, List.append_nil, feed_eq, unfinished]
      rfl
  | cons chunk rest ih =>
      rw [List.flatten_cons] at nonzero fits ⊢
      rw [List.length_append] at fits
      rw [← List.append_assoc] at nonzero ⊢
      have whole : chunk.take (bufferSize - p.readIndex) = chunk :=
        List.take_of_length_le (by omega)
      have answers := parseContent_feed (reads.receive chunk (by omega))
        fun byte member => nonzero byte (List.mem_append_left _ member)
      rw [feed_append (by decide)]
      simp only [serve, whole]
      have same : (p.receive chunk).checkState = p.checkState := rfl
      rw [same] at answers
      have size : (p.receive chunk).readIndex = p.readIndex + chunk.length := rfl
      generalize outcome : feed cr lf lineStep p.checkState (pending ++ chunk) = read at answers ⊢
      generalize parseContent (p.receive chunk) = result at answers ⊢
      cases answers with
      | waits q pending' reads' readIndex =>
          obtain ⟨unfinished', before, split⟩ := feed_waits outcome
          refine ih reads' unfinished' ?_ (by omega)
          intro byte member
          apply nonzero
          rw [split, List.append_assoc]
          exact List.mem_append_right _ member
      | ends q code finished =>
          cases code with
          | noRequest => contradiction
          | _ => rfl
      | broken q => rfl

/-! The grammar of streams. -/

def Acceptable : List (List UInt8) → Prop
  | [] => True
  | first :: headers => ValidRequestLine first ∧ ∀ header ∈ headers, header ≠ []

def HasRequest (stream : List UInt8) : Prop :=
  ∃ first headers rest, stream = joined cr lf (first :: headers ++ [[]]) ++ rest ∧
    (∀ line ∈ first :: headers, Plain cr lf line) ∧ Acceptable (first :: headers)

/-- A first line that is no request line, or a broken line end behind acceptable lines. -/
def HasError (stream : List UInt8) : Prop :=
  (∃ first rest, stream = joined cr lf [first] ++ rest ∧ Plain cr lf first ∧
    ¬ValidRequestLine first) ∨
  ∃ lines content tail, stream = joined cr lf lines ++ content ++ tail ∧
    (∀ line ∈ lines, Plain cr lf line) ∧ Acceptable lines ∧ Plain cr lf content ∧
    Break cr lf tail

theorem headers_read (headers : List (List UInt8)) (next : CheckState) :
    headers.foldlM lineStep .header = .ok next ↔ (∀ header ∈ headers, header ≠ []) ∧ next = .header := by
  induction headers with
  | nil =>
      simp only [List.foldlM_nil, List.not_mem_nil, false_implies, implies_true, true_and]
      exact ⟨fun same => (Except.ok.inj same).symm, fun same => same ▸ rfl⟩
  | cons header headers ih =>
      rw [List.foldlM_cons, List.forall_mem_cons, and_assoc, ← ih]
      by_cases empty : header = []
      · simp only [lineStep, empty, if_true, ne_eq, not_true_eq_false, false_and, iff_false]
        intro same
        contradiction
      · simp only [lineStep, empty, if_false, ne_eq, not_false_eq_true, true_and]
        rfl

theorem lines_read (lines : List (List UInt8)) (next : CheckState) :
    lines.foldlM lineStep .requestline = .ok next ↔
      Acceptable lines ∧ next = if lines = [] then .requestline else .header := by
  cases lines with
  | nil =>
      simp only [List.foldlM_nil, Acceptable, true_and, if_true]
      exact ⟨fun same => (Except.ok.inj same).symm, fun same => same ▸ rfl⟩
  | cons first headers =>
      rw [List.foldlM_cons, Acceptable, if_neg (List.cons_ne_nil _ _), and_assoc,
        ← headers_read, ← acceptsRequestLine_iff]
      simp only [lineStep]
      cases acceptsRequestLine first with
      | true =>
          simp only [if_true, true_and]
          rfl
      | false =>
          simp only [Bool.false_eq_true, if_false, false_and, iff_false]
          intro same
          contradiction

theorem hasRequest_iff (stream : List UInt8) :
    feed cr lf lineStep .requestline stream = .ends .getRequest ↔ HasRequest stream := by
  rw [feed_ends_iff]
  constructor
  · rintro ⟨lines, next, last, rest, plain, accepted, _, ended, whole⟩
    obtain ⟨acceptable, state⟩ := (lines_read lines next).mp accepted
    cases lines with
    | nil =>
        rw [state] at ended
        simp only [lineStep, if_true] at ended
        split at ended <;> simp at ended
    | cons first headers =>
        obtain rfl : next = .header := state
        have blank : last = [] := by
          refine Classical.byContradiction fun nonempty => ?_
          simp only [lineStep, nonempty, if_false] at ended
          contradiction
        refine ⟨first, headers, rest, ?_, plain, acceptable⟩
        rw [whole, blank]
        simp [joined]
  · rintro ⟨first, headers, rest, rfl, plain, acceptable⟩
    refine ⟨first :: headers, .header, [], rest, plain, (lines_read _ _).mpr ⟨acceptable, rfl⟩,
      .nil, rfl, ?_⟩
    simp [joined]

theorem hasError_iff (stream : List UInt8) :
    (feed cr lf lineStep .requestline stream = .ends .badRequest ∨
      feed cr lf lineStep .requestline stream = .broken) ↔ HasError stream := by
  rw [feed_ends_iff, feed_broken_iff (by decide)]
  refine or_congr ⟨?_, ?_⟩ ⟨?_, ?_⟩
  · rintro ⟨lines, next, last, rest, _, accepted, plainLast, ended, whole⟩
    obtain ⟨_, state⟩ := (lines_read lines next).mp accepted
    cases lines with
    | nil =>
        refine ⟨last, rest, ?_, plainLast, fun valid => ?_⟩
        · rw [whole]
          simp [joined]
        · rw [state] at ended
          simp only [lineStep, if_true, (acceptsRequestLine_iff last).mpr valid] at ended
          contradiction
    | cons first headers =>
        obtain rfl : next = .header := state
        simp only [lineStep] at ended
        split at ended <;> simp at ended
  · rintro ⟨first, rest, rfl, plain, invalid⟩
    have rejected : acceptsRequestLine first = false := by
      rw [← Bool.not_eq_true, acceptsRequestLine_iff]
      exact invalid
    refine ⟨[], .requestline, first, rest, fun line member => by contradiction, rfl, plain, ?_, ?_⟩
    · simp only [lineStep, rejected]
      rfl
    · simp [joined]
  · rintro ⟨lines, next, content, tail, plain, accepted, plainContent, bad, whole⟩
    obtain ⟨acceptable, _⟩ := (lines_read lines next).mp accepted
    refine ⟨lines, content, tail, ?_, plain, acceptable, plainContent, bad⟩
    rw [whole, List.append_assoc]
  · rintro ⟨lines, content, tail, rfl, plain, acceptable, plainContent, bad⟩
    refine ⟨lines, _, content, tail, plain, (lines_read lines _).mpr ⟨acceptable, rfl⟩,
      plainContent, bad, ?_⟩
    rw [List.append_assoc]

theorem lineStep_result {state : CheckState} {line : List UInt8} {code : HttpCode}
    (ended : lineStep state line = .error code) : code = .getRequest ∨ code = .badRequest := by
  cases state with
  | requestline =>
      simp only [lineStep] at ended
      split at ended
      · contradiction
      · exact Or.inr (Except.error.inj ended).symm
  | header =>
      simp only [lineStep] at ended
      split at ended
      · exact Or.inl (Except.error.inj ended).symm
      · contradiction

/-- The parser answers a stream of bytes by its grammar, for every way to cut the
stream into chunks. -/
theorem accepts_exactly_the_grammar (stream : List UInt8) (chunks : List (List UInt8))
    (split : chunks.flatten = stream) (nonzero : ∀ byte ∈ stream, byte ≠ 0)
    (fits : stream.length ≤ bufferSize) :
    ((serve start chunks).2 = .getRequest ↔ HasRequest stream) ∧
      ((serve start chunks).2 = .badRequest ↔ HasError stream) ∧
      ((serve start chunks).2 = .noRequest ↔ ¬HasRequest stream ∧ ¬HasError stream) := by
  subst split
  have served : (serve start chunks).2 =
      verdict (feed cr lf lineStep .requestline chunks.flatten) := by
    refine serve_feed chunks start_reads rfl nonzero ?_
    exact Nat.le_trans (Nat.le_of_eq (Nat.zero_add _)) fits
  rw [served, ← hasRequest_iff, ← hasError_iff]
  cases outcome : feed cr lf lineStep .requestline chunks.flatten with
  | waits state pending => simp [verdict]
  | broken => simp [verdict]
  | ends code =>
      obtain ⟨lines, next, last, rest, _, _, _, ended, _⟩ := (feed_ends_iff _ _ _).mp outcome
      rcases lineStep_result ended with same | same
      · simp [verdict, same]
      · simp [verdict, same]

theorem accepts_exactly_the_grammar_cut :
    let stream := bytes "GET /a HTTP/1.1\r\nHost: x\r\n\r\n"
    let chunks := [bytes "GET /a HTTP/1.1\r", bytes "\nHost: x\r\n\r\n"]
    ((serve start chunks).2 = .getRequest ↔ HasRequest stream) ∧
      ((serve start chunks).2 = .badRequest ↔ HasError stream) ∧
      ((serve start chunks).2 = .noRequest ↔ ¬HasRequest stream ∧ ¬HasError stream) :=
  accepts_exactly_the_grammar _ _ (by decide +kernel) (by decide +kernel) (by decide +kernel)

end StudyRecord.Parse
