import StudyRecord.Http.LineEnd
import StudyRecord.Http.RequestLine

/-!
What a request says. Its lines are read one after the other by a small machine that knows
nothing of buffers and pointers, and the header phase of `process_read` comes to what this
machine says, however the bytes are cut into chunks.
-/

namespace StudyRecord.Http.HttpConn

open CString LineStream Machine

structure Head where
  path : Option (List UInt8)
  host : Option (List UInt8)
  linger : Bool
  contentLength : Int
  deriving DecidableEq

inductive Field
  | blank
  | connection (value : List UInt8)
  | contentLength (value : List UInt8)
  | host (value : List UInt8)
  | unknown
  deriving DecidableEq

def valueOf (name text : List UInt8) : List UInt8 := past blanks (text.drop name.length)

def fieldOf (text : List UInt8) : Field :=
  if text = [] then .blank
  else if strncasecmpZero text (bytes "Connection:") 11 then
    .connection (valueOf (bytes "Connection:") text)
  else if strncasecmpZero text (bytes "Content-Length:") 15 then
    .contentLength (valueOf (bytes "Content-Length:") text)
  else if strncasecmpZero text (bytes "Host:") 5 then .host (valueOf (bytes "Host:") text)
  else .unknown

namespace Head

def start : Head := ⟨none, none, false, 0⟩

abbrev Ending := HeaderEnd × Head

def target (head : Head) : Target → Except Ending Head
  | .missing => .error (.ends .nullDereference, head)
  | .rejected => .error (.ends (.returns .badRequest), head)
  | .path path => .ok { head with path := some path }

/-- A later field replaces an earlier one, but nothing takes back a `keep-alive`. -/
def field (head : Head) : Field → Except Ending Head
  | .blank =>
      .error (if head.contentLength ≠ 0 then .entersContent else .ends .callsDoRequest, head)
  | .connection value =>
      .ok { head with linger := head.linger || strcasecmpZero value (bytes "keep-alive") }
  | .contentLength value => .ok { head with contentLength := toInt (atol value) }
  | .host value => .ok { head with host := some value }
  | .unknown => .ok head

def line (head : Head) (content : List UInt8) : Except Ending Head :=
  match head.path with
  | none => head.target (lineTarget (cString content))
  | some _ => head.field (fieldOf (cString content))

end Head

/-! The strings that the pointers of a connection stand for. -/

structure PointsTo (c : HttpConn) (index : Nat) (text : List UInt8) : Prop where
  written : CString.Written readBufferSize c.readBuf index text
  before : index + text.length < c.startLine

structure Knows (c : HttpConn) (head : Head) : Prop where
  url : ∀ path ∈ head.path, ∃ index, c.url = some index ∧ c.PointsTo index path
  noHost : head.host = none → c.host = none
  host : ∀ text ∈ head.host, ∃ index, c.host = some index ∧ c.PointsTo index text
  linger : c.linger = head.linger
  contentLength : c.contentLength = head.contentLength

structure Reads (c : HttpConn) (head : Head) : Prop where
  knows : c.Knows head
  state : c.checkState = match head.path with
    | none => .requestLine
    | some _ => .header

theorem PointsTo.kept {c next : HttpConn} {index : Nat} {text : List UInt8}
    (points : c.PointsTo index text) (later : c.startLine ≤ next.startLine)
    (agree : ∀ position < c.startLine, next.readBuf position = c.readBuf position) :
    next.PointsTo index text := by
  have before := points.before
  exact ⟨points.written.congr fun position _ upper => agree position (by omega), by omega⟩

theorem Knows.kept {c next : HttpConn} {head : Head} (knows : c.Knows head)
    (later : c.startLine ≤ next.startLine)
    (agree : ∀ position < c.startLine, next.readBuf position = c.readBuf position)
    (url : next.url = c.url) (host : next.host = c.host) (linger : next.linger = c.linger)
    (contentLength : next.contentLength = c.contentLength) : next.Knows head := by
  refine ⟨fun path said => ?_, fun none' => host.trans (knows.noHost none'), fun text said => ?_,
    linger.trans knows.linger, contentLength.trans knows.contentLength⟩
  · obtain ⟨index, pointer, points⟩ := knows.url path said
    exact ⟨index, url.trans pointer, points.kept later agree⟩
  · obtain ⟨index, pointer, points⟩ := knows.host text said
    exact ⟨index, host.trans pointer, points.kept later agree⟩

theorem Knows.updated {c next : HttpConn} {head later : Head} (knows : c.Knows head)
    (startLine : next.startLine = c.startLine) (readBuf : next.readBuf = c.readBuf)
    (url : next.url = c.url) (path : later.path = head.path)
    (host : next.host = c.host) (host' : later.host = head.host)
    (linger : next.linger = later.linger) (contentLength : next.contentLength = later.contentLength) :
    next.Knows later := by
  have points {index : Nat} {text : List UInt8} (points : c.PointsTo index text) :
      next.PointsTo index text :=
    points.kept (Nat.le_of_eq startLine.symm) fun position _ => congrFun readBuf position
  refine ⟨fun text said => ?_, fun none' => ?_, fun text said => ?_, linger, contentLength⟩
  · obtain ⟨index, pointer, here⟩ := knows.url text (path ▸ said)
    exact ⟨index, url.trans pointer, points here⟩
  · exact host.trans (knows.noHost (host'.symm.trans none'))
  · obtain ⟨index, pointer, here⟩ := knows.host text (host' ▸ said)
    exact ⟨index, host.trans pointer, points here⟩

theorem Reads.header {c : HttpConn} {head : Head} (reads : c.Reads head) :
    c.checkState ≠ .content := by
  rw [reads.state]
  split <;> simp

theorem Reads.receive {c : HttpConn} {head : Head} (reads : c.Reads head) (ordered : c.Ordered)
    (arrived : List UInt8) : (c.receive arrived).Reads head := by
  have lower := ordered.lineStart
  have upper := ordered.checked
  refine ⟨reads.knows.kept (Nat.le_refl _) (fun position below => ?_) rfl rfl rfl rfl, reads.state⟩
  exact receive_below c arrived (by omega)

theorem init_reads (c : HttpConn) : c.init.Reads .start := by
  refine ⟨⟨?_, fun _ => rfl, ?_, rfl, rfl⟩, rfl⟩
  · intro path said
    contradiction
  · intro text said
    contradiction

/-! Parsing stores into its line only. -/

theorem parseUrl_readBuf (c : HttpConn) (url : Nat) : (parseUrl c url).conn.readBuf = c.readBuf := by
  simp only [parseUrl, Parsed.after]
  split
  · rfl
  · split
    · rfl
    · split <;> rfl

theorem checkVersion_readBuf (c : HttpConn) (url version : Nat) :
    (checkVersion c url version).conn.readBuf = c.readBuf := by
  simp only [checkVersion, Parsed.after]
  split
  · rfl
  · exact parseUrl_readBuf _ url

theorem parseVersion_outside {c : HttpConn} {url final : Nat} (line : c.Terminated url final)
    {position : Nat} (outside : position < url ∨ final ≤ position) :
    (parseVersion c url).conn.readBuf position = c.readBuf position := by
  simp only [parseVersion]
  split
  · rfl
  · rename_i offset found
    have inside := strpbrk_lt found
    have whole := line.length
    simp only [Parsed.after, checkVersion_readBuf, cut]
    refine store_other _ _ ?_
    simp only [str] at inside whole
    omega

theorem parseRequestLine_outside {c : HttpConn} {text final : Nat} (line : c.Terminated text final)
    {position : Nat} (outside : position < text ∨ final ≤ position) :
    (parseRequestLine c text).conn.readBuf position = c.readBuf position := by
  simp only [parseRequestLine]
  split
  · rfl
  · rename_i offset found
    have inside := strpbrk_lt found
    have whole := line.length
    have cutLine := line.cut (text + offset)
    have same : (c.cut (text + offset)).readBuf position = c.readBuf position :=
      store_other _ _ (by omega)
    split
    · have bounds := skipBlanks_bounds (cutLine.tail (show text + offset + 1 ≤ final by omega))
      have skipped := cutLine.tail bounds.2
      have version : { c.cut (text + offset) with method := .get }.Terminated
          ((c.cut (text + offset)).skipBlanks (text + offset + 1)) final :=
        ⟨skipped.lower, skipped.received, skipped.zero⟩
      exact (parseVersion_outside version (by omega)).trans same
    · exact same

/-! One line. -/

theorem loopBody_requestLine {c : HttpConn} (state : c.checkState = .requestLine) :
    loopBody c = lineStep (parseRequestLine { c with startLine := c.checkedIdx } c.startLine) := by
  simp only [loopBody]
  rw [state]

theorem loopBody_header {c : HttpConn} (state : c.checkState = .header) :
    loopBody c = lineStep (parseHeaders { c with startLine := c.checkedIdx } c.startLine) := by
  simp only [loopBody]
  rw [state]

def pastLine (c : HttpConn) (size : Nat) : HttpConn :=
  { c.lineCut (c.startLine + size) with startLine := c.startLine + size + 2 }

theorem Unread.lineWritten {c : HttpConn} {content rest : List UInt8}
    (here : c.Unread (content ++ cr :: lf :: rest)) (room : c.readIdx ≤ readBufferSize) :
    CString.Written readBufferSize (c.pastLine content.length).readBuf c.startLine (cString content) ∧
      (c.pastLine content.length).Terminated c.startLine (c.startLine + content.length) := by
  have received := here.received
  rw [List.length_append, List.length_cons, List.length_cons] at received
  have zero : (c.lineCut (c.startLine + content.length)).readBuf (c.startLine + content.length) = 0 :=
    store_zero _ _ _ (store_self _ _ _)
  refine ⟨written_line (by omega) (fun index inside => ?_) zero, ⟨Nat.le_add_right _ _, ?_, zero⟩⟩
  · simp only [pastLine, lineCut]
    rw [store_other _ _ (by omega), store_other _ _ (by omega)]
    exact here.contentByte index inside
  · show c.startLine + content.length < c.readIdx
    omega

theorem lineCut_below {c : HttpConn} {stop position : Nat} (below : position < stop) :
    (c.lineCut stop).readBuf position = c.readBuf position := by
  simp only [lineCut]
  rw [store_other _ _ (by omega), store_other _ _ (by omega)]

inductive LineTaken (rest : List UInt8) : Except Head.Ending Head → LoopStep → Prop
  | goesOn (next : HttpConn) (head : Head) (reads : next.Reads head) (unread : next.Unread rest) :
      LineTaken rest (.ok head) (.next next .lineOk)
  | entersContent (next : HttpConn) (head : Head) (knows : next.Knows head)
      (inBody : next.checkState = .content) (unread : next.Unread rest) :
      LineTaken rest (.error (.entersContent, head)) (.next next .lineOk)
  | ends (stopped : HttpConn) (ending : ReadEnd) (head : Head) (knows : stopped.Knows head)
      (unread : stopped.Unread rest) :
      LineTaken rest (.error (.ends ending, head)) (.stop stopped ending)

theorem Knows.cut {c : HttpConn} {head : Head} (knows : c.Knows head) (size : Nat) :
    (c.pastLine size).Knows head :=
  knows.kept (by show c.startLine ≤ c.startLine + size + 2; omega)
    (fun position below => lineCut_below (by omega)) rfl rfl rfl rfl

theorem requestLine_taken {c : HttpConn} {head : Head} {content rest : List UInt8}
    (here : c.Unread (content ++ cr :: lf :: rest)) (room : c.readIdx ≤ readBufferSize)
    (knows : c.Knows head) (state : c.checkState = .requestLine) (unread : head.path = none) :
    LineTaken rest (head.target (lineTarget (cString content)))
      (loopBody (c.lineCut (c.startLine + content.length))) := by
  obtain ⟨written, line⟩ := here.lineWritten room
  obtain ⟨parsed, same⟩ : ∃ parsed, parsed = parseRequestLine (c.pastLine content.length) c.startLine :=
    ⟨_, rfl⟩
  have outcome := parseRequestLine_outcome written
  have effect := parseRequestLine_effect line
  have outside (position : Nat)
      (outside : position < c.startLine ∨ c.startLine + content.length ≤ position) :=
    parseRequestLine_outside line outside
  have body : loopBody (c.lineCut (c.startLine + content.length)) = lineStep parsed := by
    rw [same]
    exact loopBody_requestLine state
  rw [← same] at outcome effect outside
  have frame := effect.frame
  rw [LineFrame] at frame
  have startLine : parsed.conn.startLine = c.startLine + content.length + 2 := by rw [frame]; rfl
  have unread' : parsed.conn.Unread rest :=
    here.next (by rw [frame]; rfl) (by rw [frame]; rfl) startLine fun position above =>
      outside position (.inr above)
  -- what the earlier lines have said stays, and a path is where the request line leaves it
  have knows' (path : Option (List UInt8)) (found : ∀ text ∈ path, ∃ index,
      parsed.conn.url = some index ∧ parsed.conn.PointsTo index text) :
      parsed.conn.Knows { head with path := path } := by
    have earlier := knows.cut content.length
    have sameHost : parsed.conn.host = c.host := by rw [frame]; rfl
    refine ⟨found, fun none' => sameHost.trans (knows.noHost none'), fun text said => ?_,
      by rw [frame]; exact knows.linger, by rw [frame]; exact knows.contentLength⟩
    obtain ⟨index, pointer, points⟩ := knows.host text said
    refine ⟨index, sameHost.trans pointer, points.kept (by omega) fun position below => ?_⟩
    rw [outside position (.inl below)]
    exact lineCut_below (by omega)
  have whole : parsed.conn.Knows head := by
    have same : { head with path := none } = head := by rw [← unread]
    rw [← same]
    exact knows' none fun text said => by contradiction
  rw [body]
  cases target : lineTarget (cString content) with
  | missing =>
      have code : parsed.code = none := by rw [outcome.code, target]; rfl
      simp only [lineStep, code, Head.target]
      exact .ends _ _ _ whole unread'
  | rejected =>
      have code : parsed.code = some .badRequest := by rw [outcome.code, target]; rfl
      simp only [lineStep, code, Head.target]
      exact .ends _ _ _ whole unread'
  | path path =>
      have code : parsed.code = some .noRequest := by rw [outcome.code, target]; rfl
      obtain ⟨inHeader, index, url, string⟩ := outcome.found path target
      have inside := effect.pointer index url
      have zero : parsed.conn.readBuf (c.startLine + content.length) = 0 := by
        rw [outside _ (.inr (Nat.le_refl _))]
        exact store_zero _ _ _ (store_self _ _ _)
      have bound := string.bound inside.2 zero
      have points : parsed.conn.PointsTo index path := ⟨string, by omega⟩
      simp only [lineStep, code, Head.target]
      refine .goesOn _ _ ⟨knows' (some path) fun text said => ?_, inHeader⟩ unread'
      obtain rfl := Option.some.inj said
      exact ⟨index, url, points⟩

theorem written_empty_iff {c : HttpConn} {index : Nat} {text : List UInt8}
    (written : CString.Written readBufferSize c.readBuf index text) : c.readBuf index = 0 ↔ text = [] := by
  cases text with
  | nil => exact iff_of_true written.terminator rfl
  | cons byte text =>
      have here : c.readBuf index = byte := written.content 0 (by simp)
      rw [here]
      exact iff_of_false (written.nonzero byte List.mem_cons_self) (List.cons_ne_nil _ _)

theorem value_written {c : HttpConn} {text : Nat} {line name : List UInt8} {count : Nat}
    (written : CString.Written readBufferSize c.readBuf text line) (size : name.length = count)
    (matched : strncasecmpZero line name count = true) :
    CString.Written readBufferSize c.readBuf (headerValue c text name) (valueOf name line) := by
  subst size
  exact skipBlanks_written (written.drop (strncasecmpZero_split matched).2)

theorem header_taken {c : HttpConn} {head : Head} {content rest path : List UInt8}
    (here : c.Unread (content ++ cr :: lf :: rest)) (room : c.readIdx ≤ readBufferSize)
    (knows : c.Knows head) (state : c.checkState = .header) (said : head.path = some path) :
    LineTaken rest (head.field (fieldOf (cString content)))
      (loopBody (c.lineCut (c.startLine + content.length))) := by
  obtain ⟨written, line⟩ := here.lineWritten room
  have earlier := knows.cut content.length
  have body : loopBody (c.lineCut (c.startLine + content.length)) =
      lineStep (parseHeaders (c.pastLine content.length) c.startLine) := loopBody_header state
  have string : (c.pastLine content.length).str c.startLine = cString content := written.string
  have reading {next : HttpConn} {later : Head} (knows' : next.Knows later)
      (state' : next.checkState = .header) (said' : later.path = some path) : next.Reads later :=
    ⟨knows', by rw [state', said']⟩
  have behind {next : HttpConn} (readIdx : next.readIdx = c.readIdx)
      (checkedIdx : next.checkedIdx = c.startLine + content.length + 2)
      (startLine : next.startLine = c.startLine + content.length + 2)
      (readBuf : next.readBuf = (c.pastLine content.length).readBuf) : next.Unread rest :=
    here.next readIdx checkedIdx startLine fun position _ => congrFun readBuf position
  rw [body]
  simp only [parseHeaders, string, fieldOf, written_empty_iff written]
  by_cases blank : cString content = []
  · have contentLength : (c.pastLine content.length).contentLength = head.contentLength :=
      knows.contentLength
    simp only [if_pos blank, Head.field]
    by_cases some' : head.contentLength ≠ 0
    · rw [if_pos some', if_pos (contentLength.trans_ne some')]
      refine .entersContent _ _ ?_ rfl (behind rfl rfl rfl rfl)
      exact earlier.updated rfl rfl rfl rfl rfl rfl earlier.linger contentLength
    · rw [if_neg some', if_neg fun other => some' (contentLength ▸ other)]
      exact .ends _ _ _ earlier (behind rfl rfl rfl rfl)
  simp only [if_neg blank]
  by_cases connection : strncasecmpZero (cString content) (bytes "Connection:") 11 = true
  · have value : (c.pastLine content.length).str (headerValue (c.pastLine content.length) c.startLine
        (bytes "Connection:")) = valueOf (bytes "Connection:") (cString content) :=
      (value_written written rfl connection).string
    simp only [if_pos connection, value, Head.field]
    cases alive : strcasecmpZero (valueOf (bytes "Connection:") (cString content))
        (bytes "keep-alive") with
    | true =>
        refine .goesOn _ _ (reading ?_ state said) (behind rfl rfl rfl rfl)
        exact earlier.updated rfl rfl rfl rfl rfl rfl (Bool.or_true _).symm earlier.contentLength
    | false =>
        refine .goesOn _ _ (reading ?_ state said) (behind rfl rfl rfl rfl)
        exact earlier.updated rfl rfl rfl rfl rfl rfl (earlier.linger.trans (Bool.or_false _).symm)
          earlier.contentLength
  simp only [if_neg connection]
  by_cases length : strncasecmpZero (cString content) (bytes "Content-Length:") 15 = true
  · have value : (c.pastLine content.length).str (headerValue (c.pastLine content.length) c.startLine
        (bytes "Content-Length:")) = valueOf (bytes "Content-Length:") (cString content) :=
      (value_written written rfl length).string
    simp only [if_pos length, value, Head.field]
    refine .goesOn _ _ (reading ?_ state said) (behind rfl rfl rfl rfl)
    exact earlier.updated rfl rfl rfl rfl rfl rfl earlier.linger rfl
  simp only [if_neg length]
  by_cases host : strncasecmpZero (cString content) (bytes "Host:") 5 = true
  · have value := value_written written rfl host
    have inside := (headerValue_bounds line rfl (string ▸ host)).2.1
    have bound := value.bound inside.lower inside.zero
    have points : (c.pastLine content.length).PointsTo (headerValue (c.pastLine content.length)
        c.startLine (bytes "Host:")) (valueOf (bytes "Host:") (cString content)) :=
      ⟨value, by show _ < c.startLine + content.length + 2; omega⟩
    simp only [if_pos host, Head.field]
    refine .goesOn _ _ (reading ?_ state said) (behind rfl rfl rfl rfl)
    refine ⟨fun text same => ?_, fun none' => by contradiction, fun text same => ?_, earlier.linger,
      earlier.contentLength⟩
    · obtain ⟨index, pointer, here⟩ := earlier.url text same
      exact ⟨index, pointer, here.kept (Nat.le_refl _) fun _ _ => rfl⟩
    · obtain rfl := Option.some.inj same
      exact ⟨_, rfl, points.kept (Nat.le_refl _) fun _ _ => rfl⟩
  · simp only [if_neg host, Head.field]
    exact .goesOn _ _ (reading earlier state said) (behind rfl rfl rfl rfl)

theorem line_taken {c : HttpConn} {head : Head} {content rest : List UInt8}
    (here : c.Unread (content ++ cr :: lf :: rest)) (room : c.readIdx ≤ readBufferSize)
    (reads : c.Reads head) :
    LineTaken rest (head.line content) (loopBody (c.lineCut (c.startLine + content.length))) := by
  have state := reads.state
  cases said : head.path with
  | none =>
      simp only [said] at state
      simp only [Head.line, said]
      exact requestLine_taken here room reads.knows state said
  | some path =>
      simp only [said] at state
      simp only [Head.line, said]
      exact header_taken here room reads.knows state said

/-! The header phase. -/

theorem parseLine_line {c : HttpConn} {content rest : List UInt8}
    (here : c.Unread (content ++ cr :: lf :: rest)) (plain : Plain cr lf content) :
    parseLine c = (c.lineCut (c.startLine + content.length), .lineOk) := by
  have found := parseLine_found here
  rw [firstLine_line plain] at found
  generalize parseLine c = parsed at found
  cases found with
  | line _ _ _ _ => rfl

theorem headerPhase_goesOn {c : HttpConn} {head next : Head} {content rest : List UInt8}
    (here : c.Unread (content ++ cr :: lf :: rest)) (room : c.readIdx ≤ readBufferSize)
    (plain : Plain cr lf content) (reads : c.Reads head) (continued : head.line content = .ok next) :
    ∃ later, headerPhase c = headerPhase later ∧ later.Reads next ∧ later.Unread rest ∧
      later.readIdx = c.readIdx := by
  have taken := line_taken here room reads
  have found := parseLine_line here plain
  obtain ⟨ready, _⟩ := parseLine_ready c here.ordered reads.header (by rw [found])
  rw [found] at ready
  have readIdx := (loopBody_frame _ ready).2.1
  rw [continued] at taken
  rw [headerPhase_eq c here.ordered reads.header, found]
  simp only [if_true]
  generalize loopBody (c.lineCut (c.startLine + content.length)) = step at taken readIdx
  cases taken with
  | goesOn later _ reads' unread =>
      exact ⟨later, by simp only [reads'.header, if_false], reads', unread, readIdx⟩

theorem headerPhase_ends {c : HttpConn} {head : Head} {ending : Head.Ending}
    {content rest : List UInt8} (here : c.Unread (content ++ cr :: lf :: rest))
    (room : c.readIdx ≤ readBufferSize) (plain : Plain cr lf content) (reads : c.Reads head)
    (ended : head.line content = .error ending) :
    (headerPhase c).2 = some ending.1 ∧ (headerPhase c).1.Knows ending.2 ∧
      (headerPhase c).1.Unread rest := by
  have taken := line_taken here room reads
  rw [ended] at taken
  rw [headerPhase_eq c here.ordered reads.header, parseLine_line here plain]
  simp only [if_true]
  generalize loopBody (c.lineCut (c.startLine + content.length)) = step at taken
  cases taken with
  | entersContent next final knows inBody unread =>
      simp only [inBody, if_true]
      exact ⟨trivial, knows, unread⟩
  | ends stopped result final knows unread => exact ⟨rfl, knows, unread⟩

theorem headerPhase_lineOpen {c : HttpConn} {head : Head} {pending : List UInt8}
    (here : c.Unread pending) (reads : c.Reads head)
    (unfinished : firstLine cr lf pending = .unfinished) :
    (headerPhase c).2 = none ∧ (headerPhase c).1.Reads head ∧ (headerPhase c).1.Unread pending := by
  have found := parseLine_found here
  rw [unfinished] at found
  rw [headerPhase_eq c here.ordered reads.header]
  generalize parseLine c = parsed at found
  cases found with
  | unfinished stop unread =>
      simp only [reduceCtorEq, if_false]
      refine ⟨trivial, ⟨?_, reads.state⟩, unread⟩
      exact reads.knows.updated rfl rfl rfl rfl rfl rfl reads.knows.linger reads.knows.contentLength

theorem headerPhase_lineBad {c : HttpConn} {head : Head} {pending : List UInt8}
    (here : c.Unread pending) (reads : c.Reads head)
    (broken : firstLine cr lf pending = .broken) : (headerPhase c).2 = none := by
  have found := parseLine_found here
  rw [broken] at found
  rw [headerPhase_eq c here.ordered reads.header]
  generalize parseLine c = parsed at found
  cases found with
  | broken stop => simp only [reduceCtorEq, if_false]

def Means (result : HttpConn × Option HeaderEnd) : LineStream.Outcome UInt8 Head Head.Ending → Prop
  | .waits head pending => result.2 = none ∧ result.1.Reads head ∧ result.1.Unread pending
  | .broken => result.2 = none
  | .ends ending => result.2 = some ending.1 ∧ result.1.Knows ending.2

theorem headerPhase_means (head : Head) (pending : List UInt8) {c : HttpConn}
    (here : c.Unread pending) (room : c.readIdx ≤ readBufferSize) (reads : c.Reads head) :
    Means (headerPhase c) (feed cr lf Head.line head pending) := by
  induction head, pending using @feed.induct _ _ _ _ cr lf Head.line generalizing c with
  | case1 head pending found =>
      rw [feed_eq, found]
      exact headerPhase_lineOpen here reads found
  | case2 head pending found =>
      rw [feed_eq, found]
      exact headerPhase_lineBad here reads found
  | case3 head pending content rest found ending ended =>
      have cuts := firstLine_cuts cr lf pending
      rw [feed_eq, found]
      rw [found] at cuts
      cases cuts with
      | line _ _ plain =>
          obtain ⟨result, knows, _⟩ := headerPhase_ends here room plain reads ended
          simp only [ended]
          exact ⟨result, knows⟩
  | case4 head pending content rest found next continued ih =>
      have cuts := firstLine_cuts cr lf pending
      rw [feed_eq, found]
      rw [found] at cuts
      cases cuts with
      | line _ _ plain =>
          obtain ⟨later, same, reads', unread, readIdx⟩ :=
            headerPhase_goesOn here room plain reads continued
          simp only [continued]
          rw [same]
          exact ih unread (by omega) reads'

/-! What can be read off the connection, whatever has arrived behind the header. -/

structure Shows (c : HttpConn) (head : Head) : Prop where
  url : ∀ path ∈ head.path, c.url.map c.str = some path
  host : c.host.map c.str = head.host
  linger : c.linger = head.linger
  contentLength : c.contentLength = head.contentLength

theorem Knows.shows {c : HttpConn} {head : Head} (knows : c.Knows head) : c.Shows head := by
  refine ⟨fun path said => ?_, ?_, knows.linger, knows.contentLength⟩
  · obtain ⟨index, pointer, points⟩ := knows.url path said
    rw [pointer, Option.map_some]
    exact congrArg some points.written.string
  · cases said : head.host with
    | none => rw [knows.noHost said, Option.map_none]
    | some text =>
        obtain ⟨index, pointer, points⟩ := knows.host text said
        rw [pointer, Option.map_some]
        exact congrArg some points.written.string

/-- The verdict of the header and the request that has been read, for a stream of lines. -/
def HeaderMeans (result : HttpConn × Option HeaderEnd) :
    LineStream.Outcome UInt8 Head Head.Ending → Prop
  | .waits head _ => result.2 = none ∧ result.1.Shows head
  | .broken => result.2 = none
  | .ends ending => result.2 = some ending.1 ∧ result.1.Shows ending.2

theorem deliverHeader_means (c : HttpConn) (rounds : List Round) (solid : Solid rounds)
    (short : (delivered rounds).length < readBufferSize) :
    HeaderMeans (deliverHeader c.init rounds) (feed cr lf Head.line .start (delivered rounds)) := by
  have fresh : c.init.readIdx = 0 := rfl
  have start : c.init.Unread [] := .empty rfl ⟨Nat.le_refl _, Nat.le_refl _⟩ (Or.inl rfl)
  have arrived := start.receive (delivered rounds)
  rw [List.nil_append] at arrived
  have reads := (init_reads c).receive start.ordered (delivered rounds)
  obtain ⟨later, _, whole, url, host⟩ := deliverHeader_receive rounds c.init (init_headerState c)
    (init_settled c) solid (by omega)
  have means := headerPhase_means .start (delivered rounds) arrived
    (by rw [receive_readIdx]; omega) reads
  rw [whole] at means
  -- bytes behind the header do not change what its pointers stand for
  have shows' {head : Head} (shown : ((deliverHeader c.init rounds).1.receive later).Shows head) :
      (deliverHeader c.init rounds).1.Shows head := by
    refine ⟨fun path said => ?_, ?_, shown.linger, shown.contentLength⟩
    · rw [← url.string later]
      exact shown.url path said
    · rw [← host.string later]
      exact shown.host
  generalize feed cr lf Head.line .start (delivered rounds) = outcome at means
  cases outcome with
  | waits head pending => exact ⟨means.1, shows' means.2.1.knows.shows⟩
  | broken => exact means
  | ends ending => exact ⟨means.1, shows' means.2.shows⟩

end StudyRecord.Http.HttpConn
