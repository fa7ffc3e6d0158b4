import StudyRecord.Http.Bounds

/-!
Requests on a connection slot that is used again. `init` leaves some fields of the
slot as the last request left them; what the next request is and how it is
answered does not depend on them, nor on what lies outside the arrays.
-/

namespace StudyRecord.Http.HttpConn

open CString Machine

def truncate (size : Nat) (buffer : Buffer) : Buffer :=
  fun index => if index < size then buffer index else 0

theorem truncate_below {size index : Nat} (buffer : Buffer) (inside : index < size) :
    truncate size buffer index = buffer index := by
  simp only [truncate, inside, if_true]

theorem truncate_store (size index : Nat) (buffer : Buffer) :
    store (truncate size buffer) index 0 = truncate size (store buffer index 0) := by
  funext position
  by_cases same : position = index
  · simp only [store, truncate, same, if_true, ite_self]
  · simp only [store, truncate, same, if_false]

theorem truncate_storeInt (size : Nat) (index : Int) (buffer : Buffer) :
    storeInt (truncate size buffer) index 0 = truncate size (storeInt buffer index 0) := by
  simp only [storeInt]
  split
  · exact truncate_store size index.toNat buffer
  · rfl

theorem truncate_copyIn {size start : Nat} (buffer : Buffer) {data : List UInt8}
    (fits : start + data.length ≤ size) :
    copyIn (truncate size buffer) start data = truncate size (copyIn buffer start data) := by
  funext position
  by_cases inside : start ≤ position ∧ position < start + data.length
  · have below : position < size := by omega
    simp only [copyIn, truncate, inside, below, and_self, if_true]
  · simp only [copyIn, truncate, inside, if_false]

theorem stringFrom_truncate (size : Nat) (buffer : Buffer) (room start : Nat)
    (inside : start + room ≤ size) :
    stringFrom (truncate size buffer) room start = stringFrom buffer room start := by
  induction room generalizing start with
  | zero => rfl
  | succ room ih =>
      have below : start < size := by omega
      simp only [stringFrom, truncate_below buffer below]
      rw [ih (start + 1) (by omega)]

theorem stringAt_truncate (size : Nat) (buffer : Buffer) (start : Nat) :
    stringAt size (truncate size buffer) start = stringAt size buffer start := by
  by_cases inside : start ≤ size
  · exact stringFrom_truncate size buffer _ start (by omega)
  · have none : size - start = 0 := by omega
    simp only [stringAt, none, stringFrom]

/-- A connection without the fields that `init` does not set. -/
def forget (c : HttpConn) : HttpConn :=
  { c with
    sockfd := zeroed.sockfd
    timer := zeroed.timer
    readBuf := truncate readBufferSize c.readBuf
    writeBuf := truncate writeBufferSize c.writeBuf
    realFile := truncate filenameLen c.realFile
    fileAddress := zeroed.fileAddress
    fileStat := zeroed.fileStat
    iv0 := zeroed.iv0
    iv1 := zeroed.iv1
    ivCount := zeroed.ivCount
    taskState := zeroed.taskState }

theorem init_forget (first second : HttpConn) : first.init.forget = second.init.forget := by
  have cleared (size : Nat) (one two : Buffer) :
      truncate size (memset one 0 size) = truncate size (memset two 0 size) := by
    funext index
    simp only [truncate, memset]
    split <;> rfl
  simp only [init, forget, cleared _ first.readBuf second.readBuf,
    cleared _ first.writeBuf second.writeBuf, cleared _ first.realFile second.realFile]

/-! Parsing. -/

@[simp] theorem forget_str (c : HttpConn) (start : Nat) : c.forget.str start = c.str start :=
  stringAt_truncate readBufferSize c.readBuf start

theorem forget_readBuf (c : HttpConn) {index : Nat} (inside : index < readBufferSize) :
    c.forget.readBuf index = c.readBuf index :=
  truncate_below c.readBuf inside

theorem forget_cut (c : HttpConn) (index : Nat) : c.forget.cut index = (c.cut index).forget := by
  simp only [cut, forget, truncate_store]

theorem parseLineLoop_forget (left : Nat) (c : HttpConn) (whole : c.checkedIdx + left = c.readIdx)
    (capacity : c.readIdx ≤ readBufferSize) :
    parseLineLoop left c.forget =
      ((parseLineLoop left c).1.forget, (parseLineLoop left c).2) := by
  induction left generalizing c with
  | zero => rfl
  | succ left ih =>
      have later := ih { c with checkedIdx := c.checkedIdx + 1 } (by simp only; omega) capacity
      have here := forget_readBuf c (show c.checkedIdx < readBufferSize by omega)
      have checked : c.forget.checkedIdx = c.checkedIdx := rfl
      have read : c.forget.readIdx = c.readIdx := rfl
      simp only [parseLineLoop, checked, read, here]
      by_cases isCr : c.readBuf c.checkedIdx = cr
      · simp only [isCr, if_true]
        by_cases last : c.checkedIdx + 1 = c.readIdx
        · simp only [last, if_true]
        · have next := forget_readBuf c (show c.checkedIdx + 1 < readBufferSize by omega)
          simp only [last, if_false, next]
          by_cases isLf : c.readBuf (c.checkedIdx + 1) = lf
          · simp only [isLf, if_true, forget, truncate_store]
          · simp only [isLf, if_false]
      · simp only [isCr, if_false]
        by_cases isLf : c.readBuf c.checkedIdx = lf
        · have before := forget_readBuf c (show c.checkedIdx - 1 < readBufferSize by omega)
          simp only [isLf, if_true, before]
          by_cases afterCr : c.checkedIdx > 1 ∧ c.readBuf (c.checkedIdx - 1) = cr
          · simp only [afterCr, and_self, if_true, forget, truncate_store]
          · simp only [afterCr, if_false]
        · simp only [isLf, if_false]
          exact later

theorem parseLine_forget (c : HttpConn) (bounded : c.Bounded) :
    parseLine c.forget = ((parseLine c).1.forget, (parseLine c).2) := by
  have inside := bounded.ordered.checked
  have whole : c.checkedIdx + (c.readIdx - c.checkedIdx) = c.readIdx := by omega
  exact parseLineLoop_forget _ c whole bounded.capacity

def Parsed.forget (parsed : Parsed) : Parsed := { parsed with conn := parsed.conn.forget }

theorem Parsed.forget_after (reads : List (Option Nat)) (parsed : Parsed) :
    (Parsed.after reads parsed).forget = Parsed.after reads parsed.forget := rfl

theorem parseUrl_forget {c : HttpConn} {url final : Nat} (line : c.Terminated url final)
    (capacity : c.readIdx ≤ readBufferSize) :
    parseUrl c.forget url = (parseUrl c url).forget := by
  have strips (start : Nat) (scheme : List UInt8) :
      stripScheme c.forget start scheme = stripScheme c start scheme ∧
        schemeReads c.forget start scheme = schemeReads c start scheme := by
    simp only [stripScheme, schemeReads, forget_str, and_self]
  simp only [parseUrl, strips]
  cases first : stripScheme c url (bytes "http://") with
  | none => rfl
  | some host =>
      have rest := line.tail (stripScheme_bounds line first).2
      simp only
      cases second : stripScheme c host (bytes "https://") with
      | none => rfl
      | some path =>
          have inside := (stripScheme_bounds rest second).2
          have received := line.received
          have here := forget_readBuf c (show path < readBufferSize by omega)
          simp only [here]
          split <;> rfl

theorem checkVersion_forget {c : HttpConn} {url version final : Nat}
    (line : c.Terminated url final) (capacity : c.readIdx ≤ readBufferSize) :
    checkVersion c.forget url version = (checkVersion c url version).forget := by
  have known : { c with version := some version }.Terminated url final :=
    ⟨line.lower, line.received, line.zero⟩
  have urls : parseUrl { c.forget with version := some version } url =
      (parseUrl { c with version := some version } url).forget := parseUrl_forget known capacity
  have string : { c.forget with version := some version }.str version =
      { c with version := some version }.str version := forget_str _ version
  simp only [checkVersion, urls, string]
  split <;> rfl

theorem parseVersion_forget {c : HttpConn} {url final : Nat} (line : c.Terminated url final)
    (capacity : c.readIdx ≤ readBufferSize) :
    parseVersion c.forget url = (parseVersion c url).forget := by
  obtain ⟨next, same⟩ : ∃ next : HttpConn, next = { c with url := some url } := ⟨_, rfl⟩
  have line : next.Terminated url final := by
    subst next
    exact ⟨line.lower, line.received, line.zero⟩
  have capacity : next.readIdx ≤ readBufferSize := by
    subst next
    exact capacity
  have both : { c.forget with url := some url } = next.forget := by
    subst next
    rfl
  simp only [parseVersion, both, ← same, forget_str]
  cases found : strpbrk blanks (next.str url) with
  | none => rfl
  | some offset =>
      have cutLine := line.cut (url + offset)
      simp only [forget_cut, skipBlanks, forget_str, checkVersion_forget cutLine capacity,
        Parsed.forget_after]

theorem parseRequestLine_forget {c : HttpConn} {text final : Nat} (line : c.Terminated text final)
    (capacity : c.readIdx ≤ readBufferSize) :
    parseRequestLine c.forget text = (parseRequestLine c text).forget := by
  simp only [parseRequestLine, forget_str]
  cases found : strpbrk blanks (c.str text) with
  | none => rfl
  | some offset =>
      have inside := strpbrk_lt found
      have whole := line.length
      have cutLine := line.cut (text + offset)
      obtain ⟨next, same⟩ : ∃ next : HttpConn, next = { c.cut (text + offset) with method := .get } :=
        ⟨_, rfl⟩
      have nextLine : next.Terminated text final := by
        subst next
        exact ⟨cutLine.lower, cutLine.received, cutLine.zero⟩
      have capacity : next.readIdx ≤ readBufferSize := by
        subst next
        exact capacity
      have both : { (c.cut (text + offset)).forget with method := .get } = next.forget := by
        subst next
        rfl
      have url := nextLine.tail (show text + offset + 1 ≤ final by omega)
      have skipped := nextLine.tail (skipBlanks_bounds url).2
      have blanks : next.forget.skipBlanks (text + offset + 1) = next.skipBlanks (text + offset + 1) := by
        simp only [skipBlanks, forget_str]
      simp only [forget_cut, forget_str, both, ← same, blanks, parseVersion_forget skipped capacity]
      split
      · rw [Parsed.forget_after]
      · rfl

theorem parseHeaders_forget {c : HttpConn} {text final : Nat} (line : c.Terminated text final)
    (capacity : c.readIdx ≤ readBufferSize) :
    parseHeaders c.forget text = (parseHeaders c text).forget := by
  have lower := line.lower
  have received := line.received
  have here := forget_readBuf c (show text < readBufferSize by omega)
  have amount : c.forget.contentLength = c.contentLength := rfl
  have values (name : List UInt8) : headerValue c.forget text name = headerValue c text name := by
    simp only [headerValue, skipBlanks, forget_str]
  simp only [parseHeaders, valueReads, here, amount, forget_str, values]
  split
  · split <;> rfl
  split
  · split <;> rfl
  split
  · rfl
  split <;> rfl

theorem parseContent_forget (c : HttpConn) (text : Nat) :
    parseContent c.forget text = ((parseContent c text).1.forget, (parseContent c text).2) := by
  have sum : contentSum c.forget = contentSum c := rfl
  have index : contentIndex c.forget text = contentIndex c text := rfl
  have read : c.forget.readIdx = c.readIdx := rfl
  simp only [parseContent, sum, index, read]
  split
  · simp only [forget, truncate_storeInt]
  · rfl

/-! The loop. -/

def LoopStep.forget : LoopStep → LoopStep
  | .next c status => .next c.forget status
  | .stop c ending => .stop c.forget ending

theorem lineStep_forget (parsed : Parsed) : lineStep parsed.forget = (lineStep parsed).forget := by
  simp only [lineStep, Parsed.forget]
  split <;> rfl

theorem contentStep_forget (parsed : HttpConn × HttpCode) :
    contentStep (parsed.1.forget, parsed.2) = (contentStep parsed).forget := by
  simp only [contentStep]
  split <;> rfl

theorem loopBody_forget {c : HttpConn} (ready : c.LineReady) (capacity : c.readIdx ≤ readBufferSize) :
    loopBody c.forget = (loopBody c).forget := by
  obtain ⟨next, same⟩ : ∃ next : HttpConn, next = { c with startLine := c.checkedIdx } := ⟨_, rfl⟩
  have both : { c.forget with startLine := c.forget.checkedIdx } = next.forget := by
    subst next
    rfl
  have known : next.readIdx ≤ readBufferSize := by
    subst next
    exact capacity
  have start : c.forget.startLine = c.startLine := rfl
  cases state : c.checkState with
  | requestLine =>
      obtain ⟨final, line⟩ := ready.line (by rw [state]; decide)
      rw [← same] at line
      have forgotten : c.forget.checkState = .requestLine := state
      simp only [loopBody, both, ← same, start]
      simp only [state, forgotten]
      rw [parseRequestLine_forget line known, lineStep_forget]
  | header =>
      obtain ⟨final, line⟩ := ready.line (by rw [state]; decide)
      rw [← same] at line
      have forgotten : c.forget.checkState = .header := state
      simp only [loopBody, both, ← same, start]
      simp only [state, forgotten]
      rw [parseHeaders_forget line known, lineStep_forget]
  | content =>
      have forgotten : c.forget.checkState = .content := state
      simp only [loopBody, both, ← same, start]
      simp only [state, forgotten]
      rw [parseContent_forget, contentStep_forget]

theorem loopGuard_forget {c : HttpConn} (status : LineStatus) (bounded : c.Bounded) :
    loopGuard c.forget status = ((loopGuard c status).1.forget, (loopGuard c status).2) := by
  have state : c.forget.checkState = c.checkState := rfl
  simp only [loopGuard, state, parseLine_forget c bounded]
  split <;> rfl

theorem loopStep_forget {c : HttpConn} (status : LineStatus) (bounded : c.Bounded) :
    loopStep c.forget status = (loopStep c status).forget := by
  have ready := loopGuard_ready c status bounded.ordered
  have guarded := loopGuard_ordered c status bounded.ordered
  have capacity := bounded.capacity
  simp only [loopStep, loopGuard_forget status bounded]
  generalize loopGuard c status = result at ready guarded
  obtain ⟨next, found⟩ := result
  cases found with
  | lineOk => exact loopBody_forget (ready rfl) (by omega)
  | lineBad => rfl
  | lineOpen => rfl

theorem readLoop_forget (fuel : Nat) {c : HttpConn} (status : LineStatus) (bounded : c.Bounded) :
    readLoop fuel c.forget status =
      ((readLoop fuel c status).1.forget, (readLoop fuel c status).2) := by
  induction fuel generalizing c status with
  | zero => rfl
  | succ fuel ih =>
      have later := loopStep_bounded c status bounded
      simp only [readLoop, loopStep_forget status bounded]
      cases stepped : loopStep c status with
      | stop stopped ending => rfl
      | next next status' =>
          rw [stepped] at later
          exact ih status' later

theorem scan_forget {c : HttpConn} (bounded : c.Bounded) :
    scan c.forget = ((scan c).1.forget, (scan c).2) :=
  readLoop_forget (loopFuel c .lineOk) .lineOk bounded

theorem receive_forget (c : HttpConn) {arrived : List UInt8}
    (room : c.readIdx + arrived.length ≤ readBufferSize) :
    c.forget.receive arrived = (c.receive arrived).forget := by
  have read : c.forget.readIdx = c.readIdx := rfl
  have buffer : c.forget.readBuf = truncate readBufferSize c.readBuf := rfl
  simp only [receive, read, buffer, truncate_copyIn c.readBuf room]
  rfl

theorem recvLoop_forget (results : List Recv) {c : HttpConn} (capacity : c.readIdx ≤ readBufferSize) :
    recvLoop results c.forget = ((recvLoop results c).1.forget, (recvLoop results c).2) := by
  induction results generalizing c with
  | nil => rfl
  | cons result rest ih =>
      cases result with
      | error => rfl
      | data waiting =>
          have read : c.forget.readIdx = c.readIdx := rfl
          have taken : (waiting.take (readBufferSize - c.readIdx)).length ≤
              readBufferSize - c.readIdx := List.length_take_le _ _
          simp only [recvLoop, read]
          split
          · rfl
          · rw [receive_forget c (by omega)]
            exact ih (by rw [receive_readIdx]; omega)

theorem read_forget (results : List Recv) {c : HttpConn} (capacity : c.readIdx ≤ readBufferSize) :
    read c.forget results = ((read c results).1.forget, (read c results).2) := by
  have same : c.forget.readIdx = c.readIdx := rfl
  simp only [read, same]
  split
  · rfl
  · exact recvLoop_forget results capacity

/-! The file that is asked for. -/

theorem truncate_truncate (size : Nat) (buffer : Buffer) :
    truncate size (truncate size buffer) = truncate size buffer := by
  funext index
  simp only [truncate]
  split <;> rfl

theorem buildRealFile_forget (c : HttpConn) (url : Nat) :
    buildRealFile c.forget url = truncate filenameLen (buildRealFile c url) := by
  have buffer : c.forget.realFile = truncate filenameLen c.realFile := rfl
  have root : docRoot.length = 1 := by decide
  have size : filenameLen = 200 := rfl
  have taken : ((c.str url).take (filenameLen - docRoot.length - 1)).length ≤
      filenameLen - docRoot.length - 1 := List.length_take_le _ _
  have first : 0 + (docRoot ++ [0]).length ≤ filenameLen := by decide
  simp only [buildRealFile, forget_str, buffer]
  rw [truncate_copyIn _ first, truncate_copyIn]
  rw [List.length_append, List.length_replicate]
  omega

structure SameRead (first second : HttpConn × Option HttpCode) : Prop where
  verdict : first.2 = second.2
  conn : first.1.forget = second.1.forget
  file : first.2 = some .fileRequest →
    first.1.fileStat = second.1.fileStat ∧ first.1.fileAddress = second.1.fileAddress

theorem SameRead.noFile {first second : HttpConn} {verdict : Option HttpCode}
    (conn : first.forget = second.forget) (other : verdict ≠ some .fileRequest) :
    SameRead (first, verdict) (second, verdict) :=
  ⟨rfl, conn, fun file => absurd file other⟩

theorem forget_forget (c : HttpConn) : c.forget.forget = c.forget := by
  simp only [forget, truncate_truncate]

def requestFile (c : HttpConn) (fs : FileSystem) : HttpConn × Option HttpCode :=
  match fs.stat c.realPath with
  | none => (c, some .noResource)
  | some stat =>
      let c := { c with fileStat := stat }
      if !stat.othersRead then (c, some .forbiddenRequest)
      else if stat.isDir then (c, some .badRequest)
      else ({ c with fileAddress := fs.mmap c.realPath stat.size }, some .fileRequest)

theorem doRequest_eq (c : HttpConn) (fs : FileSystem) :
    doRequest c fs =
      match c.url with
      | none => (c, none)
      | some url => requestFile { c with realFile := buildRealFile c url } fs := rfl

theorem requestFile_forget (c : HttpConn) (fs : FileSystem) :
    SameRead (requestFile c.forget fs) (requestFile c fs) := by
  have path : c.forget.realPath = c.realPath := stringAt_truncate filenameLen c.realFile 0
  simp only [requestFile, path]
  cases fs.stat c.realPath with
  | none => exact .noFile (forget_forget c) (by decide)
  | some stat =>
      have recorded : { c.forget with fileStat := stat }.forget =
          { c with fileStat := stat }.forget := forget_forget c
      have samePath : { c.forget with fileStat := stat }.realPath =
          { c with fileStat := stat }.realPath := path
      simp only [samePath]
      split
      · exact .noFile recorded (by decide)
      · split
        · exact .noFile recorded (by decide)
        · exact ⟨rfl, recorded, fun _ => ⟨rfl, rfl⟩⟩

theorem doRequest_forget (c : HttpConn) (fs : FileSystem) :
    SameRead (doRequest c.forget fs) (doRequest c fs) := by
  have url : c.forget.url = c.url := rfl
  have both (url : Nat) : { c.forget with realFile := buildRealFile c.forget url } =
      { c with realFile := buildRealFile c url }.forget := by
    rw [buildRealFile_forget]
    rfl
  simp only [doRequest_eq, url]
  split
  · exact .noFile (forget_forget c) (by decide)
  · rename_i url _
    have same := requestFile_forget { c with realFile := buildRealFile c url } fs
    rw [← both url] at same
    exact same

theorem readLoop_returns (fuel : Nat) (c : HttpConn) (status : LineStatus) {code : HttpCode}
    (returned : (readLoop fuel c status).2 = .returns code) : code ≠ .fileRequest := by
  have line {parsed : Parsed} {stopped : HttpConn} {code : HttpCode}
      (stop : lineStep parsed = .stop stopped (.returns code)) : code ≠ .fileRequest := by
    simp only [lineStep] at stop
    split at stop <;> simp only [LoopStep.stop.injEq, reduceCtorEq, and_false] at stop
    rw [← ReadEnd.returns.inj stop.2]
    decide
  have body {c stopped : HttpConn} {code : HttpCode}
      (stop : loopBody c = .stop stopped (.returns code)) : code ≠ .fileRequest := by
    simp only [loopBody] at stop
    split at stop
    · exact line stop
    · exact line stop
    · have ending := contentStep_ending stop
      contradiction
  induction fuel generalizing c status with
  | zero =>
      rw [← ReadEnd.returns.inj returned]
      decide
  | succ fuel ih =>
      simp only [readLoop] at returned
      cases stepped : loopStep c status with
      | next next status' =>
          rw [stepped] at returned
          exact ih next status' returned
      | stop stopped ending =>
          rw [stepped] at returned
          obtain rfl : ending = .returns code := returned
          simp only [loopStep] at stepped
          split at stepped
          · exact body stepped
          · rw [LoopStep.stop.injEq] at stepped
            rw [← ReadEnd.returns.inj stepped.2]
            decide

theorem processRead_forget {c : HttpConn} (fs : FileSystem) (bounded : c.Bounded) :
    SameRead (processRead c.forget fs) (processRead c fs) := by
  have returns (code : HttpCode) (same : (scan c).2 = .returns code) : code ≠ .fileRequest :=
    readLoop_returns (loopFuel c .lineOk) c .lineOk same
  simp only [processRead, scan_forget bounded]
  generalize scan c = result at returns
  obtain ⟨next, ending⟩ := result
  cases ending with
  | returns code =>
      exact .noFile (forget_forget next) fun file => returns code rfl (Option.some.inj file)
  | callsDoRequest => exact doRequest_forget next fs
  | nullDereference => exact .noFile (forget_forget next) (by decide)

/-! The answer. -/

structure Formats (call : HttpConn → HttpConn × Bool) : Prop where
  blind : ∀ c, call c.forget = ((call c).1.forget, (call c).2)
  room : ∀ c, c.writeIdx ≤ writeBufferSize → (call c).1.writeIdx ≤ writeBufferSize

theorem addResponse_formats (text : HttpConn → List UInt8)
    (blind : ∀ c : HttpConn, text c.forget = text c) :
    Formats fun c => addResponse c (text c) := by
  constructor
  · intro c
    have index : c.forget.writeIdx = c.writeIdx := rfl
    simp only [addResponse, index, blind]
    by_cases full : c.writeIdx ≥ writeBufferSize
    · simp only [full, if_true]
    · simp only [full, if_false]
      obtain ⟨written, same⟩ : ∃ written, written = if writeBufferSize - c.writeIdx - 1 = 0 then []
        else (text c).take (writeBufferSize - c.writeIdx - 1 - 1) ++ [0] := ⟨_, rfl⟩
      have fits : c.writeIdx + written.length ≤ writeBufferSize := by
        rw [same]
        split
        · simp only [List.length_nil]
          omega
        · have taken : ((text c).take (writeBufferSize - c.writeIdx - 1 - 1)).length ≤
              writeBufferSize - c.writeIdx - 1 - 1 := List.length_take_le _ _
          rw [List.length_append, List.length_singleton]
          omega
      have buffer : c.forget.writeBuf = truncate writeBufferSize c.writeBuf := rfl
      simp only [← same, buffer, truncate_copyIn c.writeBuf fits]
      split <;> rfl
  · intro c inside
    simp only [addResponse]
    split
    · exact inside
    · split
      · exact inside
      · simp only
        omega

theorem Formats.andThen {first second : HttpConn → HttpConn × Bool} (early : Formats first)
    (late : Formats second) : Formats fun c => HttpConn.andThen (first c) second := by
  constructor
  · intro c
    simp only [HttpConn.andThen, early.blind]
    split
    · exact late.blind _
    · rfl
  · intro c inside
    simp only [HttpConn.andThen]
    split
    · exact late.room _ (early.room c inside)
    · exact early.room c inside

theorem addStatusLine_formats (status : Int) (title : List UInt8) :
    Formats fun c => addStatusLine c status title :=
  addResponse_formats _ fun _ => rfl

theorem addHeaders_formats (contentLen : Int) : Formats fun c => addHeaders c contentLen := by
  have length : Formats fun c => addContentLength c contentLen := addResponse_formats _ fun _ => rfl
  have linger : Formats addLinger :=
    addResponse_formats (fun c => bytes "Connection:" ++
      (if c.linger then bytes "keep-alive" else bytes "close") ++ bytes "\r\n") fun _ => rfl
  have blank : Formats addBlankLine := addResponse_formats (fun _ => bytes "\r\n") fun _ => rfl
  exact (length.andThen linger).andThen blank

theorem addPage_formats (status : Int) (title content : List UInt8) :
    Formats fun c => addPage c status title content := by
  have line := addStatusLine_formats status title
  have headers := addHeaders_formats (toInt content.length)
  have page : Formats fun c => addContent c content := addResponse_formats (fun _ => content) fun _ => rfl
  constructor
  · intro c
    simp only [addPage, line.blind, headers.blind]
    exact page.blind _
  · intro c inside
    exact page.room _ (headers.room _ (line.room c inside))

def byteAt (c : HttpConn) (memory : Nat → Int → UInt8) (pointer : Pointer) : UInt8 :=
  match pointer.region with
  | .writeBuf => c.writeBuf pointer.offset.toNat
  | .mapping address => memory address pointer.offset

def contents (c : HttpConn) (memory : Nat → Int → UInt8) : List (List UInt8) :=
  c.iov.map fun iov => iov.bytes.map (c.byteAt memory)

theorem contents_same {first second : HttpConn} (memory : Nat → Int → UInt8)
    (buffers : truncate writeBufferSize first.writeBuf = truncate writeBufferSize second.writeBuf)
    (iov : first.iov = second.iov)
    (inside : ∀ iov ∈ first.iov, ∀ pointer ∈ iov.bytes, pointer.region = .writeBuf →
      pointer.offset.toNat < writeBufferSize) :
    first.contents memory = second.contents memory := by
  simp only [contents, ← iov]
  apply List.map_congr_left
  intro vector member
  apply List.map_congr_left
  intro pointer place
  have bound := inside vector member pointer place
  simp only [byteAt]
  cases region : pointer.region with
  | mapping address => rfl
  | writeBuf =>
      have byte := congrFun buffers pointer.offset.toNat
      rw [truncate_below _ (bound region), truncate_below _ (bound region)] at byte
      exact byte

structure SameWrite (first second : HttpConn × Bool) : Prop where
  returned : first.2 = second.2
  amount : first.1.bytesToSend = second.1.bytesToSend
  contents : first.2 = true → ∀ memory, first.1.contents memory = second.1.contents memory

theorem header_inside {len : Nat} (room : len ≤ writeBufferSize) :
    ∀ pointer ∈ Iovec.bytes ⟨⟨.writeBuf, 0⟩, len⟩, pointer.region = .writeBuf →
      pointer.offset.toNat < writeBufferSize := by
  intro pointer member _
  obtain ⟨index, below, rfl⟩ := List.mem_map.mp member
  have below : index < len := List.mem_range.mp below
  simp only [Pointer.move]
  omega

structure SameFields (first second : HttpConn) : Prop where
  writeIdx : first.writeIdx = second.writeIdx
  bytesToSend : first.bytesToSend = second.bytesToSend
  buffers : truncate writeBufferSize first.writeBuf = truncate writeBufferSize second.writeBuf

theorem sameFields {first second : HttpConn} (same : first.forget = second.forget) :
    SameFields first second := by
  constructor
  · have kept : first.forget.writeIdx = second.forget.writeIdx := by rw [same]
    exact kept
  · have kept : first.forget.bytesToSend = second.forget.bytesToSend := by rw [same]
    exact kept
  · have kept : first.forget.writeBuf = second.forget.writeBuf := by rw [same]
    exact kept

theorem sendBuffer_same {first second : HttpConn × Bool} (same : first.1.forget = second.1.forget)
    (returned : first.2 = second.2) (room : first.1.writeIdx ≤ writeBufferSize) :
    SameWrite (sendBuffer first) (sendBuffer second) := by
  obtain ⟨writeIdx, bytesToSend, buffers⟩ := sameFields same
  simp only [sendBuffer, ← returned, ← writeIdx]
  split
  · refine ⟨rfl, rfl, fun _ memory => contents_same memory buffers rfl ?_⟩
    intro iov member
    obtain rfl : iov = ⟨⟨.writeBuf, 0⟩, first.1.writeIdx⟩ := List.mem_singleton.mp member
    exact header_inside room
  · exact ⟨rfl, bytesToSend, fun sent => by contradiction⟩

theorem Formats.same {call : HttpConn → HttpConn × Bool} (formats : Formats call)
    {first second : HttpConn} (same : first.forget = second.forget) :
    (call first).1.forget = (call second).1.forget ∧ (call first).2 = (call second).2 := by
  have left := formats.blind first
  have right := formats.blind second
  rw [same] at left
  exact Prod.mk.inj (left.symm.trans right)

theorem sendPage_same {call : HttpConn → HttpConn × Bool} (formats : Formats call)
    {first second : HttpConn} (same : first.forget = second.forget)
    (room : first.writeIdx ≤ writeBufferSize) :
    SameWrite (sendBuffer (call first)) (sendBuffer (call second)) :=
  sendBuffer_same (formats.same same).1 (formats.same same).2 (formats.room first room)

theorem sendFile_same {first second : HttpConn} (same : first.forget = second.forget)
    (stat : first.fileStat = second.fileStat) (address : first.fileAddress = second.fileAddress)
    (room : first.writeIdx ≤ writeBufferSize) : SameWrite (sendFile first) (sendFile second) := by
  have line := addStatusLine_formats 200 ok200Title
  have headers := addHeaders_formats (toInt first.fileStat.size)
  have lines := (line.same same).1
  have written := (headers.same lines).1
  have within := headers.room _ (line.room first room)
  have kept (c : HttpConn) (contentLen : Int) :
      (addHeaders (addStatusLine c 200 ok200Title).1 contentLen).1.fileStat = c.fileStat ∧
        (addHeaders (addStatusLine c 200 ok200Title).1 contentLen).1.fileAddress = c.fileAddress := by
    have appends := (addStatusLine_appends c 200 ok200Title).trans (addHeaders_appends _ contentLen)
    rw [appends.frame]
    exact ⟨rfl, rfl⟩
  obtain ⟨writeIdx, _, buffers⟩ := sameFields written
  have firstKept := kept first (toInt first.fileStat.size)
  have secondKept := kept second (toInt first.fileStat.size)
  have statLine : (addStatusLine first 200 ok200Title).1.fileStat = first.fileStat := by
    rw [(addStatusLine_appends first 200 ok200Title).frame]
  have statLine' : (addStatusLine second 200 ok200Title).1.fileStat = first.fileStat := by
    rw [(addStatusLine_appends second 200 ok200Title).frame]
    exact stat.symm
  simp only [sendFile, statLine, statLine', firstKept, secondKept, ← stat, ← address, ← writeIdx]
  refine ⟨rfl, rfl, fun _ memory => contents_same memory buffers rfl ?_⟩
  intro iov member
  rcases List.mem_cons.mp member with header | file
  · rw [header]
    exact header_inside within
  · obtain rfl := List.mem_singleton.mp file
    intro pointer place region
    obtain ⟨index, _, rfl⟩ := List.mem_map.mp place
    contradiction

theorem processWrite_same {first second : HttpConn} (same : first.forget = second.forget)
    (room : first.writeIdx ≤ writeBufferSize) (code : HttpCode)
    (file : code = .fileRequest →
      first.fileStat = second.fileStat ∧ first.fileAddress = second.fileAddress) :
    SameWrite (processWrite first code) (processWrite second code) := by
  have amount := (sameFields same).bytesToSend
  have refused : SameWrite (first, false) (second, false) :=
    ⟨rfl, amount, fun sent => by contradiction⟩
  cases code with
  | internalError => exact sendPage_same (addPage_formats 500 error500Title error500Form) same room
  | noResource => exact sendPage_same (addPage_formats 404 error404Title error404Form) same room
  | forbiddenRequest => exact sendPage_same (addPage_formats 403 error403Title error403Form) same room
  | fileRequest =>
      obtain ⟨stat, address⟩ := file rfl
      simp only [processWrite, ← stat]
      split
      · exact sendFile_same same stat address room
      · exact sendPage_same (addPage_formats 200 ok200Title okString) same room
  | noRequest => exact refused
  | getRequest => exact refused
  | badRequest => exact refused
  | closedConnection => exact refused

/-! A request and its answer, chunk after chunk. -/

/-- What can be seen of the calls for one chunk: a failed `read`, the result of
`process_read` with the file and the kind of the connection, and the prepared response. -/
inductive Observed
  | refused
  | parsed (verdict : Option HttpCode) (realFile : List UInt8) (linger : Bool)
  | prepared (returned : Bool) (bytesToSend : Int) (iovecs : Option (List (List UInt8)))
  deriving DecidableEq

def fileName (c : HttpConn) : List UInt8 := (List.range filenameLen).map c.realFile

def exchange (memory : Nat → Int → UInt8) (c : HttpConn) : List (List Recv × FileSystem) → List Observed
  | [] => []
  | (results, fs) :: rest =>
      let received := read c results
      if received.2 then
        let parsed := processRead received.1 fs
        .parsed parsed.2 parsed.1.fileName parsed.1.linger ::
          match parsed.2 with
          | none => []
          | some .noRequest => exchange memory parsed.1 rest
          | some code =>
              let written := processWrite parsed.1 code
              [.prepared written.2 written.1.bytesToSend
                (if written.2 then some (written.1.contents memory) else none)]
      else [.refused]

theorem fileName_same {first second : HttpConn} (same : first.forget = second.forget) :
    first.fileName = second.fileName := by
  have files : first.forget.realFile = second.forget.realFile := by rw [same]
  have files : truncate filenameLen first.realFile = truncate filenameLen second.realFile := files
  simp only [fileName]
  apply List.map_congr_left
  intro index member
  have inside : index < filenameLen := List.mem_range.mp member
  have byte := congrFun files index
  rw [truncate_below _ inside, truncate_below _ inside] at byte
  exact byte

theorem linger_same {first second : HttpConn} (same : first.forget = second.forget) :
    first.linger = second.linger := by
  have kept : first.forget.linger = second.forget.linger := by rw [same]
  exact kept

theorem read_same {first second : HttpConn} (same : first.forget = second.forget)
    (left : first.Bounded) (right : second.Bounded) (results : List Recv) :
    (read first results).1.forget = (read second results).1.forget ∧
      (read first results).2 = (read second results).2 := by
  have one := read_forget results left.capacity
  have two := read_forget results right.capacity
  rw [same] at one
  exact Prod.mk.inj (one.symm.trans two)

theorem read_keeps {c : HttpConn} (bounded : c.Bounded) (results : List Recv) :
    (read c results).1.Bounded ∧ (read c results).1.writeIdx = c.writeIdx := by
  obtain ⟨arrived, same, room⟩ := read_receive c results
  rw [same]
  exact ⟨receive_bounded c arrived bounded (room bounded.capacity), rfl⟩

theorem processRead_keeps {c : HttpConn} (bounded : c.Bounded) (fs : FileSystem) :
    (processRead c fs).1.Bounded ∧ (processRead c fs).1.writeIdx = c.writeIdx := by
  refine ⟨processRead_bounded c fs bounded, ?_⟩
  obtain ⟨scanned, parsed, requested⟩ := processRead_frame c fs bounded.ordered
  rw [requested, parsed]

theorem SameRead.through {first middle second : HttpConn × Option HttpCode}
    (left : SameRead middle first) (right : SameRead middle second) : SameRead first second := by
  refine ⟨left.verdict.symm.trans right.verdict, left.conn.symm.trans right.conn, fun file => ?_⟩
  have one := left.file (left.verdict.trans file)
  have two := right.file (left.verdict.trans file)
  exact ⟨one.1.symm.trans two.1, one.2.symm.trans two.2⟩

theorem processRead_same {first second : HttpConn} (same : first.forget = second.forget)
    (left : first.Bounded) (right : second.Bounded) (fs : FileSystem) :
    SameRead (processRead first fs) (processRead second fs) := by
  have one := processRead_forget fs left
  have two := processRead_forget fs right
  rw [same] at one
  exact one.through two

theorem exchange_same (memory : Nat → Int → UInt8) (rounds : List (List Recv × FileSystem))
    {first second : HttpConn} (same : first.forget = second.forget) (left : first.Bounded)
    (right : second.Bounded) (room : first.writeIdx ≤ writeBufferSize) :
    exchange memory first rounds = exchange memory second rounds := by
  induction rounds generalizing first second with
  | nil => rfl
  | cons round rest ih =>
      obtain ⟨results, fs⟩ := round
      obtain ⟨same', received⟩ := read_same same left right results
      obtain ⟨left', writeIdx⟩ := read_keeps left results
      have right' := (read_keeps right results).1
      have parsed := processRead_same same' left' right' fs
      obtain ⟨left'', writeIdx'⟩ := processRead_keeps left' fs
      have right'' := (processRead_keeps right' fs).1
      have room' : (processRead (read first results).1 fs).1.writeIdx ≤ writeBufferSize := by omega
      have written (code : HttpCode)
          (verdict : (processRead (read first results).1 fs).2 = some code) :=
        processWrite_same parsed.conn room' code fun file => parsed.file (file ▸ verdict)
      simp only [exchange, received, parsed.verdict, fileName_same parsed.conn,
        linger_same parsed.conn]
      split
      · congr 1
        split
        · rfl
        · exact ih parsed.conn left'' right'' room'
        · rename_i code _ verdict
          have answer := written code (parsed.verdict.trans verdict)
          rw [answer.returned, answer.amount]
          split
          · rename_i sent
            rw [answer.contents (answer.returned.trans sent) memory]
          · rfl
      · rfl

/-- A request on a slot is parsed and answered as on a slot that was never used: what
earlier calls have left behind `init` has no part in it. -/
theorem requests_isolated (slot fresh last : HttpConn) (history : List Call)
    (ended : runCalls slot history = last.init) (memory : Nat → Int → UInt8)
    (rounds : List (List Recv × FileSystem)) :
    exchange memory (runCalls slot history) rounds = exchange memory fresh.init rounds := by
  rw [ended]
  exact exchange_same memory rounds (init_forget last fresh) (init_bounded last)
    (init_bounded fresh) (Nat.zero_le _)

theorem requests_isolated_second :
    let fs : FileSystem := ⟨fun _ => some ⟨0o100644, 3⟩, fun _ _ => 4096⟩
    let request := bytes "GET /a HTTP/1.1\r\nConnection: keep-alive\r\n\r\n"
    let history : List Call :=
      [.init, .read [.data request], .processRead fs, .processWrite .fileRequest, .init]
    exchange (fun _ _ => 120) (runCalls zeroed history)
        [([.data (bytes "GET /b HT")], fs), ([.data (bytes "TP/1.1\r\n\r\n")], fs)] =
      exchange (fun _ _ => 120) zeroed.init
        [([.data (bytes "GET /b HT")], fs), ([.data (bytes "TP/1.1\r\n\r\n")], fs)] :=
  requests_isolated zeroed zeroed _ _ rfl _ _

end StudyRecord.Http.HttpConn
