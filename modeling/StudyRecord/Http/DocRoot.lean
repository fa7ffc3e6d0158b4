import StudyRecord.Http.Bounds
import StudyRecord.Library.Path

/-!
The file that a request names. `do_request` puts the URL behind the document
root without looking at its components, so the path leaves the root exactly
when the URL does.
-/

namespace StudyRecord.Http.HttpConn

open CString Machine

def cutUrl (c : HttpConn) (url : Nat) : List UInt8 :=
  (c.str url).take (filenameLen - docRoot.length - 1)

/-! The string in `m_real_file`. -/

theorem stringFrom_eq (buffer : Buffer) (room start : Nat) (text : List UInt8)
    (inside : text.length < room)
    (same : ∀ index (bound : index < text.length), buffer (start + index) = text[index])
    (solid : ∀ byte ∈ text, byte ≠ 0) (zero : buffer (start + text.length) = 0) :
    stringFrom buffer room start = text := by
  induction text generalizing room start with
  | nil =>
      cases room with
      | zero => rfl
      | succ room =>
          have zero' : buffer start = 0 := zero
          simp [stringFrom, zero']
  | cons byte rest ih =>
      cases room with
      | zero => simp at inside
      | succ room =>
          have here : buffer start = byte := same 0 (by simp)
          have nonzero : byte ≠ 0 := solid byte (by simp)
          have later := ih room (start + 1) (by simpa using inside)
            (fun index bound => by
              have next := same (index + 1) (by simpa using bound)
              rw [Nat.add_assoc, Nat.add_comm 1]
              simpa using next)
            (fun other member => solid other (by simp [member]))
            (by rw [Nat.add_assoc, Nat.add_comm 1]; simpa using zero)
          simp only [stringFrom, here, nonzero, if_false, later]

theorem cutUrl_solid (c : HttpConn) (url : Nat) : ∀ byte ∈ c.cutUrl url, byte ≠ 0 := by
  intro byte member
  exact stringFrom_solid _ _ _ byte (List.mem_of_mem_take member)

theorem cutUrl_length (c : HttpConn) (url : Nat) :
    (c.cutUrl url).length ≤ filenameLen - docRoot.length - 1 :=
  List.length_take_le _ _

theorem buildRealFile_eq (c : HttpConn) (url : Nat) :
    buildRealFile c url =
      copyIn (copyIn c.realFile 0 (docRoot ++ [0])) docRoot.length
        (c.cutUrl url ++ List.replicate (filenameLen - docRoot.length - 1 - (c.cutUrl url).length) 0) :=
  rfl

theorem buildRealFile_last (c : HttpConn) (url : Nat) :
    buildRealFile c url (filenameLen - 1) = c.realFile (filenameLen - 1) := by
  have length := cutUrl_length c url
  have root : docRoot.length = 1 := rfl
  have size : filenameLen = 200 := rfl
  rw [buildRealFile_eq, copyIn_above, copyIn_above]
  · simp [root, size]
  · rw [List.length_append, List.length_replicate]
    omega

theorem buildRealFile_string (c : HttpConn) (url : Nat) (last : c.realFile (filenameLen - 1) = 0) :
    stringAt filenameLen (buildRealFile c url) 0 = docRoot ++ c.cutUrl url := by
  have length := cutUrl_length c url
  have root : docRoot.length = 1 := rfl
  have size : filenameLen = 200 := rfl
  have content (index : Nat) (bound : index < (docRoot ++ c.cutUrl url).length) :
      buildRealFile c url (0 + index) = (docRoot ++ c.cutUrl url)[index] := by
    rw [Nat.zero_add, buildRealFile_eq]
    by_cases inRoot : index < docRoot.length
    · have early : index < (docRoot ++ [0]).length := by rw [List.length_append]; omega
      have copied : copyIn c.realFile 0 (docRoot ++ [0]) (0 + index) = _ :=
        copyIn_inside c.realFile (docRoot ++ [0]) early
      rw [Nat.zero_add] at copied
      rw [copyIn_below _ _ inRoot, copied, List.getElem_append_left inRoot,
        List.getElem_append_left inRoot]
    · obtain ⟨offset, rfl⟩ := Nat.exists_eq_add_of_le (Nat.not_lt.mp inRoot)
      have inUrl : offset < (c.cutUrl url).length := by
        rw [List.length_append] at bound
        omega
      rw [copyIn_inside _ _ (by rw [List.length_append]; omega), List.getElem_append_left inUrl,
        List.getElem_append_right (by omega)]
      simp
  have zero : buildRealFile c url (0 + (docRoot ++ c.cutUrl url).length) = 0 := by
    rw [Nat.zero_add, List.length_append]
    by_cases full : (c.cutUrl url).length = filenameLen - docRoot.length - 1
    · have end' : docRoot.length + (c.cutUrl url).length = filenameLen - 1 := by omega
      rw [end', buildRealFile_last, last]
    · rw [buildRealFile_eq, copyIn_inside _ _ (by
        rw [List.length_append, List.length_replicate]
        omega), List.getElem_append_right (by omega)]
      simp
  apply stringFrom_eq _ _ _ _ _ content _ zero
  · rw [List.length_append]
    omega
  · intro byte member
    rcases List.mem_append.mp member with inRoot | inUrl
    · have single : docRoot = [46] := by decide
      rw [single, List.mem_singleton] at inRoot
      rw [inRoot]
      decide
    · exact cutUrl_solid c url byte inUrl

theorem doRequest_realPath (c : HttpConn) (fs : FileSystem) (url : Nat) (same : c.url = some url)
    (last : c.realFile (filenameLen - 1) = 0) :
    (doRequest c fs).1.realPath = docRoot ++ c.cutUrl url := by
  have file : (doRequest c fs).1.realFile = buildRealFile c url := by
    simp only [doRequest, same]
    split
    · rfl
    · split
      · rfl
      · split <;> rfl
  rw [realPath, file, buildRealFile_string c url last]

/-! The URL while a request is read. -/

def UrlHeld (c : HttpConn) : Prop :=
  c.checkState = .requestLine ∨
    ∃ url, c.url = some url ∧ url < c.readIdx ∧ (c.readBuf url = slash ∨ c.readBuf url = 0)

structure Rooted (c : HttpConn) : Prop where
  bounded : c.Bounded
  url : c.UrlHeld
  last : c.realFile (filenameLen - 1) = 0

theorem UrlHeld.kept {c after : HttpConn} (held : c.UrlHeld) (state : after.checkState = c.checkState)
    (url : after.url = c.url) (readIdx : c.readIdx ≤ after.readIdx)
    (buffer : ∀ index, index < c.readIdx →
      after.readBuf index = c.readBuf index ∨ after.readBuf index = 0) : after.UrlHeld := by
  rcases held with line | ⟨index, same, inside, byte⟩
  · exact Or.inl (state.trans line)
  · refine Or.inr ⟨index, url.trans same, Nat.lt_of_lt_of_le inside readIdx, ?_⟩
    rcases buffer index inside with kept | zero
    · rw [kept]
      exact byte
    · exact Or.inr zero

theorem parseLine_nul (c : HttpConn) (ordered : c.checkedIdx ≤ c.readIdx) (index : Nat) :
    (parseLine c).1.readBuf index = c.readBuf index ∨ (parseLine c).1.readBuf index = 0 := by
  have twice (first second : Nat) :
      store (store c.readBuf first 0) second 0 index = c.readBuf index ∨
        store (store c.readBuf first 0) second 0 index = 0 := by
    rcases store_nul (store c.readBuf first 0) second index with kept | zero
    · rw [kept]
      exact store_nul c.readBuf first index
    · exact Or.inr zero
  have scanned := parseLine_scanned c ordered
  generalize parseLine c = result at scanned ⊢
  cases scanned with
  | crLf => exact twice _ _
  | lateLf => exact twice _ _
  | exhausted => exact Or.inl rfl
  | lastCr => exact Or.inl rfl
  | badCr => exact Or.inl rfl
  | badLf => exact Or.inl rfl

theorem parseUrl_slash (c : HttpConn) (url : Nat) :
    (parseUrl c url).conn.checkState = c.checkState ∨
      ∃ index, (parseUrl c url).conn.url = some index ∧ (parseUrl c url).conn.readBuf index = slash := by
  simp only [parseUrl, Parsed.after]
  split
  · exact Or.inl rfl
  · split
    · exact Or.inl rfl
    · split
      · exact Or.inl rfl
      · rename_i isSlash
        exact Or.inr ⟨_, rfl, by simpa using isSlash⟩

theorem parseRequestLine_slash (c : HttpConn) (text : Nat) :
    (parseRequestLine c text).conn.checkState = c.checkState ∨
      ∃ index, (parseRequestLine c text).conn.url = some index ∧
        (parseRequestLine c text).conn.readBuf index = slash := by
  have version (c : HttpConn) (url version : Nat) :
      (checkVersion c url version).conn.checkState = c.checkState ∨
        ∃ index, (checkVersion c url version).conn.url = some index ∧
          (checkVersion c url version).conn.readBuf index = slash := by
    simp only [checkVersion, Parsed.after]
    split
    · exact Or.inl rfl
    · exact parseUrl_slash { c with version := some version } url
  simp only [parseRequestLine]
  split
  · exact Or.inl rfl
  · split
    · simp only [Parsed.after, parseVersion]
      split
      · exact Or.inl rfl
      · exact version _ _ _
    · exact Or.inl rfl

theorem loopBody_urlHeld (c : HttpConn) (ready : c.LineReady) (held : c.UrlHeld) :
    (loopBody c).conn.UrlHeld := by
  cases state : c.checkState with
  | requestLine =>
      obtain ⟨final, line⟩ := ready.line (by rw [state]; decide)
      have effect := parseRequestLine_effect line
      have readIdx := (loopBody_frame c ready).2.1
      have body : (loopBody c).conn =
          (parseRequestLine { c with startLine := c.checkedIdx } c.startLine).conn := by
        simp only [loopBody]
        rw [state, lineStep_conn]
      rcases parseRequestLine_slash { c with startLine := c.checkedIdx } c.startLine with
        same | ⟨index, url, isSlash⟩
      · left
        rw [body, same]
        exact state
      · right
        have bounds := effect.pointer index url
        have received : final < c.readIdx := line.received
        refine ⟨index, by rw [body]; exact url, by rw [readIdx]; omega, Or.inl ?_⟩
        rw [body]
        exact isSlash
  | header =>
      obtain ⟨final, line⟩ := ready.line (by rw [state]; decide)
      have effect := parseHeaders_effect line
      have body : (loopBody c).conn =
          (parseHeaders { c with startLine := c.checkedIdx } c.startLine).conn := by
        simp only [loopBody]
        rw [state, lineStep_conn]
      rw [body, effect.frame]
      exact Or.inr (held.resolve_left (by rw [state]; decide))
  | content =>
      rw [loopBody_content c state, contentStep_conn, parseContent]
      split
      · exact held.kept rfl rfl (Nat.le_refl _) fun index _ => storeInt_nul _ _ index
      · exact held

theorem loopStep_urlHeld (c : HttpConn) (status : LineStatus) (ordered : c.Ordered)
    (held : c.UrlHeld) : (loopStep c status).conn.UrlHeld := by
  have ready := loopGuard_ready c status ordered
  have guarded : (loopGuard c status).1.UrlHeld := by
    simp only [loopGuard]
    split
    · exact held
    · have frame := (parseLine_scanned c ordered.checked).frame
      exact held.kept (by rw [frame]) (by rw [frame])
        (Nat.le_of_eq (parseLine_readIdx c ordered.checked).symm)
        fun index _ => parseLine_nul c ordered.checked index
  simp only [loopStep]
  split
  · rename_i next same
    rw [same] at ready guarded
    exact loopBody_urlHeld next (ready rfl) guarded
  · rename_i same
    rw [same] at guarded
    exact guarded

theorem runLoop_urlHeld (c : HttpConn) (status : LineStatus) (ordered : c.Ordered)
    (held : c.UrlHeld) : (runLoop c status).1.UrlHeld := by
  revert held
  refine loop_induction ?_ c status ordered
  intro c status ordered ih held
  have step := loopStep_urlHeld c status ordered held
  rw [runLoop_eq c status ordered]
  split
  · rename_i stopped
    rw [stopped] at step
    exact step
  · rename_i next status' continued
    rw [continued] at step
    exact ih next status' continued step

theorem init_rooted (c : HttpConn) : c.init.Rooted := by
  refine ⟨init_bounded c, Or.inl rfl, ?_⟩
  simp [init, memset, filenameLen]

theorem scan_rooted (c : HttpConn) (rooted : c.Rooted) : (scan c).1.Rooted := by
  have ordered := rooted.bounded.ordered
  have frame : ReadFrame c (scan c).1 := (runLoop_effect c .lineOk ordered).frame
  refine ⟨scan_bounded c rooted.bounded, runLoop_urlHeld c .lineOk ordered rooted.url, ?_⟩
  rw [frame]
  exact rooted.last

theorem doRequest_rooted (c : HttpConn) (fs : FileSystem) (rooted : c.Rooted) :
    (doRequest c fs).1.Rooted := by
  have frame := doRequest_frame c fs
  refine ⟨doRequest_bounded c fs rooted.bounded, by rw [frame]; exact rooted.url, ?_⟩
  have last (url : Nat) : buildRealFile c url (filenameLen - 1) = 0 := by
    rw [buildRealFile_last, rooted.last]
  simp only [doRequest]
  split
  · exact rooted.last
  · split
    · exact last _
    · split
      · exact last _
      · split <;> exact last _

theorem processRead_rooted (c : HttpConn) (fs : FileSystem) (rooted : c.Rooted) :
    (processRead c fs).1.Rooted := by
  have scanned := scan_rooted c rooted
  simp only [processRead]
  split
  · rename_i result
    rw [result] at scanned
    exact scanned
  · rename_i result
    rw [result] at scanned
    exact doRequest_rooted _ fs scanned
  · rename_i result
    rw [result] at scanned
    exact scanned

theorem Call.run_rooted (c : HttpConn) (call : Call) (rooted : c.Rooted) : (call.run c).Rooted := by
  have bounded := call.run_bounded c rooted.bounded
  cases call with
  | init => exact init_rooted c
  | read results =>
      obtain ⟨arrived, same, _⟩ := read_receive c results
      rw [Call.run, same] at bounded ⊢
      refine ⟨bounded, ?_, rooted.last⟩
      exact rooted.url.kept rfl rfl (Nat.le_add_right _ _)
        fun index below => Or.inl (receive_below c arrived below)
  | processRead fs => exact processRead_rooted c fs rooted
  | processWrite ret =>
      rw [Call.run, processWrite_frame c ret] at bounded ⊢
      exact ⟨bounded, rooted.url, rooted.last⟩
  | write results =>
      obtain ⟨sent, frame, ends⟩ := write_frame c results
      rw [Call.run] at bounded ⊢
      rcases ends with stays | fresh
      · rw [stays, frame] at bounded ⊢
        exact ⟨bounded, rooted.url, rooted.last⟩
      · rw [fresh]
        exact init_rooted sent

theorem runCalls_rooted (calls : List Call) (c : HttpConn) (rooted : c.Rooted) :
    (runCalls c calls).Rooted := by
  induction calls generalizing c with
  | nil => exact rooted
  | cons call rest ih => exact ih (call.run c) (call.run_rooted c rooted)

/-! Requests that reach the file system. -/

theorem parseRequestLine_code (c : HttpConn) (text : Nat) :
    (parseRequestLine c text).code ≠ some .getRequest := by
  have parsedUrl (c : HttpConn) (url : Nat) : (parseUrl c url).code ≠ some .getRequest := by
    simp only [parseUrl, Parsed.after]
    split
    · simp
    · split
      · simp
      · split <;> simp
  simp only [parseRequestLine]
  split
  · simp
  · split
    · simp only [Parsed.after, parseVersion]
      split
      · simp
      · simp only [checkVersion, Parsed.after]
        split
        · simp
        · exact parsedUrl _ _
    · simp

theorem lineStep_request {parsed : Parsed} {stopped : HttpConn}
    (stop : lineStep parsed = .stop stopped .callsDoRequest) :
    parsed.code = some .getRequest ∧ parsed.conn = stopped := by
  simp only [lineStep] at stop
  split at stop <;> simp only [LoopStep.stop.injEq, reduceCtorEq, and_false] at stop
  rename_i code
  exact ⟨code, stop.1⟩

theorem parseHeaders_request (c : HttpConn) (text : Nat)
    (request : (parseHeaders c text).code = some .getRequest) : (parseHeaders c text).conn = c := by
  simp only [parseHeaders] at request ⊢
  split at request
  · split at request
    · simp at request
    · rename_i blank none
      simp only [blank, none, if_true, if_false]
  · split at request
    · simp only [Parsed.after] at request
      split at request <;> simp at request
    · split at request
      · simp [Parsed.after] at request
      · split at request <;> simp [Parsed.after] at request

theorem loopBody_request {c stopped : HttpConn} (stop : loopBody c = .stop stopped .callsDoRequest) :
    stopped.checkState ≠ .requestLine := by
  cases state : c.checkState with
  | requestLine =>
      have body : loopBody c =
          lineStep (parseRequestLine { c with startLine := c.checkedIdx } c.startLine) := by
        simp only [loopBody]
        rw [state]
      rw [body] at stop
      exact absurd (lineStep_request stop).1 (parseRequestLine_code _ _)
  | header =>
      have body : loopBody c =
          lineStep (parseHeaders { c with startLine := c.checkedIdx } c.startLine) := by
        simp only [loopBody]
        rw [state]
      rw [body] at stop
      obtain ⟨code, conn⟩ := lineStep_request stop
      rw [← conn, parseHeaders_request _ _ code]
      simp [state]
  | content =>
      have conn := congrArg LoopStep.conn stop
      rw [loopBody_content c state, contentStep_conn, parseContent_frame] at conn
      simp only [LoopStep.conn] at conn
      rw [← conn]
      simp [state]

theorem scan_request (c : HttpConn) (ordered : c.Ordered)
    (request : (scan c).2 = .callsDoRequest) : (scan c).1.checkState ≠ .requestLine := by
  have loop (status : LineStatus) :
      (runLoop c status).2 = .callsDoRequest → (runLoop c status).1.checkState ≠ .requestLine := by
    refine loop_induction ?_ c status ordered
    intro c status ordered ih request
    rw [runLoop_eq c status ordered] at request ⊢
    cases step : loopStep c status with
    | stop stopped ending =>
        rw [step] at request
        simp only at request ⊢
        rw [request, loopStep] at step
        split at step
        · exact loopBody_request step
        · simp at step
    | next next status' =>
        rw [step] at request
        exact ih next status' step request
  exact loop .lineOk request

theorem inside_docRoot_iff (url : List UInt8) (rooted : url = [] ∨ url.head? = some slash) :
    Path.Inside (docRoot ++ url) ↔ Path.Balanced Path.kind 0 (Path.components url) := by
  rw [Path.inside_iff]
  rcases rooted with rfl | isSlash
  · have whole : Path.components (docRoot ++ []) = [docRoot] := by decide
    have none : Path.components [] = [[]] := by decide
    rw [whole, none, Path.balanced_stay _ (by decide), Path.balanced_stay _ (by decide)]
  · obtain ⟨rest, rfl⟩ : ∃ rest, url = slash :: rest := by
      cases url with
      | nil => simp at isSlash
      | cons byte rest => exact ⟨rest, by simpa using isSlash⟩
    have whole : Path.components (docRoot ++ slash :: rest) = docRoot :: Path.components rest :=
      List.splitOn_append_cons_self_of_not_mem (by decide) rest
    have relative : Path.components (slash :: rest) = [] :: Path.components rest :=
      List.splitOn_append_cons_self_of_not_mem List.not_mem_nil rest
    rw [whole, relative, Path.balanced_stay _ (by decide), Path.balanced_stay _ (by decide)]

theorem cutUrl_head (c : HttpConn) (url : Nat) (inside : url < readBufferSize)
    (byte : c.readBuf url = slash ∨ c.readBuf url = 0) :
    c.cutUrl url = [] ∨ (c.cutUrl url).head? = some slash := by
  obtain ⟨room, size⟩ : ∃ room, readBufferSize - url = room + 1 :=
    ⟨readBufferSize - url - 1, by omega⟩
  have width : filenameLen - docRoot.length - 1 = 197 + 1 := rfl
  rcases byte with isSlash | zero
  · right
    have nonzero : ¬slash = 0 := by decide
    simp [cutUrl, str, stringAt, size, stringFrom, isSlash, nonzero, width]
  · left
    simp [cutUrl, str, stringAt, size, stringFrom, zero]

/-- The path that a request makes `do_request` look up is the document root with the
cut URL behind it, and it goes above the root at no prefix exactly when no part of
that URL has more `..` components than named ones. -/
theorem requested_path_inside_iff (c : HttpConn) (calls : List Call) (fs : FileSystem)
    (request : (scan (runCalls c.init calls)).2 = .callsDoRequest) :
    ∃ url, (scan (runCalls c.init calls)).1.url = some url ∧
      (doRequest (scan (runCalls c.init calls)).1 fs).1.realPath =
        docRoot ++ (scan (runCalls c.init calls)).1.cutUrl url ∧
      (Path.Inside (doRequest (scan (runCalls c.init calls)).1 fs).1.realPath ↔
        Path.Balanced Path.kind 0
          (Path.components ((scan (runCalls c.init calls)).1.cutUrl url))) := by
  have before := runCalls_rooted calls c.init (init_rooted c)
  have rooted := scan_rooted _ before
  have behind := scan_request _ before.bounded.ordered request
  obtain ⟨url, same, received, byte⟩ := rooted.url.resolve_left behind
  have path := doRequest_realPath _ fs url same rooted.last
  have inside := Nat.lt_of_lt_of_le received rooted.bounded.capacity
  refine ⟨url, same, path, ?_⟩
  rw [path]
  exact inside_docRoot_iff _ (cutUrl_head _ url inside byte)

def emptyFileSystem : FileSystem := ⟨fun _ => none, fun _ _ => 0⟩

theorem requested_path_inside_iff_index :
    ∃ url, (scan (runCalls zeroed.init [.read [.data (bytes "GET /a/../b HTTP/1.1\r\n\r\n")]])).1.url =
        some url ∧
      (doRequest (scan (runCalls zeroed.init
        [.read [.data (bytes "GET /a/../b HTTP/1.1\r\n\r\n")]])).1 emptyFileSystem).1.realPath =
        docRoot ++ (scan (runCalls zeroed.init
          [.read [.data (bytes "GET /a/../b HTTP/1.1\r\n\r\n")]])).1.cutUrl url ∧
      (Path.Inside (doRequest (scan (runCalls zeroed.init
          [.read [.data (bytes "GET /a/../b HTTP/1.1\r\n\r\n")]])).1 emptyFileSystem).1.realPath ↔
        Path.Balanced Path.kind 0 (Path.components ((scan (runCalls zeroed.init
          [.read [.data (bytes "GET /a/../b HTTP/1.1\r\n\r\n")]])).1.cutUrl url))) :=
  requested_path_inside_iff zeroed [.read [.data (bytes "GET /a/../b HTTP/1.1\r\n\r\n")]]
    emptyFileSystem (by decide +kernel)

/-- One `..` in front is enough to leave the document root. -/
theorem parent_request_leaves_root :
    (parseRequestLine (zeroed.init.receive (bytes "GET /../x HTTP/1.1")) 0).code = some .noRequest ∧
      ¬Path.Inside (doRequest
        (parseRequestLine (zeroed.init.receive (bytes "GET /../x HTTP/1.1")) 0).conn
          emptyFileSystem).1.realPath := by
  decide +kernel

end StudyRecord.Http.HttpConn
