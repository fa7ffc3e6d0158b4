import StudyRecord.Http.Core

/-!
What `parse_request_line` makes of a line: a function of the bytes of the line
first, then the grammar of the lines that it accepts and of those that make it
follow a null pointer.
-/

namespace StudyRecord.Http.HttpConn

open CString

inductive Target
  | missing
  | rejected
  | path (path : List UInt8)
  deriving DecidableEq, Repr

def Target.code : Target → Option HttpCode
  | .missing => none
  | .rejected => some .badRequest
  | .path _ => some .noRequest

def http : List UInt8 := bytes "http://"

def https : List UInt8 := bytes "https://"

def pathTarget (uri : List UInt8) : Target :=
  if strncasecmpZero uri https https.length then
    match strchr slash (uri.drop https.length) with
    | none => .rejected
    | some offset => .path ((uri.drop https.length).drop offset)
  else if uri.head? = some slash then .path uri
  else .rejected

/-- Behind `http://` the test for the other scheme follows what `strchr` returns. -/
def urlTarget (uri : List UInt8) : Target :=
  if strncasecmpZero uri http http.length then
    match strchr slash (uri.drop http.length) with
    | none => .missing
    | some offset => pathTarget ((uri.drop http.length).drop offset)
  else pathTarget uri

def IsVersion (version : List UInt8) : Prop :=
  strcasecmpZero version (bytes "HTTP/1.1") ∨ strcasecmpZero version (bytes "HTTP/1.0")

instance (version : List UInt8) : Decidable (IsVersion version) :=
  inferInstanceAs (Decidable (_ ∨ _))

def versionTarget (text : List UInt8) : Target :=
  match strpbrk blanks text with
  | none => .rejected
  | some offset =>
      if IsVersion (past blanks (text.drop (offset + 1))) then urlTarget (text.take offset)
      else .rejected

def lineTarget (line : List UInt8) : Target :=
  match strpbrk blanks line with
  | none => .rejected
  | some offset =>
      if strcasecmpZero (line.take offset) (bytes "GET") then
        versionTarget (past blanks (line.drop (offset + 1)))
      else .rejected

/-! The pointers. -/

structure Outcome (target : Target) (parsed : Parsed) : Prop where
  code : parsed.code = target.code
  reads : (∀ pointer ∈ parsed.reads, pointer ≠ none) ↔ target ≠ .missing
  found : ∀ path, target = .path path → parsed.conn.checkState = .header ∧
    ∃ index, parsed.conn.url = some index ∧
      Written readBufferSize parsed.conn.readBuf index path

theorem Outcome.after {target : Target} {parsed : Parsed} (outcome : Outcome target parsed)
    {reads : List (Option Nat)} (solid : ∀ pointer ∈ reads, pointer ≠ none) :
    Outcome target (parsed.after reads) := by
  refine ⟨outcome.code, ?_, outcome.found⟩
  rw [← outcome.reads]
  simp only [Parsed.after, List.forall_mem_append]
  exact and_iff_right solid

theorem rejected_outcome (c : HttpConn) {reads : List (Option Nat)}
    (solid : ∀ pointer ∈ reads, pointer ≠ none) :
    Outcome .rejected ⟨c, some .badRequest, reads⟩ := by
  refine ⟨rfl, by simpa using solid, fun path same => ?_⟩
  contradiction

theorem schemeReads_solid (c : HttpConn) (url : Nat) (scheme : List UInt8) :
    ∀ pointer ∈ schemeReads c url scheme, pointer ≠ none := by
  simp only [schemeReads]
  split <;> simp

theorem skipBlanks_written {c : HttpConn} {start : Nat} {text : List UInt8}
    (written : Written readBufferSize c.readBuf start text) :
    Written readBufferSize c.readBuf (c.skipBlanks start) (past blanks text) := by
  have same : c.str start = text := written.string
  rw [skipBlanks, same]
  exact written.drop (strspn_le blanks text)

theorem stripScheme_written {c : HttpConn} {url : Nat} {uri scheme : List UInt8}
    (written : Written readBufferSize c.readBuf url uri) :
    stripScheme c url scheme =
      if strncasecmpZero uri scheme scheme.length then
        (strchr slash (uri.drop scheme.length)).map fun offset => url + scheme.length + offset
      else some url := by
  have same : c.str url = uri := written.string
  simp only [stripScheme, same]
  split
  · rename_i prefixed
    have rest := written.drop (strncasecmpZero_split prefixed).2
    have sameRest : c.str (url + scheme.length) = uri.drop scheme.length := rest.string
    rw [sameRest]
  · rfl

theorem Written.head {c : HttpConn} {index : Nat} {text : List UInt8}
    (written : Written readBufferSize c.readBuf index text) :
    c.readBuf index = slash ↔ text.head? = some slash := by
  cases text with
  | nil =>
      have zero : c.readBuf index = 0 := written.terminator
      rw [zero]
      decide
  | cons byte text =>
      have here : c.readBuf index = byte := written.content 0 (by simp)
      rw [here, List.head?_cons, Option.some.injEq]

theorem slash_at {text : List UInt8} {offset : Nat} (found : strchr slash text = some offset) :
    (text.drop offset).head? = some slash := by
  have inside := strchr_lt found
  obtain ⟨split, _⟩ := strchr_split found
  have size : (text.take offset).length = offset := by
    rw [List.length_take]
    omega
  rw [split, List.drop_left' size, List.head?_cons]

theorem slash_path {c : HttpConn} {index : Nat} {path : List UInt8}
    (written : Written readBufferSize c.readBuf index path) (isSlash : path.head? = some slash) :
    (if c.readBuf index ≠ slash then
      (⟨{ c with url := some index }, some .badRequest, [some index]⟩ : Parsed)
    else ⟨{ c with url := some index, checkState := .header }, some .noRequest, [some index]⟩) =
      ⟨{ c with url := some index, checkState := .header }, some .noRequest, [some index]⟩ := by
  rw [if_neg (not_not.mpr ((Written.head written).mpr isSlash))]

theorem path_outcome {c : HttpConn} {index : Nat} {path : List UInt8}
    (written : Written readBufferSize c.readBuf index path) :
    Outcome (.path path)
      ⟨{ c with url := some index, checkState := .header }, some .noRequest, [some index]⟩ := by
  refine ⟨rfl, by simp, fun other same => ?_⟩
  rw [Target.path.injEq] at same
  exact ⟨rfl, index, rfl, same ▸ written⟩

/-- The part of `parse_request_line` behind the first scheme. -/
def parsePath (c : HttpConn) (url : Nat) : Parsed :=
  Parsed.after (schemeReads c url https) <|
    match stripScheme c url https with
    | none => ⟨{ c with url := none }, some .badRequest, []⟩
    | some url =>
        if c.readBuf url ≠ slash then ⟨{ c with url := some url }, some .badRequest, [some url]⟩
        else ⟨{ c with url := some url, checkState := .header }, some .noRequest, [some url]⟩

theorem parsePath_outcome {c : HttpConn} {url : Nat} {uri : List UInt8}
    (written : Written readBufferSize c.readBuf url uri) :
    Outcome (pathTarget uri) (parsePath c url) := by
  refine Outcome.after ?_ (schemeReads_solid c url _)
  rw [stripScheme_written written, pathTarget]
  by_cases prefixed : strncasecmpZero uri https https.length = true
  · have rest := written.drop (strncasecmpZero_split prefixed).2
    rw [if_pos prefixed, if_pos prefixed]
    cases found : strchr slash (uri.drop https.length) with
    | none => exact rejected_outcome _ (by simp)
    | some offset =>
        have path := rest.drop (Nat.le_of_lt (strchr_lt found))
        simp only [Option.map_some]
        rw [slash_path path (slash_at found)]
        exact path_outcome path
  · rw [if_neg prefixed, if_neg prefixed]
    by_cases isSlash : uri.head? = some slash
    · simp only
      rw [if_pos isSlash, slash_path written isSlash]
      exact path_outcome written
    · simp only
      rw [if_neg isSlash, if_pos fun here => isSlash ((Written.head written).mp here)]
      exact rejected_outcome _ (by simp)

theorem parseUrl_outcome {c : HttpConn} {url : Nat} {uri : List UInt8}
    (written : Written readBufferSize c.readBuf url uri) :
    Outcome (urlTarget uri) (parseUrl c url) := by
  have whole : parseUrl c url = Parsed.after (schemeReads c url http) (
      match stripScheme c url http with
      | none => ⟨{ c with url := none }, none, [none]⟩
      | some url => parsePath c url) := rfl
  rw [whole]
  refine Outcome.after ?_ (schemeReads_solid c url _)
  rw [stripScheme_written written, urlTarget]
  by_cases prefixed : strncasecmpZero uri http http.length = true
  · have rest := written.drop (strncasecmpZero_split prefixed).2
    rw [if_pos prefixed, if_pos prefixed]
    cases found : strchr slash (uri.drop http.length) with
    | none =>
        refine ⟨rfl, by simp, fun path same => ?_⟩
        contradiction
    | some offset => exact parsePath_outcome (rest.drop (Nat.le_of_lt (strchr_lt found)))
  · rw [if_neg prefixed, if_neg prefixed]
    exact parsePath_outcome written

theorem checkVersion_outcome {c : HttpConn} {url version : Nat} {uri text : List UInt8}
    (before : Written readBufferSize c.readBuf url uri)
    (behind : Written readBufferSize c.readBuf version text) :
    Outcome (if IsVersion text then urlTarget uri else .rejected) (checkVersion c url version) := by
  have same : ({ c with version := some version } : HttpConn).str version = text := behind.string
  have refused : (strcasecmpZero text (bytes "HTTP/1.1") = false ∧
      strcasecmpZero text (bytes "HTTP/1.0") = false) ↔ ¬IsVersion text := by
    simp [IsVersion]
  simp only [checkVersion, same]
  refine Outcome.after ?_ (by simp)
  by_cases accepted : IsVersion text
  · rw [if_pos accepted, if_neg fun no => refused.mp no accepted]
    exact parseUrl_outcome before
  · rw [if_neg accepted, if_pos (refused.mpr accepted)]
    exact rejected_outcome _ (by simp)

theorem parseVersion_outcome {c : HttpConn} {url : Nat} {text : List UInt8}
    (written : Written readBufferSize c.readBuf url text) :
    Outcome (versionTarget text) (parseVersion c url) := by
  have same : ({ c with url := some url } : HttpConn).str url = text := written.string
  simp only [parseVersion, versionTarget, same]
  cases found : strpbrk blanks text with
  | none => exact rejected_outcome _ (by simp)
  | some offset =>
      obtain ⟨uri, rest⟩ := written.cut (strpbrk_lt found)
      refine Outcome.after (checkVersion_outcome uri ?_) (by simp)
      exact skipBlanks_written (c := { c with url := some url }.cut (url + offset)) rest

theorem parseRequestLine_outcome {c : HttpConn} {text : Nat} {line : List UInt8}
    (written : Written readBufferSize c.readBuf text line) :
    Outcome (lineTarget line) (parseRequestLine c text) := by
  have same : c.str text = line := written.string
  simp only [parseRequestLine, lineTarget, same]
  cases found : strpbrk blanks line with
  | none => exact rejected_outcome _ (by simp)
  | some offset =>
      obtain ⟨method, rest⟩ := written.cut (strpbrk_lt found)
      have sameMethod : (c.cut (text + offset)).str text = line.take offset := method.string
      simp only [sameMethod]
      by_cases get : strcasecmpZero (line.take offset) (bytes "GET") = true
      · rw [if_pos get, if_pos get]
        refine Outcome.after (parseVersion_outcome ?_) (by simp)
        exact skipBlanks_written (c := { c.cut (text + offset) with method := .get }) rest
      · rw [if_neg get, if_neg get]
        exact rejected_outcome _ (by simp)

/-! The grammar. -/

structure RequestLine (line method gap uri space version : List UInt8) : Prop where
  parts : line = method ++ gap ++ uri ++ space ++ version
  method : strcasecmpZero method (bytes "GET")
  gap : Gap blanks gap
  nonempty : uri ≠ []
  clear : ∀ byte ∈ uri, byte ∉ blanks
  space : Gap blanks space
  version : IsVersion version

/-- The path that a URL names: the URL itself when it starts with a slash, and what
follows the host when it is absolute. -/
inductive PathOf : List UInt8 → List UInt8 → Prop
  | rooted (rest : List UInt8) : PathOf (slash :: rest) (slash :: rest)
  | absolute (scheme host rest : List UInt8)
      (isScheme : strcasecmpZero scheme http ∨ strcasecmpZero scheme https)
      (clear : slash ∉ host) : PathOf (scheme ++ host ++ slash :: rest) (slash :: rest)

def HostOnly (uri : List UInt8) : Prop :=
  ∃ scheme host, uri = scheme ++ host ∧ strcasecmpZero scheme http ∧ slash ∉ host

theorem slash_other (rest : List UInt8) {scheme : List UInt8}
    (letters : scheme = http ∨ scheme = https) :
    strncasecmpZero (slash :: rest) scheme scheme.length = false := by
  have different : (tolower slash == tolower 104) = false := by decide
  have first : ∃ others, scheme = 104 :: others := by
    rcases letters with rfl | rfl
    · exact ⟨_, rfl⟩
    · exact ⟨_, rfl⟩
  obtain ⟨others, rfl⟩ := first
  rw [strncasecmpZero, List.length_cons, List.take_succ_cons, List.take_succ_cons, List.map_cons,
    List.map_cons, List.cons_beq_cons, different, Bool.false_and]

theorem pathTarget_slash (rest : List UInt8) : pathTarget (slash :: rest) = .path (slash :: rest) := by
  rw [pathTarget, slash_other rest (Or.inr rfl)]
  rfl

theorem https_other {uri : List UInt8} (isHttps : strncasecmpZero uri https https.length = true) :
    strncasecmpZero uri http http.length = false := by
  rw [Bool.eq_false_iff]
  intro isHttp
  obtain ⟨same, long⟩ := strncasecmpZero_split isHttps
  obtain ⟨same', long'⟩ := strncasecmpZero_split isHttp
  have sizes : https.length = 8 ∧ http.length = 7 := by decide
  rw [sizes.1] at same long
  rw [sizes.2] at same' long'
  have fifth := congrArg (fun text => text[4]?) (beq_iff_eq.mp same)
  have fifth' := congrArg (fun text => text[4]?) (beq_iff_eq.mp same')
  have letters : (https.map tolower)[4]? = some 115 ∧ (http.map tolower)[4]? = some 58 := by decide
  simp only [List.getElem?_map, List.getElem?_take] at fifth fifth' letters
  rw [letters.1, if_pos (by decide)] at fifth
  rw [letters.2, if_pos (by decide), fifth] at fifth'
  contradiction

theorem take_scheme {uri scheme : List UInt8} {offset : Nat}
    (found : strchr slash (uri.drop scheme.length) = some offset) :
    ∃ host rest, uri = uri.take scheme.length ++ host ++ slash :: rest ∧ slash ∉ host ∧
      (uri.drop scheme.length).drop offset = slash :: rest := by
  obtain ⟨split, clear⟩ := strchr_split found
  have inside := strchr_lt found
  have size : ((uri.drop scheme.length).take offset).length = offset := by
    rw [List.length_take]
    omega
  refine ⟨(uri.drop scheme.length).take offset, (uri.drop scheme.length).drop (offset + 1), ?_,
    clear, ?_⟩
  · rw [List.append_assoc, ← split, List.take_append_drop]
  · nth_rewrite 1 [split]
    rw [List.drop_left' size]

theorem urlTarget_path_iff (uri path : List UInt8) :
    urlTarget uri = .path path ↔ PathOf uri path := by
  constructor
  · intro target
    have rooted (path' : List UInt8) (isSlash : uri.head? = some slash) (same : uri = path') :
        PathOf uri path' := by
      obtain ⟨rest, rfl⟩ := List.head?_eq_some_iff.mp isSlash
      exact same ▸ .rooted rest
    rw [urlTarget] at target
    split at target
    · rename_i prefixed
      split at target
      · contradiction
      · rename_i offset found
        obtain ⟨host, rest, split, clear, behind⟩ := take_scheme found
        rw [behind, pathTarget_slash, Target.path.injEq] at target
        rw [split, ← target]
        exact .absolute _ host rest (Or.inl (strncasecmpZero_split prefixed).1) clear
    · rw [pathTarget] at target
      split at target
      · rename_i prefixed
        split at target
        · contradiction
        · rename_i offset found
          obtain ⟨host, rest, split, clear, behind⟩ := take_scheme found
          rw [behind, Target.path.injEq] at target
          rw [split, ← target]
          exact .absolute _ host rest (Or.inr (strncasecmpZero_split prefixed).1) clear
      · split at target
        · rename_i isSlash
          rw [Target.path.injEq] at target
          exact rooted path isSlash target
        · contradiction
  · intro names
    cases names with
    | rooted rest =>
        rw [urlTarget, slash_other rest (Or.inl rfl)]
        exact pathTarget_slash rest
    | absolute scheme host rest isScheme clear =>
        have dropped {name : List UInt8} (same : strcasecmpZero scheme name = true) :
            (scheme ++ host ++ slash :: rest).drop name.length = host ++ slash :: rest := by
          rw [List.append_assoc, ← strcasecmpZero_length same, List.drop_left]
        rcases isScheme with isHttp | isHttps
        · have prefixed : strncasecmpZero (scheme ++ host ++ slash :: rest) http http.length = true := by
            rw [List.append_assoc]
            exact strncasecmpZero_append isHttp
          rw [urlTarget, if_pos prefixed, dropped isHttp, strchr_append clear]
          simp only [List.drop_left]
          exact pathTarget_slash rest
        · have prefixed :
              strncasecmpZero (scheme ++ host ++ slash :: rest) https https.length = true := by
            rw [List.append_assoc]
            exact strncasecmpZero_append isHttps
          rw [urlTarget, https_other prefixed, pathTarget, if_pos prefixed, dropped isHttps,
            strchr_append clear]
          simp

theorem urlTarget_missing_iff (uri : List UInt8) : urlTarget uri = .missing ↔ HostOnly uri := by
  have found (text : List UInt8) : pathTarget text ≠ .missing := by
    rw [pathTarget]
    split
    · split <;> simp
    · split <;> simp
  constructor
  · intro target
    rw [urlTarget] at target
    split at target
    · rename_i prefixed
      split at target
      · rename_i none
        exact ⟨uri.take http.length, uri.drop http.length, (List.take_append_drop ..).symm,
          (strncasecmpZero_split prefixed).1, strchr_none.mp none⟩
      · exact absurd target (found _)
    · exact absurd target (found _)
  · rintro ⟨scheme, host, rfl, isHttp, clear⟩
    rw [urlTarget, if_pos (strncasecmpZero_append isHttp), ← strcasecmpZero_length isHttp,
      List.drop_left, strchr_none.mpr clear]

theorem version_clear {version : List UInt8} (isVersion : IsVersion version) :
    ∀ byte ∈ version, byte ∉ blanks := by
  have kept : ∀ byte ∈ blanks, tolower byte = byte := by decide +kernel
  rcases isVersion with same | same
  · exact clear_of_caseless same kept (by decide +kernel)
  · exact clear_of_caseless same kept (by decide +kernel)

theorem versionTarget_iff (text : List UInt8) {target : Target} (found : target ≠ .rejected) :
    versionTarget text = target ↔
      ∃ uri space version, text = uri ++ space ++ version ∧ (∀ byte ∈ uri, byte ∉ blanks) ∧
        Gap blanks space ∧ IsVersion version ∧ urlTarget uri = target := by
  constructor
  · intro same
    rw [versionTarget] at same
    split at same
    · exact absurd same.symm found
    · rename_i offset split
      split at same
      · rename_i version
        obtain ⟨space, parts, gap, clear, _⟩ := split_gap split
        exact ⟨_, space, _, parts, clear, gap, version, same⟩
      · exact absurd same.symm found
  · rintro ⟨uri, space, version, rfl, clear, gap, isVersion, same⟩
    have stops : ∀ byte ∈ version.head?, byte ∉ blanks :=
      fun byte first => version_clear isVersion byte (List.mem_of_mem_head? first)
    obtain ⟨split, token, rest⟩ := join_gap clear gap stops
    simp only [versionTarget, split, token, rest, if_pos isVersion, same]

theorem lineTarget_iff (line : List UInt8) {target : Target} (found : target ≠ .rejected) :
    lineTarget line = target ↔
      ∃ method gap uri space version, RequestLine line method gap uri space version ∧
        urlTarget uri = target := by
  constructor
  · intro same
    rw [lineTarget] at same
    split at same
    · exact absurd same.symm found
    · rename_i offset split
      split at same
      · rename_i get
        obtain ⟨gap, parts, between, _, _⟩ := split_gap split
        obtain ⟨uri, space, version, rest, clear, gap', isVersion, same⟩ :=
          (versionTarget_iff _ found).mp same
        have nonempty : uri ≠ [] := by
          rintro rfl
          have rejected : urlTarget [] = .rejected := by decide
          exact found (same.symm.trans rejected)
        refine ⟨_, gap, uri, space, version, ⟨?_, get, between, nonempty, clear, gap', isVersion⟩, same⟩
        rw [rest] at parts
        simpa only [List.append_assoc] using parts
      · exact absurd same.symm found
  · rintro ⟨method, gap, uri, space, version, whole, same⟩
    have kept : ∀ byte ∈ blanks, tolower byte = byte := by decide +kernel
    have clearMethod := clear_of_caseless whole.method kept (by decide +kernel)
    have behind : versionTarget (uri ++ space ++ version) = target :=
      (versionTarget_iff _ found).mpr
        ⟨uri, space, version, rfl, whole.clear, whole.space, whole.version, same⟩
    have stops : ∀ byte ∈ (uri ++ space ++ version).head?, byte ∉ blanks := by
      obtain ⟨first, rest, rfl⟩ := List.exists_cons_of_ne_nil whole.nonempty
      intro byte head
      obtain rfl : first = byte := Option.some.inj head
      exact whole.clear first List.mem_cons_self
    obtain ⟨split, token, rest⟩ := join_gap clearMethod whole.gap stops
    have parts : line = method ++ gap ++ (uri ++ space ++ version) := by
      rw [whole.parts]
      simp only [List.append_assoc]
    simp only [parts, lineTarget, split, token, rest, whole.method, if_true, behind]

/-! Lines in the read buffer. -/

theorem received_written (c : HttpConn) {line : List UInt8} (short : line.length < readBufferSize)
    (nonzero : ∀ byte ∈ line, byte ≠ 0) :
    Written readBufferSize (c.init.receive line).readBuf 0 line := by
  refine ⟨by omega, fun index inside => copyIn_inside _ _ inside, ?_, nonzero⟩
  have behind : (c.init.receive line).readBuf (0 + line.length) = c.init.readBuf (0 + line.length) :=
    copyIn_above _ _ (Nat.le_refl _)
  rw [behind, Nat.zero_add]
  exact if_pos short

/-- A line is answered without following a null pointer unless its URL has the first
scheme and no path. -/
theorem parseRequestLine_answers_iff {c : HttpConn} {text : Nat} {line : List UInt8}
    (written : Written readBufferSize c.readBuf text line) :
    ((∀ pointer ∈ (parseRequestLine c text).reads, pointer ≠ none) ∧
        ((parseRequestLine c text).code = some .badRequest ∨
          (parseRequestLine c text).code = some .noRequest)) ↔
      ¬∃ method gap uri space version,
        RequestLine line method gap uri space version ∧ HostOnly uri := by
  have outcome := parseRequestLine_outcome written
  have missing : lineTarget line = .missing ↔ ∃ method gap uri space version,
      RequestLine line method gap uri space version ∧ HostOnly uri := by
    simp only [← urlTarget_missing_iff]
    exact lineTarget_iff line (by simp)
  rw [outcome.reads, outcome.code, ← missing]
  refine ⟨And.left, fun found => ⟨found, ?_⟩⟩
  cases target : lineTarget line with
  | missing => exact absurd target found
  | rejected => exact Or.inl rfl
  | path path => exact Or.inr rfl

theorem parseRequestLine_answers_iff_rooted :
    ((∀ pointer ∈ (parseRequestLine (zeroed.init.receive (bytes "GET /a HTTP/1.1")) 0).reads,
        pointer ≠ none) ∧
        ((parseRequestLine (zeroed.init.receive (bytes "GET /a HTTP/1.1")) 0).code =
            some .badRequest ∨
          (parseRequestLine (zeroed.init.receive (bytes "GET /a HTTP/1.1")) 0).code =
            some .noRequest)) ↔
      ¬∃ method gap uri space version,
        RequestLine (bytes "GET /a HTTP/1.1") method gap uri space version ∧ HostOnly uri :=
  parseRequestLine_answers_iff (received_written zeroed (by decide) (by decide +kernel))

/-- `strchr` finds no slash behind the host, and `strncasecmp` is handed its result. -/
theorem host_only_dereferences_null :
    Written readBufferSize (zeroed.init.receive (bytes "GET http://host HTTP/1.1")).readBuf 0
        (bytes "GET http://host HTTP/1.1") ∧
      none ∈ (parseRequestLine (zeroed.init.receive (bytes "GET http://host HTTP/1.1")) 0).reads ∧
      (parseRequestLine (zeroed.init.receive (bytes "GET http://host HTTP/1.1")) 0).code = none :=
  ⟨received_written zeroed (by decide) (by decide +kernel), by decide +kernel, by decide +kernel⟩

/-- The request lines that are accepted, and the path that `m_url` is left at. -/
theorem parseRequestLine_accepts_iff {c : HttpConn} {text : Nat} {line : List UInt8}
    (written : Written readBufferSize c.readBuf text line) :
    ((parseRequestLine c text).code = some .noRequest ∧
          (parseRequestLine c text).conn.checkState = .header ↔
        ∃ method gap uri space version path,
          RequestLine line method gap uri space version ∧ PathOf uri path) ∧
      ∀ method gap uri space version path,
        RequestLine line method gap uri space version → PathOf uri path →
          ∃ index, (parseRequestLine c text).conn.url = some index ∧
            (parseRequestLine c text).conn.str index = path := by
  have outcome := parseRequestLine_outcome written
  have accepted (path : List UInt8) : lineTarget line = .path path ↔
      ∃ method gap uri space version,
        RequestLine line method gap uri space version ∧ PathOf uri path := by
    simp only [← urlTarget_path_iff]
    exact lineTarget_iff line (by simp)
  refine ⟨⟨?_, ?_⟩, ?_⟩
  · rintro ⟨code, _⟩
    rw [outcome.code] at code
    cases target : lineTarget line with
    | missing =>
        rw [target] at code
        contradiction
    | rejected =>
        rw [target] at code
        contradiction
    | path path =>
        obtain ⟨method, gap, uri, space, version, parts⟩ := (accepted path).mp target
        exact ⟨method, gap, uri, space, version, path, parts⟩
  · rintro ⟨method, gap, uri, space, version, path, parts⟩
    have target := (accepted path).mpr ⟨method, gap, uri, space, version, parts⟩
    refine ⟨?_, (outcome.found path target).1⟩
    rw [outcome.code, target]
    rfl
  · intro method gap uri space version path parts names
    have target := (accepted path).mpr ⟨method, gap, uri, space, version, parts, names⟩
    obtain ⟨_, index, url, string⟩ := outcome.found path target
    exact ⟨index, url, string.string⟩

theorem parseRequestLine_accepts_iff_absolute :
    ((parseRequestLine (zeroed.init.receive (bytes "get HTTP://h/a\thttp/1.0")) 0).code =
            some .noRequest ∧
          (parseRequestLine (zeroed.init.receive (bytes "get HTTP://h/a\thttp/1.0")) 0).conn.checkState =
            .header ↔
        ∃ method gap uri space version path,
          RequestLine (bytes "get HTTP://h/a\thttp/1.0") method gap uri space version ∧
            PathOf uri path) ∧
      ∀ method gap uri space version path,
        RequestLine (bytes "get HTTP://h/a\thttp/1.0") method gap uri space version → PathOf uri path →
          ∃ index,
            (parseRequestLine (zeroed.init.receive (bytes "get HTTP://h/a\thttp/1.0")) 0).conn.url =
              some index ∧
            (parseRequestLine (zeroed.init.receive (bytes "get HTTP://h/a\thttp/1.0")) 0).conn.str index =
              path :=
  parseRequestLine_accepts_iff (received_written zeroed (by decide) (by decide +kernel))

end StudyRecord.Http.HttpConn
