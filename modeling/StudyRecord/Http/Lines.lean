import StudyRecord.Http.Scanner

/-!
What parsing one complete line does. The functions below read the line only up
to its terminator, move no position of the buffer, and leave pointers into the
line; so a line means the same whatever has arrived behind it.
-/

namespace StudyRecord.Http

open CString Machine

namespace HttpConn

structure Terminated (c : HttpConn) (start final : Nat) : Prop where
  lower : start ≤ final
  received : final < c.readIdx
  zero : c.readBuf final = 0

theorem Terminated.tail {c : HttpConn} {start next final : Nat}
    (line : c.Terminated start final) (inside : next ≤ final) : c.Terminated next final :=
  ⟨inside, line.received, line.zero⟩

theorem Terminated.length {c : HttpConn} {start final : Nat} (line : c.Terminated start final) :
    start + (c.str start).length ≤ final :=
  stringAt_bound line.lower line.zero

theorem Terminated.cut {c : HttpConn} {start final : Nat} (line : c.Terminated start final)
    (index : Nat) : (c.cut index).Terminated start final :=
  ⟨line.lower, line.received, store_zero _ _ _ line.zero⟩

theorem str_receive {c : HttpConn} {start final : Nat} (line : c.Terminated start final)
    (arrived : List UInt8) : (c.receive arrived).str start = c.str start :=
  stringAt_copyIn readBufferSize c.readBuf arrived line.lower line.zero line.received

theorem cut_receive (c : HttpConn) {index : Nat} (below : index < c.readIdx)
    (arrived : List UInt8) : (c.receive arrived).cut index = (c.cut index).receive arrived := by
  simp only [cut, receive, copyIn_store _ _ _ below]

def ReadsWithin (reads : List (Option Nat)) (start final : Nat) : Prop :=
  ∀ pointer ∈ reads, ∀ index, pointer = some index → start ≤ index ∧ index ≤ final

theorem ReadsWithin.append {first second : List (Option Nat)} {start final : Nat}
    (left : ReadsWithin first start final) (right : ReadsWithin second start final) :
    ReadsWithin (first ++ second) start final := by
  intro pointer member
  rcases List.mem_append.mp member with early | late
  · exact left pointer early
  · exact right pointer late

theorem ReadsWithin.cons {pointer start final : Nat} {reads : List (Option Nat)}
    (lower : start ≤ pointer) (upper : pointer ≤ final) (rest : ReadsWithin reads start final) :
    ReadsWithin (some pointer :: reads) start final := by
  intro read member index same
  rcases List.mem_cons.mp member with first | later
  · rw [first, Option.some.injEq] at same
    omega
  · exact rest read later index same

theorem ReadsWithin.nil (start final : Nat) : ReadsWithin [] start final := by
  intro pointer member
  simp at member

/-! The end of the request line: the schemes and the leading slash. -/

def Parsed.receive (parsed : Parsed) (arrived : List UInt8) : Parsed :=
  { parsed with conn := parsed.conn.receive arrived }

theorem Parsed.receive_after (reads : List (Option Nat)) (parsed : Parsed) (arrived : List UInt8) :
    (Parsed.after reads parsed).receive arrived = Parsed.after reads (parsed.receive arrived) := rfl

theorem matched_length {text name : List UInt8} {count : Nat} (size : name.length = count)
    (matched : strncasecmpZero text name count = true) : count ≤ text.length := by
  simp only [strncasecmpZero, beq_iff_eq] at matched
  have lengths := congrArg List.length matched
  simp only [List.length_map, List.length_take] at lengths
  omega

theorem stripScheme_bounds {c : HttpConn} {url final stripped : Nat} {scheme : List UInt8}
    (line : c.Terminated url final) (found : stripScheme c url scheme = some stripped) :
    url ≤ stripped ∧ stripped ≤ final := by
  simp only [stripScheme] at found
  split at found
  · rename_i matched
    have size := matched_length rfl matched
    have whole := line.length
    simp only [Option.map_eq_some_iff] at found
    obtain ⟨offset, slashAt, rfl⟩ := found
    have inside := strchr_lt slashAt
    have rest := (line.tail (show url + scheme.length ≤ final by omega)).length
    omega
  · simp only [Option.some.injEq] at found
    subst stripped
    exact ⟨Nat.le_refl _, line.lower⟩

theorem schemeReads_within {c : HttpConn} {url final : Nat} (scheme : List UInt8)
    (line : c.Terminated url final) : ReadsWithin (schemeReads c url scheme) url final := by
  simp only [schemeReads]
  split
  · rename_i matched
    have size := matched_length rfl matched
    have whole := line.length
    exact .cons (Nat.le_refl _) line.lower (.cons (by omega) (by omega) (.nil _ _))
  · exact .cons (Nat.le_refl _) line.lower (.nil _ _)

theorem stripScheme_receive {c : HttpConn} {url final : Nat} (scheme : List UInt8)
    (line : c.Terminated url final) (arrived : List UInt8) :
    stripScheme (c.receive arrived) url scheme = stripScheme c url scheme ∧
      schemeReads (c.receive arrived) url scheme = schemeReads c url scheme := by
  simp only [stripScheme, schemeReads, str_receive line]
  by_cases matched : strncasecmpZero (c.str url) scheme scheme.length = true
  · have size := matched_length rfl matched
    have whole := line.length
    simp only [str_receive (line.tail (show url + scheme.length ≤ final by omega)), and_self]
  · simp only [matched, Bool.false_eq_true, if_false, and_self]

theorem parseUrl_receive {c : HttpConn} {url final : Nat} (line : c.Terminated url final)
    (arrived : List UInt8) :
    parseUrl (c.receive arrived) url = (parseUrl c url).receive arrived := by
  have http := stripScheme_receive (bytes "http://") line arrived
  simp only [parseUrl, http.1, http.2]
  cases first : stripScheme c url (bytes "http://") with
  | none => rfl
  | some host =>
      have bounds := stripScheme_bounds line first
      have rest := line.tail bounds.2
      have https := stripScheme_receive (bytes "https://") rest arrived
      simp only [https.1, https.2]
      cases second : stripScheme c host (bytes "https://") with
      | none => rfl
      | some path =>
          have inside := (stripScheme_bounds rest second).2
          have here := receive_below c arrived (Nat.lt_of_le_of_lt inside line.received)
          simp only [here]
          split <;> rfl

def LineFrame (before after : HttpConn) : Prop :=
  after = { before with
    readBuf := after.readBuf
    url := after.url
    version := after.version
    method := after.method
    checkState := after.checkState }

theorem LineFrame.trans {first second third : HttpConn} (early : LineFrame first second)
    (late : LineFrame second third) : LineFrame first third := by
  cases first
  cases second
  cases third
  simp only [LineFrame, HttpConn.mk.injEq] at early late ⊢
  simp_all

structure LineEffect (c : HttpConn) (parsed : Parsed) (start final : Nat) : Prop where
  frame : LineFrame c parsed.conn
  zeros : ∀ index, c.readBuf index = 0 → parsed.conn.readBuf index = 0
  pointer : ∀ index, parsed.conn.url = some index → start ≤ index ∧ index ≤ final
  reads : ReadsWithin parsed.reads start final

theorem LineEffect.after {c : HttpConn} {parsed : Parsed} {start final : Nat}
    {reads : List (Option Nat)} (effect : LineEffect c parsed start final)
    (early : ReadsWithin reads start final) :
    LineEffect c (Parsed.after reads parsed) start final :=
  ⟨effect.frame, effect.zeros, effect.pointer, early.append effect.reads⟩

theorem LineEffect.widen {c : HttpConn} {parsed : Parsed} {start next final : Nat}
    (effect : LineEffect c parsed next final) (lower : start ≤ next) :
    LineEffect c parsed start final := by
  refine ⟨effect.frame, effect.zeros, ?_, ?_⟩
  · intro index same
    have bounds := effect.pointer index same
    omega
  · intro pointer member index same
    have bounds := effect.reads pointer member index same
    omega

theorem LineEffect.from {c next : HttpConn} {parsed : Parsed} {start final : Nat}
    (effect : LineEffect next parsed start final) (frame : LineFrame c next)
    (zeros : ∀ index, c.readBuf index = 0 → next.readBuf index = 0) :
    LineEffect c parsed start final :=
  ⟨frame.trans effect.frame, fun index zero => effect.zeros index (zeros index zero),
    effect.pointer, effect.reads⟩

theorem parseUrl_effect {c : HttpConn} {url final : Nat} (line : c.Terminated url final) :
    LineEffect c (parseUrl c url) url final := by
  rw [parseUrl]
  apply LineEffect.after _ (schemeReads_within _ line)
  cases first : stripScheme c url (bytes "http://") with
  | none =>
      refine ⟨rfl, fun _ zero => zero, fun _ absent => by simp at absent, ?_⟩
      intro pointer member index same
      simp only [List.mem_singleton] at member
      simp [member] at same
  | some host =>
      have bounds := stripScheme_bounds line first
      have rest := line.tail bounds.2
      apply LineEffect.widen _ bounds.1
      apply LineEffect.after _ (schemeReads_within _ rest)
      cases second : stripScheme c host (bytes "https://") with
      | none => exact ⟨rfl, fun _ zero => zero, fun _ absent => by simp at absent, .nil _ _⟩
      | some path =>
          have inside := stripScheme_bounds rest second
          have reads : ReadsWithin [some path] host final := .cons inside.1 inside.2 (.nil _ _)
          have pointer (index : Nat) (same : some path = some index) :
              host ≤ index ∧ index ≤ final := by
            rw [Option.some.injEq] at same
            omega
          simp only
          split
          · exact ⟨rfl, fun _ zero => zero, pointer, reads⟩
          · exact ⟨rfl, fun _ zero => zero, pointer, reads⟩

/-! The whole request line. -/

theorem skipBlanks_bounds {c : HttpConn} {start final : Nat} (line : c.Terminated start final) :
    start ≤ c.skipBlanks start ∧ c.skipBlanks start ≤ final := by
  have spaces := strspn_le blanks (c.str start)
  have whole := line.length
  simp only [skipBlanks]
  omega

theorem skipBlanks_receive {c : HttpConn} {start final : Nat} (line : c.Terminated start final)
    (arrived : List UInt8) : (c.receive arrived).skipBlanks start = c.skipBlanks start := by
  simp only [skipBlanks, str_receive line]

theorem checkVersion_receive {c : HttpConn} {url version final : Nat}
    (line : c.Terminated url final) (rest : c.Terminated version final) (arrived : List UInt8) :
    checkVersion (c.receive arrived) url version =
      (checkVersion c url version).receive arrived := by
  have strings : ({ c with version := some version }.receive arrived).str version =
      { c with version := some version }.str version :=
    str_receive (c := { c with version := some version }) ⟨rest.lower, rest.received, rest.zero⟩ arrived
  have known : { c with version := some version }.Terminated url final :=
    ⟨line.lower, line.received, line.zero⟩
  have urls := parseUrl_receive known arrived
  change Parsed.after [some version] (if
    strcasecmpZero (({ c with version := some version }.receive arrived).str version)
        (bytes "HTTP/1.1") = false ∧
      strcasecmpZero (({ c with version := some version }.receive arrived).str version)
        (bytes "HTTP/1.0") = false
    then ⟨{ c with version := some version }.receive arrived, some .badRequest, []⟩
    else parseUrl ({ c with version := some version }.receive arrived) url) = _
  rw [strings, urls, checkVersion]
  split <;> rfl

theorem parseVersion_receive {c : HttpConn} {url final : Nat} (line : c.Terminated url final)
    (arrived : List UInt8) :
    parseVersion (c.receive arrived) url = (parseVersion c url).receive arrived := by
  -- storing the URL pointer changes no byte
  obtain ⟨next, same⟩ : ∃ next : HttpConn, next = { c with url := some url } := ⟨_, rfl⟩
  have line : next.Terminated url final := by
    subst next
    exact ⟨line.lower, line.received, line.zero⟩
  have both : { c.receive arrived with url := some url } = next.receive arrived := by
    subst next
    rfl
  simp only [parseVersion, both, ← same, str_receive line]
  cases found : strpbrk blanks (next.str url) with
  | none => rfl
  | some offset =>
      have inside := strpbrk_lt found
      have whole := line.length
      have received := line.received
      have version := (line.cut (url + offset)).tail (show url + offset + 1 ≤ final by omega)
      have skipped := (line.cut (url + offset)).tail (skipBlanks_bounds version).2
      simp only [cut_receive next (show url + offset < next.readIdx by omega),
        skipBlanks_receive version, checkVersion_receive (line.cut (url + offset)) skipped,
        Parsed.receive_after]

theorem parseRequestLine_receive {c : HttpConn} {text final : Nat}
    (line : c.Terminated text final) (arrived : List UInt8) :
    parseRequestLine (c.receive arrived) text = (parseRequestLine c text).receive arrived := by
  simp only [parseRequestLine, str_receive line]
  cases found : strpbrk blanks (c.str text) with
  | none => rfl
  | some offset =>
      have inside := strpbrk_lt found
      have whole := line.length
      have received := line.received
      have cutLine := line.cut (text + offset)
      -- recording the method changes no byte
      obtain ⟨next, same⟩ : ∃ next : HttpConn, next = { c.cut (text + offset) with method := .get } :=
        ⟨_, rfl⟩
      have nextLine : next.Terminated text final := by
        subst next
        exact ⟨cutLine.lower, cutLine.received, cutLine.zero⟩
      have both : { (c.cut (text + offset)).receive arrived with method := .get } =
          next.receive arrived := by
        subst next
        rfl
      have url := nextLine.tail (show text + offset + 1 ≤ final by omega)
      have skipped := nextLine.tail (skipBlanks_bounds url).2
      simp only [cut_receive c (show text + offset < c.readIdx by omega), str_receive cutLine, both,
        ← same, skipBlanks_receive url, parseVersion_receive skipped]
      split
      · rw [Parsed.receive_after]
      · rfl

theorem cut_zeros (c : HttpConn) (cutAt : Nat) (index : Nat) (zero : c.readBuf index = 0) :
    (c.cut cutAt).readBuf index = 0 :=
  store_zero _ _ _ zero

theorem checkVersion_effect {c : HttpConn} {url version final : Nat}
    (line : c.Terminated url final) (pointer : c.url = some url) (lower : url ≤ version)
    (upper : version ≤ final) : LineEffect c (checkVersion c url version) url final := by
  rw [checkVersion]
  apply LineEffect.after _ (.cons lower upper (.nil _ _))
  split
  · refine ⟨rfl, fun _ zero => zero, ?_, .nil _ _⟩
    intro index same
    simp only [pointer, Option.some.injEq] at same
    have bound := line.lower
    omega
  · exact (parseUrl_effect (c := { c with version := some version })
      ⟨line.lower, line.received, line.zero⟩).from rfl fun _ zero => zero

theorem parseVersion_effect {c : HttpConn} {url final : Nat} (line : c.Terminated url final) :
    LineEffect c (parseVersion c url) url final := by
  have pointer (index : Nat) (same : some url = some index) : url ≤ index ∧ index ≤ final := by
    rw [Option.some.injEq] at same
    have bound := line.lower
    omega
  have first : ReadsWithin [some url] url final := .cons (Nat.le_refl _) line.lower (.nil _ _)
  simp only [parseVersion]
  split
  · exact ⟨rfl, fun _ zero => zero, pointer, first⟩
  · rename_i offset found
    have inside := strpbrk_lt found
    have whole := line.length
    have atVersion : url + offset + 1 ≤ final := by
      simp only [str] at inside whole
      omega
    have line' : { c with url := some url }.Terminated url final :=
      ⟨line.lower, line.received, line.zero⟩
    have cutLine := line'.cut (url + offset)
    have bounds := skipBlanks_bounds (cutLine.tail atVersion)
    apply LineEffect.after _ (.cons (Nat.le_refl _) line.lower (.cons (by omega) atVersion (.nil _ _)))
    exact (checkVersion_effect cutLine rfl (by omega) bounds.2).from rfl
      (cut_zeros { c with url := some url } (url + offset))

theorem parseRequestLine_effect {c : HttpConn} {text final : Nat}
    (line : c.Terminated text final) : LineEffect c (parseRequestLine c text) text final := by
  have first : ReadsWithin [some text] text final := .cons (Nat.le_refl _) line.lower (.nil _ _)
  simp only [parseRequestLine]
  split
  · exact ⟨rfl, fun _ zero => zero, fun _ absent => by simp at absent, first⟩
  · rename_i offset found
    have inside := strpbrk_lt found
    have whole := line.length
    have atUrl : text + offset + 1 ≤ final := by omega
    have cutLine := line.cut (text + offset)
    split
    · have bounds := skipBlanks_bounds (cutLine.tail atUrl)
      have skipped := cutLine.tail bounds.2
      apply LineEffect.after _ (.cons (Nat.le_refl _) line.lower
        (.cons (Nat.le_refl _) line.lower (.cons (by omega) atUrl (.nil _ _))))
      have effect := parseVersion_effect (c := { c.cut (text + offset) with method := .get })
        ⟨skipped.lower, skipped.received, skipped.zero⟩
      have early : text ≤ (c.cut (text + offset)).skipBlanks (text + offset + 1) := by omega
      exact (effect.widen early).from rfl (cut_zeros c (text + offset))
    · refine ⟨rfl, cut_zeros c (text + offset), ?_, .cons (Nat.le_refl _) line.lower first⟩
      intro index same
      simp only [Option.some.injEq] at same
      omega

/-! Headers. -/

theorem headerValue_bounds {c : HttpConn} {text final : Nat} {name : List UInt8} {count : Nat}
    (line : c.Terminated text final) (size : name.length = count)
    (matched : strncasecmpZero (c.str text) name count = true) :
    c.Terminated (text + name.length) final ∧ c.Terminated (headerValue c text name) final ∧
      text + name.length ≤ headerValue c text name := by
  have long := matched_length size matched
  have whole := line.length
  have rest := line.tail (show text + name.length ≤ final by omega)
  have bounds := skipBlanks_bounds rest
  exact ⟨rest, rest.tail bounds.2, bounds.1⟩

theorem header_reads {c : HttpConn} {text final : Nat} {name : List UInt8} {count : Nat}
    (line : c.Terminated text final) (size : name.length = count)
    (matched : strncasecmpZero (c.str text) name count = true) :
    ReadsWithin (some text :: valueReads c text name) text final := by
  obtain ⟨rest, value, order⟩ := headerValue_bounds line size matched
  have first := rest.lower
  have second := value.lower
  exact .cons (Nat.le_refl _) line.lower
    (.cons (by omega) first (.cons (by omega) second (.nil _ _)))

theorem header_receive {c : HttpConn} {text final : Nat} {name : List UInt8} {count : Nat}
    (line : c.Terminated text final) (size : name.length = count)
    (matched : strncasecmpZero (c.str text) name count = true) (arrived : List UInt8) :
    headerValue (c.receive arrived) text name = headerValue c text name ∧
      valueReads (c.receive arrived) text name = valueReads c text name ∧
      (c.receive arrived).str (headerValue c text name) = c.str (headerValue c text name) := by
  obtain ⟨rest, value, _⟩ := headerValue_bounds line size matched
  have same : headerValue (c.receive arrived) text name = headerValue c text name :=
    skipBlanks_receive rest arrived
  exact ⟨same, by simp only [valueReads, same], str_receive value arrived⟩

theorem parseHeaders_receive {c : HttpConn} {text final : Nat} (line : c.Terminated text final)
    (arrived : List UInt8) :
    parseHeaders (c.receive arrived) text = (parseHeaders c text).receive arrived := by
  have here := receive_below c arrived (Nat.lt_of_le_of_lt line.lower line.received)
  have amount : (c.receive arrived).contentLength = c.contentLength := rfl
  simp only [parseHeaders, here, amount, str_receive line]
  by_cases empty : c.readBuf text = 0
  · simp only [empty, if_true]
    split <;> rfl
  simp only [empty, if_false]
  by_cases connection : strncasecmpZero (c.str text) (bytes "Connection:") 11 = true
  · obtain ⟨value, reads, string⟩ := header_receive line rfl connection arrived
    simp only [connection, if_true, value, reads, string]
    split <;> rfl
  simp only [connection, Bool.false_eq_true, if_false]
  by_cases length : strncasecmpZero (c.str text) (bytes "Content-Length:") 15 = true
  · obtain ⟨value, reads, string⟩ := header_receive line rfl length arrived
    simp only [length, if_true, value, reads, string]
    generalize toInt (atol (c.str (headerValue c text (bytes "Content-Length:")))) = amount
    rfl
  simp only [length, Bool.false_eq_true, if_false]
  by_cases host : strncasecmpZero (c.str text) (bytes "Host:") 5 = true
  · obtain ⟨value, reads, string⟩ := header_receive line rfl host arrived
    simp only [host, if_true, value, reads]
    rfl
  simp only [host, Bool.false_eq_true, if_false]
  rfl

structure HeaderEffect (c : HttpConn) (parsed : Parsed) (start final : Nat) : Prop where
  frame : parsed.conn = { c with
    checkState := parsed.conn.checkState
    linger := parsed.conn.linger
    contentLength := parsed.conn.contentLength
    host := parsed.conn.host }
  pointer : parsed.conn.host = c.host ∨
    ∃ index, parsed.conn.host = some index ∧ start ≤ index ∧ index ≤ final
  reads : ReadsWithin parsed.reads start final

theorem parseHeaders_effect {c : HttpConn} {text final : Nat} (line : c.Terminated text final) :
    HeaderEffect c (parseHeaders c text) text final := by
  have first : ReadsWithin [some text] text final := .cons (Nat.le_refl _) line.lower (.nil _ _)
  simp only [parseHeaders]
  split
  · split
    · exact ⟨rfl, Or.inl rfl, first⟩
    · exact ⟨rfl, Or.inl rfl, first⟩
  split
  · rename_i connection
    have reads := header_reads line rfl connection
    split
    · exact ⟨rfl, Or.inl rfl, reads.append (.nil _ _)⟩
    · exact ⟨rfl, Or.inl rfl, reads.append (.nil _ _)⟩
  split
  · rename_i length
    generalize toInt (atol (c.str (headerValue c text (bytes "Content-Length:")))) = amount
    exact ⟨rfl, Or.inl rfl, (header_reads line rfl length).append (.nil _ _)⟩
  split
  · rename_i host
    obtain ⟨_, value, order⟩ := headerValue_bounds line rfl host
    have upper := value.lower
    exact ⟨rfl, Or.inr ⟨_, rfl, by omega, upper⟩, (header_reads line rfl host).append (.nil _ _)⟩
  · exact ⟨rfl, Or.inl rfl, first⟩

end HttpConn

end StudyRecord.Http
