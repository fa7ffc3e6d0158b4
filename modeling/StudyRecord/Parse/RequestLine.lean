import StudyRecord.Parse.Parser

/-!
The request lines that `parse_requestline` accepts: first as a function of the
line alone, then as a grammar.
-/

namespace StudyRecord.Parse

open CString RequestParser

def hasPath (uri : List UInt8) : Bool :=
  if strncasecmpZero uri (bytes "http://") 7 then (strchr slash (uri.drop 7)).isSome
  else uri.head? = some slash

def acceptsTarget (target : List UInt8) : Bool :=
  match strpbrk blanks target with
  | none => false
  | some offset =>
      strcasecmpZero (past blanks (target.drop (offset + 1))) (bytes "HTTP/1.1") &&
        hasPath (target.take offset)

def acceptsRequestLine (line : List UInt8) : Bool :=
  match strpbrk blanks line with
  | none => false
  | some offset =>
      strcasecmpZero (line.take offset) (bytes "GET") &&
        acceptsTarget (past blanks (line.drop (offset + 1)))

structure LineResult (p : RequestParser) (final : Nat) (accepted : Bool) (result : RequestParser × HttpCode) :
    Prop where
  code : result.2 = if accepted then .noRequest else .badRequest
  frame : result.1 = { p with buffer := result.1.buffer, checkState := result.1.checkState }
  header : accepted = true → result.1.checkState = .header
  behind : ∀ position, final ≤ position → result.1.buffer position = p.buffer position

theorem LineResult.rejected (p : RequestParser) (final : Nat) :
    LineResult p final false (p, .badRequest) := by
  refine ⟨rfl, rfl, ?_, fun _ _ => rfl⟩
  intro accepted
  contradiction

theorem LineResult.cut {p : RequestParser} {index final : Nat} {accepted : Bool}
    {result : RequestParser × HttpCode} (below : index < final)
    (later : LineResult (p.cut index) final accepted result) :
    LineResult p final accepted result := by
  refine ⟨later.code, later.frame, later.header, fun position behind => ?_⟩
  rw [later.behind position behind]
  exact store_other p.buffer 0 (by omega)

theorem written_skip {p : RequestParser} {start : Nat} {text : List UInt8}
    (written : Written bufferSize p.buffer start text) :
    Written bufferSize p.buffer (start + strspn blanks (p.str start)) (past blanks text) := by
  have same : p.str start = text := written.string
  rw [same]
  exact written.drop (strspn_le blanks text)

theorem stripScheme_result {p : RequestParser} {uri : Nat} {text : List UInt8}
    (written : Written bufferSize p.buffer uri text) :
    hasPath text = match stripScheme p uri with
      | none => false
      | some start => p.buffer start = slash := by
  have same : p.str uri = text := written.string
  simp only [hasPath, stripScheme, same]
  by_cases scheme : strncasecmpZero text (bytes "http://") 7 = true
  · simp only [scheme, if_true]
    have long : 7 ≤ text.length := by
      simp only [strncasecmpZero, beq_iff_eq] at scheme
      have lengths := congrArg List.length scheme
      simp only [List.length_map, List.length_take, bytes_length] at lengths
      have size : "http://".length = 7 := by decide
      omega
    have rest := written.drop long
    have sameRest : p.str (uri + 7) = text.drop 7 := rest.string
    rw [sameRest]
    cases found : strchr slash (text.drop 7) with
    | none => rfl
    | some offset =>
        obtain ⟨inside, here, _⟩ := List.findIdx?_eq_some_iff_getElem.mp found
        have byte := rest.content offset inside
        rw [beq_iff_eq.mp here] at byte
        simp only [Option.isSome_some, Option.map_some, byte, decide_true]
  · simp only [scheme, Bool.false_eq_true, if_false]
    cases text with
    | nil =>
        have zero : p.buffer uri = 0 := written.terminator
        rw [zero]
        decide
    | cons byte text =>
        have here : p.buffer uri = byte := written.content 0 (by simp)
        rw [here, List.head?_cons]
        simp only [Option.some.injEq]

theorem parseTarget_result {p : RequestParser} {uri : Nat} {text : List UInt8}
    (written : Written bufferSize p.buffer uri text) :
    LineResult p (uri + text.length) (acceptsTarget text) (parseTarget p uri) := by
  have same : p.str uri = text := written.string
  simp only [parseTarget, acceptsTarget, same]
  cases found : strpbrk blanks text with
  | none => exact .rejected p _
  | some offset =>
      have inside := strpbrk_lt found
      obtain ⟨path, behind⟩ := written.cut inside
      have version : (p.cut (uri + offset)).str (uri + offset + 1 +
          strspn blanks ((p.cut (uri + offset)).str (uri + offset + 1))) =
            past blanks (text.drop (offset + 1)) :=
        (written_skip (p := p.cut (uri + offset)) behind).string
      have scheme := stripScheme_result (p := p.cut (uri + offset)) path
      apply LineResult.cut (show uri + offset < uri + text.length by omega)
      simp only [version]
      cases strcasecmpZero (past blanks (text.drop (offset + 1))) (bytes "HTTP/1.1") with
      | false =>
          simp only [if_true, Bool.false_and]
          exact .rejected _ _
      | true =>
          simp only [Bool.true_eq_false, if_false, Bool.true_and, scheme]
          cases stripScheme (p.cut (uri + offset)) uri with
          | none => exact .rejected _ _
          | some start =>
              by_cases isSlash : (p.cut (uri + offset)).buffer start = slash
              · simp only [isSlash, ne_eq, not_true_eq_false, if_false, decide_true]
                exact ⟨rfl, rfl, fun _ => rfl, fun _ _ => rfl⟩
              · simp only [isSlash, ne_eq, not_false_eq_true, if_true, decide_false]
                exact .rejected _ _

theorem parseRequestline_result {p : RequestParser} {temp : Nat} {line : List UInt8}
    (written : Written bufferSize p.buffer temp line) :
    LineResult p (temp + line.length) (acceptsRequestLine line) (parseRequestline p temp) := by
  have same : p.str temp = line := written.string
  simp only [parseRequestline, acceptsRequestLine, same]
  cases found : strpbrk blanks line with
  | none => exact .rejected p _
  | some offset =>
      have inside := strpbrk_lt found
      obtain ⟨method, behind⟩ := written.cut inside
      have sameMethod : (p.cut (temp + offset)).str temp = line.take offset := method.string
      have sameBehind : (p.cut (temp + offset)).str (temp + offset + 1) = line.drop (offset + 1) :=
        behind.string
      have target := parseTarget_result (written_skip (p := p.cut (temp + offset)) behind)
      -- the URI reaches to the end of the line
      have skipped := strspn_le blanks (line.drop (offset + 1))
      rw [sameBehind, past, List.length_drop, List.length_drop] at target
      rw [List.length_drop] at skipped
      rw [show temp + offset + 1 + strspn blanks (line.drop (offset + 1)) +
        (line.length - (offset + 1) - strspn blanks (line.drop (offset + 1))) =
          temp + line.length by omega] at target
      apply LineResult.cut (show temp + offset < temp + line.length by omega)
      simp only [sameMethod, sameBehind]
      cases strcasecmpZero (line.take offset) (bytes "GET") with
      | true =>
          simp only [if_true, Bool.true_and]
          exact target
      | false =>
          simp only [Bool.false_eq_true, if_false, Bool.false_and]
          exact .rejected _ _

/-! The grammar. -/

inductive ValidUri : List UInt8 → Prop
  | path (rest : List UInt8) : ValidUri (slash :: rest)
  | absolute (scheme host rest : List UInt8) (http : strcasecmpZero scheme (bytes "http://")) :
      ValidUri (scheme ++ host ++ slash :: rest)

/-- A method, blanks, a URI with a path, blanks and a version. -/
def ValidRequestLine (line : List UInt8) : Prop :=
  ∃ method gap uri space version, line = method ++ gap ++ uri ++ space ++ version ∧
    strcasecmpZero method (bytes "GET") ∧ Gap blanks gap ∧ (∀ byte ∈ uri, byte ∉ blanks) ∧
    ValidUri uri ∧ Gap blanks space ∧ strcasecmpZero version (bytes "HTTP/1.1")

theorem http_length : (bytes "http://").length = 7 := by decide

theorem hasPath_scheme {scheme rest : List UInt8} (http : strcasecmpZero scheme (bytes "http://")) :
    hasPath (scheme ++ rest) = (strchr slash rest).isSome := by
  have size : scheme.length = 7 := (strcasecmpZero_length http).trans http_length
  have same : strncasecmpZero (scheme ++ rest) (bytes "http://") 7 = true := by
    rw [strncasecmpZero, ← size, List.take_left, size, ← http_length, List.take_length]
    exact http
  rw [hasPath, if_pos same, ← size, List.drop_left]

theorem hasPath_iff (uri : List UInt8) : hasPath uri = true ↔ ValidUri uri := by
  constructor
  · intro path
    by_cases scheme : strncasecmpZero uri (bytes "http://") 7 = true
    · rw [hasPath, if_pos scheme, Option.isSome_iff_exists] at path
      obtain ⟨offset, found⟩ := path
      obtain ⟨inside, here, _⟩ := List.findIdx?_eq_some_iff_getElem.mp found
      have byte : (uri.drop 7)[offset] = slash := beq_iff_eq.mp here
      have split : uri = uri.take 7 ++ (uri.drop 7).take offset ++
          slash :: (uri.drop 7).drop (offset + 1) := by
        rw [← byte, List.append_assoc, List.getElem_cons_drop, List.take_append_drop,
          List.take_append_drop]
      have http : strcasecmpZero (uri.take 7) (bytes "http://") = true := by
        rw [strncasecmpZero, ← http_length, List.take_length] at scheme
        exact scheme
      rw [split]
      exact .absolute _ _ _ http
    · rw [hasPath, if_neg scheme, decide_eq_true_eq] at path
      cases uri with
      | nil => contradiction
      | cons byte rest =>
          obtain rfl : byte = slash := Option.some.inj path
          exact .path rest
  · intro valid
    cases valid with
    | path rest =>
        have other : strncasecmpZero (slash :: rest) (bytes "http://") 7 = false := by
          have letters : bytes "http://" = [104, 116, 116, 112, 58, 47, 47] := by decide
          rw [strncasecmpZero, letters, List.take_succ_cons, List.map_cons, List.take_succ_cons,
            List.map_cons, List.cons_beq_cons]
          have different : (tolower slash == tolower 104) = false := by decide
          rw [different, Bool.false_and]
        rw [hasPath, other]
        rfl
    | absolute scheme host rest http =>
        rw [List.append_assoc, hasPath_scheme http, strchr, List.findIdx?_isSome]
        simp

theorem blanks_caseless : ∀ byte ∈ blanks, tolower byte = byte := by decide +kernel

theorem acceptsTarget_iff (target : List UInt8) :
    acceptsTarget target = true ↔
      ∃ uri space version, target = uri ++ space ++ version ∧ (∀ byte ∈ uri, byte ∉ blanks) ∧
        ValidUri uri ∧ Gap blanks space ∧ strcasecmpZero version (bytes "HTTP/1.1") := by
  constructor
  · intro accepted
    rw [acceptsTarget] at accepted
    cases found : strpbrk blanks target with
    | none =>
        rw [found] at accepted
        contradiction
    | some offset =>
        rw [found] at accepted
        simp only [Bool.and_eq_true] at accepted
        obtain ⟨version, path⟩ := accepted
        obtain ⟨space, split, blank, clear, _⟩ := split_gap found
        exact ⟨_, space, _, split, clear, (hasPath_iff _).mp path, blank, version⟩
  · rintro ⟨uri, space, version, rfl, clear, path, blank, http⟩
    have letters := clear_of_caseless http blanks_caseless (by decide +kernel)
    have stops : ∀ byte ∈ version.head?, byte ∉ blanks :=
      fun byte first => letters byte (List.mem_of_mem_head? first)
    obtain ⟨found, token, rest⟩ := join_gap clear blank stops
    simp only [acceptsTarget, found, token, rest, http, (hasPath_iff uri).mpr path, Bool.and_self]

theorem ValidUri.ne_nil {uri : List UInt8} (valid : ValidUri uri) : uri ≠ [] := by
  cases valid with
  | path rest => exact List.cons_ne_nil _ _
  | absolute scheme host rest http => simp

theorem acceptsRequestLine_iff (line : List UInt8) :
    acceptsRequestLine line = true ↔ ValidRequestLine line := by
  constructor
  · intro accepted
    rw [acceptsRequestLine] at accepted
    cases found : strpbrk blanks line with
    | none =>
        rw [found] at accepted
        contradiction
    | some offset =>
        rw [found] at accepted
        simp only [Bool.and_eq_true] at accepted
        obtain ⟨method, target⟩ := accepted
        obtain ⟨gap, split, blank, _, _⟩ := split_gap found
        obtain ⟨uri, space, version, parts, clear, path, blankSpace, http⟩ :=
          (acceptsTarget_iff _).mp target
        refine ⟨_, gap, uri, space, version, ?_, method, blank, clear, path, blankSpace, http⟩
        rw [parts] at split
        simpa only [List.append_assoc] using split
  · rintro ⟨method, gap, uri, space, version, rfl, get, blank, clear, path, blankSpace, http⟩
    have target : acceptsTarget (uri ++ space ++ version) = true :=
      (acceptsTarget_iff _).mpr ⟨uri, space, version, rfl, clear, path, blankSpace, http⟩
    have stops : ∀ byte ∈ (uri ++ space ++ version).head?, byte ∉ blanks := by
      obtain ⟨first, rest, rfl⟩ := List.exists_cons_of_ne_nil path.ne_nil
      intro byte same
      obtain rfl : first = byte := Option.some.inj same
      exact clear first List.mem_cons_self
    obtain ⟨found, token, rest⟩ := join_gap (clear_of_caseless get blanks_caseless (by decide +kernel)) blank stops
    have whole : method ++ gap ++ uri ++ space ++ version = method ++ gap ++ (uri ++ space ++ version) := by
      simp only [List.append_assoc]
    simp only [whole, acceptsRequestLine, found, token, rest, get, target, Bool.and_self]

end StudyRecord.Parse
