import StudyRecord.Library.CString
import StudyRecord.Library.Machine
import Mathlib.Data.List.Infix

/-!
`build_request` of `test_pressure/webbench-1.5/webbench.c`, which writes the request that the load
generator sends. Strings are the bytes before their NUL.
-/

namespace StudyRecord.WebBench

open CString Machine

def requestSize : Nat := 2048

def maxHostNameLen : Nat := 64

def tmpSize : Nat := 10

def slash : UInt8 := 47

def colon : UInt8 := 58

inductive Method
  | get
  | head
  | options
  | trace
  deriving DecidableEq

structure Settings where
  method : Method
  http10 : Nat
  known : http10 ≤ 2
  forceReload : Bool
  proxyhost : Option (List UInt8)
  proxyport : Int
  deriving DecidableEq

/-- How it ends without a request: it exits with a message, or an array is left. -/
inductive Stop
  | noUrl
  | tooLong
  | onlyHttp
  | noSlash
  | outOfRange
  deriving DecidableEq

structure Built where
  host : List UInt8
  proxyport : Int
  http10 : Nat
  request : List UInt8
  deriving DecidableEq

/-- `strncpy` of part of a string into an array of zeros. What fills the array has no NUL behind
it. -/
def strncpy (size : Nat) (text : List UInt8) (count : Nat) : Except Stop (List UInt8) :=
  if count ≤ size then .ok (text.take count) else .error .outOfRange

def readsOn (text : List UInt8) : Bool :=
  match text.dropWhile isspace with
  | 45 :: rest => rest.all isdigit
  | 43 :: rest => rest.all isdigit
  | rest => rest.all isdigit

/-- `atoi(tmp)`, which reads behind an array that is full as long as there are digits. -/
def atoi (tmp : List UInt8) : Except Stop Int :=
  if tmp.length = tmpSize ∧ readsOn tmp then .error .outOfRange else .ok (toInt (atol tmp))

def strcat (request text : List UInt8) : Except Stop (List UInt8) :=
  if (request ++ text).length < requestSize then .ok (request ++ text) else .error .outOfRange

def Method.text : Method → List UInt8
  | .get => bytes "GET"
  | .head => bytes "HEAD"
  | .options => bytes "OPTIONS"
  | .trace => bytes "TRACE"

namespace Settings

def version (settings : Settings) : Nat :=
  let http10 := settings.http10
  let http10 :=
    if settings.forceReload ∧ settings.proxyhost.isSome ∧ http10 < 1 then 1 else http10
  let http10 := if settings.method = .head ∧ http10 < 1 then 1 else http10
  let http10 := if settings.method = .options ∧ http10 < 2 then 2 else http10
  if settings.method = .trace ∧ http10 < 2 then 2 else http10

def pieces (settings : Settings) (host target : List UInt8) : List (List UInt8) :=
  let http10 := settings.version
  [settings.method.text, bytes " ", target] ++
    (if http10 = 1 then [bytes " HTTP/1.0"] else if http10 = 2 then [bytes " HTTP/1.1"] else []) ++
    [bytes "\r\n"] ++
    (if http10 > 0 then [bytes "User-Agent: WebBench 1.5\r\n"] else []) ++
    (if settings.proxyhost = none ∧ http10 > 0 then [bytes "Host: ", host, bytes "\r\n"] else []) ++
    (if settings.forceReload ∧ settings.proxyhost.isSome then [bytes "Pragma: no-cache\r\n"]
      else []) ++
    (if http10 > 1 then [bytes "Connection: close\r\n"] else []) ++
    if http10 > 0 then [bytes "\r\n"] else []

def addressed (settings : Settings) (url rest : List UInt8) (stop : Nat) :
    Except Stop (List UInt8 × Int × List UInt8) :=
  match settings.proxyhost with
  | some _ => .ok ([], settings.proxyport, url)
  | none =>
      match strchr colon rest with
      | none => do
          let host ← strncpy maxHostNameLen rest stop
          .ok (host, settings.proxyport, rest.drop stop)
      | some port =>
          if port < stop then do
            let host ← strncpy maxHostNameLen rest port
            let tmp ← strncpy tmpSize (rest.drop (port + 1)) (stop - port - 1)
            let proxyport ← atoi tmp
            .ok (host, if proxyport = 0 then 80 else proxyport, rest.drop stop)
          else do
            let host ← strncpy maxHostNameLen rest stop
            .ok (host, settings.proxyport, rest.drop stop)

end Settings

/-- The string in `host`, which is read where the request has a line for it. -/
def hostString (settings : Settings) (host : List UInt8) : Except Stop (List UInt8) :=
  if settings.proxyhost = none ∧ settings.version > 0 ∧ host.length = maxHostNameLen then
    .error .outOfRange
  else .ok host

def buildRequest (settings : Settings) (url : List UInt8) : Except Stop Built :=
  match strstr (bytes "://") url with
  | none => .error .noUrl
  | some offset =>
      if url.length > 1500 then .error .tooLong
      else if settings.proxyhost = none ∧ strncasecmpZero (bytes "http://") url 7 = false then
        .error .onlyHttp
      else
        let rest := url.drop (offset + 3)
        match strchr slash rest with
        | none => .error .noSlash
        | some stop => do
            let (host, proxyport, target) ← settings.addressed url rest stop
            let host ← hostString settings host
            let request ← (settings.pieces host target).foldlM strcat []
            .ok ⟨host, proxyport, settings.version, request⟩

/-! The pieces of a request. -/

theorem strcats_ok (pieces : List (List UInt8)) {request : List UInt8}
    (fits : (request ++ pieces.flatten).length < requestSize) :
    pieces.foldlM strcat request = .ok (request ++ pieces.flatten) := by
  induction pieces generalizing request with
  | nil =>
      rw [List.flatten_nil, List.append_nil]
      rfl
  | cons piece pieces ih =>
      rw [List.flatten_cons, ← List.append_assoc] at fits ⊢
      have here : (request ++ piece).length < requestSize := by
        rw [List.length_append] at fits
        omega
      rw [List.foldlM_cons, strcat, if_pos here]
      exact ih fits

theorem optional_length (condition : Prop) [Decidable condition] (pieces : List (List UInt8)) :
    (if condition then pieces else []).flatten.length ≤ pieces.flatten.length := by
  by_cases here : condition
  · rw [if_pos here]
  · rw [if_neg here]
    exact Nat.zero_le _

theorem method_length (method : Method) : method.text.length ≤ 7 := by
  cases method with
  | get => decide
  | head => decide
  | options => decide
  | trace => decide

theorem pieces_fit (settings : Settings) {host target : List UInt8}
    (shortHost : host.length ≤ maxHostNameLen) (shortTarget : target.length ≤ 1500) :
    (settings.pieces host target).flatten.length < requestSize := by
  have method := method_length settings.method
  have agent := optional_length (settings.version > 0) [bytes "User-Agent: WebBench 1.5\r\n"]
  have hosted := optional_length (settings.proxyhost = none ∧ settings.version > 0)
    [bytes "Host: ", host, bytes "\r\n"]
  have reload := optional_length (settings.forceReload ∧ settings.proxyhost.isSome)
    [bytes "Pragma: no-cache\r\n"]
  have close := optional_length (settings.version > 1) [bytes "Connection: close\r\n"]
  have blank := optional_length (settings.version > 0) [bytes "\r\n"]
  have number : (if settings.version = 1 then [bytes " HTTP/1.0"]
      else if settings.version = 2 then [bytes " HTTP/1.1"] else []).flatten.length ≤ 9 := by
    split
    · decide
    · split <;> decide
  simp only [List.flatten_cons, List.flatten_nil, List.append_nil, List.length_append]
    at agent hosted reload close blank
  simp only [Settings.pieces, List.flatten_append, List.length_append, List.flatten_cons,
    List.flatten_nil, List.append_nil]
  have sizes : (bytes " ").length = 1 ∧ (bytes "\r\n").length = 2 ∧
      (bytes "User-Agent: WebBench 1.5\r\n").length = 26 ∧ (bytes "Host: ").length = 6 ∧
      (bytes "Pragma: no-cache\r\n").length = 18 ∧
      (bytes "Connection: close\r\n").length = 19 := by decide
  obtain ⟨space, line, agentSize, hostSize, reloadSize, closeSize⟩ := sizes
  rw [agentSize] at agent
  rw [hostSize, line] at hosted
  rw [reloadSize] at reload
  rw [closeSize] at close
  rw [line] at blank
  rw [space, line]
  rw [maxHostNameLen] at shortHost
  rw [requestSize]
  omega

/-! The addresses of pages. -/

def colonText : Option (List UInt8) → List UInt8
  | none => []
  | some text => colon :: text

structure Address where
  scheme : List UInt8
  http : strcasecmpZero scheme (bytes "http://") = true
  host : List UInt8
  bareHost : ∀ byte ∈ host, byte ≠ colon ∧ byte ≠ slash
  port : Option (List UInt8)
  barePort : ∀ text ∈ port, slash ∉ text
  path : List UInt8

namespace Address

def portText (address : Address) : List UInt8 := colonText address.port

def rest (address : Address) : List UInt8 :=
  address.host ++ address.portText ++ slash :: address.path

def url (address : Address) : List UInt8 := address.scheme ++ address.rest

/-- The host and the port fit the arrays that they are copied to, and the number of the port ends
in its array. -/
def Copies (address : Address) : Prop :=
  address.host.length ≤ maxHostNameLen ∧
    ∀ text ∈ address.port, text.length ≤ tmpSize ∧ ¬(text.length = tmpSize ∧ readsOn text)

/-- The host has room for a NUL as well, if it is read. -/
def Fits (address : Address) (settings : Settings) : Prop :=
  address.Copies ∧ ¬(settings.version > 0 ∧ address.host.length = maxHostNameLen)

instance (address : Address) : Decidable address.Copies :=
  inferInstanceAs (Decidable (_ ∧ ∀ text ∈ address.port, _ ∧ ¬(_ ∧ _)))

instance (address : Address) (settings : Settings) : Decidable (address.Fits settings) :=
  inferInstanceAs (Decidable (_ ∧ ¬(_ ∧ _)))

def proxyport (address : Address) (settings : Settings) : Int :=
  match address.port with
  | none => settings.proxyport
  | some text => if toInt (atol text) = 0 then 80 else toInt (atol text)

def built (address : Address) (settings : Settings) : Built where
  host := address.host
  proxyport := address.proxyport settings
  http10 := settings.version
  request := (settings.pieces address.host (slash :: address.path)).flatten

theorem slash_clear (address : Address) : slash ∉ address.host ++ address.portText := by
  rw [List.mem_append, not_or]
  refine ⟨fun member => (address.bareHost slash member).2 rfl, ?_⟩
  rw [portText]
  cases given : address.port with
  | none => simp [colonText]
  | some text =>
      rw [colonText, List.mem_cons, not_or]
      exact ⟨by decide, address.barePort text given⟩

theorem strchr_slash (address : Address) :
    strchr slash address.rest = some (address.host ++ address.portText).length :=
  strchr_append address.slash_clear

theorem drop_stop (address : Address) :
    address.rest.drop (address.host ++ address.portText).length = slash :: address.path :=
  List.drop_left

end Address

theorem tolower_other {byte other : UInt8} (same : tolower byte = other)
    (noLetter : ¬(97 ≤ other ∧ other ≤ 122)) : byte = other := by
  subst same
  by_cases upper : 65 ≤ byte ∧ byte ≤ 90
  · refine absurd ?_ noLetter
    rw [tolower, if_pos upper]
    rw [UInt8.le_iff_toNat_le, UInt8.le_iff_toNat_le] at upper ⊢
    have sum := UInt8.toNat_add byte 32
    have low : (65 : UInt8).toNat = 65 := rfl
    have high : (90 : UInt8).toNat = 90 := rfl
    have first : (97 : UInt8).toNat = 97 := rfl
    have last : (122 : UInt8).toNat = 122 := rfl
    have gap : (32 : UInt8).toNat = 32 := rfl
    omega
  · rw [tolower, if_neg upper]

theorem strstr_scheme {scheme : List UInt8} (http : strcasecmpZero scheme (bytes "http://") = true)
    (rest : List UInt8) :
    strstr (bytes "://") (scheme ++ rest) = some 4 ∧ (scheme ++ rest).drop 7 = rest := by
  have size : scheme.length = 7 := strcasecmpZero_length http
  have same := beq_iff_eq.mp http
  match scheme, size with
  | [a, b, c, d, e, f, g], _ =>
      have lower : [tolower a, tolower b, tolower c, tolower d, tolower e, tolower f, tolower g] =
        [104, 116, 116, 112, 58, 47, 47] := same
      simp only [List.cons.injEq, and_true] at lower
      obtain ⟨h, t, t', p, mark, early, late⟩ := lower
      obtain rfl := tolower_other mark (by decide)
      obtain rfl := tolower_other early (by decide)
      obtain rfl := tolower_other late (by decide)
      have clear : 58 ∉ [a, b, c, d] := by
        intro member
        simp only [List.mem_cons, List.not_mem_nil, or_false] at member
        rcases member with rfl | rfl | rfl | rfl
        · contradiction
        · contradiction
        · contradiction
        · contradiction
      exact ⟨@strstr_append 58 [47, 47] [a, b, c, d] rest clear, rfl⟩

theorem atoi_eq (text : List UInt8) :
    atoi text =
      if ¬(text.length = tmpSize ∧ readsOn text) then .ok (toInt (atol text))
      else .error .outOfRange := by
  rw [atoi, ite_not]

theorem addressed_address (address : Address) (settings : Settings)
    (direct : settings.proxyhost = none) :
    settings.addressed address.url address.rest (address.host ++ address.portText).length =
      if address.Copies then
        .ok (address.host, address.proxyport settings, slash :: address.path)
      else .error .outOfRange := by
  have target := address.drop_stop
  have bare : colon ∉ address.host := fun member => (address.bareHost colon member).1 rfl
  have host : address.rest.take address.host.length = address.host := by
    rw [Address.rest, List.append_assoc, List.take_left]
  rw [Settings.addressed, direct]
  simp only [target]
  cases given : address.port with
  | none =>
      have noText : address.portText = [] := by rw [Address.portText, given, colonText]
      have whole : (strncpy maxHostNameLen address.rest (address.host ++ address.portText).length >>=
          fun host => .ok (host, settings.proxyport, slash :: address.path)) =
            if address.Copies then
              .ok (address.host, address.proxyport settings, slash :: address.path)
            else .error .outOfRange := by
        have copies : address.Copies ↔ address.host.length ≤ maxHostNameLen := by
          simp [Address.Copies, given]
        rw [noText, List.append_nil, strncpy, host, Address.proxyport, given]
        by_cases short : address.host.length ≤ maxHostNameLen
        · rw [if_pos short, if_pos (copies.mpr short)]
          rfl
        · rw [if_neg short, if_neg (short ∘ copies.mp)]
          rfl
      cases found : strchr colon address.rest with
      | none => exact whole
      | some port =>
          have behind : ¬port < (address.host ++ address.portText).length := by
            intro early
            have split := (strchr_split found).1
            rw [noText, List.append_nil] at early
            have here : address.rest[port]? = some colon := by
              rw [split, List.getElem?_append_right (by simp)]
              simp [Nat.min_eq_left (strchr_lt found).le]
            rw [Address.rest, List.append_assoc, List.getElem?_append_left early] at here
            exact bare (List.mem_of_getElem? here)
          simp only [if_neg behind]
          exact whole
  | some text =>
      have someText : address.portText = colon :: text := by rw [Address.portText, given, colonText]
      have split : address.rest = address.host ++ colon :: (text ++ slash :: address.path) := by
        rw [Address.rest, someText, List.append_assoc, List.cons_append]
      have found : strchr colon address.rest = some address.host.length := by
        rw [split]
        exact strchr_append bare
      have stop : (address.host ++ address.portText).length =
          address.host.length + 1 + text.length := by
        rw [someText, List.length_append, List.length_cons]
        omega
      have tmp : (address.rest.drop (address.host.length + 1)).take text.length = text := by
        rw [split, ← List.drop_drop, List.drop_left, List.drop_succ_cons, List.drop_zero,
          List.take_left]
      have early : address.host.length < (address.host ++ address.portText).length := by omega
      have size : (address.host ++ address.portText).length - address.host.length - 1 =
          text.length := by omega
      have copies : address.Copies ↔ address.host.length ≤ maxHostNameLen ∧
          text.length ≤ tmpSize ∧ ¬(text.length = tmpSize ∧ readsOn text) := by
        rw [Address.Copies, given]
        simp only [Option.mem_def, Option.some.injEq, forall_eq']
      simp only [found, if_pos early, size, strncpy, host, tmp, Address.proxyport, given]
      by_cases short : address.host.length ≤ maxHostNameLen
      · by_cases shortPort : text.length ≤ tmpSize
        · by_cases ends : ¬(text.length = tmpSize ∧ readsOn text)
          · rw [if_pos short, if_pos shortPort, if_pos (copies.mpr ⟨short, shortPort, ends⟩)]
            show (atoi text >>= _) = _
            rw [atoi_eq, if_pos ends]
            rfl
          · rw [if_pos short, if_pos shortPort, if_neg fun all => ends (copies.mp all).2.2]
            show (atoi text >>= _) = _
            rw [atoi_eq, if_neg ends]
            rfl
        · rw [if_pos short, if_neg shortPort, if_neg fun all => shortPort (copies.mp all).2.1]
          rfl
      · rw [if_neg short, if_neg fun all => short (copies.mp all).1]
        rfl

theorem built_short {address : Address} (settings : Settings) (copies : address.Copies)
    (short : address.url.length ≤ 1500) :
    (address.built settings).request.length < requestSize := by
  refine pieces_fit settings copies.1 ?_
  rw [Address.url, List.length_append, Address.rest, List.length_append] at short
  omega

theorem build_address (address : Address) (settings : Settings)
    (direct : settings.proxyhost = none) (short : address.url.length ≤ 1500) :
    buildRequest settings address.url =
      if address.Fits settings then .ok (address.built settings) else .error .outOfRange := by
  have found : strstr (bytes "://") address.url = some 4 := (strstr_scheme address.http _).1
  have behind : address.url.drop 7 = address.rest := (strstr_scheme address.http _).2
  have isHttp : strncasecmpZero (bytes "http://") address.url 7 = true := by
    have front : strncasecmpZero address.url (bytes "http://") 7 = true :=
      strncasecmpZero_append address.http
    rw [strncasecmpZero, beq_iff_eq] at front ⊢
    exact front.symm
  have allowed : ¬(settings.proxyhost = none ∧
      strncasecmpZero (bytes "http://") address.url 7 = false) := by
    rw [isHttp]
    simp
  simp only [buildRequest, found, if_neg (Nat.not_lt.mpr short), if_neg allowed, behind,
    address.strchr_slash, addressed_address address settings direct]
  by_cases copies : address.Copies
  · have request := strcats_ok (settings.pieces address.host (slash :: address.path))
      (show ([] ++ _).length < requestSize from built_short settings copies short)
    by_cases full : settings.version > 0 ∧ address.host.length = maxHostNameLen
    · rw [if_pos copies, if_neg fun fits => fits.2 full]
      simp only [bind, Except.bind, hostString, direct, true_and, if_pos full]
    · rw [if_pos copies, if_pos ⟨copies, full⟩]
      simp only [bind, Except.bind, hostString, direct, true_and, if_neg full, request]
      rfl
  · rw [if_neg copies, if_neg fun fits => copies fits.1]
    rfl

theorem authority_split {authority : List UInt8} (clear : slash ∉ authority) :
    ∃ host port, authority = host ++ colonText port ∧
      (∀ byte ∈ host, byte ≠ colon ∧ byte ≠ slash) ∧ ∀ text ∈ port, slash ∉ text := by
  cases found : strchr colon authority with
  | none =>
      refine ⟨authority, none, (List.append_nil authority).symm, fun byte member => ⟨?_, ?_⟩, ?_⟩
      · rintro rfl
        exact strchr_none.mp found member
      · rintro rfl
        exact clear member
      · simp
  | some offset =>
      obtain ⟨split, bare⟩ := strchr_split found
      refine ⟨authority.take offset, some (authority.drop (offset + 1)), split,
        fun byte member => ⟨?_, ?_⟩, ?_⟩
      · rintro rfl
        exact bare member
      · rintro rfl
        exact clear (List.mem_of_mem_take member)
      · rintro text ⟨⟩ member
        exact clear (List.mem_of_mem_drop member)

theorem address_of_checks {url : List UInt8} {offset stop : Nat}
    (found : strstr (bytes "://") url = some offset)
    (isHttp : strncasecmpZero (bytes "http://") url 7 = true)
    (slashed : strchr slash (url.drop (offset + 3)) = some stop) :
    ∃ address : Address, address.url = url := by
  have http : strcasecmpZero (url.take 7) (bytes "http://") = true := by
    rw [strncasecmpZero, beq_iff_eq] at isHttp
    rw [strcasecmpZero, beq_iff_eq]
    exact isHttp.symm
  have first := (strstr_scheme http (url.drop 7)).1
  rw [List.take_append_drop, found, Option.some.injEq] at first
  subst first
  obtain ⟨split, clear⟩ := strchr_split slashed
  obtain ⟨host, port, authority, bareHost, barePort⟩ := authority_split clear
  refine ⟨⟨url.take 7, http, host, bareHost, port, barePort, (url.drop 7).drop (stop + 1)⟩, ?_⟩
  rw [Address.url, Address.rest, Address.portText, ← authority]
  exact (congrArg (url.take 7 ++ ·) split.symm).trans (List.take_append_drop 7 url)

theorem build_direct {settings : Settings} (direct : settings.proxyhost = none)
    (url : List UInt8) :
    (∃ stop, stop ≠ .outOfRange ∧ buildRequest settings url = .error stop) ∨
      url.length ≤ 1500 ∧ ∃ address : Address, address.url = url := by
  rw [buildRequest]
  cases found : strstr (bytes "://") url with
  | none => exact .inl ⟨.noUrl, by decide, rfl⟩
  | some offset =>
      by_cases long : url.length > 1500
      · exact .inl ⟨.tooLong, by decide, if_pos long⟩
      · cases isHttp : strncasecmpZero (bytes "http://") url 7 with
        | false =>
            exact .inl ⟨.onlyHttp, by decide, by simp only [if_neg long, direct, and_self, if_true]⟩
        | true =>
            cases slashed : strchr slash (url.drop (offset + 3)) with
            | none => exact .inl ⟨.noSlash, by decide, by simp [long, slashed]⟩
            | some stop =>
                exact .inr ⟨Nat.le_of_not_gt long, address_of_checks found isHttp slashed⟩

theorem build_proxied {settings : Settings} {proxy : List UInt8}
    (proxied : settings.proxyhost = some proxy) (url : List UInt8) :
    buildRequest settings url ≠ .error .outOfRange := by
  rw [buildRequest]
  cases strstr (bytes "://") url with
  | none => simp
  | some offset =>
      by_cases long : url.length > 1500
      · simp [long]
      · have request := strcats_ok (settings.pieces [] url) (show ([] ++ _).length < requestSize from
          pieces_fit settings (by decide) (Nat.le_of_not_gt long))
        simp only [if_neg long, proxied, reduceCtorEq, false_and, if_false]
        cases strchr slash (url.drop (offset + 3)) with
        | none => simp
        | some stop => simp [Settings.addressed, hostString, proxied, bind, Except.bind, request]

/-- An array is left exactly for the URLs that pass the checks and have a host or a port which is
too long for its array, or fills it and is read behind it. -/
theorem build_outOfRange_iff (settings : Settings) (url : List UInt8) :
    buildRequest settings url = .error .outOfRange ↔
      settings.proxyhost = none ∧ url.length ≤ 1500 ∧
        ∃ address : Address, address.url = url ∧ ¬address.Fits settings := by
  constructor
  · intro left
    cases direct : settings.proxyhost with
    | some proxy => exact absurd left (build_proxied direct url)
    | none =>
        rcases build_direct direct url with ⟨stop, other, refused⟩ | ⟨short, address, rfl⟩
        · rw [refused, Except.error.injEq] at left
          exact absurd left other
        · refine ⟨rfl, short, address, rfl, fun fits => ?_⟩
          rw [build_address address settings direct short, if_pos fits] at left
          contradiction
  · rintro ⟨direct, short, address, rfl, tooLong⟩
    rw [build_address address settings direct short, if_neg tooLong]

example :
    (buildRequest ⟨.get, 1, by decide, false, none, 80⟩ (bytes "http://h:80abcdefgh/")).toOption.map
      Built.proxyport = some 80 := by
  decide +kernel

theorem build_ok_iff {settings : Settings} (direct : settings.proxyhost = none) (url : List UInt8)
    (built : Built) :
    buildRequest settings url = .ok built ↔
      url.length ≤ 1500 ∧
        ∃ address : Address, address.url = url ∧ address.Fits settings ∧ built = address.built settings := by
  constructor
  · intro made
    rcases build_direct direct url with ⟨stop, _, refused⟩ | ⟨short, address, rfl⟩
    · rw [refused] at made
      contradiction
    · rw [build_address address settings direct short] at made
      by_cases fits : address.Fits settings
      · rw [if_pos fits, Except.ok.injEq] at made
        exact ⟨short, address, rfl, fits, made.symm⟩
      · rw [if_neg fits] at made
        contradiction
  · rintro ⟨short, address, rfl, fits, rfl⟩
    rw [build_address address settings direct short, if_pos fits]

theorem built_of_ok {settings : Settings} (direct : settings.proxyhost = none) {address : Address}
    {built : Built} (made : buildRequest settings address.url = .ok built) :
    address.url.length ≤ 1500 ∧ address.Fits settings ∧ built = address.built settings := by
  have short := ((build_ok_iff direct address.url built).mp made).1
  rw [build_address address settings direct short] at made
  by_cases fits : address.Fits settings
  · rw [if_pos fits, Except.ok.injEq] at made
    exact ⟨short, fits, made.symm⟩
  · rw [if_neg fits] at made
    contradiction

end StudyRecord.WebBench
