import StudyRecord.Http.Session
import StudyRecord.Pressure.WebBench

/-!
The load generator at the web server of this repository. The server reads the requests that
`build_request` writes for a page.
-/

namespace StudyRecord.WebBench

open CString LineStream Machine Http Http.HttpConn

/-- No byte of a URL ends a line, a string or a part of the request line. -/
def Clean (text : List UInt8) : Prop :=
  Textual text ∧ ∀ byte ∈ text, byte ∉ blanks

instance (text : List UInt8) : Decidable (Clean text) :=
  inferInstanceAs (Decidable (_ ∧ _))

def agentLine : List UInt8 := bytes "User-Agent: WebBench 1.5"

namespace Address

structure Plain (address : Address) : Prop where
  host : Clean address.host
  path : Clean address.path

def fields (address : Address) (plain : address.Plain) (newer : Bool) : List HeaderField :=
  [.other agentLine (by decide +kernel) (by decide +kernel),
    .host address.host plain.host.1 fun byte first =>
      plain.host.2 byte (List.mem_of_mem_head? first)] ++
    if newer then [.connection false] else []

def page (address : Address) (plain : address.Plain) (newer : Bool) : Request where
  path := address.path
  textual := plain.path.1
  clear := plain.path.2
  newer := newer
  fields := address.fields plain newer

theorem plain_of_clean {address : Address} (clean : Clean address.url) : address.Plain := by
  have host (byte : UInt8) (member : byte ∈ address.host) : byte ∈ address.url := by
    rw [url, rest]
    simp [member]
  have path (byte : UInt8) (member : byte ∈ address.path) : byte ∈ address.url := by
    rw [url, rest]
    simp [member]
  exact
    { host := ⟨fun byte member => clean.1 byte (host byte member),
        fun byte member => clean.2 byte (host byte member)⟩
      path := ⟨fun byte member => clean.1 byte (path byte member),
        fun byte member => clean.2 byte (path byte member)⟩ }

end Address

theorem version_get {settings : Settings} (direct : settings.proxyhost = none)
    (get : settings.method = .get) : settings.version = settings.http10 := by
  simp [Settings.version, direct, get]

theorem page_head (address : Address) (plain : address.Plain) (newer : Bool) :
    (address.page plain newer).head = ⟨some (slash :: address.path), some address.host, false, 0⟩ := by
  cases newer
  · rfl
  · rfl

theorem built_request {settings : Settings} (direct : settings.proxyhost = none)
    (get : settings.method = .get) (numbered : 0 < settings.http10) (address : Address)
    (plain : address.Plain) :
    (address.built settings).request = (address.page plain (settings.http10 = 2)).render := by
  have version := version_get direct get
  have method : bytes "GET" ++ bytes " " = bytes "GET " := by decide +kernel
  have line : bytes "\r\n" = [cr, lf] := by decide +kernel
  have agent : bytes "User-Agent: WebBench 1.5\r\n" = agentLine ++ [cr, lf] := by decide +kernel
  have known := settings.known
  obtain older | newer : settings.http10 = 1 ∨ settings.http10 = 2 := by omega
  · have number : bytes " HTTP/1.0" = bytes " " ++ bytes "HTTP/1.0" := by decide +kernel
    simp [Address.built, Settings.pieces, version, older, direct, Method.text, get, agent, line, number,
      Address.page, Address.fields, Request.render, joined, Request.firstLine, HeaderField.line, ← method]
    rfl
  · have number : bytes " HTTP/1.1" = bytes " " ++ bytes "HTTP/1.1" := by decide +kernel
    have close : bytes "Connection: close\r\n" =
        bytes "Connection: " ++ bytes "close" ++ [cr, lf] := by decide +kernel
    simp [Address.built, Settings.pieces, version, newer, direct, Method.text, get, agent, line, number,
      close, Address.page, Address.fields, Request.render, joined, Request.firstLine, HeaderField.line,
      ← method]
    rfl

/-! Requests that the server refuses. -/

def number (settings : Settings) : List UInt8 :=
  if settings.version = 1 then bytes " HTTP/1.0"
  else if settings.version = 2 then bytes " HTTP/1.1" else []

def Address.firstLine (address : Address) (settings : Settings) : List UInt8 :=
  settings.method.text ++ bytes " " ++ (slash :: address.path ++ number settings)

theorem method_plain (method : Method) :
    Textual method.text ∧ ∀ byte ∈ method.text, byte ∉ blanks := by
  cases method with
  | get => exact ⟨by decide +kernel, by decide +kernel⟩
  | head => exact ⟨by decide +kernel, by decide +kernel⟩
  | options => exact ⟨by decide +kernel, by decide +kernel⟩
  | trace => exact ⟨by decide +kernel, by decide +kernel⟩

theorem method_name {method : Method} (other : method ≠ .get) :
    strcasecmpZero method.text (bytes "GET") = false := by
  cases method with
  | get => exact absurd rfl other
  | head => decide +kernel
  | options => decide +kernel
  | trace => decide +kernel

theorem firstLine_textual (address : Address) (plain : address.Plain) (settings : Settings) :
    Textual (address.firstLine settings) := by
  have root : Textual [slash] := by decide +kernel
  have blank : Textual (bytes " ") := by decide +kernel
  have numbered : Textual (number settings) := by
    rw [number]
    split
    · decide +kernel
    · split
      · decide +kernel
      · decide +kernel
  exact ((method_plain settings.method).1.append blank).append
    ((root.append plain.path.1).append numbered)

theorem built_lines (address : Address) (settings : Settings) :
    ∃ behind, (address.built settings).request =
      address.firstLine settings ++ cr :: lf :: behind := by
  have line : bytes "\r\n" = [cr, lf] := by decide +kernel
  have numbered : (if settings.version = 1 then [bytes " HTTP/1.0"]
      else if settings.version = 2 then [bytes " HTTP/1.1"] else []).flatten = number settings := by
    rw [number]
    split
    · exact List.append_nil _
    · split
      · exact List.append_nil _
      · rfl
  obtain ⟨later, pieces⟩ : ∃ later, settings.pieces address.host (slash :: address.path) =
      [settings.method.text, bytes " ", slash :: address.path] ++
        (if settings.version = 1 then [bytes " HTTP/1.0"]
          else if settings.version = 2 then [bytes " HTTP/1.1"] else []) ++
        [bytes "\r\n"] ++ later := by
    simp only [Settings.pieces, List.append_assoc]
    exact ⟨_, rfl⟩
  refine ⟨later.flatten, ?_⟩
  rw [Address.built, pieces, List.flatten_append, List.flatten_append, List.flatten_append, numbered,
    line, Address.firstLine]
  simp only [List.flatten_cons, List.flatten_nil, List.append_nil, List.append_assoc,
    List.cons_append, List.nil_append]

theorem lineTarget_refused (address : Address) (plain : address.Plain) {settings : Settings}
    (direct : settings.proxyhost = none)
    (unknown : ¬(settings.method = .get ∧ 0 < settings.http10)) :
    lineTarget (address.firstLine settings) = .rejected := by
  have gap : Gap blanks (bytes " ") := ⟨by decide +kernel, by decide +kernel⟩
  have root : ∀ byte ∈ (slash :: address.path ++ number settings).head?, byte ∉ blanks := by
    rintro byte ⟨⟩
    decide +kernel
  obtain ⟨found, method, behind⟩ := join_gap (method_plain settings.method).2 gap root
  rw [lineTarget, Address.firstLine, found]
  simp only [method, behind]
  by_cases get : settings.method = .get
  · have none_ : settings.http10 = 0 := by
      by_contra some_
      exact unknown ⟨get, Nat.pos_of_ne_zero some_⟩
    have noNumber : number settings = [] := by
      rw [number, version_get direct get, none_]
      rfl
    have noBlank : strpbrk blanks (slash :: address.path) = none := by
      rw [strpbrk, List.findIdx?_eq_none_iff]
      intro byte member
      rw [List.mem_cons] at member
      rcases member with rfl | member
      · decide +kernel
      · simpa using plain.path.2 byte member
    rw [noNumber, List.append_nil, versionTarget, noBlank]
    simp
  · rw [method_name get]
    simp

theorem refused_feed (address : Address) (plain : address.Plain) {settings : Settings}
    (direct : settings.proxyhost = none)
    (unknown : ¬(settings.method = .get ∧ 0 < settings.http10)) :
    feed cr lf Head.line .start (address.built settings).request =
      .ends (.ends (.returns .badRequest), .start) := by
  have textual := firstLine_textual address plain settings
  have refused : Head.line .start (address.firstLine settings) =
      .error (.ends (.returns .badRequest), .start) := by
    simp only [Head.line, Head.start, textual.cString,
      lineTarget_refused address plain direct unknown, Head.target]
  obtain ⟨behind, lines⟩ := built_lines address settings
  rw [lines, feed_line textual.plain, refused]

/-- The server calls `do_request` for what the load generator sends if that is a GET from HTTP/1.0
on, with the path and the host of the URL, and otherwise refuses it. -/
theorem built_served (settings : Settings) (url : List UInt8) (built : Built)
    (direct : settings.proxyhost = none) (clean : Clean url)
    (made : buildRequest settings url = .ok built) (c : HttpConn) (rounds : List Round)
    (solid : Solid rounds) (whole : delivered rounds = built.request) :
    ∃ address : Address, address.url = url ∧
      if settings.method = .get ∧ 0 < settings.http10 then
        (deliverHeader c.init rounds).2 = some (.ends .callsDoRequest) ∧
          (deliverHeader c.init rounds).1.Shows
            ⟨some (slash :: address.path), some address.host, false, 0⟩
      else (deliverHeader c.init rounds).2 = some (.ends (.returns .badRequest)) := by
  obtain ⟨short, address, rfl, fits, rfl⟩ := (build_ok_iff direct url built).mp made
  have plain := Address.plain_of_clean clean
  have room : (address.built settings).request.length < readBufferSize :=
    built_short settings fits.1 short
  refine ⟨address, rfl, ?_⟩
  by_cases known : settings.method = .get ∧ 0 < settings.http10
  · rw [if_pos known]
    rw [built_request direct known.1 known.2 address plain] at whole room
    have message := (address.page plain (settings.http10 = 2)).render_message []
    rw [List.append_nil] at message
    have read := message.shown c rounds solid (by rwa [whole]) whole
    rw [page_head] at read
    exact read
  · rw [if_neg known]
    have means := deliverHeader_means c rounds solid (by rwa [whole])
    rw [whole, refused_feed address plain direct known] at means
    exact means.1

def plainSettings : Settings where
  method := .get
  http10 := 2
  known := le_rfl
  forceReload := false
  proxyhost := none
  proxyport := 80

def plainAddress : Address where
  scheme := bytes "http://"
  http := by decide +kernel
  host := bytes "h"
  bareHost := by decide +kernel
  port := some (bytes "90")
  barePort := by decide +kernel
  path := bytes "a"

theorem built_served_page :
    ∃ address : Address, address.url = plainAddress.url ∧
      (deliverHeader zeroed.init [[(plainAddress.built plainSettings).request]]).2 =
        some (.ends .callsDoRequest) := by
  obtain ⟨address, same, served⟩ := built_served plainSettings plainAddress.url
    (plainAddress.built plainSettings) rfl (by decide +kernel) (by rfl) zeroed
    [[(plainAddress.built plainSettings).request]] (by decide +kernel) (by decide +kernel)
  exact ⟨address, same, served.1⟩

end StudyRecord.WebBench
