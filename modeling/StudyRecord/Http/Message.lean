import StudyRecord.Http.Head
import StudyRecord.Http.Response

/-!
Requests as a client writes them. The header phase takes the messages of a grammar and no
others, and it reads out of a written request what was put into it.
-/

namespace StudyRecord.Http.HttpConn

open CString LineStream Machine

/-! The fields of a message. -/

def Field.host? : Field → Option (List UInt8)
  | .host value => some value
  | _ => none

def Field.length? : Field → Option Int
  | .contentLength value => some (toInt (atol value))
  | _ => none

def Field.keepsAlive : Field → Bool
  | .connection value => strcasecmpZero value (bytes "keep-alive")
  | _ => false

def lastSaid {β : Type} (read : Field → Option β) (fields : List Field) : Option β :=
  (fields.filterMap read).getLast?

theorem lastSaid_cons {β : Type} (read : Field → Option β) (field : Field) (fields : List Field) :
    lastSaid read (field :: fields) = (lastSaid read fields).or (read field) := by
  rw [lastSaid, lastSaid, List.filterMap_cons]
  cases read field with
  | none => exact Option.or_none.symm
  | some value =>
      rw [List.getLast?_cons]
      cases (fields.filterMap read).getLast? <;> rfl

namespace Head

def ofFields (path : List UInt8) (fields : List Field) : Head where
  path := some path
  host := lastSaid Field.host? fields
  linger := fields.any Field.keepsAlive
  contentLength := (lastSaid Field.length? fields).getD 0

def later (head : Head) (fields : List Field) : Head where
  path := head.path
  host := (lastSaid Field.host? fields).or head.host
  linger := head.linger || fields.any Field.keepsAlive
  contentLength := (lastSaid Field.length? fields).getD head.contentLength

theorem later_nil (head : Head) : head.later [] = head := by
  simp [later, lastSaid]

theorem later_cons (head : Head) (field : Field) (fields : List Field) :
    head.later (field :: fields) = (head.later [field]).later fields := by
  simp only [later, lastSaid_cons, List.any_cons, List.any_nil, Bool.or_false, Bool.or_assoc]
  congr 1
  · rw [Option.or_assoc]
    rfl
  · cases lastSaid Field.length? fields <;> rfl

theorem field_later (head : Head) {field : Field} (said : field ≠ .blank) :
    head.field field = .ok (head.later [field]) := by
  cases field with
  | blank => contradiction
  | connection value => simp [Head.field, later, lastSaid, Field.host?, Field.length?, Field.keepsAlive]
  | contentLength value =>
      simp [Head.field, later, lastSaid, Field.host?, Field.length?, Field.keepsAlive]
  | host value => simp [Head.field, later, lastSaid, Field.host?, Field.length?, Field.keepsAlive]
  | unknown => simp [Head.field, later, lastSaid, Field.host?, Field.length?, Field.keepsAlive]

def verdict (head : Head) : HeaderEnd :=
  if head.contentLength ≠ 0 then .entersContent else .ends .callsDoRequest

theorem line_field {head : Head} {path : List UInt8} (said : head.path = some path)
    (content : List UInt8) : head.line content = head.field (fieldOf (cString content)) := by
  simp only [Head.line, said]

theorem fieldOf_blank {text : List UInt8} : fieldOf text = .blank ↔ text = [] := by
  simp only [fieldOf]
  split
  · exact iff_of_true rfl (by assumption)
  · rename_i some'
    refine iff_of_false ?_ some'
    split
    · simp
    · split
      · simp
      · split <;> simp

theorem fields_read (fields : List (List UInt8)) {head next : Head} {path : List UInt8}
    (said : head.path = some path) :
    fields.foldlM Head.line head = .ok next ↔
      (∀ field ∈ fields, cString field ≠ []) ∧
        next = head.later (fields.map fun field => fieldOf (cString field)) := by
  induction fields generalizing head with
  | nil =>
      rw [List.foldlM_nil, List.map_nil, later_nil]
      constructor
      · intro same
        exact ⟨by simp, (Except.ok.inj same).symm⟩
      · rintro ⟨_, rfl⟩
        rfl
  | cons field fields ih =>
      rw [List.foldlM_cons, List.forall_mem_cons, List.map_cons, later_cons, line_field said]
      by_cases blank : cString field = []
      · rw [fieldOf_blank.mpr blank]
        refine iff_of_false (fun accepted => ?_) fun whole => whole.1.1 blank
        rw [Head.field] at accepted
        contradiction
      · rw [field_later head (fun isBlank => blank (fieldOf_blank.mp isBlank))]
        have rest := @ih (head.later [fieldOf (cString field)]) said
        refine rest.trans ?_
        exact ⟨fun whole => ⟨⟨blank, whole.1⟩, whole.2⟩, fun whole => ⟨whole.1.2, whole.2⟩⟩

end Head

/-! The grammar of messages. -/

/-- A stream that begins with a request line, fields and a blank line. -/
inductive Message : List UInt8 → Head → Prop
  | lines (first : List UInt8) (fields : List (List UInt8)) (blank behind : List UInt8)
      (method gap uri space version path : List UInt8)
      (plain : ∀ line ∈ first :: fields, Plain cr lf line) (plainBlank : Plain cr lf blank)
      (parts : RequestLine (cString first) method gap uri space version) (names : PathOf uri path)
      (said : ∀ field ∈ fields, cString field ≠ []) (ends : cString blank = []) :
      Message (joined cr lf (first :: fields) ++ (blank ++ cr :: lf :: behind))
        (.ofFields path (fields.map fun field => fieldOf (cString field)))

theorem lineTarget_path_iff (line path : List UInt8) :
    lineTarget line = .path path ↔ ∃ method gap uri space version,
      RequestLine line method gap uri space version ∧ PathOf uri path := by
  simp only [← urlTarget_path_iff]
  exact lineTarget_iff line (by simp)

theorem Head.ofFields_later (path : List UInt8) (fields : List Field) :
    ({ Head.start with path := some path } : Head).later fields = .ofFields path fields := by
  simp only [Head.later, Head.ofFields, Head.start, Option.or_none, Bool.false_or]

theorem Head.start_line {content : List UInt8} {path : List UInt8}
    (target : lineTarget (cString content) = .path path) :
    Head.start.line content = .ok { Head.start with path := some path } := by
  simp only [Head.line, Head.start, target, Head.target]

theorem Head.lines_read {first path : List UInt8} {fields : List (List UInt8)}
    (target : lineTarget (cString first) = .path path) (said : ∀ field ∈ fields, cString field ≠ []) :
    (first :: fields).foldlM Head.line .start =
      .ok (.ofFields path (fields.map fun field => fieldOf (cString field))) := by
  rw [List.foldlM_cons, Head.start_line target, ← Head.ofFields_later]
  exact (Head.fields_read fields rfl).mpr ⟨said, rfl⟩

theorem Head.blank_ends {head : Head} {path blank : List UInt8} (said : head.path = some path)
    (ends : cString blank = []) : head.line blank = .error (head.verdict, head) := by
  rw [Head.line_field said, Head.fieldOf_blank.mpr ends]
  rfl

theorem Message.feeds {stream : List UInt8} {head : Head} (message : Message stream head) :
    feed cr lf Head.line .start stream = .ends (head.verdict, head) := by
  cases message with
  | lines first fields blank behind method gap uri space version path plain plainBlank parts names
      said ends =>
      have target := (lineTarget_path_iff (cString first) path).mpr
        ⟨method, gap, uri, space, version, parts, names⟩
      rw [feed_lines _ plain (Head.lines_read target said), feed_line plainBlank,
        Head.blank_ends rfl ends]

def HeaderEnd.Accepts (ending : HeaderEnd) : Prop :=
  ending = .entersContent ∨ ending = .ends .callsDoRequest

theorem Head.verdict_accepts (head : Head) : HeaderEnd.Accepts head.verdict := by
  simp only [Head.verdict]
  split
  · exact .inl rfl
  · exact .inr rfl

theorem Head.target_rejects {head : Head} {target : Target} {ending : HeaderEnd} {final : Head}
    (accepted : HeaderEnd.Accepts ending) : head.target target ≠ .error (ending, final) := by
  intro ended
  cases target with
  | missing =>
      simp only [Head.target, Except.error.injEq, Prod.mk.injEq] at ended
      rcases accepted with rfl | rfl <;> simp at ended
  | rejected =>
      simp only [Head.target, Except.error.injEq, Prod.mk.injEq] at ended
      rcases accepted with rfl | rfl <;> simp at ended
  | path path => simp [Head.target] at ended

theorem Head.field_ends {head : Head} {field : Field} {ending : Ending}
    (ended : head.field field = .error ending) : field = .blank ∧ ending = (head.verdict, head) := by
  cases field with
  | blank =>
      rw [Head.field, Except.error.injEq] at ended
      exact ⟨rfl, ended.symm⟩
  | connection value => simp [Head.field] at ended
  | contentLength value => simp [Head.field] at ended
  | host value => simp [Head.field] at ended
  | unknown => simp [Head.field] at ended

theorem message_of_feed {stream : List UInt8} {ending : HeaderEnd} {head : Head}
    (accepted : HeaderEnd.Accepts ending)
    (ended : feed cr lf Head.line .start stream = .ends (ending, head)) : Message stream head := by
  obtain ⟨lines, next, last, rest, plain, read, plainLast, ended', rfl⟩ :=
    (feed_ends_iff _ _ _).mp ended
  cases lines with
  | nil =>
      -- the request line itself ends no header phase that reads a request
      obtain rfl : Head.start = next := Except.ok.inj read
      exact absurd ended' (Head.target_rejects accepted)
  | cons first fields =>
      rw [List.foldlM_cons] at read
      cases target : lineTarget (cString first) with
      | missing =>
          simp only [Head.line, Head.start, target, Head.target] at read
          contradiction
      | rejected =>
          simp only [Head.line, Head.start, target, Head.target] at read
          contradiction
      | path path =>
          obtain ⟨method, gap, uri, space, version, parts, names⟩ :=
            (lineTarget_path_iff (cString first) path).mp target
          rw [Head.start_line target] at read
          obtain ⟨said, rfl⟩ := (Head.fields_read fields rfl).mp read
          rw [Head.line_field rfl] at ended'
          obtain ⟨blank, same⟩ := Head.field_ends ended'
          obtain ⟨_, rfl⟩ := Prod.mk.inj same
          rw [Head.ofFields_later]
          exact .lines first fields last rest method gap uri space version path plain plainLast parts
            names said (Head.fieldOf_blank.mp blank)

theorem Message.shown {stream : List UInt8} {head : Head} (message : Message stream head)
    (c : HttpConn) (rounds : List Round) (solid : Solid rounds)
    (short : (delivered rounds).length < readBufferSize) (whole : delivered rounds = stream) :
    (deliverHeader c.init rounds).2 = some head.verdict ∧
      (deliverHeader c.init rounds).1.Shows head := by
  have means := deliverHeader_means c rounds solid short
  rw [whole, message.feeds] at means
  exact means

/-- A request is read out of the messages of the grammar and out of nothing else, and what is
read is what the message says, in whatever chunks its bytes come. -/
theorem header_accepts_messages (c : HttpConn) (rounds : List Round) (solid : Solid rounds)
    (short : (delivered rounds).length < readBufferSize) :
    ((∃ ending, (deliverHeader c.init rounds).2 = some ending ∧ HeaderEnd.Accepts ending) ↔
        ∃ head, Message (delivered rounds) head) ∧
      ∀ head, Message (delivered rounds) head →
        (deliverHeader c.init rounds).2 = some head.verdict ∧
          (deliverHeader c.init rounds).1.Shows head := by
  have read (head : Head) (message : Message (delivered rounds) head) :=
    message.shown c rounds solid short rfl
  refine ⟨⟨?_, ?_⟩, read⟩
  · rintro ⟨ending, ended, accepted⟩
    have means := deliverHeader_means c rounds solid short
    cases said : feed cr lf Head.line .start (delivered rounds) with
    | waits head pending =>
        rw [said] at means
        rw [means.1] at ended
        contradiction
    | broken =>
        rw [said] at means
        have none' : (deliverHeader c.init rounds).2 = none := means
        rw [none'] at ended
        contradiction
    | ends result =>
        rw [said] at means
        obtain rfl := Option.some.inj (means.1.symm.trans ended)
        exact ⟨result.2, message_of_feed accepted said⟩
  · rintro ⟨head, message⟩
    exact ⟨head.verdict, (read head message).1, head.verdict_accepts⟩

theorem header_accepts_messages_split :
    ((∃ ending, (deliverHeader zeroed.init [[bytes "GET /a HTTP/1.1\r"],
            [bytes "\nHost: x\r\n\r", bytes "\n"]]).2 = some ending ∧ HeaderEnd.Accepts ending) ↔
        ∃ head, Message (delivered [[bytes "GET /a HTTP/1.1\r"],
          [bytes "\nHost: x\r\n\r", bytes "\n"]]) head) ∧
      ∀ head, Message (delivered [[bytes "GET /a HTTP/1.1\r"],
            [bytes "\nHost: x\r\n\r", bytes "\n"]]) head →
        (deliverHeader zeroed.init [[bytes "GET /a HTTP/1.1\r"],
            [bytes "\nHost: x\r\n\r", bytes "\n"]]).2 = some head.verdict ∧
          (deliverHeader zeroed.init [[bytes "GET /a HTTP/1.1\r"],
            [bytes "\nHost: x\r\n\r", bytes "\n"]]).1.Shows head :=
  header_accepts_messages zeroed _ (by decide) (by decide)

/-! Requests as they are written. -/

def Textual (text : List UInt8) : Prop := ∀ byte ∈ text, byte ≠ 0 ∧ byte ≠ cr ∧ byte ≠ lf

instance (text : List UInt8) : Decidable (Textual text) :=
  inferInstanceAs (Decidable (∀ byte ∈ text, byte ≠ 0 ∧ byte ≠ cr ∧ byte ≠ lf))

theorem Textual.plain {text : List UInt8} (textual : Textual text) : Plain cr lf text :=
  fun byte member => (textual byte member).2

theorem Textual.cString {text : List UInt8} (textual : Textual text) :
    CString.cString text = text :=
  cString_of_nonzero fun byte member => (textual byte member).1

theorem Textual.append {first second : List UInt8} (early : Textual first)
    (late : Textual second) : Textual (first ++ second) :=
  List.forall_mem_append.mpr ⟨early, late⟩

inductive HeaderField
  | connection (alive : Bool)
  | contentLength (size : Nat) (small : size < 2 ^ 31)
  | host (name : List UInt8) (textual : Textual name) (starts : ∀ byte ∈ name.head?, byte ∉ blanks)
  | other (text : List UInt8) (textual : Textual text) (unknown : fieldOf text = .unknown)

namespace HeaderField

def line : HeaderField → List UInt8
  | connection alive => bytes "Connection: " ++ if alive then bytes "keep-alive" else bytes "close"
  | contentLength size _ => bytes "Content-Length: " ++ decimal size
  | host name _ _ => bytes "Host: " ++ name
  | other text _ _ => text

def alive : HeaderField → Bool
  | connection alive => alive
  | _ => false

def length? : HeaderField → Option Nat
  | contentLength size _ => some size
  | _ => none

def host? : HeaderField → Option (List UInt8)
  | host name _ _ => some name
  | _ => none

end HeaderField

structure Request where
  path : List UInt8
  textual : Textual path
  clear : ∀ byte ∈ path, byte ∉ blanks
  newer : Bool
  fields : List HeaderField

namespace Request

def firstLine (request : Request) : List UInt8 :=
  bytes "GET " ++ (slash :: request.path) ++ bytes " " ++
    if request.newer then bytes "HTTP/1.1" else bytes "HTTP/1.0"

def render (request : Request) : List UInt8 :=
  joined cr lf (request.firstLine :: (request.fields.map HeaderField.line ++ [[]]))

/-- A field that is repeated counts where it stands last, and one `keep-alive` is enough. -/
def head (request : Request) : Head where
  path := some (slash :: request.path)
  host := (request.fields.filterMap HeaderField.host?).getLast?
  linger := request.fields.any HeaderField.alive
  contentLength := (((request.fields.filterMap HeaderField.length?).getLast?.getD 0 : Nat) : Int)

end Request

/-! Reading a written request back. -/

theorem decimal_natCast (size : Nat) : decimal size = bytes size.repr := rfl

theorem decimal_textual (size : Nat) :
    Textual (decimal size) ∧ ∀ byte ∈ (decimal size).head?, byte ∉ blanks := by
  have digits {byte : UInt8} (member : byte ∈ decimal size) : 48 ≤ byte := by
    have digit := bytes_repr size byte member
    rw [isdigit, Bool.and_eq_true, decide_eq_true_eq] at digit
    exact digit.1
  refine ⟨fun byte member => ?_, fun byte first blank => ?_⟩
  · have lower := digits member
    refine ⟨?_, ?_, ?_⟩
    · rintro rfl
      contradiction
    · rintro rfl
      contradiction
    · rintro rfl
      contradiction
  · have lower := digits (List.mem_of_mem_head? first)
    have none' : ∀ byte ∈ blanks, ¬48 ≤ byte := by decide +kernel
    exact none' byte blank lower

theorem valueOf_written {name value : List UInt8} (starts : ∀ byte ∈ value.head?, byte ∉ blanks) :
    valueOf name (name ++ bytes " " ++ value) = value := by
  have inside : ∀ byte ∈ bytes " ", byte ∈ blanks := by decide +kernel
  rw [valueOf, List.append_assoc, List.drop_left, past, strspn_append inside starts, List.drop_left]

theorem named_written {name value : List UInt8} (count : Nat) (size : name.length = count) :
    strncasecmpZero (name ++ bytes " " ++ value) name count = true := by
  subst size
  rw [List.append_assoc]
  exact strncasecmpZero_append (beq_iff_eq.mpr rfl)

theorem unnamed_written {name other value : List UInt8} (count : Nat) (long : 4 ≤ name.length)
    (enough : 4 ≤ count) (differ : strncasecmpZero name other 4 = false) :
    ¬strncasecmpZero (name ++ bytes " " ++ value) other count = true := by
  rw [List.append_assoc, strncasecmpZero_shorter long enough differ]
  exact Bool.false_ne_true

theorem some_written {name value : List UInt8} (some' : name ≠ []) :
    name ++ bytes " " ++ value ≠ [] := by
  rw [List.append_assoc]
  exact List.append_ne_nil_of_left_ne_nil some' _

theorem fieldOf_connection {value : List UInt8} (starts : ∀ byte ∈ value.head?, byte ∉ blanks) :
    fieldOf (bytes "Connection:" ++ bytes " " ++ value) = .connection value := by
  rw [fieldOf, if_neg (some_written (by decide)), if_pos (named_written 11 (by decide)),
    valueOf_written starts]

theorem fieldOf_contentLength {value : List UInt8} (starts : ∀ byte ∈ value.head?, byte ∉ blanks) :
    fieldOf (bytes "Content-Length:" ++ bytes " " ++ value) = .contentLength value := by
  rw [fieldOf, if_neg (some_written (by decide)),
    if_neg (unnamed_written 11 (by decide) (by decide) (by decide +kernel)),
    if_pos (named_written 15 (by decide)), valueOf_written starts]

theorem fieldOf_host {value : List UInt8} (starts : ∀ byte ∈ value.head?, byte ∉ blanks) :
    fieldOf (bytes "Host:" ++ bytes " " ++ value) = .host value := by
  rw [fieldOf, if_neg (some_written (by decide)),
    if_neg (unnamed_written 11 (by decide) (by decide) (by decide +kernel)),
    if_neg (unnamed_written 15 (by decide) (by decide) (by decide +kernel)),
    if_pos (named_written 5 (by decide)), valueOf_written starts]

namespace HeaderField

def parsed : HeaderField → Field
  | connection alive => .connection (if alive then bytes "keep-alive" else bytes "close")
  | contentLength size _ => .contentLength (decimal size)
  | host name _ _ => .host name
  | other _ _ _ => .unknown

theorem line_textual (field : HeaderField) : Textual field.line := by
  cases field with
  | connection alive =>
      cases alive
      · exact (by decide +kernel : Textual (connection false).line)
      · exact (by decide +kernel : Textual (connection true).line)
  | contentLength size small =>
      have name : Textual (bytes "Content-Length: ") := by decide +kernel
      exact name.append (decimal_textual size).1
  | host name textual starts =>
      have name : Textual (bytes "Host: ") := by decide +kernel
      exact name.append textual
  | other text textual unknown => exact textual

theorem line_parsed (field : HeaderField) : fieldOf field.line = field.parsed := by
  cases field with
  | connection alive =>
      cases alive
      · exact @fieldOf_connection (bytes "close") (by decide +kernel)
      · exact @fieldOf_connection (bytes "keep-alive") (by decide +kernel)
  | contentLength size small => exact fieldOf_contentLength (decimal_textual size).2
  | host name textual starts => exact fieldOf_host starts
  | other text textual unknown => exact unknown

theorem line_solid (field : HeaderField) : field.line ≠ [] := by
  intro empty
  have blank := field.line_parsed
  rw [Head.fieldOf_blank.mpr empty] at blank
  cases field <;> contradiction

theorem parsed_host (field : HeaderField) : field.parsed.host? = field.host? := by
  cases field <;> rfl

theorem parsed_alive (field : HeaderField) : field.parsed.keepsAlive = field.alive := by
  cases field with
  | connection alive => cases alive <;> decide +kernel
  | contentLength size small => rfl
  | host name textual starts => rfl
  | other text textual unknown => rfl

theorem parsed_length (field : HeaderField) :
    field.parsed.length? = field.length?.map fun size : Nat => (size : Int) := by
  cases field with
  | connection alive => rfl
  | contentLength size small =>
      have value : toInt (atol (decimal size)) = size := by
        rw [decimal_natCast, atol_repr, min_eq_right (by omega)]
        exact toInt_of_fits (by simp only [FitsInt, intMin, intMax]; omega)
      exact congrArg some value
  | host name textual starts => rfl
  | other text textual unknown => rfl

end HeaderField

theorem lastSaid_parsed {β γ : Type} {read : Field → Option β} {written : HeaderField → Option γ}
    {cast : γ → β} (same : ∀ field, read (HeaderField.parsed field) = (written field).map cast)
    (fields : List HeaderField) :
    lastSaid read (fields.map HeaderField.parsed) = (fields.filterMap written).getLast?.map cast := by
  rw [lastSaid, List.filterMap_map, ← List.getLast?_map, List.map_filterMap]
  congr 2
  funext field
  exact same field

namespace Request

theorem firstLine_textual (request : Request) : Textual request.firstLine := by
  have names : Textual (bytes "GET ") ∧ Textual (bytes " ") ∧ Textual [slash] ∧
      Textual (bytes "HTTP/1.1") ∧ Textual (bytes "HTTP/1.0") := by decide +kernel
  obtain ⟨method, blank, root, newer, older⟩ := names
  refine ((method.append (root.append request.textual)).append blank).append ?_
  cases request.newer
  · exact older
  · exact newer

theorem firstLine_parts (request : Request) :
    RequestLine request.firstLine (bytes "GET") (bytes " ") (slash :: request.path) (bytes " ")
      (if request.newer then bytes "HTTP/1.1" else bytes "HTTP/1.0") := by
  have gap : Gap blanks (bytes " ") := ⟨by decide +kernel, by decide +kernel⟩
  refine ⟨rfl, by decide +kernel, gap, List.cons_ne_nil _ _, ?_, gap, ?_⟩
  · exact List.forall_mem_cons.mpr ⟨by decide +kernel, request.clear⟩
  · cases request.newer
    · exact .inr (by decide +kernel)
    · exact .inl (by decide +kernel)

theorem head_eq (request : Request) :
    Head.ofFields (slash :: request.path)
        ((request.fields.map HeaderField.line).map fun field => fieldOf (cString field)) =
      request.head := by
  have parsed : ((request.fields.map HeaderField.line).map fun field => fieldOf (cString field)) =
      request.fields.map HeaderField.parsed := by
    rw [List.map_map]
    refine List.map_congr_left fun field _ => ?_
    show fieldOf (cString field.line) = field.parsed
    rw [field.line_textual.cString, field.line_parsed]
  have host : lastSaid Field.host? (request.fields.map HeaderField.parsed) =
      (request.fields.filterMap HeaderField.host?).getLast? := by
    have same (field : HeaderField) : field.parsed.host? = field.host?.map id := by
      rw [field.parsed_host, Option.map_id_fun, id]
    rw [lastSaid_parsed same, Option.map_id_fun, id]
  have length : lastSaid Field.length? (request.fields.map HeaderField.parsed) =
      (request.fields.filterMap HeaderField.length?).getLast?.map fun size : Nat => (size : Int) :=
    lastSaid_parsed HeaderField.parsed_length _
  have alive : (request.fields.map HeaderField.parsed).any Field.keepsAlive =
      request.fields.any HeaderField.alive := by
    rw [List.any_map]
    congr 1
    funext field
    exact field.parsed_alive
  rw [parsed, Head.ofFields, head, host, length, alive]
  congr 1
  cases (request.fields.filterMap HeaderField.length?).getLast? <;> rfl

theorem lines_plain (request : Request) :
    ∀ line ∈ request.firstLine :: request.fields.map HeaderField.line, Plain cr lf line := by
  refine List.forall_mem_cons.mpr ⟨request.firstLine_textual.plain, fun line member => ?_⟩
  obtain ⟨field, _, rfl⟩ := List.mem_map.mp member
  exact field.line_textual.plain

theorem fields_said (request : Request) :
    ∀ line ∈ request.fields.map HeaderField.line, cString line ≠ [] := by
  intro line member
  obtain ⟨field, _, rfl⟩ := List.mem_map.mp member
  rw [field.line_textual.cString]
  exact field.line_solid

theorem render_lines (request : Request) (behind : List UInt8) :
    request.render ++ behind =
      joined cr lf (request.firstLine :: request.fields.map HeaderField.line) ++
        ([] ++ cr :: lf :: behind) := by
  simp [render, joined]

theorem render_message (request : Request) (behind : List UInt8) :
    Message (request.render ++ behind) request.head := by
  have parts := request.firstLine_parts
  rw [← request.firstLine_textual.cString] at parts
  rw [request.render_lines, ← request.head_eq]
  exact .lines _ _ [] behind _ _ _ _ _ _ request.lines_plain Plain.nil parts (.rooted request.path)
    request.fields_said rfl

end Request

/-- What is written into a request is read out of it, whatever is behind it and in whatever
chunks it comes. -/
theorem request_read_back (c : HttpConn) (request : Request) (behind : List UInt8)
    (rounds : List Round) (solid : Solid rounds) (whole : delivered rounds = request.render ++ behind)
    (short : (request.render ++ behind).length < readBufferSize) :
    (deliverHeader c.init rounds).2 = some request.head.verdict ∧
      (deliverHeader c.init rounds).1.Shows request.head :=
  (request.render_message behind).shown c rounds solid (whole ▸ short) whole

def uploadRequest : Request where
  path := bytes "up/load"
  textual := by decide +kernel
  clear := by decide +kernel
  newer := true
  fields := [.connection true, .host (bytes "h") (by decide +kernel) (by decide +kernel),
    .contentLength 12 (by decide)]

theorem request_read_back_split :
    (deliverHeader zeroed.init [[uploadRequest.render.take 20],
        [uploadRequest.render.drop 20, bytes "body"]]).2 = some uploadRequest.head.verdict ∧
      (deliverHeader zeroed.init [[uploadRequest.render.take 20],
        [uploadRequest.render.drop 20, bytes "body"]]).1.Shows uploadRequest.head :=
  request_read_back zeroed uploadRequest (bytes "body") _ (by decide +kernel) (by decide +kernel)
    (by decide +kernel)

end StudyRecord.Http.HttpConn
