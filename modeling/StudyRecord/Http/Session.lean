import StudyRecord.Http.Framing
import StudyRecord.Http.KeepAlive
import StudyRecord.Http.Message

/-!
Whole sessions on one connection. A client sends one written request after the other, each
in any chunks and after the answer to the one before; the bytes that come back are the
answers that the file system gives, one for each request, up to the first that closes.
-/

namespace StudyRecord.Http.HttpConn

open CString LineStream Machine

/-! The code, from the first byte of a request to the last byte of the answer. -/

def wire (memory : Nat → Int → UInt8) (c : HttpConn) (calls : List (List Writev)) : List UInt8 :=
  (handedBy [] (transfers [] calls c)).map (c.byteAt memory)

structure Turn where
  request : Request
  rounds : List Round
  fs : FileSystem
  calls : List (List Writev)

/-- The bytes that a connection sends. It is closed when `process_write` or `write` says so. -/
def session (memory : Nat → Int → UInt8) (c : HttpConn) : List Turn → List UInt8
  | [] => []
  | turn :: rest =>
      match c.request turn.rounds with
      | none => []
      | some asked =>
          match respond asked turn.fs with
          | (_, false) => []
          | (answering, true) =>
              wire memory answering turn.calls ++
                match sendAll answering turn.calls with
                | (sent, .complete true) => session memory sent rest
                | _ => []

/-! What a client should see. -/

def page (linger : Bool) (status : Int) (title content : List UInt8) : List UInt8 :=
  statusLine status title ++ headers linger content.length ++ content

def fileText (memory : Nat → Int → UInt8) (linger : Bool) (address size : Nat) : List UInt8 :=
  fileHeader linger size ++ (List.range size).map fun (index : Nat) => memory address index

def answer (memory : Nat → Int → UInt8) (fs : FileSystem) (path : List UInt8) (linger : Bool) :
    Option (List UInt8) :=
  match fs.stat path with
  | none => some (page linger 404 error404Title error404Form)
  | some stat =>
      if !stat.othersRead then some (page linger 403 error403Title error403Form)
      else if stat.isDir then none
      else some (
        if stat.size = 0 then page linger 200 ok200Title okString
        else fileText memory linger (fs.mmap path stat.size) stat.size)

def Request.file (request : Request) : List UInt8 :=
  docRoot ++ (slash :: request.path).take (filenameLen - docRoot.length - 1)

def answers (memory : Nat → Int → UInt8) : List Turn → List UInt8
  | [] => []
  | turn :: rest =>
      match answer memory turn.fs turn.request.file turn.request.head.linger with
      | none => []
      | some text => text ++ if turn.request.head.linger then answers memory rest else []

/-! Reading a message to its end. -/

theorem headerPhase_whole (lines : List (List UInt8)) {c : HttpConn} {head next : Head}
    {last rest : List UInt8} {ending : Head.Ending}
    (here : c.Unread (joined cr lf lines ++ (last ++ cr :: lf :: rest)))
    (room : c.readIdx ≤ readBufferSize) (reads : c.Reads head)
    (plain : ∀ line ∈ lines, Plain cr lf line) (plainLast : Plain cr lf last)
    (accepted : lines.foldlM Head.line head = .ok next) (ended : next.line last = .error ending) :
    (headerPhase c).2 = some ending.1 ∧ (headerPhase c).1.Knows ending.2 ∧
      (headerPhase c).1.Unread rest := by
  induction lines generalizing c head with
  | nil =>
      obtain rfl : head = next := Except.ok.inj accepted
      exact headerPhase_ends here room plainLast reads ended
  | cons line lines ih =>
      rw [List.foldlM_cons] at accepted
      have split : joined cr lf (line :: lines) ++ (last ++ cr :: lf :: rest) =
          line ++ cr :: lf :: (joined cr lf lines ++ (last ++ cr :: lf :: rest)) := by
        simp [joined]
      rw [split] at here
      cases continued : head.line line with
      | error result =>
          rw [continued] at accepted
          contradiction
      | ok middle =>
          rw [continued] at accepted
          obtain ⟨later, same, reads', unread, readIdx⟩ :=
            headerPhase_goesOn here room (plain line List.mem_cons_self) reads continued
          rw [same]
          exact ih unread (by omega) reads' (fun other member =>
            plain other (List.mem_cons_of_mem _ member)) accepted

theorem Request.whole (request : Request) (c : HttpConn)
    (short : request.render.length ≤ readBufferSize) :
    (headerPhase (c.init.receive request.render)).2 = some request.head.verdict ∧
      (headerPhase (c.init.receive request.render)).1.Knows request.head ∧
      (headerPhase (c.init.receive request.render)).1.Unread [] := by
  have fresh : c.init.readIdx = 0 := rfl
  have start : c.init.Unread [] := .empty rfl ⟨Nat.le_refl _, Nat.le_refl _⟩ (Or.inl rfl)
  have here : (c.init.receive request.render).Unread
      (joined cr lf (request.firstLine :: request.fields.map HeaderField.line) ++
        ([] ++ cr :: lf :: [])) := by
    rw [← request.render_lines, List.append_nil]
    exact start.receive request.render
  have target : lineTarget (CString.cString request.firstLine) = .path (slash :: request.path) := by
    rw [request.firstLine_textual.cString]
    exact (lineTarget_path_iff _ _).mpr ⟨_, _, _, _, _, request.firstLine_parts, .rooted request.path⟩
  have accepted := Head.lines_read target request.fields_said
  rw [request.head_eq] at accepted
  exact headerPhase_whole _ here (by rw [receive_readIdx]; omega)
    ((init_reads c).receive start.ordered _) request.lines_plain Plain.nil accepted
    (Head.blank_ends rfl rfl)

theorem Request.accepts (request : Request) (c : HttpConn) (bare : request.head.contentLength = 0)
    (short : request.render.length ≤ readBufferSize) : c.init.Accepts request.render 0 := by
  obtain ⟨ending, knows, unread⟩ := request.whole c short
  have readIdx := (headerPhase_effect _ ((init_headerState c).receive request.render)).step.readIdx
  refine ⟨?_, knows.contentLength.trans bare, ?_⟩
  · rw [unread.checked]
    exact readIdx
  · rw [ending, Head.verdict, if_neg (not_not.mpr bare), if_pos rfl]

theorem delivered_some {rounds : List Round} {last : Round} (solid : Solid rounds)
    (ends : rounds.getLast? = some last) (some' : last ≠ []) : delivered rounds ≠ [] := by
  have member : last ∈ rounds := List.mem_of_getLast? ends
  obtain ⟨piece, rest, rfl⟩ := List.exists_cons_of_ne_nil some'
  intro empty
  rw [delivered, List.flatten_eq_nil_iff] at empty
  have silent := empty _ (List.mem_map_of_mem member)
  rw [Round.bytes, List.flatten_eq_nil_iff] at silent
  exact solid _ member piece List.mem_cons_self (silent piece List.mem_cons_self)

theorem Accepts.requested (rounds : List Round) (round : Round) {c : HttpConn} {header : List UInt8}
    (accepts : c.Accepts header 0) (state : c.HeaderState) (solid : Solid (round :: rounds))
    (some' : ∀ last ∈ (round :: rounds).getLast?, last ≠ []) (whole : delivered (round :: rounds) = header)
    (room : c.readIdx + header.length < readBufferSize) :
    c.request (round :: rounds) = some (headerPhase (c.receive header)).1 := by
  induction rounds generalizing round c header with
  | nil =>
      rw [delivered_cons] at whole
      have bytes : round.bytes = header := by simpa [delivered] using whole
      have state' := state.receive header
      have phases := scan_eq _ state'.ordered state'.header
      rw [accepts.ending] at phases
      rw [request, readRound_eq c round (solid round (by simp)) (by rw [bytes]; exact room), bytes,
        requestFrom, phases]
      rfl
  | cons next rest ih =>
      rw [delivered_cons] at whole
      subst whole
      rw [List.length_append] at room
      have solidRest : Solid (next :: rest) :=
        fun other member => solid other (List.mem_cons_of_mem _ member)
      rw [List.getLast?_cons_cons] at some'
      obtain ⟨last, ends⟩ : ∃ last, (next :: rest).getLast? = some last :=
        ⟨_, List.getLast?_eq_some_getLast (List.cons_ne_nil _ _)⟩
      have more := delivered_some solidRest ends (some' last ends)
      obtain ⟨none', accepts'⟩ := accepts.rest state more
      have effect := headerPhase_effect _ (state.receive round.bytes)
      have readIdx : (headerPhase (c.receive round.bytes)).1.readIdx =
          c.readIdx + round.bytes.length := effect.step.readIdx
      have later := ih next accepts' (effect.headerState none') solidRest some' rfl
        (by rw [readIdx]; omega)
      rw [request, readRound_eq c round (solid round (by simp)) (by omega), requestFrom,
        accepts.scan_inside state more, if_pos rfl]
      rw [accepts.phase_rest state more] at later
      exact later

/-! The answer. -/

structure Ready (c : HttpConn) (request : Request) : Prop where
  shows' : c.Shows request.head
  fresh : c.writeIdx = 0
  last : c.realFile (filenameLen - 1) = 0
  wholly : c.readIdx ≤ c.checkedIdx

theorem Request.ready (request : Request) (c : HttpConn)
    (short : request.render.length ≤ readBufferSize) :
    Ready (headerPhase (c.init.receive request.render)).1 request := by
  obtain ⟨_, knows, unread⟩ := request.whole c short
  have frame := (headerPhase_effect _ ((init_headerState c).receive request.render)).step.frame
  rw [ReadFrame] at frame
  simp only [LoopStep.conn] at frame
  refine ⟨knows.shows, ?_, ?_, Nat.le_of_eq unread.checked.symm⟩
  · rw [frame]
    rfl
  · rw [frame]
    have inside : filenameLen - 1 < filenameLen := by decide
    exact @if_pos _ _ inside UInt8 0 (c.realFile (filenameLen - 1))

structure Prepares (memory : Nat → Int → UInt8) (text : List UInt8) (result : HttpConn × Bool) :
    Prop where
  prepared : result.2 = true
  bytes : result.1.response.map (result.1.byteAt memory) = text
  small : (text.length : Int) ≤ intMax

theorem Prepares.small' {memory : Nat → Int → UInt8} {text : List UInt8} {result : HttpConn × Bool}
    (prepares : Prepares memory text result) : (result.1.response.length : Int) ≤ intMax := by
  have small := prepares.small
  rwa [← prepares.bytes, List.length_map] at small

theorem page_prepares {c : HttpConn} {status : Int} {title content : List UInt8} (start : c.writeIdx = 0)
    (room : (statusLine status title).length + content.length + 54 < writeBufferSize)
    (memory : Nat → Int → UInt8) :
    Prepares memory (page c.linger status title content)
      (sendBuffer (addPage c status title content)) := by
  have prints := addPage_prints (c := c) start room
  have whole := prints.formatted
  rw [formatted_empty start, List.nil_append] at whole
  have fits : FitsInt content.length := by
    have bound : writeBufferSize = 1024 := rfl
    simp only [FitsInt, intMin, intMax]
    omega
  have short := headers_length c.linger fits
  refine ⟨?_, ?_, ?_⟩
  · rw [sendBuffer, if_pos prints.ok]
  · rw [sendBuffer, if_pos prints.ok, response, if_neg (by simp), List.append_nil, writeBuf_bytes]
    exact whole
  · rw [page, List.length_append, List.length_append]
    have bound : writeBufferSize = 1024 := rfl
    simp only [intMax]
    omega

theorem file_prepares {c : HttpConn} (start : c.writeIdx = 0)
    (small : c.fileStat.size ≤ sizeMost c.linger) (memory : Nat → Int → UInt8) :
    Prepares memory (fileText memory c.linger c.fileAddress c.fileStat.size) (sendFile c) := by
  have header := fileHeader_prints start
  have whole := header.formatted
  rw [formatted_empty start, List.nil_append] at whole
  have frame := header.appends.frame
  obtain ⟨printed, same⟩ : ∃ printed, printed = (addHeaders (addStatusLine c 200 ok200Title).1
    (toInt (addStatusLine c 200 ok200Title).1.fileStat.size)).1 := ⟨_, rfl⟩
  rw [← same] at whole frame
  refine ⟨rfl, ?_, ?_⟩
  · have parts : (sendFile c).1.response =
        Iovec.bytes ⟨⟨.writeBuf, 0⟩, printed.writeIdx⟩ ++
          Iovec.bytes ⟨⟨.mapping c.fileAddress, 0⟩, c.fileStat.size⟩ := by
      have address : printed.fileAddress = c.fileAddress ∧ printed.fileStat = c.fileStat := by
        rw [frame]
        exact ⟨rfl, rfl⟩
      rw [← address.1, ← address.2, same]
      rfl
    have buffer : (sendFile c).1.writeBuf = printed.writeBuf := by
      rw [same]
      rfl
    rw [parts, List.map_append, writeBuf_bytes, buffer, fileText]
    refine congrArg₂ (· ++ ·) whole ?_
    rw [Iovec.bytes, List.map_map]
    refine List.map_congr_left fun index _ => ?_
    simp [byteAt, Pointer.move]
  · rw [fileText, List.length_append, List.length_map, List.length_range, Int.natCast_add]
    exact (answer_fits_iff c.linger c.fileStat.size).mpr small

theorem fileRequest_prepares {c : HttpConn} (start : c.writeIdx = 0)
    (small : c.fileStat.size ≤ sizeMost c.linger) (memory : Nat → Int → UInt8) :
    Prepares memory
      (if c.fileStat.size = 0 then page c.linger 200 ok200Title okString
        else fileText memory c.linger c.fileAddress c.fileStat.size)
      (processWrite c .fileRequest) := by
  by_cases empty : c.fileStat.size = 0
  · rw [if_pos empty, processWrite, if_neg (not_not.mpr empty)]
    exact page_prepares start (by decide) memory
  · rw [if_neg empty, processWrite, if_pos empty]
    exact file_prepares start small memory

def Answers (memory : Nat → Int → UInt8) (result : HttpConn × Bool) : Option (List UInt8) → Prop
  | none => result.2 = false
  | some text => Prepares memory text result

theorem respond_answers {c : HttpConn} {request : Request} (ready : c.Ready request) (fs : FileSystem)
    (memory : Nat → Int → UInt8)
    (small : ∀ stat ∈ fs.stat request.file, stat.size ≤ sizeMost request.head.linger) :
    Answers memory (respond c fs) (answer memory fs request.file request.head.linger) := by
  obtain ⟨url, pointer, string⟩ : ∃ url, c.url = some url ∧ c.str url = slash :: request.path := by
    have shown := ready.shows'.url _ rfl
    cases known : c.url with
    | none =>
        rw [known] at shown
        contradiction
    | some url =>
        rw [known] at shown
        exact ⟨url, rfl, Option.some.inj shown⟩
  obtain ⟨named, same⟩ : ∃ named, named = { c with realFile := buildRealFile c url } := ⟨_, rfl⟩
  have path : named.realPath = request.file := by
    rw [same]
    show stringAt filenameLen (buildRealFile c url) 0 = _
    rw [buildRealFile_string c url ready.last, cutUrl, string]
    rfl
  have found : doRequest c fs = requestFile named fs := by
    simp only [doRequest_eq, same, pointer]
  have linger : named.linger = request.head.linger := by
    rw [same]
    exact ready.shows'.linger
  have fresh : named.writeIdx = 0 := by
    rw [same]
    exact ready.fresh
  rw [respond, found, requestFile, answer, path, ← linger]
  rw [← linger] at small
  cases stated : fs.stat request.file with
  | none => exact @page_prepares named 404 error404Title error404Form fresh (by decide) memory
  | some stat =>
      simp only
      by_cases hidden : (!stat.othersRead) = true
      · rw [if_pos hidden, if_pos hidden]
        exact @page_prepares { named with fileStat := stat } 403 error403Title error403Form fresh
          (by decide) memory
      rw [if_neg hidden, if_neg hidden]
      by_cases directory : stat.isDir = true
      · rw [if_pos directory, if_pos directory]
        rfl
      rw [if_neg directory, if_neg directory]
      have samePath : ({ named with fileStat := stat } : HttpConn).realPath = request.file := path
      rw [samePath]
      exact @fileRequest_prepares { named with
        fileStat := stat
        fileAddress := fs.mmap request.file stat.size } fresh (small stat stated) memory

/-! The delivery. -/

def Finished (transfers : List Transfer) : Prop :=
  ∃ transfer, transfers.getLast? = some transfer ∧ transfer.after.bytesToSend ≤ 0

theorem Finished.append {transfers : List Transfer} (finished : Finished transfers)
    (before : List Transfer) : Finished (before ++ transfers) := by
  obtain ⟨transfer, last, done⟩ := finished
  refine ⟨transfer, ?_, done⟩
  rw [List.getLast?_append, last]
  rfl

theorem loopTransfers_finished (results : List Writev) {c : HttpConn} (handed : List Pointer)
    {kept : Bool} (complete : (writeLoop results c).2 = .complete kept) :
    Finished (loopTransfers handed results c) := by
  induction results generalizing c handed with
  | nil => simp [writeLoop] at complete
  | cons result rest ih =>
      cases result with
      | error => simp [writeLoop] at complete
      | sent count =>
          simp only [writeLoop] at complete
          simp only [loopTransfers]
          split
          · rename_i done
            exact ⟨_, rfl, done⟩
          · rename_i more
            rw [if_neg more] at complete
            exact (ih _ complete).append [_]

theorem write_loop {c : HttpConn} {results : List Writev} {kept : Bool}
    (complete : (c.write results).2 = .complete kept) :
    c.bytesToSend ≠ 0 ∧ c.write results = writeLoop results c := by
  by_cases nothing : c.bytesToSend = 0
  · simp [write, nothing] at complete
  · exact ⟨nothing, if_neg nothing⟩

theorem transfers_finished (calls : List (List Writev)) {c : HttpConn} (handed : List Pointer)
    {kept : Bool} (complete : (sendAll c calls).2 = .complete kept) :
    Finished (transfers handed calls c) := by
  induction calls generalizing c handed with
  | nil => simp [sendAll] at complete
  | cons results rest ih =>
      simp only [sendAll] at complete
      rw [transfers]
      split at complete
      · rename_i next again
        rw [again]
        exact (ih _ complete).append _
      · rename_i ends
        obtain ⟨some', same⟩ := write_loop complete
        rw [same] at complete
        rw [same, complete, if_neg some', if_neg (by simp), List.append_nil]
        exact loopTransfers_finished results handed complete

theorem wire_whole {memory : Nat → Int → UInt8} {c : HttpConn} {calls : List (List Writev)}
    {whole : List Pointer} (finished : Finished (transfers [] calls c))
    (exact' : ∀ transfer ∈ transfers [] calls c, transfer.Exact whole) :
    wire memory c calls = whole.map (c.byteAt memory) := by
  obtain ⟨transfer, last, done⟩ := finished
  have handed := exact' transfer (List.mem_of_getLast? last)
  rw [Transfer.Exact, if_pos done] at handed
  rw [wire, handedBy, last]
  exact congrArg _ handed

theorem writeLoop_fresh (results : List Writev) {c : HttpConn}
    (kept : (writeLoop results c).2 = .complete true) : ∃ sent, (writeLoop results c).1 = init sent := by
  induction results generalizing c with
  | nil => simp [writeLoop] at kept
  | cons result rest ih =>
      cases result with
      | error => simp [writeLoop] at kept
      | sent count =>
          simp only [writeLoop] at kept ⊢
          split
          · rename_i done
            rw [if_pos done] at kept
            simp only [finish] at kept ⊢
            split
            · rename_i linger
              rw [if_pos linger] at kept
              split
              · rename_i unread
                simp [unread] at kept
              · exact ⟨_, rfl⟩
            · rename_i closing
              simp [closing] at kept
          · rename_i more
            rw [if_neg more] at kept
            exact ih kept

theorem sendAll_fresh (calls : List (List Writev)) {c : HttpConn}
    (kept : (sendAll c calls).2 = .complete true) : ∃ sent, (sendAll c calls).1 = init sent := by
  induction calls generalizing c with
  | nil => simp [sendAll] at kept
  | cons results rest ih =>
      simp only [sendAll] at kept ⊢
      split
      · rename_i next again
        rw [again] at kept
        exact ih kept
      · rename_i ends
        split at kept
        · rename_i next again
          exact absurd again (ends next)
        · have same := (write_loop kept).2
          rw [same] at kept ⊢
          exact writeLoop_fresh results kept

theorem respond_onTrack {c : HttpConn} {fs : FileSystem} (prepared : (respond c fs).2 = true)
    (small : ((respond c fs).1.response.length : Int) ≤ intMax) :
    (respond c fs).1.OnTrack [] (respond c fs).1.response := by
  rw [respond] at prepared small ⊢
  split
  · rename_i found code same
    rw [same] at prepared small
    exact processWrite_onTrack found code prepared small
  · rename_i found same
    rw [same] at prepared
    contradiction

theorem Prepares.sent {memory : Nat → Int → UInt8} {text : List UInt8} {c : HttpConn} {fs : FileSystem}
    {calls : List (List Writev)} {kept : Bool} (prepares : Prepares memory text (respond c fs))
    (transfers' : ∀ transfer ∈ transfers [] calls (respond c fs).1,
      transfer.Possible ∧ transfer.Aligned)
    (complete : (sendAll (respond c fs).1 calls).2 = .complete kept) :
    wire memory (respond c fs).1 calls = text := by
  have track := respond_onTrack prepares.prepared prepares.small'
  have exact' := (transfers_exact_iff calls _ [] _ track fun transfer member =>
    (transfers' transfer member).1).mpr fun transfer member => (transfers' transfer member).2
  rw [wire_whole (transfers_finished calls [] complete) exact', prepares.bytes]

/-! Sessions. -/

/-- A request without a body that comes by itself, for a file whose answer an `int` can count. -/
structure Turn.WellFormed (turn : Turn) : Prop where
  bare : turn.request.head.contentLength = 0
  solid : Solid turn.rounds
  last : ∀ round ∈ turn.rounds.getLast?, round ≠ []
  whole : delivered turn.rounds = turn.request.render
  short : turn.request.render.length < readBufferSize
  small : ∀ stat ∈ turn.fs.stat turn.request.file, stat.size ≤ sizeMost turn.request.head.linger

/-- The kernel takes every answer to its end, and each `writev` ends with the header or with
all that it is given. -/
def Carried (c : HttpConn) : List Turn → Prop
  | [] => True
  | turn :: rest => ∀ asked ∈ c.request turn.rounds, (respond asked turn.fs).2 = true →
      (∀ transfer ∈ transfers [] turn.calls (respond asked turn.fs).1,
        transfer.Possible ∧ transfer.Aligned) ∧
      ∃ kept, (sendAll (respond asked turn.fs).1 turn.calls).2 = .complete kept ∧
        (kept = true → Carried (sendAll (respond asked turn.fs).1 turn.calls).1 rest)

instance (transfer : Transfer) : Decidable transfer.Aligned :=
  inferInstanceAs (Decidable (_ ∨ _ ∨ _))

instance carriedDecidable : (turns : List Turn) → (c : HttpConn) → Decidable (c.Carried turns)
  | [], _ => isTrue trivial
  | turn :: rest, c =>
      have := carriedDecidable rest
      inferInstanceAs (Decidable (∀ asked ∈ c.request turn.rounds, (respond asked turn.fs).2 = true →
        (∀ transfer ∈ transfers [] turn.calls (respond asked turn.fs).1,
          transfer.Possible ∧ transfer.Aligned) ∧
        ∃ kept, (sendAll (respond asked turn.fs).1 turn.calls).2 = .complete kept ∧
          (kept = true → Carried (sendAll (respond asked turn.fs).1 turn.calls).1 rest)))

theorem Turn.WellFormed.asked {turn : Turn} (wellFormed : turn.WellFormed) (c : HttpConn) :
    ∃ asked, c.init.request turn.rounds = some asked ∧ asked.Ready turn.request := by
  have short := wellFormed.short
  have accepts := turn.request.accepts c wellFormed.bare (by omega)
  obtain ⟨round, rounds, shape⟩ : ∃ round rounds, turn.rounds = round :: rounds := by
    refine List.exists_cons_of_ne_nil fun empty => ?_
    have whole := wellFormed.whole
    rw [empty] at whole
    have long := congrArg List.length whole
    simp [delivered, Request.render, joined] at long
  have solid := wellFormed.solid
  have last := wellFormed.last
  have whole := wellFormed.whole
  rw [shape] at solid last whole ⊢
  have fresh : c.init.readIdx = 0 := rfl
  exact ⟨_, accepts.requested rounds round (init_headerState c) solid last whole (by omega),
    turn.request.ready c (by omega)⟩

theorem Ready.kept {c : HttpConn} {request : Request} (ready : c.Ready request) (fs : FileSystem)
    {calls : List (List Writev)} {kept : Bool}
    (complete : (sendAll (respond c fs).1 calls).2 = .complete kept) :
    kept = request.head.linger := by
  have decided := (Decides.earlier (respond_sameTest c fs) (sendAll_decides calls _)).complete kept complete
  rw [ready.shows'.linger] at decided
  cases kept with
  | true =>
      obtain ⟨sent, fresh⟩ := sendAll_fresh calls complete
      exact (decided.mp ⟨by rw [complete]; rfl, sent, fresh⟩).1.symm
  | false =>
      rw [eq_comm, Bool.eq_false_iff]
      intro linger
      have alive := (decided.mpr ⟨linger, ready.wholly⟩).1
      rw [complete] at alive
      contradiction

/-- The first request of a session, and what is left of the session behind its answer. -/
theorem session_turn (memory : Nat → Int → UInt8) {turn : Turn} (rest : List Turn) {c : HttpConn}
    (wellFormed : turn.WellFormed) (carried : c.init.Carried (turn :: rest)) :
    match answer memory turn.fs turn.request.file turn.request.head.linger with
    | none => session memory c.init (turn :: rest) = []
    | some text =>
        if turn.request.head.linger then
          ∃ before : HttpConn, before.init.Carried rest ∧
            session memory c.init (turn :: rest) = text ++ session memory before.init rest
        else session memory c.init (turn :: rest) = text := by
  obtain ⟨asked, requested, ready⟩ := wellFormed.asked c
  have prepared := respond_answers ready turn.fs memory wellFormed.small
  have carried := carried asked requested
  simp only [session, requested]
  cases said : answer memory turn.fs turn.request.file turn.request.head.linger with
  | none =>
      rw [said] at prepared
      have closes : (respond asked turn.fs).2 = false := prepared
      generalize respond asked turn.fs = result at closes
      obtain ⟨conn, ok⟩ := result
      obtain rfl : ok = false := closes
      rfl
  | some text =>
      rw [said] at prepared
      have prepares : Prepares memory text (respond asked turn.fs) := prepared
      obtain ⟨transfers', kept, complete, later⟩ := carried prepares.prepared
      have linger := ready.kept turn.fs complete
      have sent := prepares.sent transfers' complete
      have fresh := sendAll_fresh turn.calls (c := (respond asked turn.fs).1)
      generalize respond asked turn.fs = result at prepares complete sent later fresh
      obtain ⟨answering, ok⟩ := result
      obtain rfl : ok = true := prepares.prepared
      simp only at complete sent later fresh ⊢
      generalize sendAll answering turn.calls = delivery at complete later fresh
      obtain ⟨next, ending⟩ := delivery
      obtain rfl : ending = .complete kept := complete
      rw [sent, ← linger]
      cases kept with
      | false => simp
      | true =>
          obtain ⟨before, rfl⟩ := fresh rfl
          rw [if_pos rfl]
          exact ⟨before, later rfl, rfl⟩

/-- Over a whole session the client gets the answers to its requests, one after the other, and
nothing behind the first that closes. -/
theorem session_answers (memory : Nat → Int → UInt8) (turns : List Turn) (c : HttpConn)
    (wellFormed : ∀ turn ∈ turns, turn.WellFormed) (carried : c.init.Carried turns) :
    session memory c.init turns = answers memory turns := by
  induction turns generalizing c with
  | nil => rfl
  | cons turn rest ih =>
      obtain ⟨here, others⟩ := List.forall_mem_cons.mp wellFormed
      have first := session_turn memory rest here carried
      rw [answers]
      cases said : answer memory turn.fs turn.request.file turn.request.head.linger with
      | none =>
          rw [said] at first
          exact first
      | some text =>
          rw [said] at first
          by_cases linger : turn.request.head.linger
          · rw [if_pos linger]
            simp only [if_pos linger] at first
            obtain ⟨before, carried', whole⟩ := first
            rw [whole, ih before others carried']
          · simp only [if_neg linger, List.append_nil] at first ⊢
            exact first

def keptRequest : Request where
  path := bytes "a"
  textual := by decide +kernel
  clear := by decide +kernel
  newer := true
  fields := [.connection true]

def lastRequest : Request where
  path := bytes "b"
  textual := by decide +kernel
  clear := by decide +kernel
  newer := false
  fields := []

def shortFile : FileSystem where
  stat path := if path = bytes "./a" then some ⟨0o100644, 4⟩ else none
  mmap _ _ := 4096

def keptTurn : Turn where
  request := keptRequest
  rounds := [[keptRequest.render.take 9], [keptRequest.render.drop 9]]
  fs := shortFile
  calls := [[.sent 60], [.sent 4]]

def lastTurn : Turn where
  request := lastRequest
  rounds := [[lastRequest.render]]
  fs := shortFile
  calls := [[.sent 113]]

theorem session_answers_two :
    session (fun _ _ => 65) zeroed.init [keptTurn, lastTurn] =
      answers (fun _ _ => 65) [keptTurn, lastTurn] := by
  refine session_answers _ _ zeroed (fun turn member => ?_) (by decide +kernel)
  rw [List.mem_pair] at member
  rcases member with rfl | rfl
  · exact ⟨by decide, by decide, by decide, by decide, by decide, by decide +kernel⟩
  · exact ⟨by decide, by decide, by decide, by decide, by decide, by decide +kernel⟩

end StudyRecord.Http.HttpConn
