import StudyRecord.Http.Body
import StudyRecord.Server.OneShot

/-!
The two modes that `init` can choose. It sets the mode of the connections and not the
one of the server, so that the event loop reads and writes in either of them, and a
worker of a server in reactor mode reads once more.
-/

namespace StudyRecord.Server.WebServer

open Http Timer

def inMode (s : WebServer) (setReactorMode : Bool) : WebServer :=
  { s with connActorMode := if setReactorMode then 0 else 1 }

theorem inMode_still (s : WebServer) (setReactorMode : Bool) : Still s (s.inMode setReactorMode) :=
  ⟨⟨id, fun _ => Iff.rfl, fun _ => rfl, fun _ => rfl, fun _ => id, fun _ => rfl, rfl, rfl,
    fun _ member => Or.inl member⟩, rfl, rfl⟩

inductive Ready
  | readable (results : List HttpConn.Recv)
  | writable (results : List Writev)

def Ready.step (slot : Nat) : Ready → Step
  | .readable results => .readable slot results
  | .writable results => .writable slot results

structure Answers where
  fs : FileSystem
  recvs : List HttpConn.Recv
  writevs : List Writev

/-- One event: the event loop handles it, and a worker takes the entry that the loop
has appended, if it has. -/
def handle (s : WebServer) (slot : Nat) (event : Ready) (answers : Answers) :
    Except Fault WebServer := do
  let next ← s.step (event.step slot)
  match next.workQueue.drop s.workQueue.length with
  | [] => return next
  | request :: _ =>
      process { next with workQueue := s.workQueue } request.slot answers.fs answers.recvs
        answers.writevs

inductive Act
  | read (ok : Bool)
  | parse
  | write (places : List Pointer)
  deriving DecidableEq

def sends (c : HttpConn) (results : List Writev) : List Pointer :=
  if c.bytesToSend = 0 then [] else HttpConn.handedBy [] (HttpConn.loopTransfers [] results c)

def processActs (connActorMode : Int) (c : HttpConn) (answers : Answers) : List Act :=
  if connActorMode = 0 then
    if c.taskState = 1 then [.write (sends c answers.writevs)]
    else [.read (c.read answers.recvs).2, .parse]
  else [.parse]

/-- The calls of `deal_read` and `deal_write` where they do not leave them to a worker,
and those of the worker. -/
def acts (s : WebServer) (slot : Nat) (event : Ready) (answers : Answers) : List Act :=
  let c := s.users slot
  match event with
  | .readable results =>
      if s.actorMode = 0 then processActs s.connActorMode { c with taskState := 0 } answers
      else
        let (c, ok) := c.read results
        .read ok :: if ok then processActs s.connActorMode c answers else []
  | .writable results =>
      if s.actorMode = 0 then processActs s.connActorMode { c with taskState := 1 } answers
      else [.write (sends c results)]

def Act.places : Act → List Pointer
  | .write places => places
  | _ => []

def view (slot : Nat) (s : WebServer) : HttpConn × Descriptor := (s.users slot, s.epoll slot)

/-- An event is handled alike in both modes, and a read that fails closes the connection
with no request parsed. -/
structure Agree (s : WebServer) (slot : Nat) (event : Ready) (answers : Answers) : Prop where
  state : ((s.inMode true).handle slot event answers).map (view slot) =
    ((s.inMode false).handle slot event answers).map (view slot)
  bytes : ((s.inMode true).acts slot event answers).flatMap Act.places =
    ((s.inMode false).acts slot event answers).flatMap Act.places
  failing : ∀ mode, .read false ∈ (s.inMode mode).acts slot event answers →
    .parse ∉ (s.inMode mode).acts slot event answers ∧
      ((s.inMode mode).handle slot event answers).map (fun next => next.epoll slot) = .ok .closed

def Crashes (c : HttpConn) (fs : FileSystem) : Prop := (c.processRead fs).2 = none

/-- The events that are handled alike: the read of the event loop fails; or the worker
is not told to write and finds nothing more to read, in a buffer that has room; or it
is told to write, and the connection is as `init` leaves it. Where both modes end in a
null pointer, no state is left to compare. -/
def Alike (s : WebServer) (slot : Nat) (answers : Answers) : Ready → Prop
  | .writable _ => True
  | .readable results =>
      let c := ((s.users slot).read results).1
      ((s.users slot).read results).2 = false ∨
        if c.taskState = 1 then c = c.init
        else
          (answers.recvs = [] ∧ c.readIdx < readBufferSize) ∨
            ((c.read answers.recvs).2 = true ∧ Crashes c answers.fs ∧
              Crashes (c.read answers.recvs).1 answers.fs)

/-! One connection. -/

def answered (c : HttpConn) (fs : FileSystem) : Except Fault (HttpConn × Descriptor) :=
  match c.processRead fs with
  | (_, none) => .error .nullPointer
  | (c, some ret) =>
      if ret = .noRequest then .ok (c, .armed .epollIn)
      else
        let (c, ok) := c.processWrite ret
        .ok (if ok then (c, .armed .epollOut) else (closedConn c, .closed))

def written (c : HttpConn) (results : List Writev) : HttpConn × Descriptor :=
  match c.write results with
  | (c, .idle) => (c, .armed .epollIn)
  | (c, .again) => (c, .armed .epollOut)
  | (c, .complete true) => (c, .armed .epollIn)
  | (c, _) => (closedConn c, .closed)

theorem modfd_view {s : WebServer} (registry : s.Registry) {slot : Nat} (isOpen : s.IsOpen slot)
    (ev : Interest) : view slot (s.modfd (s.users slot).sockfd ev) = (s.users slot, .armed ev) := by
  have notNegative : ¬(slot : Int) < 0 := by omega
  rw [registry.sockfd slot isOpen, modfd, Int.toNat_natCast,
    if_neg fun either => either.elim notNegative isOpen]
  simp [view, setEpoll]

theorem modfd_queue (s : WebServer) (fd : Int) (ev : Interest) :
    (s.modfd fd ev).workQueue = s.workQueue := by
  simp only [modfd]
  split <;> rfl

theorem closeUnless_view {s : WebServer} (registry : s.Registry) {slot : Nat}
    (isOpen : s.IsOpen slot) (ok : Bool) :
    ∃ next, s.closeUnless slot ok = .ok next ∧ next.workQueue = s.workQueue ∧
      view slot next = if ok then view slot s else (closedConn (s.users slot), .closed) := by
  cases ok with
  | true => exact ⟨s, rfl, rfl, rfl⟩
  | false =>
      obtain ⟨next, closed, _, closes, _⟩ := closeConn_open registry isOpen
      refine ⟨next, closed, closes.workQueue, ?_⟩
      simp [view, closes.users, closes.epoll]

theorem respond_view {s : WebServer} (registry : s.Registry) {slot : Nat} (isOpen : s.IsOpen slot)
    (fs : FileSystem) : (s.respond slot fs).map (view slot) = answered (s.users slot) fs := by
  have known := (registry.known slot isOpen).2
  have owner := processRead_owner (s.users slot) fs (registry.bounded slot known)
  simp only [respond, reply, answered]
  cases parsed : (s.users slot).processRead fs with
  | mk c verdict =>
      rw [parsed] at owner
      cases verdict with
      | none => rfl
      | some ret =>
          by_cases waiting : ret = .noRequest
          · have still := setConn_still s owner
            have armed := modfd_view (still.registry registry) ((still.isOpen slot).mpr isOpen)
              .epollIn
            rw [setConn_users] at armed
            simp only [waiting, if_true]
            exact congrArg Except.ok armed
          · have still := setConn_still s (owner.trans (processWrite_owner c ret))
            have open' := (still.isOpen slot).mpr isOpen
            have registry' := still.registry registry
            simp only [waiting, if_false]
            cases sent : c.processWrite ret with
            | mk reply ok =>
                rw [sent] at open' registry'
                simp only
                cases ok with
                | true =>
                    have armed := modfd_view registry' open' .epollOut
                    refine congrArg Except.ok (armed.trans ?_)
                    rw [setConn_users, if_pos rfl]
                | false =>
                    obtain ⟨next, closed, _, closes, _⟩ := closeConn_open registry' open'
                    have same : view slot next = (closedConn reply, .closed) := by
                      simp [view, closes.users, closes.epoll]
                    simp only [closeUnless, Bool.false_eq_true, if_false, closed, ok_bind]
                    rw [closes.modfd_eq]
                    exact congrArg Except.ok same

theorem writeConn_eq {s : WebServer} {slot : Nat} {results : List Writev} {c : HttpConn}
    {ending : WriteEnd} (result : (s.users slot).write results = (c, ending)) :
    s.writeConn slot results =
      match ending.modfd with
      | none => (s.setConn slot c, ending.result)
      | some ev => ((s.setConn slot c).modfd c.sockfd ev, ending.result) := by
  cases interest : ending.modfd with
  | none => simp only [writeConn, result, interest]
  | some ev => simp only [writeConn, result, interest]

theorem writeConn_queue (s : WebServer) (slot : Nat) (results : List Writev) :
    (s.writeConn slot results).1.workQueue = s.workQueue := by
  simp only [writeConn]
  split
  · rfl
  · rw [modfd_queue]
    rfl

theorem write_view {s : WebServer} (registry : s.Registry) {slot : Nat} (isOpen : s.IsOpen slot)
    (results : List Writev) :
    ∃ next, (s.writeConn slot results).1.closeUnless slot (s.writeConn slot results).2 = .ok next ∧
      next.workQueue = s.workQueue ∧ view slot next = written (s.users slot) results := by
  have still := setConn_still s (write_owner (s.users slot) results)
  have wrote := writeConn_still s slot results
  obtain ⟨next, closed, queue, seen⟩ := closeUnless_view (wrote.registry registry)
    ((wrote.isOpen slot).mpr isOpen) (s.writeConn slot results).2
  have armed := modfd_view (still.registry registry) ((still.isOpen slot).mpr isOpen)
  simp only [setConn_users] at armed
  refine ⟨next, closed, queue.trans (writeConn_queue s slot results), ?_⟩
  rw [seen, written]
  cases result : (s.users slot).write results with
  | mk c ending =>
      rw [result] at armed
      rw [writeConn_eq result]
      cases ending with
      | idle => exact armed .epollIn
      | again => exact armed .epollOut
      | failed =>
          simp only [WriteEnd.modfd, WriteEnd.result, Bool.false_eq_true, if_false, setConn_users]
      | complete kept =>
          cases kept with
          | true => exact armed .epollIn
          | false =>
              have users : ((s.setConn slot c).modfd c.sockfd .epollIn).users slot = c :=
                congrArg Prod.fst (armed .epollIn)
              simp only [WriteEnd.modfd, WriteEnd.result, Bool.false_eq_true, if_false, users]

/-! The worker. -/

theorem process_proactor {s : WebServer} (registry : s.Registry) {slot : Nat}
    (isOpen : s.IsOpen slot) (mode : s.connActorMode ≠ 0) (answers : Answers) :
    (s.process slot answers.fs answers.recvs answers.writevs).map (view slot) =
      answered (s.users slot) answers.fs := by
  rw [process, if_neg mode]
  exact respond_view registry isOpen answers.fs

theorem process_writes {s : WebServer} (registry : s.Registry) {slot : Nat}
    (isOpen : s.IsOpen slot) (mode : s.connActorMode = 0) (task : (s.users slot).taskState = 1)
    (answers : Answers) :
    (s.process slot answers.fs answers.recvs answers.writevs).map (view slot) =
      .ok (written (s.users slot) answers.writevs) := by
  obtain ⟨next, made, _, seen⟩ := write_view registry isOpen answers.writevs
  rw [process, if_pos mode, if_pos task, ← seen]
  exact congrArg (Except.map (view slot)) made

theorem process_reads {s : WebServer} (registry : s.Registry) {slot : Nat}
    (isOpen : s.IsOpen slot) (mode : s.connActorMode = 0) (task : (s.users slot).taskState ≠ 1)
    (answers : Answers) (more : ((s.users slot).read answers.recvs).2 = true) :
    (s.process slot answers.fs answers.recvs answers.writevs).map (view slot) =
      answered ((s.users slot).read answers.recvs).1 answers.fs := by
  have still := readConn_still s slot answers.recvs
  have seen := respond_view (still.registry registry) ((still.isOpen slot).mpr isOpen) answers.fs
  have received : ((s.readConn slot answers.recvs).1.users slot) =
      ((s.users slot).read answers.recvs).1 := setConn_users s slot _
  have ok : (s.readConn slot answers.recvs).2 = true := more
  rw [received] at seen
  rw [process, if_pos mode, if_neg task, ← seen]
  simp only [ok, closeUnless, if_true, ok_bind]

/-! The event loop. -/

theorem report_queue (s : WebServer) (fd : Nat) : (s.report fd).workQueue = s.workQueue := by
  simp only [report]
  split <;> rfl

theorem report_connActorMode (s : WebServer) (fd : Nat) :
    (s.report fd).connActorMode = s.connActorMode := by
  simp only [report]
  split <;> rfl

structure Renewed (s renewed : WebServer) (slot : Nat) : Prop where
  made : (s.report slot).timerUpdate slot = .ok renewed
  registry : renewed.Registry
  isOpen : renewed.IsOpen slot
  users : renewed.users = s.users
  actorMode : renewed.actorMode = s.actorMode
  connActorMode : renewed.connActorMode = s.connActorMode
  queue : renewed.workQueue = s.workQueue

theorem renewed_exists {s : WebServer} (registry : s.Registry) {slot : Nat} (isOpen : s.IsOpen slot) :
    ∃ renewed, Renewed s renewed slot := by
  obtain ⟨renewed, made, renews, registry', _⟩ := timerUpdate_reported registry isOpen
  obtain ⟨users, actorMode, opens⟩ := renews.reported
  refine ⟨renewed, made, registry', (opens slot).mpr isOpen, users, actorMode, ?_, ?_⟩
  · rw [renews.same]
    exact report_connActorMode s slot
  · rw [renews.same]
    exact report_queue s slot

theorem handle_settled {s next : WebServer} {slot : Nat} {event : Ready}
    (taken : s.step (event.step slot) = .ok next) (queue : next.workQueue = s.workQueue)
    (answers : Answers) : s.handle slot event answers = .ok next := by
  rw [handle, taken, ok_bind, queue, List.drop_length]
  rfl

theorem handle_writable {s : WebServer} (registry : s.Registry) {slot : Nat}
    (isOpen : s.IsOpen slot) (proactor : s.actorMode ≠ 0) (results : List Writev)
    (answers : Answers) :
    (s.handle slot (.writable results) answers).map (view slot) =
      .ok (written (s.users slot) results) := by
  obtain ⟨renewed, renews⟩ := renewed_exists registry isOpen
  obtain ⟨next, made, queue, seen⟩ := write_view renews.registry renews.isOpen results
  have taken : s.step (.writable slot results) = .ok next := by
    rw [step, dealWrite, renews.made, ok_bind, renews.actorMode, if_neg proactor]
    exact made
  rw [handle_settled taken (queue.trans renews.queue), ← renews.users, ← seen]
  rfl

theorem handle_refused {s : WebServer} (registry : s.Registry) {slot : Nat}
    (isOpen : s.IsOpen slot) (proactor : s.actorMode ≠ 0) {results : List HttpConn.Recv}
    (refused : ((s.users slot).read results).2 = false) (answers : Answers) :
    (s.handle slot (.readable results) answers).map (view slot) =
      .ok (closedConn ((s.users slot).read results).1, .closed) := by
  obtain ⟨renewed, renews⟩ := renewed_exists registry isOpen
  have still := readConn_still renewed slot results
  obtain ⟨next, closed, _, closes, _⟩ := closeConn_open (still.registry renews.registry)
    ((still.isOpen slot).mpr renews.isOpen)
  have failed : (renewed.readConn slot results).2 = false := by
    rw [readConn, renews.users]
    exact refused
  have taken : s.step (.readable slot results) = .ok next := by
    rw [step, dealRead, renews.made, ok_bind, renews.actorMode, if_neg proactor]
    simp only [failed, Bool.false_eq_true, if_false]
    exact closed
  have received : (renewed.readConn slot results).1.users slot = ((s.users slot).read results).1 := by
    rw [readConn, renews.users]
    exact setConn_users renewed slot _
  rw [handle_settled taken (closes.workQueue.trans renews.queue)]
  refine congrArg Except.ok ?_
  simp [view, closes.users, closes.epoll, received]

theorem handle_appended {s : WebServer} (registry : s.Registry) {slot : Nat}
    (isOpen : s.IsOpen slot) (proactor : s.actorMode ≠ 0)
    (room : s.workQueue.length ≤ maxRequests) {results : List HttpConn.Recv}
    (received : ((s.users slot).read results).2 = true) (answers : Answers) :
    ∃ base : WebServer, base.Registry ∧ base.IsOpen slot ∧
      base.users slot = ((s.users slot).read results).1 ∧ base.connActorMode = s.connActorMode ∧
      s.handle slot (.readable results) answers =
        base.process slot answers.fs answers.recvs answers.writevs := by
  obtain ⟨renewed, renews⟩ := renewed_exists registry isOpen
  have still := readConn_still renewed slot results
  have ok : (renewed.readConn slot results).2 = true := by
    rw [readConn, renews.users]
    exact received
  have queue : (renewed.readConn slot results).1.workQueue = s.workQueue := renews.queue
  have appended : (renewed.readConn slot results).1.append slot = .ok
      { (renewed.readConn slot results).1 with
        workQueue := s.workQueue ++ [⟨slot, (renewed.readConn slot results).1.accepted slot⟩] } := by
    rw [append, queue, if_neg (by omega)]
  refine ⟨(renewed.readConn slot results).1, still.registry renews.registry,
    (still.isOpen slot).mpr renews.isOpen, ?_, renews.connActorMode, ?_⟩
  · rw [readConn, renews.users]
    exact setConn_users renewed slot _
  · have taken : s.step (.readable slot results) = .ok
        { (renewed.readConn slot results).1 with
          workQueue := s.workQueue ++ [⟨slot, (renewed.readConn slot results).1.accepted slot⟩] } := by
      rw [step, dealRead, renews.made, ok_bind, renews.actorMode, if_neg proactor]
      simp only [ok, if_true]
      exact appended
    have taken : s.step (Ready.step slot (.readable results)) = _ := taken
    rw [handle, taken, ok_bind]
    simp only [List.drop_left]
    rw [← queue]

/-! What the worker finds. -/

theorem recvLoop_readIdx (results : List HttpConn.Recv) (c : HttpConn)
    (ok : (HttpConn.recvLoop results c).2 = true) :
    c.readIdx + results.length ≤ (HttpConn.recvLoop results c).1.readIdx := by
  induction results generalizing c with
  | nil => exact Nat.le_refl _
  | cons result rest ih =>
      cases result with
      | error => contradiction
      | data waiting =>
          simp only [HttpConn.recvLoop] at ok ⊢
          split at ok
          · contradiction
          · rename_i some
            have later := ih _ ok
            have one := List.length_pos_of_ne_nil some
            rw [HttpConn.receive_readIdx] at later
            rw [if_neg some, List.length_cons]
            omega

theorem read_more {c : HttpConn} {results : List HttpConn.Recv} (ok : (c.read results).2 = true)
    (more : results ≠ []) : c.readIdx < (c.read results).1.readIdx := by
  have one := List.length_pos_of_ne_nil more
  simp only [HttpConn.read] at ok ⊢
  split at ok
  · contradiction
  · rename_i room
    have loop := recvLoop_readIdx results c ok
    rw [if_neg room]
    omega

theorem read_nothing {c : HttpConn} (room : c.readIdx < readBufferSize) :
    c.read [] = (c, true) := by
  have notFull : ¬c.readIdx ≥ readBufferSize := by omega
  rw [HttpConn.read, if_neg notFull]
  rfl

theorem read_room {c : HttpConn} {results : List HttpConn.Recv} (ok : (c.read results).2 = true) :
    c.readIdx < readBufferSize := by
  simp only [HttpConn.read] at ok
  split at ok
  · contradiction
  · rename_i room
    omega

theorem processRead_readIdx (c : HttpConn) (fs : FileSystem) (ordered : c.Ordered) :
    (c.processRead fs).1.readIdx = c.readIdx := by
  rw [HttpConn.processRead_request]
  exact (HttpConn.runLoop_effect c .lineOk ordered).readIdx

theorem answered_crashes {c : HttpConn} {fs : FileSystem} (crashes : Crashes c fs) :
    answered c fs = .error .nullPointer := by
  rw [Crashes] at crashes
  rw [answered]
  cases parsed : c.processRead fs with
  | mk next verdict =>
      rw [parsed] at crashes
      obtain rfl : verdict = none := crashes
      rfl

theorem answered_ok {c : HttpConn} {fs : FileSystem} (alive : ¬Crashes c fs) (ordered : c.Ordered) :
    ∃ seen, answered c fs = .ok seen ∧ seen.1.readIdx = c.readIdx := by
  have readIdx := processRead_readIdx c fs ordered
  rw [Crashes] at alive
  rw [answered]
  cases parsed : c.processRead fs with
  | mk next verdict =>
      rw [parsed] at alive readIdx
      cases verdict with
      | none => contradiction
      | some ret =>
          have frame := HttpConn.processWrite_frame next ret
          have sent : (next.processWrite ret).1.readIdx = c.readIdx := by
            rw [frame]
            exact readIdx
          simp only
          split
          · exact ⟨_, rfl, readIdx⟩
          · refine ⟨_, rfl, ?_⟩
            split
            · exact sent
            · exact sent

theorem answered_same {first second : HttpConn} {fs : FileSystem} (left : first.Ordered)
    (right : second.Ordered) (same : answered first fs = answered second fs) :
    first.readIdx = second.readIdx ∨ (Crashes first fs ∧ Crashes second fs) := by
  by_cases one : Crashes first fs
  · by_cases two : Crashes second fs
    · exact Or.inr ⟨one, two⟩
    · obtain ⟨seen, made, _⟩ := answered_ok two right
      rw [answered_crashes one, made] at same
      contradiction
  · by_cases two : Crashes second fs
    · obtain ⟨seen, made, _⟩ := answered_ok one left
      rw [answered_crashes two, made] at same
      contradiction
    · obtain ⟨seen, made, readIdx⟩ := answered_ok one left
      obtain ⟨seen', made', readIdx'⟩ := answered_ok two right
      rw [made, made'] at same
      obtain rfl : seen = seen' := Except.ok.inj same
      exact Or.inl (readIdx.symm.trans readIdx')

/-! A connection without a request, as `write` leaves one that has nothing to send. -/

theorem scan_empty {c : HttpConn} (ordered : c.Ordered) (empty : c.readIdx = 0)
    (header : c.checkState ≠ .content) : c.scan = (c, .returns .noRequest) := by
  have done : c.checkedIdx = c.readIdx := by
    have inside := ordered.checked
    omega
  rw [HttpConn.scan, HttpConn.runLoop_eq c .lineOk ordered, HttpConn.loopStep_header c header,
    HttpConn.parseLine_end c done]
  simp

theorem scan_empty_body {c : HttpConn} (ordered : c.Ordered) (empty : c.readIdx = 0)
    (inBody : c.checkState = .content) :
    c.scan.2 = .callsDoRequest ∨ c.scan.1.checkState = .content := by
  have inside := ordered.checked
  rw [HttpConn.scan, HttpConn.runLoop_eq c .lineOk ordered, HttpConn.loopStep_body c inBody,
    HttpConn.loopBody_content c inBody]
  obtain ⟨next, same⟩ : ∃ next : HttpConn, next = { c with startLine := c.checkedIdx } := ⟨_, rfl⟩
  rw [← same, HttpConn.parseContent]
  by_cases whole : (next.readIdx : Int) ≥ Machine.toInt (HttpConn.contentSum next)
  · rw [if_pos whole]
    exact Or.inl rfl
  · have state : next.checkState = .content := by
      rw [same]
      exact inBody
    have done : next.checkedIdx = next.readIdx := by
      rw [same]
      simp only
      omega
    have ordered : next.Ordered := by
      rw [same]
      exact ⟨Nat.le_refl _, ordered.checked⟩
    rw [if_neg whole]
    refine Or.inr ?_
    simp only [HttpConn.contentStep]
    rw [HttpConn.runLoop_eq next .lineOpen ordered, HttpConn.loopStep_open,
      HttpConn.parseLine_end next done]
    exact state

theorem processRead_init (c : HttpConn) (fs : FileSystem) :
    c.init.processRead fs = (c.init, some .noRequest) := by
  have scanned := scan_empty (HttpConn.init_bounded c).ordered rfl (HttpConn.init_headerState c).header
  simp only [HttpConn.processRead, scanned]

theorem doRequest_answers (c : HttpConn) (fs : FileSystem) :
    (c.doRequest fs).2 ≠ some .noRequest := by
  simp only [HttpConn.doRequest]
  split
  · simp
  · split
    · simp
    · split
      · simp
      · split <;> simp

theorem processRead_waits {c : HttpConn} {fs : FileSystem} (ordered : c.Ordered)
    (waits : c.processRead fs = (c.init, some .noRequest)) : c = c.init := by
  have empty : c.readIdx = 0 := by
    have readIdx := processRead_readIdx c fs ordered
    rw [waits] at readIdx
    exact readIdx.symm
  by_cases inBody : c.checkState = .content
  · rcases scan_empty_body ordered empty inBody with calls | stays
    · have answers := doRequest_answers c.scan.1 fs
      have called : c.processRead fs = c.scan.1.doRequest fs := by
        cases result : c.scan with
        | mk scanned ending =>
            rw [result] at calls
            obtain rfl : ending = .callsDoRequest := calls
            simp only [HttpConn.processRead, result]
      rw [← called, waits] at answers
      contradiction
    · have state : (c.processRead fs).1.checkState = .requestLine := by
        rw [waits]
        rfl
      rw [HttpConn.processRead_request] at state
      have state : c.scan.1.checkState = .requestLine := state
      rw [stays] at state
      contradiction
  · rw [HttpConn.processRead, scan_empty ordered empty inBody] at waits
    exact congrArg Prod.fst waits

theorem written_idle {c : HttpConn} (nothing : c.bytesToSend = 0) (results : List Writev) :
    written c results = (c.init, .armed .epollIn) := by
  have idle : c.write results = (c.init, .idle) := by
    rw [HttpConn.write, if_pos nothing]
  simp only [written, idle]

theorem answered_init (c : HttpConn) (fs : FileSystem) :
    answered c.init fs = .ok (c.init, .armed .epollIn) := by
  simp only [answered, processRead_init, if_true]

theorem answered_waits {c : HttpConn} {fs : FileSystem} (ordered : c.Ordered)
    (same : answered c fs = .ok (c.init, .armed .epollIn)) : c = c.init := by
  simp only [answered] at same
  cases parsed : c.processRead fs with
  | mk next verdict =>
      rw [parsed] at same
      cases verdict with
      | none => contradiction
      | some ret =>
          by_cases waiting : ret = .noRequest
          · rw [waiting] at parsed same
            simp only [if_true, Except.ok.injEq, Prod.mk.injEq, and_true] at same
            rw [same] at parsed
            exact processRead_waits ordered parsed
          · simp only [waiting, if_false, Except.ok.injEq] at same
            split at same
            · have descriptor : Descriptor.armed .epollOut = .armed .epollIn := congrArg Prod.snd same
              contradiction
            · have descriptor : Descriptor.closed = .armed .epollIn := congrArg Prod.snd same
              contradiction

/-! The two modes. -/

structure Attended (s : WebServer) (slot : Nat) : Prop where
  registry : s.Registry
  isOpen : s.IsOpen slot
  proactor : s.actorMode = 1
  room : s.workQueue.length ≤ maxRequests

theorem Attended.inMode {s : WebServer} {slot : Nat} (attended : s.Attended slot) (mode : Bool) :
    (s.inMode mode).Attended slot :=
  ⟨(inMode_still s mode).registry attended.registry, attended.isOpen, attended.proactor,
    attended.room⟩

theorem Attended.modeless {s : WebServer} {slot : Nat} (attended : s.Attended slot) :
    s.actorMode ≠ 0 := by
  rw [attended.proactor]
  decide

theorem Attended.read_bounded {s : WebServer} {slot : Nat} (attended : s.Attended slot)
    (results : List HttpConn.Recv) : ((s.users slot).read results).1.Bounded :=
  (HttpConn.Call.read results).run_bounded _
    (attended.registry.bounded slot (attended.registry.known slot attended.isOpen).2)

theorem acts_readable {s : WebServer} (modeless : s.actorMode ≠ 0) (slot : Nat)
    (results : List HttpConn.Recv) (answers : Answers) :
    s.acts slot (.readable results) answers =
      .read ((s.users slot).read results).2 ::
        if ((s.users slot).read results).2 then
          processActs s.connActorMode ((s.users slot).read results).1 answers
        else [] := by
  simp only [acts, if_neg modeless]

theorem agree_of_reads {s : WebServer} {slot : Nat} {event : Ready} {answers : Answers}
    (state : ((s.inMode true).handle slot event answers).map (view slot) =
      ((s.inMode false).handle slot event answers).map (view slot))
    (bytes : ((s.inMode true).acts slot event answers).flatMap Act.places =
      ((s.inMode false).acts slot event answers).flatMap Act.places)
    (reads : ∀ mode, .read false ∉ (s.inMode mode).acts slot event answers) :
    s.Agree slot event answers :=
  ⟨state, bytes, fun mode failed => absurd failed (reads mode)⟩

theorem writable_agree {s : WebServer} {slot : Nat} (attended : s.Attended slot)
    (results : List Writev) (answers : Answers) : s.Agree slot (.writable results) answers := by
  have handled (mode : Bool) :=
    handle_writable (attended.inMode mode).registry (attended.inMode mode).isOpen
      (attended.inMode mode).modeless results answers
  have sent (mode : Bool) : (s.inMode mode).acts slot (.writable results) answers =
      [.write (sends (s.users slot) results)] := if_neg (attended.inMode mode).modeless
  refine agree_of_reads ?_ ?_ ?_
  · rw [handled true, handled false]
    rfl
  · rw [sent true, sent false]
  · intro mode
    rw [sent mode]
    simp

theorem refused_agree {s : WebServer} {slot : Nat} (attended : s.Attended slot)
    {results : List HttpConn.Recv} (refused : ((s.users slot).read results).2 = false)
    (answers : Answers) : s.Agree slot (.readable results) answers := by
  have handled (mode : Bool) :=
    handle_refused (attended.inMode mode).registry (attended.inMode mode).isOpen
      (attended.inMode mode).modeless refused answers
  have read (mode : Bool) : (s.inMode mode).acts slot (.readable results) answers = [.read false] := by
    rw [acts_readable (attended.inMode mode).modeless]
    have same : (((s.inMode mode).users slot).read results).2 = false := refused
    rw [same]
    rfl
  refine ⟨?_, ?_, ?_⟩
  · rw [handled true, handled false]
    rfl
  · rw [read true, read false]
  · intro mode _
    refine ⟨by rw [read mode]; simp, ?_⟩
    have closed := congrArg (Except.map Prod.snd) (handled mode)
    cases made : (s.inMode mode).handle slot (.readable results) answers with
    | error fault =>
        rw [made] at closed
        contradiction
    | ok next =>
        rw [made] at closed
        exact closed

section Received

variable {s : WebServer} {slot : Nat} {results : List HttpConn.Recv} (answers : Answers)

theorem proactor_handled (attended : s.Attended slot)
    (received : ((s.users slot).read results).2 = true) :
    ((s.inMode false).handle slot (.readable results) answers).map (view slot) =
      answered ((s.users slot).read results).1 answers.fs := by
  have known := attended.inMode false
  obtain ⟨base, registry, isOpen, users, mode, handled⟩ :=
    handle_appended known.registry known.isOpen known.modeless known.room received answers
  have one : base.connActorMode = 1 := mode
  have proactor : base.connActorMode ≠ 0 := by
    rw [one]
    decide
  rw [handled, process_proactor registry isOpen proactor, users]
  rfl

theorem reactor_writes (attended : s.Attended slot)
    (received : ((s.users slot).read results).2 = true)
    (task : ((s.users slot).read results).1.taskState = 1) :
    ((s.inMode true).handle slot (.readable results) answers).map (view slot) =
      .ok (written ((s.users slot).read results).1 answers.writevs) := by
  have known := attended.inMode true
  obtain ⟨base, registry, isOpen, users, mode, handled⟩ :=
    handle_appended known.registry known.isOpen known.modeless known.room received answers
  have reactor : base.connActorMode = 0 := mode
  have users : base.users slot = ((s.users slot).read results).1 := users
  rw [handled, process_writes registry isOpen reactor (by rw [users]; exact task), users]

theorem reactor_reads (attended : s.Attended slot)
    (received : ((s.users slot).read results).2 = true)
    (task : ((s.users slot).read results).1.taskState ≠ 1)
    (more : (((s.users slot).read results).1.read answers.recvs).2 = true) :
    ((s.inMode true).handle slot (.readable results) answers).map (view slot) =
      answered (((s.users slot).read results).1.read answers.recvs).1 answers.fs := by
  have known := attended.inMode true
  obtain ⟨base, registry, isOpen, users, mode, handled⟩ :=
    handle_appended known.registry known.isOpen known.modeless known.room received answers
  have reactor : base.connActorMode = 0 := mode
  have users : base.users slot = ((s.users slot).read results).1 := users
  rw [handled, process_reads registry isOpen reactor (by rw [users]; exact task) answers
    (by rw [users]; exact more), users]

theorem received_acts (attended : s.Attended slot)
    (received : ((s.users slot).read results).2 = true) (mode : Bool) :
    (s.inMode mode).acts slot (.readable results) answers =
      .read true :: processActs (if mode then 0 else 1) ((s.users slot).read results).1 answers := by
  have same : (((s.inMode mode).users slot).read results).2 = true := received
  rw [acts_readable (attended.inMode mode).modeless, same, if_pos rfl]
  rfl

end Received

theorem reading_agree_iff {s : WebServer} {slot : Nat} (attended : s.Attended slot)
    {results : List HttpConn.Recv} (received : ((s.users slot).read results).2 = true)
    (task : ((s.users slot).read results).1.taskState ≠ 1) (answers : Answers) :
    s.Agree slot (.readable results) answers ↔ s.Alike slot answers (.readable results) := by
  obtain ⟨c, same⟩ : ∃ c, c = ((s.users slot).read results).1 := ⟨_, rfl⟩
  have bounded : c.Bounded := by
    rw [same]
    exact attended.read_bounded results
  have proactor := proactor_handled answers attended received
  have reactor := reactor_reads answers attended received task
  have reactorActs := received_acts answers attended received true
  have proactorActs := received_acts answers attended received false
  have alike : s.Alike slot answers (.readable results) ↔
      (answers.recvs = [] ∧ c.readIdx < readBufferSize) ∨
        ((c.read answers.recvs).2 = true ∧ Crashes c answers.fs ∧
          Crashes (c.read answers.recvs).1 answers.fs) := by
    simp only [Alike, received, if_neg task, Bool.true_eq_false, false_or, same]
  rw [← same] at proactor reactor reactorActs proactorActs task
  rw [alike]
  have proactorActs : (s.inMode false).acts slot (.readable results) answers =
      [.read true, .parse] := proactorActs
  have reactorActs : (s.inMode true).acts slot (.readable results) answers =
      [.read true, .read (c.read answers.recvs).2, .parse] := by
    rw [reactorActs]
    simp [processActs, task]
  constructor
  · intro agree
    have more : (c.read answers.recvs).2 = true := by
      by_contra failed
      have failed : (c.read answers.recvs).2 = false := Bool.eq_false_iff.mpr failed
      have parsed := (agree.failing true (by rw [reactorActs, failed]; simp)).1
      rw [reactorActs] at parsed
      simp at parsed
    have state := agree.state
    rw [reactor more, proactor] at state
    have ordered := ((HttpConn.Call.read answers.recvs).run_bounded c bounded).ordered
    rcases answered_same ordered bounded.ordered state with amount | ⟨later, early⟩
    · have amount : (c.read answers.recvs).1.readIdx = c.readIdx := amount
      refine Or.inl ⟨?_, read_room more⟩
      by_contra some
      have grown := read_more more some
      omega
    · exact Or.inr ⟨more, early, later⟩
  · intro condition
    have more : (c.read answers.recvs).2 = true := by
      rcases condition with ⟨nothing, room⟩ | ⟨more, _⟩
      · rw [nothing, read_nothing room]
      · exact more
    refine agree_of_reads ?_ ?_ ?_
    · rw [reactor more, proactor]
      rcases condition with ⟨nothing, room⟩ | ⟨_, early, later⟩
      · rw [nothing, read_nothing room]
      · rw [answered_crashes early, answered_crashes later]
    · rw [reactorActs, proactorActs]
      rfl
    · intro mode
      cases mode with
      | true => simp [reactorActs, more]
      | false => simp [proactorActs]

theorem writing_agree {s : WebServer} {slot : Nat} (attended : s.Attended slot)
    {results : List HttpConn.Recv} (received : ((s.users slot).read results).2 = true)
    (task : ((s.users slot).read results).1.taskState = 1) (answers : Answers) :
    (((s.users slot).read results).1 = ((s.users slot).read results).1.init →
        s.Agree slot (.readable results) answers) ∧
      (((s.users slot).read results).1.bytesToSend = 0 →
        s.Agree slot (.readable results) answers →
          ((s.users slot).read results).1 = ((s.users slot).read results).1.init) := by
  obtain ⟨c, same⟩ : ∃ c, c = ((s.users slot).read results).1 := ⟨_, rfl⟩
  have bounded : c.Bounded := by
    rw [same]
    exact attended.read_bounded results
  have proactor := proactor_handled answers attended received
  have reactor := reactor_writes answers attended received task
  have reactorActs := received_acts answers attended received true
  have proactorActs := received_acts answers attended received false
  rw [← same] at proactor reactor reactorActs proactorActs task ⊢
  have proactorActs : (s.inMode false).acts slot (.readable results) answers =
      [.read true, .parse] := proactorActs
  have reactorActs : (s.inMode true).acts slot (.readable results) answers =
      [.read true, .write (sends c answers.writevs)] := by
    rw [reactorActs]
    simp [processActs, task]
  constructor
  · intro fresh
    have nothing : c.bytesToSend = 0 := by
      rw [fresh]
      rfl
    have waits := answered_init c answers.fs
    rw [← fresh] at waits
    refine agree_of_reads ?_ ?_ ?_
    · rw [reactor, proactor, written_idle nothing, waits, ← fresh]
    · rw [reactorActs, proactorActs, sends, if_pos nothing]
      rfl
    · intro mode
      cases mode with
      | true => simp [reactorActs]
      | false => simp [proactorActs]
  · intro nothing agree
    have state := agree.state
    rw [reactor, proactor, written_idle nothing] at state
    exact answered_waits bounded.ordered state.symm

theorem read_kept (c : HttpConn) (results : List HttpConn.Recv) :
    (c.read results).1.taskState = c.taskState ∧
      (c.read results).1.bytesToSend = c.bytesToSend := by
  obtain ⟨arrived, same, _⟩ := HttpConn.read_receive c results
  rw [same]
  exact ⟨rfl, rfl⟩

/-- The events that are handled alike, whatever the state of the connection is and
whatever the socket does; and no others, unless a worker that was told to write finds
a response that is still to be sent. -/
theorem modes_agree {s : WebServer} {slot : Nat} (attended : s.Attended slot) (event : Ready)
    (answers : Answers) :
    (s.Alike slot answers event → s.Agree slot event answers) ∧
      (((s.users slot).taskState = 1 → (s.users slot).bytesToSend = 0) →
        s.Agree slot event answers → s.Alike slot answers event) := by
  cases event with
  | writable results => exact ⟨fun _ => writable_agree attended results answers, fun _ _ => trivial⟩
  | readable results =>
      by_cases received : ((s.users slot).read results).2 = true
      · obtain ⟨taskState, bytesToSend⟩ := read_kept (s.users slot) results
        by_cases task : ((s.users slot).read results).1.taskState = 1
        · obtain ⟨enough, needed⟩ := writing_agree attended received task answers
          have alike : s.Alike slot answers (.readable results) ↔
              ((s.users slot).read results).1 = ((s.users slot).read results).1.init := by
            simp only [Alike, received, if_pos task, Bool.true_eq_false, false_or]
          rw [alike]
          refine ⟨enough, fun idle => needed ?_⟩
          rw [bytesToSend]
          exact idle (taskState.symm.trans task)
        · have agree := reading_agree_iff attended received task answers
          exact ⟨agree.mpr, fun _ => agree.mp⟩
      · have refused : ((s.users slot).read results).2 = false := Bool.eq_false_iff.mpr received
        exact ⟨fun _ => refused_agree attended refused answers, fun _ _ => Or.inl refused⟩

theorem reached_attended {users : Nat → HttpConn} {setReactorMode : Bool} {steps : List Step}
    (legal : AlongSteps Step.Legal (init users setReactorMode) steps) {s : WebServer}
    (reached : runSteps (init users setReactorMode) steps = .ok s) {slot : Nat}
    (isOpen : s.IsOpen slot) (room : s.workQueue.length ≤ maxRequests) : s.Attended slot := by
  have start : (init users setReactorMode).Registry ∧ (init users setReactorMode).actorMode = 1 :=
    ⟨init_registry users setReactorMode, rfl⟩
  have preserved (s : WebServer) (event : Step) (next : WebServer)
      (known : s.Registry ∧ s.actorMode = 1) (legal : event.Legal s)
      (taken : s.step event = .ok next) : next.Registry ∧ next.actorMode = 1 := by
    obtain ⟨registry, moves⟩ := (step_moves known.1 event legal).2 next taken
    exact ⟨registry, moves.actorMode.trans known.2⟩
  obtain ⟨registry, proactor⟩ := Runs.run_invariant preserved steps start legal reached
  exact ⟨registry, isOpen, proactor, room⟩

theorem modes_agree_request :
    ∃ s, runSteps (init (fun _ => HttpConn.zeroed) false) [.accept (some 7)] = .ok s ∧
      s.Agree 7 (.readable [.data (CString.bytes "GET / HTTP/1.1\r\n\r\n")])
        ⟨⟨fun _ => none, fun _ _ => 0⟩, [], []⟩ := by
  have legal : AlongSteps Step.Legal (init (fun _ => HttpConn.zeroed) false) [.accept (some 7)] := by
    decide +kernel
  refine ⟨_, rfl, ?_⟩
  apply (modes_agree (reached_attended legal rfl (by decide +kernel) (by decide +kernel)) _ _).1
  refine Or.inr ?_
  rw [if_neg (by decide +kernel)]
  exact Or.inl ⟨rfl, by decide +kernel⟩

/-- The same request, with the end of the connection behind it when the worker reads:
in reactor mode that read closes the connection, and the request is parsed all the same. -/
theorem modes_differ_on_close :
    ∃ s, runSteps (init (fun _ => HttpConn.zeroed) false) [.accept (some 7)] = .ok s ∧
      s.Attended 7 ∧
        ¬s.Agree 7 (.readable [.data (CString.bytes "GET / HTTP/1.1\r\n\r\n")])
          ⟨⟨fun _ => none, fun _ _ => 0⟩, [.data []], []⟩ := by
  have legal : AlongSteps Step.Legal (init (fun _ => HttpConn.zeroed) false) [.accept (some 7)] := by
    decide +kernel
  refine ⟨_, rfl, reached_attended legal rfl (by decide +kernel) (by decide +kernel), ?_⟩
  intro agree
  have descriptors := congrArg (Except.map Prod.snd) agree.state
  revert descriptors
  decide +kernel

end StudyRecord.Server.WebServer
