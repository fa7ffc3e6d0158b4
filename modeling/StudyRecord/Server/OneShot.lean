import StudyRecord.Http.Amount
import StudyRecord.Server.StrayStore

/-!
The discipline between the event loop and the workers. A connection is armed, or one
entry of the work queue holds it, as long as no tick closes it under a worker.
-/

namespace StudyRecord.Server.WebServer

open Http Timer

inductive Situation
  | reading
  | writing
  | held
  deriving DecidableEq, Repr

def queuedFor (s : WebServer) (slot : Nat) : Nat :=
  s.workQueue.countP fun entry => entry.slot = slot

def Situation.Is (s : WebServer) (slot : Nat) : Situation → Prop
  | .reading => s.epoll slot = .armed .epollIn ∧ (s.users slot).bytesToSend = 0
  | .writing => s.epoll slot = .armed .epollOut ∧ 0 < (s.users slot).bytesToSend
  | .held => s.queuedFor slot = 1

/-- Every entry of the work queue refers to an open connection, the one it was
appended for, and every open connection is in one situation. -/
structure OneShot (s : WebServer) : Prop where
  queued : ∀ entry ∈ s.workQueue, s.IsOpen entry.slot ∧ entry.accepted = s.accepted entry.slot
  situation : ∀ slot, s.IsOpen slot → ∃! situation : Situation, situation.Is s slot

def Step.Armed (s : WebServer) : Step → Prop
  | .error sockfd => ∃ ev, s.epoll sockfd = .armed ev
  | .close sockfd => ∃ ev, s.epoll sockfd = .armed ev
  | .readable sockfd _ => s.epoll sockfd = .armed .epollIn
  | .writable sockfd _ => s.epoll sockfd = .armed .epollOut
  | _ => True

/-- A tick closes no connection that a worker is to process, and a worker answers
with no file whose length, with the header, an `int` does not hold as a positive number. -/
def Step.InTime (s : WebServer) : Step → Prop
  | .tick => ∀ entry ∈ s.workQueue, ¬s.IsDue entry.slot
  | .work fs _ _ => ∀ request ∈ s.workQueue.head?, (s.users request.slot).AnswerFits fs
  | _ => True

instance (s : WebServer) (fd : Nat) : Decidable (∃ ev, s.epoll fd = .armed ev) :=
  match armed : s.epoll fd with
  | .armed ev => .isTrue ⟨ev, rfl⟩
  | .closed => .isFalse (by simp)
  | .disarmed => .isFalse (by simp)

instance (s : WebServer) : (event : Step) → Decidable (event.Armed s)
  | .accept _ => inferInstanceAs (Decidable True)
  | .error sockfd => inferInstanceAs (Decidable (∃ ev, s.epoll sockfd = .armed ev))
  | .close sockfd => inferInstanceAs (Decidable (∃ ev, s.epoll sockfd = .armed ev))
  | .readable _ _ => inferInstanceAs (Decidable (_ = _))
  | .writable _ _ => inferInstanceAs (Decidable (_ = _))
  | .tick => inferInstanceAs (Decidable True)
  | .work _ _ _ => inferInstanceAs (Decidable True)

instance (s : WebServer) : (event : Step) → Decidable (event.InTime s)
  | .accept _ => inferInstanceAs (Decidable True)
  | .error _ => inferInstanceAs (Decidable True)
  | .close _ => inferInstanceAs (Decidable True)
  | .readable _ _ => inferInstanceAs (Decidable True)
  | .writable _ _ => inferInstanceAs (Decidable True)
  | .tick => inferInstanceAs (Decidable (∀ entry ∈ s.workQueue, ¬s.IsDue entry.slot))
  | .work fs _ _ => inferInstanceAs
      (Decidable (∀ request ∈ s.workQueue.head?, (s.users request.slot).AnswerFits fs))

/-! What holds between two steps. -/

inductive Phase (s : WebServer) (slot : Nat) : Prop
  | reading (armed : s.epoll slot = .armed .epollIn) (waiting : (s.users slot).Unanswered)
      (absent : s.queuedFor slot = 0)
  | writing (armed : s.epoll slot = .armed .epollOut) (pending : 0 < (s.users slot).bytesToSend)
      (absent : s.queuedFor slot = 0)
  | held (disarmed : s.epoll slot = .disarmed) (waiting : (s.users slot).Unanswered)
      (once : s.queuedFor slot = 1)

structure Discipline (s : WebServer) : Prop where
  registry : s.Registry
  actorMode : s.actorMode = 1
  connActorMode : s.connActorMode = 1
  queued : ∀ entry ∈ s.workQueue, s.IsOpen entry.slot ∧ entry.accepted = s.accepted entry.slot
  phase : ∀ slot, s.IsOpen slot → Phase s slot

theorem Phase.congr {s next : WebServer} {slot : Nat} (phase : Phase s slot)
    (users : next.users slot = s.users slot) (epoll : next.epoll slot = s.epoll slot)
    (count : next.queuedFor slot = s.queuedFor slot) : Phase next slot := by
  cases phase with
  | reading armed waiting absent =>
      exact .reading (epoll.trans armed) (users ▸ waiting) (count.trans absent)
  | writing armed pending absent =>
      exact .writing (epoll.trans armed) (users ▸ pending) (count.trans absent)
  | held disarmed waiting once =>
      exact .held (epoll.trans disarmed) (users ▸ waiting) (count.trans once)

theorem Phase.unique {s : WebServer} {slot : Nat} (phase : Phase s slot) :
    ∃! situation : Situation, situation.Is s slot := by
  cases phase with
  | reading armed waiting absent =>
      refine ⟨.reading, ⟨armed, waiting.bytesToSend⟩, ?_⟩
      intro other is
      cases other with
      | reading => rfl
      | writing =>
          rw [Situation.Is, armed] at is
          simp at is
      | held =>
          rw [Situation.Is, absent] at is
          contradiction
  | writing armed pending absent =>
      refine ⟨.writing, ⟨armed, pending⟩, ?_⟩
      intro other is
      cases other with
      | reading =>
          rw [Situation.Is, armed] at is
          simp at is
      | writing => rfl
      | held =>
          rw [Situation.Is, absent] at is
          contradiction
  | held disarmed waiting once =>
      refine ⟨.held, once, ?_⟩
      intro other is
      cases other with
      | reading =>
          rw [Situation.Is, disarmed] at is
          simp at is
      | writing =>
          rw [Situation.Is, disarmed] at is
          simp at is
      | held => rfl

theorem Discipline.oneShot {s : WebServer} (discipline : s.Discipline) : s.OneShot :=
  ⟨discipline.queued, fun slot isOpen => (discipline.phase slot isOpen).unique⟩

theorem queuedFor_zero {s : WebServer} {slot : Nat} (absent : s.queuedFor slot = 0) :
    ∀ entry ∈ s.workQueue, entry.slot ≠ slot := by
  simpa [queuedFor, List.countP_eq_zero] using absent

theorem Discipline.armed_absent {s : WebServer} (discipline : s.Discipline) {slot : Nat}
    {ev : Interest} (armed : s.epoll slot = .armed ev) :
    ∀ entry ∈ s.workQueue, entry.slot ≠ slot := by
  have isOpen : s.IsOpen slot := by
    rw [IsOpen, armed]
    simp
  cases discipline.phase slot isOpen with
  | reading _ _ absent => exact queuedFor_zero absent
  | writing _ _ absent => exact queuedFor_zero absent
  | held disarmed _ _ =>
      rw [armed] at disarmed
      contradiction

/-! One connection is handled, and the others are left alone. -/

structure Elsewhere (slot : Nat) (s next : WebServer) : Prop where
  users : ∀ other, other ≠ slot → next.users other = s.users other
  epoll : ∀ other, other ≠ slot → next.epoll other = s.epoll other
  queuedFor : ∀ other, other ≠ slot → next.queuedFor other = s.queuedFor other
  accepted : ∀ other, other ≠ slot → next.accepted other = s.accepted other
  actorMode : next.actorMode = s.actorMode
  connActorMode : next.connActorMode = s.connActorMode

theorem Elsewhere.trans {slot : Nat} {first second third : WebServer}
    (early : Elsewhere slot first second) (late : Elsewhere slot second third) :
    Elsewhere slot first third :=
  ⟨fun other apart => (late.users other apart).trans (early.users other apart),
    fun other apart => (late.epoll other apart).trans (early.epoll other apart),
    fun other apart => (late.queuedFor other apart).trans (early.queuedFor other apart),
    fun other apart => (late.accepted other apart).trans (early.accepted other apart),
    late.actorMode.trans early.actorMode, late.connActorMode.trans early.connActorMode⟩

theorem Elsewhere.discipline {slot : Nat} {s next : WebServer} (elsewhere : Elsewhere slot s next)
    (discipline : s.Discipline) (registry : next.Registry)
    (queued : ∀ entry ∈ next.workQueue, entry ∈ s.workQueue ∧ entry.slot ≠ slot ∨
      entry.slot = slot ∧ next.IsOpen slot ∧ entry.accepted = next.accepted slot)
    (phase : next.IsOpen slot → Phase next slot) : next.Discipline := by
  have openElsewhere (other : Nat) (apart : other ≠ slot) : next.IsOpen other ↔ s.IsOpen other := by
    rw [IsOpen, IsOpen, elsewhere.epoll other apart]
  refine ⟨registry, elsewhere.actorMode.trans discipline.actorMode,
    elsewhere.connActorMode.trans discipline.connActorMode, ?_, ?_⟩
  · intro entry member
    rcases queued entry member with ⟨before, apart⟩ | ⟨here, isOpen, same⟩
    · obtain ⟨isOpen, same⟩ := discipline.queued entry before
      rw [openElsewhere entry.slot apart, elsewhere.accepted entry.slot apart]
      exact ⟨isOpen, same⟩
    · rw [here]
      exact ⟨isOpen, same⟩
  · intro other isOpen
    by_cases here : other = slot
    · rw [here] at isOpen ⊢
      exact phase isOpen
    · have users := elsewhere.users other here
      have epoll := elsewhere.epoll other here
      have count := elsewhere.queuedFor other here
      exact (discipline.phase other ((openElsewhere other here).mp isOpen)).congr users epoll count

theorem setConn_elsewhere (s : WebServer) (slot : Nat) (c : HttpConn) :
    Elsewhere slot s (s.setConn slot c) :=
  ⟨fun _ apart => Function.update_of_ne apart .., fun _ _ => rfl, fun _ _ => rfl, fun _ _ => rfl,
    rfl, rfl⟩

theorem setEpoll_elsewhere (s : WebServer) (slot : Nat) (descriptor : Descriptor) :
    Elsewhere slot s (s.setEpoll slot descriptor) :=
  ⟨fun _ _ => rfl, fun _ apart => Function.update_of_ne apart .., fun _ _ => rfl, fun _ _ => rfl,
    rfl, rfl⟩

theorem Closes.elsewhere {slot : Nat} {s next : WebServer} (closes : Closes [slot] s next) :
    Elsewhere slot s next := by
  refine ⟨?_, ?_, ?_, ?_, closes.actorMode, closes.connActorMode⟩
  · intro other apart
    rw [closes.users, if_neg (by simpa using apart)]
  · intro other apart
    rw [closes.epoll, if_neg (by simpa using apart)]
  · intro other _
    rw [queuedFor, queuedFor, closes.workQueue]
  · intro other _
    rw [closes.accepted]

theorem Renews.elsewhere {slot : Nat} {s next : WebServer} (renews : Renews slot s next) :
    Elsewhere slot s next := by
  rw [renews.same]
  exact ⟨fun _ _ => rfl, fun _ _ => rfl, fun _ _ => rfl, fun _ _ => rfl, rfl, rfl⟩

structure Handling (slot : Nat) (s middle : WebServer) : Prop where
  elsewhere : Elsewhere slot s middle
  registry : middle.Registry
  isOpen : middle.IsOpen slot
  queued : ∀ entry ∈ middle.workQueue, entry ∈ s.workQueue ∧ entry.slot ≠ slot

theorem Handling.sockfd {slot : Nat} {s middle : WebServer} (handling : Handling slot s middle) :
    (middle.users slot).sockfd = slot :=
  handling.registry.sockfd slot handling.isOpen

theorem Discipline.report {s : WebServer} (discipline : s.Discipline) {slot : Nat} {ev : Interest}
    (armed : s.epoll slot = .armed ev) :
    Handling slot s (s.report slot) ∧ (s.report slot).epoll slot = .disarmed := by
  have absent := discipline.armed_absent armed
  have kept := report_still s slot
  have disarms : s.report slot = s.setEpoll slot .disarmed := by simp only [WebServer.report, armed]
  have disarmed : (s.report slot).epoll slot = .disarmed := by
    rw [disarms]
    exact Function.update_self ..
  refine ⟨⟨?_, kept.registry discipline.registry, ?_, ?_⟩, disarmed⟩
  · rw [disarms]
    exact setEpoll_elsewhere s slot _
  · rw [IsOpen, disarmed]
    simp
  · rw [disarms]
    exact fun entry member => ⟨member, absent entry member⟩

theorem Discipline.pop {s : WebServer} (discipline : s.Discipline) {request : Entry}
    {rest : List Entry} (queue : s.workQueue = request :: rest) :
    Handling request.slot s { s with workQueue := rest } ∧ (s.users request.slot).Unanswered := by
  obtain ⟨isOpen, _⟩ := discipline.queued request (by simp [queue])
  have count : s.queuedFor request.slot = rest.countP (fun entry => entry.slot = request.slot) + 1 := by
    simp [queuedFor, queue]
  cases discipline.phase request.slot isOpen with
  | reading _ _ absent => omega
  | writing _ _ absent => omega
  | held _ waiting once =>
      refine ⟨⟨?_, (pop_still queue).registry discipline.registry, isOpen, ?_⟩, waiting⟩
      · refine ⟨fun _ _ => rfl, fun _ _ => rfl, ?_, fun _ _ => rfl, rfl, rfl⟩
        intro other apart
        have different : ¬request.slot = other := fun same => apart same.symm
        simp [queuedFor, queue, different]
      · intro entry member
        refine ⟨by simp [queue, member], ?_⟩
        have none : rest.countP (fun entry => entry.slot = request.slot) = 0 := by omega
        rw [List.countP_eq_zero] at none
        simpa using none entry member

theorem Handling.setConn {slot : Nat} {s middle : WebServer} (handling : Handling slot s middle)
    {c : HttpConn} (same : SameOwner (middle.users slot) c) :
    Handling slot s (middle.setConn slot c) :=
  ⟨handling.elsewhere.trans (setConn_elsewhere middle slot c),
    (setConn_still middle same).registry handling.registry, handling.isOpen, handling.queued⟩

theorem Handling.renew {slot : Nat} {s middle next : WebServer} (handling : Handling slot s middle)
    (renews : Renews slot middle next) : Handling slot s next := by
  refine ⟨handling.elsewhere.trans renews.elsewhere, renews.kept.registry handling.registry, ?_, ?_⟩
  · exact (renews.kept.isOpen slot).mpr handling.isOpen
  · rw [renews.same]
    exact handling.queued

theorem Handling.close {slot : Nat} {s middle next : WebServer} (handling : Handling slot s middle)
    (discipline : s.Discipline) (closed : middle.closeConn slot = .ok next) : next.Discipline := by
  obtain ⟨other, closed', registry, closes, _⟩ := closeConn_open handling.registry handling.isOpen
  rw [closed', Except.ok.injEq] at closed
  subst closed
  refine (handling.elsewhere.trans closes.elsewhere).discipline discipline registry ?_ ?_
  · intro entry member
    rw [closes.workQueue] at member
    exact Or.inl (handling.queued entry member)
  · intro isOpen
    have gone := ((closes.isOpen slot).mp isOpen).2
    simp at gone

theorem Handling.absent {slot : Nat} {s middle : WebServer} (handling : Handling slot s middle) :
    middle.queuedFor slot = 0 := by
  rw [queuedFor, List.countP_eq_zero]
  intro entry member
  simpa using (handling.queued entry member).2

theorem append_elsewhere {slot : Nat} {s next : WebServer} (appended : s.append slot = .ok next) :
    Elsewhere slot s next := by
  rw [append_eq appended]
  refine ⟨fun _ _ => rfl, fun _ _ => rfl, ?_, fun _ _ => rfl, rfl, rfl⟩
  intro other apart
  have different : ¬slot = other := fun same => apart same.symm
  simp [queuedFor, different]

theorem Handling.append {slot : Nat} {s middle next : WebServer} (handling : Handling slot s middle)
    (discipline : s.Discipline) (disarmed : middle.epoll slot = .disarmed)
    (waiting : (middle.users slot).Unanswered)
    (appended : middle.append slot = .ok next) : next.Discipline := by
  have known := (handling.registry.known slot handling.isOpen).2
  have registry := (append_still known appended).registry handling.registry
  have appends := append_elsewhere appended
  have absent := handling.absent
  obtain rfl := append_eq appended
  refine (handling.elsewhere.trans appends).discipline discipline registry ?_ ?_
  · intro entry member
    rcases List.mem_append.mp member with before | new
    · exact Or.inl (handling.queued entry before)
    · rw [List.mem_singleton.mp new]
      exact Or.inr ⟨rfl, handling.isOpen, rfl⟩
  · intro _
    rw [queuedFor] at absent
    exact .held disarmed waiting (by simp [queuedFor, absent])

theorem Handling.modfd_eq {slot : Nat} {s middle : WebServer} (handling : Handling slot s middle)
    (ev : Interest) :
    middle.modfd (middle.users slot).sockfd ev = middle.setEpoll slot (.armed ev) := by
  have notNegative : ¬(slot : Int) < 0 := by omega
  have isOpen := handling.isOpen
  rw [handling.sockfd, WebServer.modfd, Int.toNat_natCast, if_neg]
  exact fun either => either.elim notNegative isOpen

theorem Handling.modfd {slot : Nat} {s middle : WebServer} (handling : Handling slot s middle)
    (ev : Interest) : Handling slot s (middle.modfd (middle.users slot).sockfd ev) := by
  have kept := modfd_still middle (middle.users slot).sockfd ev
  refine ⟨?_, kept.registry handling.registry, (kept.isOpen slot).mpr handling.isOpen, ?_⟩
  · rw [handling.modfd_eq]
    exact handling.elsewhere.trans (setEpoll_elsewhere middle slot _)
  · rw [handling.modfd_eq]
    exact handling.queued

theorem Handling.arm {slot : Nat} {s middle : WebServer} (handling : Handling slot s middle)
    (discipline : s.Discipline) (ev : Interest)
    (ready : match ev with
      | .epollIn => (middle.users slot).Unanswered
      | .epollOut => 0 < (middle.users slot).bytesToSend) :
    (middle.modfd (middle.users slot).sockfd ev).Discipline := by
  have after := handling.modfd ev
  have arms := handling.modfd_eq ev
  have absent := handling.absent
  have armed : (middle.setEpoll slot (.armed ev)).epoll slot = .armed ev := Function.update_self ..
  rw [arms] at after ⊢
  refine after.elsewhere.discipline discipline after.registry ?_ ?_
  · exact fun entry member => Or.inl (handling.queued entry member)
  · intro _
    cases ev with
    | epollIn => exact .reading armed ready absent
    | epollOut => exact .writing armed ready absent

/-! The handlers of events. -/

theorem Discipline.armed_waiting {s : WebServer} (discipline : s.Discipline) {slot : Nat}
    (armed : s.epoll slot = .armed .epollIn) : (s.users slot).Unanswered := by
  have isOpen : s.IsOpen slot := by
    rw [IsOpen, armed]
    simp
  cases discipline.phase slot isOpen with
  | reading _ waiting _ => exact waiting
  | writing armed' _ _ =>
      rw [armed] at armed'
      contradiction
  | held disarmed _ _ =>
      rw [armed] at disarmed
      contradiction

theorem Discipline.armed_pending {s : WebServer} (discipline : s.Discipline) {slot : Nat}
    (armed : s.epoll slot = .armed .epollOut) : 0 < (s.users slot).bytesToSend := by
  have isOpen : s.IsOpen slot := by
    rw [IsOpen, armed]
    simp
  cases discipline.phase slot isOpen with
  | reading armed' _ _ =>
      rw [armed] at armed'
      contradiction
  | writing _ pending _ => exact pending
  | held disarmed _ _ =>
      rw [armed] at disarmed
      contradiction

theorem Discipline.renewed {s : WebServer} (discipline : s.Discipline) {sockfd : Nat}
    {ev : Interest} (armed : s.epoll sockfd = .armed ev) :
    ∃ renewed, (s.report sockfd).timerUpdate sockfd = .ok renewed ∧ Handling sockfd s renewed ∧
      renewed.epoll sockfd = .disarmed ∧ renewed.users = s.users ∧ ¬renewed.actorMode = 0 := by
  obtain ⟨reported, disarmed⟩ := discipline.report armed
  have known := (reported.registry.known sockfd reported.isOpen).2
  obtain ⟨renewed, updated, renews⟩ := timerUpdate_renews reported.registry known
  have handling := reported.renew renews
  refine ⟨renewed, updated, handling, ?_, ?_, ?_⟩
  · rw [renews.same]
    exact disarmed
  · exact renews.reported.1
  · rw [handling.elsewhere.actorMode, discipline.actorMode]
    decide

theorem dealRead_discipline {s next : WebServer} (discipline : s.Discipline) {sockfd : Nat}
    {results : List HttpConn.Recv} (armed : s.epoll sockfd = .armed .epollIn)
    (taken : (s.report sockfd).dealRead sockfd results = .ok next) : next.Discipline := by
  obtain ⟨renewed, updated, handling, disarmed, users, proactor⟩ := discipline.renewed armed
  have waiting := HttpConn.read_unanswered (discipline.armed_waiting armed) results
  rw [← users] at waiting
  have owner := read_owner (renewed.users sockfd) results
  rcases outcome : (renewed.users sockfd).read results with ⟨c, ok⟩
  rw [outcome] at waiting owner
  simp only [dealRead, updated, ok_bind, proactor, if_false, readConn, outcome] at taken
  have read := handling.setConn owner
  cases ok with
  | true =>
      refine read.append discipline disarmed ?_ taken
      rw [setConn_users]
      exact waiting
  | false => exact read.close discipline taken

theorem Handling.write {slot : Nat} {s middle next : WebServer} (handling : Handling slot s middle)
    (discipline : s.Discipline) (pending : 0 < (middle.users slot).bytesToSend)
    {results : List Writev}
    (taken : (middle.writeConn slot results).1.closeUnless slot (middle.writeConn slot results).2 =
      .ok next) : next.Discipline := by
  have written := HttpConn.write_written results pending
  have owner := write_owner (middle.users slot) results
  rcases outcome : (middle.users slot).write results with ⟨c, ending⟩
  rw [outcome] at written owner
  simp only [writeConn, outcome] at taken
  have sent := handling.setConn owner
  have conn := setConn_users middle slot c
  cases ending with
  | idle => exact absurd rfl written.notIdle
  | again =>
      have ready := written.again rfl
      rw [← conn] at ready
      have armed := sent.arm discipline .epollOut ready
      rw [conn] at armed
      exact Except.ok.inj taken ▸ armed
  | failed => exact sent.close discipline taken
  | complete kept =>
      have sent' := sent.modfd .epollIn
      rw [conn] at sent'
      cases kept with
      | true =>
          have ready := written.kept rfl
          rw [← conn] at ready
          have armed := sent.arm discipline .epollIn ready
          rw [conn] at armed
          exact Except.ok.inj taken ▸ armed
      | false => exact sent'.close discipline taken

theorem dealWrite_discipline {s next : WebServer} (discipline : s.Discipline) {sockfd : Nat}
    {results : List Writev} (armed : s.epoll sockfd = .armed .epollOut)
    (taken : (s.report sockfd).dealWrite sockfd results = .ok next) : next.Discipline := by
  obtain ⟨renewed, updated, handling, _, users, proactor⟩ := discipline.renewed armed
  have pending := discipline.armed_pending armed
  rw [← users] at pending
  simp only [dealWrite, updated, ok_bind, proactor, if_false] at taken
  exact handling.write discipline pending taken

theorem Closes.modfd_eq {slot : Nat} {s next : WebServer} (closes : Closes [slot] s next)
    (ev : Interest) : next.modfd (next.users slot).sockfd ev = next := by
  -- behind a close there is no descriptor to arm
  have gone : (next.users slot).sockfd = -1 := by
    rw [closes.users, if_pos (List.mem_singleton_self slot)]
    rfl
  rw [gone]
  simp [WebServer.modfd]

theorem Handling.respond {slot : Nat} {s middle next : WebServer}
    (handling : Handling slot s middle) (discipline : s.Discipline)
    (waiting : (middle.users slot).Unanswered) {fs : FileSystem}
    (fits : (middle.users slot).AnswerFits fs) (taken : middle.respond slot fs = .ok next) :
    next.Discipline := by
  have bounded := handling.registry.bounded slot (handling.registry.known slot handling.isOpen).2
  have owner := processRead_owner (middle.users slot) fs bounded
  have waiting' := HttpConn.processRead_unanswered waiting fs bounded
  rw [HttpConn.AnswerFits] at fits
  rcases parsed : (middle.users slot).processRead fs with ⟨c, code⟩
  rw [parsed] at owner waiting' fits
  simp only [WebServer.respond, WebServer.reply, parsed] at taken
  have read := handling.setConn owner
  cases code with
  | none => contradiction
  | some ret =>
      by_cases more : ret = .noRequest
      · have conn := setConn_users middle slot c
        have ready : ((middle.setConn slot c).users slot).Unanswered := by
          rw [conn]
          exact waiting'
        have armed := read.arm discipline .epollIn ready
        rw [conn] at armed
        simp only [more, if_true, Except.ok.injEq] at taken
        exact taken ▸ armed
      · have owner' := owner.trans (processWrite_owner c ret)
        rcases answered : c.processWrite ret with ⟨written, ok⟩
        rw [answered] at owner'
        simp only [more, if_false, answered] at taken
        have sent := handling.setConn owner'
        cases ok with
        | true =>
            have amount := HttpConn.processWrite_amount waiting'.writeIdx
              (fun file => fits (congrArg some file)) (congrArg Prod.snd answered)
            rw [answered] at amount
            have ready : 0 < ((middle.setConn slot written).users slot).bytesToSend := by
              rw [setConn_users]
              exact amount
            have armed := sent.arm discipline .epollOut ready
            simp only [closeUnless, if_true, ok_bind] at taken
            exact Except.ok.inj taken ▸ armed
        | false =>
            obtain ⟨closed, made, registry, closes, _⟩ :=
              closeConn_open sent.registry sent.isOpen
            have disciplined := sent.close discipline made
            have unchanged := closes.modfd_eq .epollOut
            simp only [closeUnless, made] at taken
            have same : closed = next := by
              simpa [ok_bind, unchanged] using taken
            exact same ▸ disciplined

theorem work_discipline {s next : WebServer} (discipline : s.Discipline) {fs : FileSystem}
    {recvs : List HttpConn.Recv} {writevs : List Writev}
    (fits : ∀ request ∈ s.workQueue.head?, (s.users request.slot).AnswerFits fs)
    (taken : s.work fs recvs writevs = .ok next) : next.Discipline := by
  cases queue : s.workQueue with
  | nil =>
      simp only [work, queue, Except.ok.injEq] at taken
      exact taken ▸ discipline
  | cons request rest =>
      obtain ⟨handling, waiting⟩ := discipline.pop queue
      have proactor : ¬s.connActorMode = 0 := by
        rw [discipline.connActorMode]
        decide
      simp only [work, queue, process, proactor, if_false] at taken
      exact handling.respond discipline waiting (fits request (by simp [queue])) taken

theorem tick_discipline {s next : WebServer} (discipline : s.Discipline)
    (inTime : ∀ entry ∈ s.workQueue, ¬s.IsDue entry.slot) (taken : s.tick = .ok next) :
    next.Discipline := by
  obtain ⟨other, slots, ticked, ticks⟩ := tick_spec discipline.registry
  rw [ticked, Except.ok.injEq] at taken
  subst taken
  have closes := ticks.closes
  refine ⟨ticks.registry, closes.actorMode.trans discipline.actorMode,
    closes.connActorMode.trans discipline.connActorMode, ?_, ?_⟩
  · intro entry member
    rw [closes.workQueue] at member
    obtain ⟨isOpen, same⟩ := discipline.queued entry member
    refine ⟨(closes.isOpen entry.slot).mpr ⟨isOpen, fun closed => ?_⟩, by rw [closes.accepted, same]⟩
    exact inTime entry member ((ticks.due entry.slot).mp closed).2
  · intro slot isOpen
    obtain ⟨wasOpen, spared⟩ := (closes.isOpen slot).mp isOpen
    have users : other.users slot = s.users slot := by rw [closes.users, if_neg spared]
    have epoll : other.epoll slot = s.epoll slot := by rw [closes.epoll, if_neg spared]
    have count : other.queuedFor slot = s.queuedFor slot := by
      rw [queuedFor, queuedFor, closes.workQueue]
    exact (discipline.phase slot wasOpen).congr users epoll count

theorem accept_discipline {s next : WebServer} (discipline : s.Discipline) {clientfd : Nat}
    (closed : ¬s.IsOpen clientfd) (bound : clientfd < maxFd)
    (taken : s.dealConnection (some clientfd) = .ok next) : next.Discipline := by
  obtain ⟨other, made, opens, valid, count⟩ := dealConnection_opens discipline.registry closed bound
  rw [made, Except.ok.injEq] at taken
  subst taken
  have registry := opens.registry discipline.registry closed bound valid count
  have absent : ∀ entry ∈ s.workQueue, entry.slot ≠ clientfd := by
    intro entry member same
    exact closed (same ▸ (discipline.queued entry member).1)
  have elsewhere : Elsewhere clientfd s other := by
    refine ⟨opens.users, ?_, ?_, ?_, opens.actorMode, opens.connActorMode⟩
    · intro slot apart
      rw [opens.epoll, Function.update_of_ne apart]
    · intro slot _
      rw [queuedFor, queuedFor, opens.workQueue]
    · intro slot apart
      rw [opens.accepted, Function.update_of_ne apart]
  refine elsewhere.discipline discipline registry ?_ ?_
  · intro entry member
    rw [opens.workQueue] at member
    exact Or.inl ⟨member, absent entry member⟩
  · intro _
    refine .reading ?_ ?_ ?_
    · rw [opens.epoll, Function.update_self]
    · rw [opens.conn]
      exact ⟨rfl, rfl⟩
    · rw [queuedFor, opens.workQueue, List.countP_eq_zero]
      intro entry member
      simpa using absent entry member

theorem step_discipline {s next : WebServer} (discipline : s.Discipline) {event : Step}
    (legal : event.Legal s) (armed : event.Armed s) (inTime : event.InTime s)
    (taken : s.step event = .ok next) : next.Discipline := by
  cases event with
  | accept clientfd =>
      cases clientfd with
      | none =>
          simp only [step, dealConnection, Except.ok.injEq] at taken
          exact taken ▸ discipline
      | some clientfd => exact accept_discipline discipline legal.1 legal.2 taken
  | error sockfd =>
      obtain ⟨ev, armed⟩ := armed
      exact (discipline.report armed).1.close discipline taken
  | close sockfd =>
      obtain ⟨ev, armed⟩ := armed
      exact (discipline.report armed).1.close discipline taken
  | readable sockfd results => exact dealRead_discipline discipline armed taken
  | writable sockfd results => exact dealWrite_discipline discipline armed taken
  | tick => exact tick_discipline discipline inTime taken
  | work fs recvs writevs => exact work_discipline discipline inTime taken

/-! Steps that are not in time break the discipline. -/

theorem late_tick_breaks {s : WebServer} (discipline : s.Discipline) {entry : Entry}
    (member : entry ∈ s.workQueue) (due : s.IsDue entry.slot) :
    ∃ next, s.tick = .ok next ∧ ¬next.OneShot := by
  obtain ⟨next, slots, ticked, ticks⟩ := tick_spec discipline.registry
  refine ⟨next, ticked, fun oneShot => ?_⟩
  have isOpen := (discipline.queued entry member).1
  have closed := (ticks.due entry.slot).mpr ⟨isOpen, due⟩
  have still := (oneShot.queued entry (by rw [ticks.closes.workQueue]; exact member)).1
  exact ((ticks.closes.isOpen entry.slot).mp still).2 closed

theorem armed_empty_breaks {s : WebServer} {slot : Nat} (armed : s.epoll slot = .armed .epollOut)
    (empty : ¬0 < (s.users slot).bytesToSend) (absent : s.queuedFor slot = 0) : ¬s.OneShot := by
  intro oneShot
  have isOpen : s.IsOpen slot := by simp [IsOpen, armed]
  obtain ⟨situation, is, _⟩ := oneShot.situation slot isOpen
  cases situation with
  | reading =>
      have armedIn := is.1
      rw [armed] at armedIn
      simp at armedIn
  | writing => exact empty is.2
  | held =>
      have once : s.queuedFor slot = 1 := is
      omega

theorem large_answer_breaks {s : WebServer} (discipline : s.Discipline) {request : Entry}
    {rest : List Entry} (queue : s.workQueue = request :: rest) {fs : FileSystem}
    (large : ¬(s.users request.slot).AnswerFits fs) (recvs : List HttpConn.Recv)
    (writevs : List Writev) :
    ∃ next, s.work fs recvs writevs = .ok next ∧ ¬next.OneShot := by
  obtain ⟨handling, waiting⟩ := discipline.pop queue
  have bounded := handling.registry.bounded request.slot
    (handling.registry.known request.slot handling.isOpen).2
  have owner := processRead_owner (s.users request.slot) fs bounded
  have waiting' := HttpConn.processRead_unanswered waiting fs bounded
  rw [HttpConn.AnswerFits, Classical.not_imp] at large
  rcases parsed : (s.users request.slot).processRead fs with ⟨c, code⟩
  rw [parsed] at owner waiting' large
  obtain ⟨file, large⟩ := large
  have isFile : code = some .fileRequest := file
  have someBytes : c.fileStat.size ≠ 0 := by
    intro empty
    apply large
    rw [empty]
    exact HttpConn.emptyAnswer_positive c.linger
  have answered : c.processWrite .fileRequest = HttpConn.sendFile c := by
    rw [HttpConn.processWrite, if_pos someBytes]
  have amount := HttpConn.sendFile_bytesToSend waiting'.writeIdx
  have owner' := owner.trans (processWrite_owner c .fileRequest)
  rw [answered] at owner'
  have sent := handling.setConn owner'
  have armed := sent.modfd_eq .epollOut
  have conn := setConn_users s request.slot (HttpConn.sendFile c).1
  have proactor : ¬s.connActorMode = 0 := by
    rw [discipline.connActorMode]
    decide
  let last : WebServer := { s with workQueue := rest }.setConn request.slot (HttpConn.sendFile c).1
  refine ⟨last.setEpoll request.slot (.armed .epollOut), ?_, ?_⟩
  · simp only [work, queue, process, proactor, if_false, respond, reply, parsed, isFile, reduceCtorEq,
      answered, closeUnless]
    rw [← armed]
    rfl
  · have absent : (last.setEpoll request.slot (.armed .epollOut)).queuedFor request.slot = 0 :=
      handling.absent
    have users : (last.setEpoll request.slot (.armed .epollOut)).users request.slot =
        (HttpConn.sendFile c).1 := setConn_users ..
    refine armed_empty_breaks (Function.update_self ..) ?_ absent
    rw [users, amount]
    exact large

theorem late_step_breaks {s : WebServer} (discipline : s.Discipline) {event : Step}
    (late : ¬event.InTime s) : ∃ next, s.step event = .ok next ∧ ¬next.OneShot := by
  cases event with
  | tick =>
      simp only [Step.InTime, Classical.not_forall, Classical.not_not] at late
      obtain ⟨entry, member, due⟩ := late
      exact late_tick_breaks discipline member due
  | work fs recvs writevs =>
      simp only [Step.InTime, Classical.not_forall] at late
      obtain ⟨request, first, large⟩ := late
      obtain ⟨rest, queue⟩ : ∃ rest, s.workQueue = request :: rest := by
        cases queue : s.workQueue with
        | nil => simp [queue] at first
        | cons head rest =>
            obtain rfl : head = request := by simpa [queue] using first
            exact ⟨rest, rfl⟩
      exact large_answer_breaks discipline queue large recvs writevs
  | accept => exact absurd trivial late
  | error => exact absurd trivial late
  | close => exact absurd trivial late
  | readable => exact absurd trivial late
  | writable => exact absurd trivial late

/-! Whole runs. -/

theorem init_discipline (users : Nat → HttpConn) : (init users false).Discipline := by
  refine ⟨init_registry users false, rfl, rfl, ?_, ?_⟩
  · intro entry member
    contradiction
  · intro slot isOpen
    exact absurd rfl isOpen

theorem runSteps_oneShot {users : Nat → HttpConn} (steps : List Step)
    (legal : AlongSteps Step.Legal (init users false) steps)
    (armed : AlongSteps Step.Armed (init users false) steps) :
    Runs.Always step OneShot (init users false) steps ↔
      AlongSteps Step.InTime (init users false) steps := by
  refine Runs.always_iff_along (fun s discipline => Discipline.oneShot discipline) ?_ ?_ steps
    (init_discipline users) (legal.and steps armed)
  · intro s event next discipline allowed inTime taken
    exact step_discipline discipline allowed.1 allowed.2 inTime taken
  · intro s event discipline _ late
    exact late_step_breaks discipline late

/-- A run of the proactor in which every look at a body stays in range is disciplined in every
state exactly when all of its steps are in time. -/
theorem runStored_oneShot_iff (heap : HttpConn.Heap) (users : Nat → HttpConn) (steps : List Step)
    (legal : AlongStored heap Step.Legal (init users false) steps)
    (armed : AlongStored heap Step.Armed (init users false) steps)
    (inRange : AlongStored heap Step.InRange (init users false) steps) :
    Runs.Always (stepStored heap) OneShot (init users false) steps ↔
      AlongStored heap Step.InTime (init users false) steps := by
  have start := init_registry users false
  have same := alongStored_iff heap start steps legal inRange
  rw [alwaysStored_iff heap start steps legal inRange fun s _ => Iff.rfl, same]
  exact runSteps_oneShot steps ((same Step.Legal).mp legal) ((same Step.Armed).mp armed)

theorem runStored_oneShot_iff_answered :
    Runs.Always (stepStored denseHeap) OneShot (init (fun _ => HttpConn.zeroed) false)
      [.accept (some 7), .readable 7 [.data (CString.bytes "GET / HTTP/1.1\r\n\r\n")],
        .work ⟨fun _ => none, fun _ _ => 0⟩ [] [], .writable 7 [.sent 20], .tick,
        .writable 7 [.sent 200]] :=
  (runStored_oneShot_iff denseHeap (fun _ => HttpConn.zeroed)
    [.accept (some 7), .readable 7 [.data (CString.bytes "GET / HTTP/1.1\r\n\r\n")],
      .work ⟨fun _ => none, fun _ _ => 0⟩ [] [], .writable 7 [.sent 20], .tick,
      .writable 7 [.sent 200]]
    (by decide +kernel) (by decide +kernel) (by decide +kernel)).mpr (by decide +kernel)

/-- A client whose request waits in the queue for seven ticks is closed by the seventh,
and the entry stays. -/
theorem expired_entry_stays :
    ∃ s, AlongStored denseHeap Step.Legal (init (fun _ => HttpConn.zeroed) false)
        (.accept (some 7) :: .readable 7 [.data (CString.bytes "GET / HTTP/1.1\r\n\r\n")] ::
          List.replicate 7 .tick) ∧
      AlongStored denseHeap Step.Armed (init (fun _ => HttpConn.zeroed) false)
        (.accept (some 7) :: .readable 7 [.data (CString.bytes "GET / HTTP/1.1\r\n\r\n")] ::
          List.replicate 7 .tick) ∧
      runStored denseHeap (init (fun _ => HttpConn.zeroed) false)
        (.accept (some 7) :: .readable 7 [.data (CString.bytes "GET / HTTP/1.1\r\n\r\n")] ::
          List.replicate 7 .tick) = .ok s ∧ ¬s.OneShot := by
  refine ⟨_, by decide +kernel, by decide +kernel, rfl, ?_⟩
  intro oneShot
  have isOpen := (oneShot.queued ⟨7, 1⟩ (List.mem_singleton_self _)).1
  revert isOpen
  decide +kernel

end StudyRecord.Server.WebServer
