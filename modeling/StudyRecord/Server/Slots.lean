import StudyRecord.Http.Mapping
import StudyRecord.Server.Consistency

/-!
The slots of the connection table in a run of the server. Every step of the server
comes to a few operations on each slot.
-/

namespace StudyRecord.Server.WebServer

open Http Timer

def processOps (s : WebServer) (slot : Nat) (fs : FileSystem) (recvs : List HttpConn.Recv)
    (writevs : List Writev) : List Slot.Op :=
  if s.connActorMode = 0 then
    if (s.users slot).taskState = 1 then [.write writevs] else [.read recvs, .process fs]
  else [.process fs]

def stepOps (s : WebServer) (slot : Nat) : Step → List Slot.Op
  | .accept clientfd => if clientfd = some slot then [.accept slot s.tw.fresh] else []
  | .error sockfd => if sockfd = slot then [.close] else []
  | .close sockfd => if sockfd = slot then [.close] else []
  | .readable sockfd results => if sockfd = slot then [.read results] else []
  | .writable sockfd results => if sockfd = slot then [.write results] else []
  | .tick => if s.IsOpen slot ∧ s.IsDue slot then [.expire] else []
  | .work fs recvs writevs =>
      match s.workQueue with
      | [] => []
      | request :: _ =>
          if request.slot = slot then s.processOps slot fs recvs writevs else []

def runOps (slot : Nat) (s : WebServer) : List Step → List Slot.Op
  | [] => []
  | event :: rest =>
      s.stepOps slot event ++
        match s.step event with
        | .error _ => []
        | .ok next => runOps slot next rest

/-! What is done with one slot. -/

/-- The operations take the connection of a slot from one state of the server to the
next, whatever is mapped for it. -/
def Performs (slot : Nat) (ops : List Slot.Op) (s next : WebServer) : Prop :=
  ∀ live, ∃ after,
    Runs.run Slot.step ⟨s.users slot, live⟩ ops = .ok ⟨next.users slot, after⟩

theorem performs_nothing {slot : Nat} {s next : WebServer} (same : next.users slot = s.users slot) :
    Performs slot [] s next := fun live => ⟨live, by rw [Runs.run, same]⟩

theorem performs_one {slot : Nat} {op : Slot.Op} {s next : WebServer}
    (one : ∀ live, ∃ after, Slot.step ⟨s.users slot, live⟩ op = .ok ⟨next.users slot, after⟩) :
    Performs slot [op] s next := by
  intro live
  obtain ⟨after, taken⟩ := one live
  exact ⟨after, by simp only [Runs.run, taken]⟩

theorem Performs.trans {slot : Nat} {early late : List Slot.Op} {first second third : WebServer}
    (one : Performs slot early first second) (two : Performs slot late second third) :
    Performs slot (early ++ late) first third := by
  intro live
  obtain ⟨middle, reached⟩ := one live
  obtain ⟨after, reached'⟩ := two middle
  exact ⟨after, by rw [Runs.run_append reached, reached']⟩

structure Handles (slot : Nat) (ops : List Slot.Op) (s next : WebServer) : Prop where
  here : Performs slot ops s next
  others : ∀ other, other ≠ slot → next.users other = s.users other

theorem Handles.trans {slot : Nat} {early late : List Slot.Op} {first second third : WebServer}
    (one : Handles slot early first second) (two : Handles slot late second third) :
    Handles slot (early ++ late) first third :=
  ⟨one.here.trans two.here,
    fun other apart => (two.others other apart).trans (one.others other apart)⟩

theorem handles_nothing (slot : Nat) {s next : WebServer} (same : next.users = s.users) :
    Handles slot [] s next :=
  ⟨performs_nothing (congrFun same slot), fun other _ => congrFun same other⟩

theorem Handles.performs {slot : Nat} {ops : List Slot.Op} {s next : WebServer}
    (handles : Handles slot ops s next) (other : Nat) :
    Performs other (if slot = other then ops else []) s next := by
  split
  · rename_i same
    exact same ▸ handles.here
  · rename_i apart
    exact performs_nothing (handles.others other fun same => apart same.symm)

/-! The users after each function. -/

theorem modfd_users (s : WebServer) (fd : Int) (ev : Interest) : (s.modfd fd ev).users = s.users := by
  simp only [modfd]
  split <;> rfl

theorem append_users {s next : WebServer} {slot : Nat} (appended : s.append slot = .ok next) :
    next.users = s.users := by rw [append_eq appended]

theorem closeConn_users {s next : WebServer} (registry : s.Registry) {slot : Nat}
    (known : 0 < s.accepted slot) (closed : s.closeConn slot = .ok next) :
    next.users = Function.update s.users slot (closedConn (s.users slot)) := by
  by_cases isOpen : s.IsOpen slot
  · obtain ⟨other, closed', _, closes, _⟩ := closeConn_open registry isOpen
    obtain rfl : other = next := Except.ok.inj (closed'.symm.trans closed)
    funext fd
    rw [closes.users, Function.update_apply]
    by_cases same : fd = slot
    · simp [same]
    · simp [same]
  · obtain rfl : s = next :=
      Except.ok.inj ((closeConn_closed registry known isOpen).symm.trans closed)
    obtain ⟨sockfd, timer⟩ := registry.released slot known isOpen
    have already : closedConn (s.users slot) = s.users slot := by
      rw [closedConn, ← sockfd, ← timer]
    rw [already, Function.update_eq_self]

theorem closeUnless_slot {s next : WebServer} (registry : s.Registry) {slot : Nat}
    (known : 0 < s.accepted slot) {ok : Bool} (closed : s.closeUnless slot ok = .ok next)
    (live : List Mapping) :
    Slot.mk (next.users slot) live = (Slot.mk (s.users slot) live).closeUnless ok ∧
      ∀ other, other ≠ slot → next.users other = s.users other := by
  cases ok with
  | true =>
      obtain rfl : s = next := Except.ok.inj closed
      exact ⟨rfl, fun _ _ => rfl⟩
  | false =>
      have users := closeConn_users registry known closed
      refine ⟨?_, fun other apart => ?_⟩
      · rw [users, Function.update_self]
        rfl
      · rw [users, Function.update_of_ne apart]

/-! The functions that handle a slot. -/

theorem closeConn_handles {s next : WebServer} (registry : s.Registry) {slot : Nat}
    (known : 0 < s.accepted slot) (closed : s.closeConn slot = .ok next) :
    Handles slot [.close] s next := by
  have closed' : s.closeUnless slot false = .ok next := closed
  have closes := closeUnless_slot registry known closed'
  refine ⟨performs_one fun live => ⟨live, ?_⟩, (closes []).2⟩
  rw [(closes live).1]
  rfl

theorem readConn_handles {s next : WebServer} (registry : s.Registry) {slot : Nat}
    (known : 0 < s.accepted slot) {results : List HttpConn.Recv}
    (closed : (s.readConn slot results).1.closeUnless slot (s.readConn slot results).2 = .ok next) :
    Handles slot [.read results] s next := by
  have still := readConn_still s slot results
  have closes := closeUnless_slot (still.registry registry) (still.accepted ▸ known) closed
  refine ⟨performs_one fun live => ⟨live, ?_⟩, fun other apart => ?_⟩
  · rw [(closes live).1, readConn, setConn_users]
    rfl
  · rw [(closes []).2 other apart]
    exact Function.update_of_ne apart ..

theorem writeConn_handles {s next : WebServer} (registry : s.Registry) {slot : Nat}
    (known : 0 < s.accepted slot) {results : List Writev}
    (closed : (s.writeConn slot results).1.closeUnless slot (s.writeConn slot results).2 =
      .ok next) : Handles slot [.write results] s next := by
  have still := writeConn_still s slot results
  have closes := closeUnless_slot (still.registry registry) (still.accepted ▸ known) closed
  have result : (s.writeConn slot results).2 = ((s.users slot).write results).2.result := by
    simp only [writeConn]
    split <;> rfl
  have users : (s.writeConn slot results).1.users =
      (s.setConn slot ((s.users slot).write results).1).users := by
    simp only [writeConn]
    split
    · rfl
    · exact modfd_users ..
  refine ⟨performs_one fun live => ?_, fun other apart => ?_⟩
  · refine ⟨(Slot.write ⟨s.users slot, live⟩ results).live, ?_⟩
    have after := (closes (Slot.write ⟨s.users slot, live⟩ results).live).1
    rw [after, result, users, setConn_users]
    simp only [Slot.step, Slot.write]
    cases ((s.users slot).write results).2.result <;> rfl
  · rw [(closes []).2 other apart, users]
    exact Function.update_of_ne apart ..

theorem respond_handles {s next : WebServer} (registry : s.Registry) {slot : Nat}
    (known : 0 < s.accepted slot) {fs : FileSystem} (taken : s.respond slot fs = .ok next) :
    Handles slot [.process fs] s next := by
  have owner := processRead_owner (s.users slot) fs (registry.bounded slot known)
  rcases parsed : (s.users slot).processRead fs with ⟨c, code⟩
  rw [parsed] at owner
  simp only [respond, reply, parsed] at taken
  cases code with
  | none => contradiction
  | some ret =>
      by_cases more : ret = .noRequest
      · simp only [more, if_true, Except.ok.injEq] at taken
        have users : next.users = (s.setConn slot c).users := by
          rw [← taken]
          exact modfd_users ..
        refine ⟨performs_one fun live => ⟨Slot.mmapped ⟨s.users slot, live⟩ c ret, ?_⟩,
          fun other apart => ?_⟩
        · rw [users, setConn_users]
          simp only [Slot.step, Slot.process, parsed, more, if_true]
        · rw [users]
          exact Function.update_of_ne apart ..
      · simp only [more, if_false] at taken
        have still := setConn_still s (owner.trans (processWrite_owner c ret))
        have known' : 0 < (s.setConn slot (c.processWrite ret).1).accepted slot := known
        cases made : (s.setConn slot (c.processWrite ret).1).closeUnless slot
            (c.processWrite ret).2 with
        | error fault =>
            rw [made] at taken
            contradiction
        | ok middle =>
            rw [made] at taken
            have closes := closeUnless_slot (still.registry registry) known' made
            have users : next.users = middle.users := by
              rw [← Except.ok.inj taken]
              exact modfd_users ..
            refine ⟨performs_one fun live => ⟨Slot.mmapped ⟨s.users slot, live⟩ c ret, ?_⟩,
              fun other apart => ?_⟩
            · rw [users, (closes (Slot.mmapped ⟨s.users slot, live⟩ c ret)).1, setConn_users]
              simp only [Slot.step, Slot.process, parsed, more, if_false]
            · rw [users, (closes []).2 other apart]
              exact Function.update_of_ne apart ..

theorem process_handles {s next : WebServer} (registry : s.Registry) {slot : Nat}
    (known : 0 < s.accepted slot) {fs : FileSystem} {recvs : List HttpConn.Recv}
    {writevs : List Writev} (taken : s.process slot fs recvs writevs = .ok next) :
    Handles slot (s.processOps slot fs recvs writevs) s next := by
  simp only [process] at taken
  simp only [processOps]
  split at taken
  · rename_i reactor
    rw [if_pos reactor]
    split at taken
    · rename_i writes
      rw [if_pos writes]
      exact writeConn_handles registry known taken
    · rename_i reads
      rw [if_neg reads]
      have still := readConn_still s slot recvs
      have known' : 0 < (s.readConn slot recvs).1.accepted slot := known
      have orderly := closeUnless_orderly (still.registry registry) known' (s.readConn slot recvs).2
      cases made : (s.readConn slot recvs).1.closeUnless slot (s.readConn slot recvs).2 with
      | error fault =>
          rw [made] at taken
          contradiction
      | ok middle =>
          rw [made] at taken
          obtain ⟨registry', quiet⟩ := orderly.2 middle made
          rw [← quiet.accepted] at known'
          exact (readConn_handles registry known made).trans
            (respond_handles registry' known' taken)
  · rename_i proactor
    rw [if_neg proactor]
    exact respond_handles registry known taken

theorem dealConnection_handles {s next : WebServer} {clientfd : Nat}
    (opens : Opens clientfd s next) :
    Handles clientfd [.accept clientfd s.tw.fresh] s next := by
  refine ⟨performs_one fun live => ⟨live, ?_⟩, opens.users⟩
  rw [opens.conn]
  rfl

theorem dealErr_handles {s next : WebServer} (registry : s.Registry) {sockfd : Nat}
    (isOpen : s.IsOpen sockfd) (taken : (s.report sockfd).dealErr sockfd = .ok next) :
    Handles sockfd [.close] s next := by
  have still := report_still s sockfd
  have known : 0 < (s.report sockfd).accepted sockfd := by
    rw [still.accepted]
    exact (registry.known sockfd isOpen).2
  have closes := closeConn_handles (still.registry registry) known taken
  exact (handles_nothing sockfd (report_users s sockfd)).trans closes

theorem dealRead_handles {s next : WebServer} (registry : s.Registry) (proactor : s.actorMode = 1)
    {sockfd : Nat} (isOpen : s.IsOpen sockfd) {results : List HttpConn.Recv}
    (taken : (s.report sockfd).dealRead sockfd results = .ok next) :
    Handles sockfd [.read results] s next := by
  obtain ⟨renewed, updated, renews, registry', known⟩ := timerUpdate_reported registry isOpen
  obtain ⟨users, mode, _⟩ := renews.reported
  have reads : ¬renewed.actorMode = 0 := by
    rw [mode, proactor]
    decide
  have start := handles_nothing sockfd users
  simp only [dealRead, updated, ok_bind, reads, if_false] at taken
  cases ok : (renewed.readConn sockfd results).2 with
  | true =>
      have kept : (renewed.readConn sockfd results).1.closeUnless sockfd
          (renewed.readConn sockfd results).2 = .ok (renewed.readConn sockfd results).1 := by
        rw [ok, closeUnless, if_pos rfl]
      rw [ok, if_pos rfl] at taken
      have read := start.trans (readConn_handles registry' known kept)
      exact read.trans (handles_nothing sockfd (append_users taken))
  | false =>
      rw [ok] at taken
      refine start.trans (readConn_handles registry' known ?_)
      rw [ok]
      exact taken

theorem dealWrite_handles {s next : WebServer} (registry : s.Registry) (proactor : s.actorMode = 1)
    {sockfd : Nat} (isOpen : s.IsOpen sockfd) {results : List Writev}
    (taken : (s.report sockfd).dealWrite sockfd results = .ok next) :
    Handles sockfd [.write results] s next := by
  obtain ⟨renewed, updated, renews, registry', known⟩ := timerUpdate_reported registry isOpen
  obtain ⟨users, mode, _⟩ := renews.reported
  have writes : ¬renewed.actorMode = 0 := by
    rw [mode, proactor]
    decide
  simp only [dealWrite, updated, ok_bind, writes, if_false] at taken
  exact (handles_nothing sockfd users).trans (writeConn_handles registry' known taken)

theorem work_handles {s next : WebServer} (registry : s.Registry) {request : Entry}
    {rest : List Entry} (queue : s.workQueue = request :: rest) {fs : FileSystem}
    {recvs : List HttpConn.Recv} {writevs : List Writev}
    (taken : s.work fs recvs writevs = .ok next) :
    Handles request.slot (s.processOps request.slot fs recvs writevs) s next := by
  have still := pop_still queue
  have known := registry.queued request (by simp [queue])
  have popped : Handles request.slot [] s { s with workQueue := rest } :=
    handles_nothing request.slot rfl
  simp only [work, queue] at taken
  exact popped.trans (process_handles (still.registry registry) known taken)

theorem Ticks.performs {slots : List Nat} {s next : WebServer} (ticks : Ticks slots s next)
    (slot : Nat) : Performs slot (s.stepOps slot .tick) s next := by
  simp only [stepOps, ← ticks.due slot]
  have users := ticks.closes.users slot
  split
  · rename_i closed
    rw [if_pos closed] at users
    refine performs_one fun live => ⟨live, ?_⟩
    rw [users]
    rfl
  · rename_i spared
    rw [if_neg spared] at users
    exact performs_nothing users

theorem step_performs {s next : WebServer} (registry : s.Registry) (proactor : s.actorMode = 1)
    {event : Step} (legal : event.Legal s) (taken : s.step event = .ok next) (slot : Nat) :
    Performs slot (s.stepOps slot event) s next := by
  have moves := ((step_moves registry event legal).2 next taken).2
  cases event with
  | accept clientfd =>
      cases moves with
      | nothing same => exact performs_nothing (by rw [same])
      | opened _ opens =>
          have performs := (dealConnection_handles opens).performs slot
          simp only [stepOps, Option.some.injEq]
          split
          · rename_i same
            rw [if_pos same, same] at performs
            exact performs
          · rename_i apart
            rw [if_neg apart] at performs
            exact performs
  | error sockfd => exact (dealErr_handles registry legal taken).performs slot
  | close sockfd => exact (dealErr_handles registry legal taken).performs slot
  | readable sockfd results => exact (dealRead_handles registry proactor legal taken).performs slot
  | writable sockfd results => exact (dealWrite_handles registry proactor legal taken).performs slot
  | tick =>
      cases moves with
      | ticked ticks => exact ticks.performs slot
  | work fs recvs writevs =>
      cases queue : s.workQueue with
      | nil =>
          simp only [step, work, queue, Except.ok.injEq] at taken
          simp only [stepOps, queue]
          exact performs_nothing (by rw [taken])
      | cons request rest =>
          have performs := (work_handles registry queue taken).performs slot
          simp only [stepOps, queue]
          split
          · rename_i same
            rw [if_pos same, same] at performs
            exact performs
          · rename_i apart
            rw [if_neg apart] at performs
            exact performs

end StudyRecord.Server.WebServer
