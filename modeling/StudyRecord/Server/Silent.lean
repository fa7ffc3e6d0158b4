import StudyRecord.Server.EventLoop

/-!
Silent clients. The ticks that close an idle connection come from alarms by way of the event loop,
so that a connection to which nothing happens is closed a fixed number of alarms later.
-/

namespace StudyRecord.Server.EventLoop

open Http Timer Signals Runs

open CloseInactive (sigalrm)

def Served (allowed : WebServer → WebServer.Step → Prop) (loop : EventLoop) (event : Event) : Prop :=
  ∀ served ∈ event.steps loop, allowed loop.server served

instance decidableServed (allowed : WebServer → WebServer.Step → Prop)
    [∀ server step, Decidable (allowed server step)] (loop : EventLoop) (event : Event) :
    Decidable (Served allowed loop event) :=
  inferInstanceAs (Decidable (∀ served ∈ event.steps loop, allowed loop.server served))

theorem event_steps (loop : EventLoop) (event : Event) :
    event.steps loop = [] ∨ ∃ served, event.steps loop = [served] := by
  cases event with
  | handle results =>
      simp only [Event.steps]
      split
      · rename_i report rest phase
        cases loop.action report results with
        | signal => exact .inl rfl
        | serve served => exact .inr ⟨served, rfl⟩
        | unexpected => exact .inl rfl
      · exact .inl rfl
  | turn =>
      simp only [Event.steps]
      split
      · exact .inr ⟨.tick, rfl⟩
      · exact .inl rfl
  | work fs recvs writevs => exact .inr ⟨.work fs recvs writevs, rfl⟩
  | signal sig interrupts => exact .inl rfl
  | wake reports => exact .inl rfl
  | failed => exact .inl rfl

theorem runSteps_one {server next : WebServer} {served : WebServer.Step}
    (reached : server.runSteps [served] = .ok next) : server.step served = .ok next := by
  simp only [WebServer.runSteps, run] at reached
  split at reached
  · contradiction
  · rename_i result taken
    rw [taken]
    exact reached

theorem along_steps {allowed : WebServer → WebServer.Step → Prop} (events : List Event)
    {loop final : EventLoop} (beating : loop.Beating)
    (legal : Along step (fun loop event => event.Legal loop) loop events)
    (served : Along step (Served allowed) loop events)
    (reached : run step loop events = .ok final) :
    loop.server.AlongSteps allowed (loop.steps events) := by
  induction events generalizing loop with
  | nil => trivial
  | cons event rest ih =>
      simp only [run] at reached
      cases taken : loop.step event with
      | error fault =>
          rw [taken] at reached
          contradiction
      | ok next =>
          rw [taken] at reached
          have beating' := (step_beats beating legal.1 taken).1
          have later := ih beating' (legal.2 next taken) (served.2 next taken) reached
          have server := step_server beating legal.1 taken
          have here := served.1
          rw [steps_cons rest taken]
          obtain none' | ⟨one, single⟩ := event_steps loop event
          · rw [none'] at server ⊢
            obtain same : loop.server = next.server := Except.ok.inj server
            rw [same]
            exact later
          · rw [single] at server ⊢
            refine (along_cons_of_ok (runSteps_one server)).mpr ⟨here one ?_, later⟩
            rw [single]
            exact List.mem_singleton_self one

end EventLoop

namespace WebServer

open Timer

structure Regular (server : WebServer) : Prop where
  registry : server.Registry
  unturned : server.Unturned

theorem step_regular (server : WebServer) (event : Step) (next : WebServer)
    (regular : server.Regular) (legal : event.Legal server) (taken : server.step event = .ok next) :
    next.Regular := by
  obtain ⟨registry, moves⟩ := (step_moves regular.registry event legal).2 next taken
  exact ⟨registry, moves.unturned regular.registry legal regular.unturned⟩

theorem init_regular (users : Nat → Http.HttpConn) (setReactorMode : Bool) :
    (init users setReactorMode).Regular := by
  refine ⟨init_registry users setReactorMode, fun timer data live => ?_⟩
  contradiction

theorem Regular.untilClosed {server : WebServer} (regular : server.Regular) {slot : Nat}
    (isOpen : server.IsOpen slot) : ∃ left, server.untilClosed slot = some left ∧ left < wheelSlots := by
  obtain ⟨timer, data, _, live, counted⟩ := regular.registry.untilClosed isOpen
  refine ⟨_, counted, ?_⟩
  have still := regular.unturned timer data live
  simp only [TimeWheel.ticksLeft, still, wheelSlots]
  omega

instance (slot number : Nat) (s : WebServer) :
    (event : Step) → Decidable (event.Spares slot number s)
  | .accept _ => inferInstanceAs (Decidable True)
  | .error _ => inferInstanceAs (Decidable True)
  | .close _ => inferInstanceAs (Decidable True)
  | .readable sockfd _ =>
      inferInstanceAs (Decidable (sockfd = slot → s.accepted slot ≠ number))
  | .writable sockfd _ =>
      inferInstanceAs (Decidable (sockfd = slot → s.accepted slot ≠ number))
  | .tick => inferInstanceAs (Decidable True)
  | .work _ _ _ => inferInstanceAs (Decidable True)

end WebServer

namespace EventLoop

open Http Timer Signals Runs

open CloseInactive (sigalrm)

/-! The loop with the stores of `parse_content` carried out. -/

def stepStored (heap : HttpConn.Heap) (loop : EventLoop) : Event → Except Fault EventLoop
  | .work fs recvs writevs => do
      let server ← loop.server.stepStored heap (.work fs recvs writevs)
      return { loop with server := server }
  | event => loop.step event

def Allowed (loop : EventLoop) (event : Event) : Prop :=
  event.Legal loop ∧ Served (fun server step => step.Legal server) loop event ∧
    Served (fun server step => step.InRange server) loop event

instance (loop : EventLoop) (event : Event) : Decidable (Allowed loop event) :=
  inferInstanceAs (Decidable (_ ∧ _ ∧ _))

structure Regular (loop : EventLoop) : Prop where
  beating : loop.Beating
  server : loop.server.Regular

theorem stepStored_eq (heap : HttpConn.Heap) (loop : EventLoop) (event : Event)
    (regular : loop.Regular) (allowed : Allowed loop event) :
    loop.stepStored heap event = loop.step event := by
  cases event with
  | work fs recvs writevs =>
      have inRange : WebServer.Step.InRange loop.server (.work fs recvs writevs) :=
        allowed.2.2 _ (List.mem_singleton_self _)
      simp only [stepStored, step, serve]
      rw [WebServer.stepStored_eq heap regular.server.registry inRange]
  | signal => rfl
  | wake => rfl
  | failed => rfl
  | handle => rfl
  | turn => rfl

theorem step_regular (loop : EventLoop) (event : Event) (next : EventLoop) (regular : loop.Regular)
    (allowed : Allowed loop event) (taken : loop.step event = .ok next) : next.Regular := by
  refine ⟨(step_beats regular.beating allowed.1 taken).1, ?_⟩
  have server := step_server regular.beating allowed.1 taken
  obtain none' | ⟨one, single⟩ := event_steps loop event
  · rw [none'] at server
    obtain same : loop.server = next.server := Except.ok.inj server
    exact same ▸ regular.server
  · rw [single] at server
    refine WebServer.step_regular loop.server one next.server regular.server ?_ (runSteps_one server)
    exact allowed.2.1 one (by rw [single]; exact List.mem_singleton_self one)

section Stored

variable (heap : HttpConn.Heap) {loop : EventLoop} (regular : loop.Regular) (events : List Event)
  (allowed : Along (stepStored heap) Allowed loop events)

include regular allowed

theorem runStored_eq : run (stepStored heap) loop events = run step loop events :=
  run_agrees (stepStored_eq heap) step_regular events regular allowed

theorem alongStored_iff (condition : EventLoop → Event → Prop) :
    Along (stepStored heap) condition loop events ↔ Along step condition loop events :=
  along_agrees (stepStored_eq heap) step_regular condition events regular allowed

theorem runStored_regular {final : EventLoop} (reached : run step loop events = .ok final) :
    final.Regular :=
  run_invariant step_regular events regular
    ((alongStored_iff heap regular events allowed Allowed).mp allowed) reached

end Stored

/-- In every run of the event loop in which every look at a body stays in range, an open
connection has a number of ticks left that is less than the slots of the wheel, and if nothing is
read from or written to it, it is closed by the time two more alarms than these have gone off,
whatever else is served in between. -/
theorem silent_closed (heap : HttpConn.Heap) (users : Nat → HttpConn) (setReactorMode : Bool)
    (listenFd sigPipe : Nat) (apart : sigPipe ≠ listenFd) (events later : List Event)
    (middle final : EventLoop)
    (allowed : Along (stepStored heap) Allowed
      (init (WebServer.init users setReactorMode) listenFd sigPipe) events)
    (reached : run (stepStored heap) (init (WebServer.init users setReactorMode) listenFd sigPipe)
      events = .ok middle)
    (slot : Nat) (isOpen : middle.server.IsOpen slot)
    (allowed' : Along (stepStored heap) Allowed middle later)
    (silent : Along (stepStored heap)
      (Served fun server step => step.Spares slot (middle.server.accepted slot) server) middle later)
    (reached' : run (stepStored heap) middle later = .ok final) :
    ∃ left, middle.server.untilClosed slot = some left ∧ left < wheelSlots ∧
      (left + 2 ≤ later.countP Event.isAlarm →
        ¬(final.server.IsOpen slot ∧ final.server.accepted slot = middle.server.accepted slot)) := by
  have start : (init (WebServer.init users setReactorMode) listenFd sigPipe).Regular :=
    ⟨init_beating _ apart, WebServer.init_regular users setReactorMode⟩
  rw [runStored_eq heap start events allowed] at reached
  have regular := runStored_regular heap start events allowed reached
  rw [runStored_eq heap regular later allowed'] at reached'
  have same := alongStored_iff heap regular later allowed'
  have silent' := (same _).mp silent
  have met := (same Allowed).mp allowed'
  have legal' := met.imp (fun _ _ => And.left) later
  have served' := met.imp (fun _ _ both => both.2.1) later
  obtain ⟨_, ran', count⟩ := run_beats later regular.beating legal' reached'
  obtain ⟨left, counted, within⟩ := regular.server.untilClosed isOpen
  refine ⟨left, counted, within, fun enough => ?_⟩
  have waits : WebServer.Waits slot (middle.server.accepted slot) (left + 1) middle.server := by
    refine ⟨regular.server.registry, regular.server.unturned, Nat.le_refl _,
      fun _ _ ticks has => ?_⟩
    obtain rfl : left = ticks := Option.some.inj (counted.symm.trans has)
    exact Nat.lt_succ_self left
  have after := waits.run _ (along_steps later regular.beating legal' served' reached')
    (along_steps later regular.beating legal' silent' reached') ran'
  have owed : final.owed ≤ 1 := by
    rw [EventLoop.owed]
    split <;> omega
  rintro ⟨stillOpen, still⟩
  obtain ⟨_, _, _, _, has⟩ := after.registry.untilClosed stillOpen
  have none' := after.soon stillOpen still _ has
  omega

def acceptPass : List Event :=
  [.wake [⟨3, false, false, false, true, false⟩], .handle ⟨some 7, [], []⟩, .turn]

theorem silent_closed_fresh :
    ∃ middle final : EventLoop, middle.server.untilClosed 7 = some 3 ∧
      run (stepStored WebServer.denseHeap) middle (List.replicate 5 alarmPasses).flatten =
        .ok final ∧
      ¬(final.server.IsOpen 7 ∧ final.server.accepted 7 = middle.server.accepted 7) := by
  obtain ⟨left, counted, _, gone⟩ := silent_closed WebServer.denseHeap (fun _ => HttpConn.zeroed)
    false 3 4 (by decide) acceptPass (List.replicate 5 alarmPasses).flatten _ _ (by decide +kernel)
    rfl 7 (by decide +kernel) (by decide +kernel) (by decide +kernel) rfl
  obtain rfl : 3 = left := Option.some.inj counted
  exact ⟨_, _, counted, rfl, gone (by decide)⟩

end EventLoop

end StudyRecord.Server
