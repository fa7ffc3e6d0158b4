import StudyRecord.Server.Idle
import StudyRecord.Server.Signals

/-!
The event loop around the handlers of the web server. Ticks are driven by SIGALRM: `alarm`
sets a timer, the handler of the signal writes a byte into a pipe, the loop finds the pipe
readable and sets `timeout`, and the end of the pass ticks and sets the next timer.
-/

namespace StudyRecord.Server

open Http Timer Signals Runs

open CloseInactive (sigint sigalrm sigterm)

structure Report where
  fd : Nat
  hangup : Bool
  error : Bool
  peerClosed : Bool
  readable : Bool
  writable : Bool
  deriving DecidableEq

structure Results where
  accepted : Option Nat
  recvs : List HttpConn.Recv
  writevs : List Writev

/-- Where the thread of the loop is: in `epoll_wait`, in the loop over the reported events
with the rest of them before it, or out of `eventloop`. -/
inductive Phase
  | waiting
  | handling (rest : List Report)
  | ended
  deriving DecidableEq

structure EventLoop where
  server : WebServer
  listenFd : Nat
  sigPipe : Nat
  pipe : List UInt8
  alarm : Bool
  timeout : Bool
  stopServer : Bool
  phase : Phase

inductive Disposition
  | default
  | ignored
  | handled
  deriving DecidableEq

def sigpipe : UInt8 := 13

/-- `init_signal`; every other signal keeps its default action. -/
def initSignal : UInt8 → Disposition :=
  Function.update (Function.update (fun _ => .default) sigalrm .handled) sigpipe .ignored

namespace EventLoop

/-- The loop behind `init`, which sets the first alarm. -/
def init (server : WebServer) (listenFd sigPipe : Nat) : EventLoop where
  server := server
  listenFd := listenFd
  sigPipe := sigPipe
  pipe := []
  alarm := true
  timeout := false
  stopServer := false
  phase := .waiting

def signalHandler (loop : EventLoop) (sig : UInt8) : EventLoop :=
  { loop with pipe := loop.pipe ++ [sig] }

/-- `recv` on the pipe takes at most 1024 bytes and fails when there are none. -/
def dealSignal (loop : EventLoop) : EventLoop :=
  let ret := min 1024 loop.pipe.length
  let outcome := Signals.dealSignal (if ret = 0 then -1 else ret) (fun i => loop.pipe.getD i 0)
    ⟨loop.timeout, loop.stopServer⟩
  match outcome.2.result with
  | .ok flags =>
      { loop with
        pipe := loop.pipe.drop ret
        timeout := flags.timeout
        stopServer := flags.stopServer }

inductive Action
  | signal
  | serve (step : WebServer.Step)
  | unexpected

def action (loop : EventLoop) (report : Report) (results : Results) : Action :=
  if report.fd = loop.listenFd then .serve (.accept results.accepted)
  else if report.fd = loop.sigPipe ∧ report.readable then .signal
  else if report.hangup || report.error then .serve (.error report.fd)
  else if report.peerClosed then .serve (.close report.fd)
  else if report.readable then .serve (.readable report.fd results.recvs)
  else if report.writable then .serve (.writable report.fd results.writevs)
  else .unexpected

def Action.steps : Action → List WebServer.Step
  | .serve step => [step]
  | _ => []

def serve (loop : EventLoop) (step : WebServer.Step) : Except Fault EventLoop := do
  let server ← loop.server.step step
  return { loop with server := server }

def handle (loop : EventLoop) (report : Report) (results : Results) : Except Fault EventLoop :=
  match loop.action report results with
  | .signal => .ok loop.dealSignal
  | .serve step => loop.serve step
  | .unexpected => .ok loop

def turn (loop : EventLoop) : Except Fault EventLoop := do
  let loop ← if loop.timeout then do
      let loop ← loop.serve .tick
      pure { loop with timeout := false, alarm := true }
    else pure loop
  return { loop with phase := if loop.stopServer then .ended else .waiting }

/-- A signal may interrupt `epoll_wait`, which then reports nothing. -/
inductive Event
  | signal (sig : UInt8) (interrupts : Bool)
  | wake (reports : List Report)
  | failed
  | handle (results : Results)
  | turn
  | work (fs : FileSystem) (recvs : List HttpConn.Recv) (writevs : List Writev)

def deliver (loop : EventLoop) (sig : UInt8) (interrupts : Bool) : EventLoop :=
  match initSignal sig with
  | .default => { loop with phase := .ended }
  | .ignored => loop
  | .handled =>
      let loop := { loop.signalHandler sig with alarm := false }
      if interrupts then { loop with phase := .handling [] } else loop

def step (loop : EventLoop) : Event → Except Fault EventLoop
  | .signal sig interrupts => .ok (loop.deliver sig interrupts)
  | .wake reports => .ok { loop with phase := .handling reports }
  | .failed => .ok { loop with phase := .ended }
  | .handle results =>
      match loop.phase with
      | .handling (report :: rest) => { loop with phase := .handling rest }.handle report results
      | _ => .ok loop
  | .turn => loop.turn
  | .work fs recvs writevs => loop.serve (.work fs recvs writevs)

def maxEventNumber : Nat := 10000

/-- SIGALRM comes from the alarm that has been set, and `epoll_wait` fills an array. -/
def Event.Legal (loop : EventLoop) : Event → Prop
  | .signal sig interrupts =>
      sig ∈ [sigalrm, sigpipe, sigint, sigterm] ∧ (sig = sigalrm → loop.alarm = true) ∧
        (interrupts = true → loop.phase = .waiting) ∧ loop.phase ≠ .ended
  | .wake reports => loop.phase = .waiting ∧ reports.length ≤ maxEventNumber
  | .failed => loop.phase = .waiting
  | .handle _ => ∃ report rest, loop.phase = .handling (report :: rest)
  | .turn => loop.phase = .handling []
  | .work _ _ _ => loop.phase ≠ .ended

instance decidableLegal (loop : EventLoop) : (event : Event) → Decidable (event.Legal loop)
  | .signal _ _ => inferInstanceAs (Decidable (_ ∧ _ ∧ _ ∧ _))
  | .wake _ => inferInstanceAs (Decidable (_ ∧ _))
  | .failed => inferInstanceAs (Decidable (_ = _))
  | .handle _ =>
      match here : loop.phase with
      | .handling (report :: rest) => .isTrue ⟨report, rest, here⟩
      | .handling [] => .isFalse (by rintro ⟨_, _, some'⟩; simp [here] at some')
      | .waiting => .isFalse (by rintro ⟨_, _, some'⟩; simp [here] at some')
      | .ended => .isFalse (by rintro ⟨_, _, some'⟩; simp [here] at some')
  | .turn => inferInstanceAs (Decidable (_ = _))
  | .work _ _ _ => inferInstanceAs (Decidable (_ ≠ _))

/-! What the server sees of the loop. -/

def Event.steps (loop : EventLoop) : Event → List WebServer.Step
  | .handle results =>
      match loop.phase with
      | .handling (report :: _) => (loop.action report results).steps
      | _ => []
  | .turn => if loop.timeout then [.tick] else []
  | .work fs recvs writevs => [.work fs recvs writevs]
  | _ => []

def steps (loop : EventLoop) : List Event → List WebServer.Step
  | [] => []
  | event :: rest =>
      event.steps loop ++
        match loop.step event with
        | .ok next => next.steps rest
        | .error _ => []

def Event.isAlarm : Event → Bool
  | .signal sig _ => sig == sigalrm
  | _ => false

def Event.isTurn : Event → Bool
  | .turn => true
  | _ => false

/-! The token: one of the timer, the pipe and the flag holds the next tick. -/

inductive Token (loop : EventLoop) : Prop
  | set (alarm : loop.alarm = true) (pipe : loop.pipe = []) (timeout : loop.timeout = false)
  | sent (alarm : loop.alarm = false) (pipe : loop.pipe = [sigalrm]) (timeout : loop.timeout = false)
  | seen (alarm : loop.alarm = false) (pipe : loop.pipe = []) (timeout : loop.timeout = true)

structure Beating (loop : EventLoop) : Prop where
  token : loop.Token
  running : loop.stopServer = false
  cleared : loop.phase = .waiting → loop.timeout = false
  apart : loop.sigPipe ≠ loop.listenFd

def owed (loop : EventLoop) : Nat := if loop.alarm then 0 else 1

structure SameLoop (before after : EventLoop) : Prop where
  pipe : after.pipe = before.pipe
  alarm : after.alarm = before.alarm
  timeout : after.timeout = before.timeout
  stopServer : after.stopServer = before.stopServer
  phase : after.phase = before.phase
  listenFd : after.listenFd = before.listenFd
  sigPipe : after.sigPipe = before.sigPipe

theorem serve_ok {loop next : EventLoop} {event : WebServer.Step} (served : loop.serve event = .ok next) :
    loop.server.step event = .ok next.server ∧ SameLoop loop next := by
  rw [serve] at served
  cases taken : loop.server.step event with
  | error fault =>
      rw [taken] at served
      contradiction
  | ok server =>
      rw [taken] at served
      obtain rfl : { loop with server := server } = next := Except.ok.inj served
      exact ⟨rfl, rfl, rfl, rfl, rfl, rfl, rfl, rfl⟩

theorem Token.kept {before after : EventLoop} (token : before.Token) (same : SameLoop before after) :
    after.Token := by
  cases token with
  | set alarm pipe timeout =>
      exact .set (same.alarm.trans alarm) (same.pipe.trans pipe) (same.timeout.trans timeout)
  | sent alarm pipe timeout =>
      exact .sent (same.alarm.trans alarm) (same.pipe.trans pipe) (same.timeout.trans timeout)
  | seen alarm pipe timeout =>
      exact .seen (same.alarm.trans alarm) (same.pipe.trans pipe) (same.timeout.trans timeout)

theorem Beating.kept {before after : EventLoop} (beating : before.Beating)
    (same : SameLoop before after) : after.Beating := by
  refine ⟨beating.token.kept same, same.stopServer.trans beating.running, fun waiting => ?_, ?_⟩
  · rw [same.timeout]
    exact beating.cleared (same.phase.symm.trans waiting)
  · rw [same.sigPipe, same.listenFd]
    exact beating.apart

/-! The handler of the pipe. -/

theorem dealSignal_empty {loop : EventLoop} (empty : loop.pipe = []) : loop.dealSignal = loop := by
  have ret : min 1024 loop.pipe.length = 0 := by
    rw [empty]
    rfl
  simp only [dealSignal, ret, if_true, List.drop_zero, Signals.dealSignal, Int.reduceNeg, Int.reduceLE]

theorem dealSignal_alarm {loop : EventLoop} (single : loop.pipe = [sigalrm]) :
    loop.dealSignal = { loop with pipe := [], timeout := true } := by
  have ret : min 1024 loop.pipe.length = 1 := by
    rw [single]
    rfl
  obtain ⟨_, _, result⟩ := dealSignal_spec (Nat.le_refl 1) (fun i => loop.pipe.getD i 0)
    ⟨loop.timeout, loop.stopServer⟩
  have flags : (received 1 fun i => loop.pipe.getD i 0).foldl Flags.switch
      ⟨loop.timeout, loop.stopServer⟩ = ⟨true, loop.stopServer⟩ := by
    rw [single]
    rfl
  rw [flags] at result
  simp only [dealSignal, ret, one_ne_zero, if_false, Nat.cast_one] at result ⊢
  rw [result]
  simp only [single, List.drop_one, List.tail_cons]

theorem dealSignal_beating {loop : EventLoop} (beating : loop.Beating) (busy : loop.phase ≠ .waiting) :
    loop.dealSignal.Beating ∧ loop.dealSignal.owed = loop.owed ∧
      loop.dealSignal.server = loop.server ∧ loop.dealSignal.phase = loop.phase ∧
      loop.dealSignal.sigPipe = loop.sigPipe ∧
      (loop.alarm = false → loop.dealSignal.timeout = true) := by
  cases beating.token with
  | set alarm pipe timeout =>
      rw [dealSignal_empty pipe]
      refine ⟨beating, rfl, rfl, rfl, rfl, fun off => ?_⟩
      rw [alarm] at off
      contradiction
  | sent alarm pipe timeout =>
      rw [dealSignal_alarm pipe]
      exact ⟨⟨.seen alarm rfl rfl, beating.running, fun waiting => absurd waiting busy, beating.apart⟩,
        rfl, rfl, rfl, rfl, fun _ => rfl⟩
  | seen alarm pipe timeout =>
      rw [dealSignal_empty pipe]
      exact ⟨beating, rfl, rfl, rfl, rfl, fun _ => timeout⟩

/-! One event. -/

theorem serve_beating {loop next : EventLoop} {event : WebServer.Step} (beating : loop.Beating)
    (served : loop.serve event = .ok next) : next.Beating ∧ next.owed = loop.owed := by
  obtain ⟨_, same⟩ := serve_ok served
  refine ⟨beating.kept same, ?_⟩
  rw [owed, owed, same.alarm]

theorem action_serve {loop : EventLoop} {report : Report} {results : Results} {event : WebServer.Step}
    (action : loop.action report results = .serve event) : WebServer.tickCount [event] = 0 := by
  simp only [EventLoop.action] at action
  repeat' split at action
  all_goals first
    | contradiction
    | (obtain rfl := Action.serve.inj action; rfl)

theorem deliver_beats {loop : EventLoop} {sig : UInt8} {interrupts : Bool} (beating : loop.Beating)
    (legal : (Event.signal sig interrupts).Legal loop) :
    (loop.deliver sig interrupts).Beating ∧
      (loop.deliver sig interrupts).owed = (if sig = sigalrm then 1 else 0) + loop.owed := by
  obtain ⟨known, set, _, _⟩ := legal
  by_cases isAlarm : sig = sigalrm
  · subst isAlarm
    have alarm := set rfl
    obtain ⟨pipe, timeout⟩ : loop.pipe = [] ∧ loop.timeout = false := by
      cases beating.token with
      | set _ pipe timeout => exact ⟨pipe, timeout⟩
      | sent off => simp [alarm] at off
      | seen off => simp [alarm] at off
    have handled : initSignal sigalrm = .handled := by decide
    have sent : loop.pipe ++ [sigalrm] = [sigalrm] := by rw [pipe, List.nil_append]
    have owed : loop.owed = 0 := if_pos alarm
    rw [owed]
    simp only [deliver, handled]
    split
    · exact ⟨⟨.sent rfl sent timeout, beating.running, fun _ => timeout, beating.apart⟩, rfl⟩
    · exact ⟨⟨.sent rfl sent timeout, beating.running, fun _ => timeout, beating.apart⟩, rfl⟩
  rw [if_neg isAlarm, Nat.zero_add]
  by_cases isPipe : sig = sigpipe
  · have ignored : initSignal sig = .ignored := by
      rw [isPipe]
      decide
    simp only [deliver, ignored]
    exact ⟨beating, trivial⟩
  · have default : initSignal sig = .default := by
      rw [initSignal, Function.update_of_ne isPipe, Function.update_of_ne isAlarm]
    simp only [deliver, default]
    refine ⟨⟨?_, beating.running, fun waiting => ?_, beating.apart⟩, rfl⟩
    · cases beating.token with
      | set alarm pipe timeout => exact .set alarm pipe timeout
      | sent alarm pipe timeout => exact .sent alarm pipe timeout
      | seen alarm pipe timeout => exact .seen alarm pipe timeout
    · contradiction

theorem Beating.moved {loop : EventLoop} (beating : loop.Beating) (phase : Phase)
    (busy : phase ≠ .waiting) : { loop with phase := phase }.Beating := by
  refine ⟨?_, beating.running, fun waiting => absurd waiting busy, beating.apart⟩
  cases beating.token with
  | set alarm pipe timeout => exact .set alarm pipe timeout
  | sent alarm pipe timeout => exact .sent alarm pipe timeout
  | seen alarm pipe timeout => exact .seen alarm pipe timeout

theorem handle_beats {loop next : EventLoop} {report : Report} {results : Results}
    (beating : loop.Beating) (busy : loop.phase ≠ .waiting)
    (taken : loop.handle report results = .ok next) : next.Beating ∧ next.owed = loop.owed := by
  rw [handle] at taken
  split at taken
  · obtain rfl := Except.ok.inj taken
    obtain ⟨kept, owed, _⟩ := dealSignal_beating beating busy
    exact ⟨kept, owed⟩
  · exact serve_beating beating taken
  · obtain rfl := Except.ok.inj taken
    exact ⟨beating, rfl⟩

inductive Turned (loop next : EventLoop) : Prop
  | ticks (served : EventLoop) (due : loop.timeout = true) (taken : loop.serve .tick = .ok served)
      (same : next = { served with timeout := false, alarm := true, phase := .waiting })
  | quiet (none' : loop.timeout = false) (same : next = { loop with phase := .waiting })

theorem turn_turned {loop next : EventLoop} (running : loop.stopServer = false)
    (taken : loop.turn = .ok next) : Turned loop next := by
  cases due : loop.timeout with
  | false =>
      simp only [turn, due] at taken
      obtain rfl := Except.ok.inj taken
      refine .quiet due ?_
      rw [running]
      rfl
  | true =>
      simp only [turn, due] at taken
      cases served : loop.serve .tick with
      | error fault =>
          rw [served] at taken
          contradiction
      | ok server =>
          rw [served] at taken
          obtain rfl := Except.ok.inj taken
          have still := (serve_ok served).2.stopServer.trans running
          refine .ticks server due served ?_
          rw [still]
          rfl

theorem turn_beats {loop next : EventLoop} (beating : loop.Beating) (taken : loop.turn = .ok next) :
    next.Beating ∧ (if loop.timeout then 1 else 0) + next.owed = loop.owed := by
  cases turn_turned beating.running taken with
  | ticks served due ticked same =>
      subst same
      obtain ⟨_, kept⟩ := serve_ok ticked
      obtain ⟨alarm, pipe⟩ : loop.alarm = false ∧ loop.pipe = [] := by
        cases beating.token with
        | set _ _ off => simp [due] at off
        | sent _ _ off => simp [due] at off
        | seen alarm pipe _ => exact ⟨alarm, pipe⟩
      refine ⟨⟨.set rfl (kept.pipe.trans pipe) rfl, kept.stopServer.trans beating.running,
        fun _ => rfl, ?_⟩, ?_⟩
      · show served.sigPipe ≠ served.listenFd
        rw [kept.sigPipe, kept.listenFd]
        exact beating.apart
      · simp [owed, due, alarm]
  | quiet none' same =>
      subst same
      refine ⟨⟨?_, beating.running, fun _ => none', beating.apart⟩, ?_⟩
      · cases beating.token with
        | set alarm pipe timeout => exact .set alarm pipe timeout
        | sent alarm pipe timeout => exact .sent alarm pipe timeout
        | seen alarm pipe timeout => exact .seen alarm pipe timeout
      · simp [owed, none']

theorem step_beats {loop next : EventLoop} {event : Event} (beating : loop.Beating)
    (legal : event.Legal loop) (taken : loop.step event = .ok next) :
    next.Beating ∧
      WebServer.tickCount (event.steps loop) + next.owed =
        (if event.isAlarm then 1 else 0) + loop.owed := by
  have nothing : WebServer.tickCount [] = 0 := rfl
  cases event with
  | signal sig interrupts =>
      obtain rfl := Except.ok.inj taken
      obtain ⟨kept, owed⟩ := deliver_beats beating legal
      refine ⟨kept, ?_⟩
      simp only [Event.steps, nothing, Nat.zero_add, owed, Event.isAlarm, beq_iff_eq]
  | wake reports =>
      obtain rfl := Except.ok.inj taken
      exact ⟨beating.moved _ (by simp), rfl⟩
  | failed =>
      obtain rfl := Except.ok.inj taken
      exact ⟨beating.moved _ (by simp), rfl⟩
  | handle results =>
      obtain ⟨report, rest, phase⟩ := legal
      simp only [step, phase] at taken
      obtain ⟨kept, owed⟩ := handle_beats (beating.moved (.handling rest) (by simp)) (by simp) taken
      refine ⟨kept, ?_⟩
      have none' : WebServer.tickCount ((Event.handle results).steps loop) = 0 := by
        simp only [Event.steps, phase]
        cases action : loop.action report results with
        | signal => rfl
        | serve event => exact action_serve action
        | unexpected => rfl
      rw [none', owed]
      rfl
  | turn =>
      obtain ⟨kept, owed⟩ := turn_beats beating taken
      refine ⟨kept, ?_⟩
      simp only [Event.steps, Event.isAlarm, Bool.false_eq_true, if_false, Nat.zero_add, ← owed]
      split <;> rfl
  | work fs recvs writevs =>
      obtain ⟨kept, owed⟩ := serve_beating beating taken
      exact ⟨kept, by rw [owed]; rfl⟩

theorem runSteps_single {server next : WebServer} {event : WebServer.Step}
    (taken : server.step event = .ok next) : server.runSteps [event] = .ok next := by
  rw [WebServer.runSteps, run_cons_of_ok taken]
  rfl

theorem dealSignal_server (loop : EventLoop) : loop.dealSignal.server = loop.server := by
  simp only [dealSignal]
  split
  rfl

theorem handle_server {loop next : EventLoop} {report : Report} {results : Results}
    (taken : loop.handle report results = .ok next) :
    loop.server.runSteps (loop.action report results).steps = .ok next.server := by
  rw [handle] at taken
  split at taken
  · rename_i action
    obtain rfl := Except.ok.inj taken
    rw [action, dealSignal_server]
    rfl
  · rename_i event action
    rw [action]
    exact runSteps_single (serve_ok taken).1
  · rename_i action
    obtain rfl := Except.ok.inj taken
    rw [action]
    rfl

theorem step_server {loop next : EventLoop} {event : Event} (beating : loop.Beating)
    (legal : event.Legal loop) (taken : loop.step event = .ok next) :
    loop.server.runSteps (event.steps loop) = .ok next.server := by
  cases event with
  | signal sig interrupts =>
      obtain rfl := Except.ok.inj taken
      refine congrArg Except.ok ?_
      simp only [deliver]
      split
      · rfl
      · rfl
      · split <;> rfl
  | wake reports =>
      obtain rfl := Except.ok.inj taken
      rfl
  | failed =>
      obtain rfl := Except.ok.inj taken
      rfl
  | handle results =>
      obtain ⟨report, rest, phase⟩ := legal
      simp only [step, phase] at taken
      simp only [Event.steps, phase]
      exact @handle_server { loop with phase := .handling rest } _ _ _ taken
  | turn =>
      simp only [Event.steps]
      cases turn_turned beating.running taken with
      | ticks served due ticked same =>
          rw [if_pos due, same]
          exact runSteps_single (serve_ok ticked).1
      | quiet none' same =>
          rw [none', same]
          rfl
  | work fs recvs writevs => exact runSteps_single (serve_ok taken).1

theorem steps_cons {loop next : EventLoop} {event : Event} (rest : List Event)
    (taken : loop.step event = .ok next) :
    loop.steps (event :: rest) = event.steps loop ++ next.steps rest := by
  rw [steps, taken]

theorem steps_append {first : List Event} (second : List Event) {loop middle : EventLoop}
    (reached : run step loop first = .ok middle) :
    loop.steps (first ++ second) = loop.steps first ++ middle.steps second := by
  induction first generalizing loop with
  | nil =>
      obtain rfl : loop = middle := Except.ok.inj reached
      rfl
  | cons event rest ih =>
      simp only [run] at reached
      cases taken : loop.step event with
      | error fault =>
          rw [taken] at reached
          contradiction
      | ok next =>
          rw [taken] at reached
          rw [List.cons_append, steps_cons _ taken, steps_cons _ taken, ih reached,
            List.append_assoc]

theorem tickCount_append (early late : List WebServer.Step) :
    WebServer.tickCount (early ++ late) = WebServer.tickCount early + WebServer.tickCount late :=
  List.countP_append

theorem run_beats (events : List Event) {loop final : EventLoop} (beating : loop.Beating)
    (legal : Along step (fun loop event => event.Legal loop) loop events)
    (reached : run step loop events = .ok final) :
    final.Beating ∧ loop.server.runSteps (loop.steps events) = .ok final.server ∧
      WebServer.tickCount (loop.steps events) + final.owed =
        events.countP Event.isAlarm + loop.owed := by
  induction events generalizing loop with
  | nil =>
      obtain rfl : loop = final := Except.ok.inj reached
      exact ⟨beating, rfl, rfl⟩
  | cons event rest ih =>
      simp only [run] at reached
      cases taken : loop.step event with
      | error fault =>
          rw [taken] at reached
          contradiction
      | ok next =>
          rw [taken] at reached
          obtain ⟨here, owed⟩ := step_beats beating legal.1 taken
          obtain ⟨last, served, count⟩ := ih here (legal.2 next taken) reached
          rw [steps_cons rest taken, tickCount_append, List.countP_cons]
          refine ⟨last, ?_, by omega⟩
          rw [WebServer.runSteps, run_append (step_server beating legal.1 taken)]
          exact served

theorem init_beating (server : WebServer) {listenFd sigPipe : Nat} (apart : sigPipe ≠ listenFd) :
    (init server listenFd sigPipe).Beating :=
  ⟨.set rfl rfl rfl, rfl, fun _ => rfl, apart⟩

def pipeReport : Report := ⟨4, false, false, false, true, false⟩

def alarmPasses : List Event :=
  [.signal sigalrm true, .turn, .wake [pipeReport], .handle ⟨none, [], []⟩, .turn]

/-- In every run of the event loop exactly one of the alarm, the pipe and the flag holds the
next tick; every alarm that has gone off has had its tick or has it before it; and nothing
sets `stop_server`, whatever signals come. -/
theorem heartbeat (users : Nat → HttpConn) (setReactorMode : Bool) (listenFd sigPipe : Nat)
    (apart : sigPipe ≠ listenFd) (events : List Event) (final : EventLoop)
    (legal : Along step (fun loop event => event.Legal loop)
      (init (WebServer.init users setReactorMode) listenFd sigPipe) events)
    (reached : run step (init (WebServer.init users setReactorMode) listenFd sigPipe) events =
      .ok final) :
    final.Token ∧ final.stopServer = false ∧
      (WebServer.init users setReactorMode).runSteps
          ((init (WebServer.init users setReactorMode) listenFd sigPipe).steps events) =
        .ok final.server ∧
      WebServer.tickCount
            ((init (WebServer.init users setReactorMode) listenFd sigPipe).steps events) +
          final.owed = events.countP Event.isAlarm := by
  obtain ⟨beating, served, count⟩ := run_beats events (init_beating _ apart) legal reached
  exact ⟨beating.token, beating.running, served, count⟩

theorem heartbeat_once :
    ∃ final : EventLoop, final.Token ∧ final.stopServer = false ∧
      (WebServer.init (fun _ => HttpConn.zeroed) false).runSteps
          ((init (WebServer.init (fun _ => HttpConn.zeroed) false) 3 4).steps alarmPasses) =
        .ok final.server ∧
      WebServer.tickCount
            ((init (WebServer.init (fun _ => HttpConn.zeroed) false) 3 4).steps alarmPasses) +
          final.owed = alarmPasses.countP Event.isAlarm :=
  ⟨_, heartbeat (fun _ => HttpConn.zeroed) false 3 4 (by decide) alarmPasses _ (by decide +kernel) rfl⟩

/-! How soon the tick comes. -/

def Reported (loop : EventLoop) (reports : List Report) : Prop :=
  ∃ report ∈ reports, report.fd = loop.sigPipe ∧ report.readable = true

instance (loop : EventLoop) (reports : List Report) : Decidable (loop.Reported reports) :=
  inferInstanceAs (Decidable (∃ report ∈ reports, _ ∧ _))

/-- The pipe is watched level-triggered: with a byte in it, it is reported unless other
descriptors fill the array. -/
def Event.Levels (loop : EventLoop) : Event → Prop
  | .wake reports =>
      loop.pipe ≠ [] → loop.Reported reports ∨ reports.length = maxEventNumber
  | _ => True

instance (loop : EventLoop) : (event : Event) → Decidable (event.Levels loop)
  | .wake _ => inferInstanceAs (Decidable (_ → _ ∨ _))
  | .signal _ _ => inferInstanceAs (Decidable True)
  | .failed => inferInstanceAs (Decidable True)
  | .handle _ => inferInstanceAs (Decidable True)
  | .turn => inferInstanceAs (Decidable True)
  | .work _ _ _ => inferInstanceAs (Decidable True)

inductive Soon (loop : EventLoop) : Prop
  | seen (timeout : loop.timeout = true)
  | reported (rest : List Report) (phase : loop.phase = .handling rest) (pipe : loop.Reported rest)

theorem not_ended {loop : EventLoop} {event : Event} (legal : event.Legal loop) :
    loop.phase ≠ .ended := by
  cases event with
  | signal sig interrupts => exact legal.2.2.2
  | wake reports =>
      intro ended
      have waiting := legal.1
      rw [ended] at waiting
      contradiction
  | failed =>
      intro ended
      exact absurd (ended.symm.trans legal) (by simp)
  | handle results =>
      intro ended
      obtain ⟨report, rest, phase⟩ := legal
      rw [ended] at phase
      contradiction
  | turn =>
      intro ended
      exact absurd (ended.symm.trans legal) (by simp)
  | work fs recvs writevs => exact legal

theorem handle_kept {loop next : EventLoop} {report : Report} {results : Results}
    (beating : loop.Beating) (busy : loop.phase ≠ .waiting) (off : loop.alarm = false)
    (taken : loop.handle report results = .ok next) :
    next.alarm = false ∧ next.phase = loop.phase ∧ next.sigPipe = loop.sigPipe ∧
      (loop.timeout = true ∨ report.fd = loop.sigPipe ∧ report.readable = true →
        next.timeout = true) := by
  rw [handle] at taken
  split at taken
  · obtain rfl := Except.ok.inj taken
    obtain ⟨_, owed, _, phase, sigPipe, seen⟩ := dealSignal_beating beating busy
    refine ⟨?_, phase, sigPipe, fun _ => seen off⟩
    cases still : loop.dealSignal.alarm with
    | false => rfl
    | true => simp [EventLoop.owed, still, off] at owed
  · rename_i event action
    obtain ⟨_, same⟩ := serve_ok taken
    refine ⟨same.alarm.trans off, same.phase, same.sigPipe, ?_⟩
    rintro (due | ⟨isPipe, readable⟩)
    · exact same.timeout.trans due
    · -- the pipe is not served
      have signal : loop.action report results = .signal := by
        rw [EventLoop.action, if_neg (isPipe ▸ beating.apart), if_pos ⟨isPipe, readable⟩]
      rw [signal] at action
      contradiction
  · rename_i action
    obtain rfl := Except.ok.inj taken
    refine ⟨off, rfl, rfl, ?_⟩
    rintro (due | ⟨isPipe, readable⟩)
    · exact due
    · have signal : loop.action report results = .signal := by
        rw [EventLoop.action, if_neg (isPipe ▸ beating.apart), if_pos ⟨isPipe, readable⟩]
      rw [signal] at action
      contradiction

theorem soon_step {loop next : EventLoop} {event : Event} (beating : loop.Beating)
    (off : loop.alarm = false) (legal : event.Legal loop) (inside : event ≠ .turn)
    (taken : loop.step event = .ok next) :
    next.alarm = false ∧ (loop.Soon → next.phase = .ended ∨ next.Soon) := by
  cases event with
  | signal sig interrupts =>
      obtain rfl := Except.ok.inj taken
      have other : sig ≠ sigalrm := by
        intro same
        have on := legal.2.1 same
        rw [off] at on
        contradiction
      simp only [deliver]
      split
      · exact ⟨off, fun _ => .inl rfl⟩
      · exact ⟨off, .inr⟩
      · rename_i handled
        by_cases isPipe : sig = sigpipe
        · rw [isPipe] at handled
          exact absurd handled (by decide)
        · rw [initSignal, Function.update_of_ne isPipe, Function.update_of_ne other] at handled
          contradiction
  | wake reports =>
      obtain rfl := Except.ok.inj taken
      refine ⟨off, fun soon => ?_⟩
      cases soon with
      | seen due => simp [beating.cleared legal.1] at due
      | reported rest phase pipe => simp [legal.1] at phase
  | failed =>
      obtain rfl := Except.ok.inj taken
      exact ⟨off, fun _ => .inl rfl⟩
  | handle results =>
      obtain ⟨report, rest, phase⟩ := legal
      simp only [step, phase] at taken
      obtain ⟨off', phase', sigPipe, seen⟩ :=
        handle_kept (beating.moved (.handling rest) (by simp)) (by simp) off taken
      refine ⟨off', fun soon => .inr ?_⟩
      cases soon with
      | seen due => exact .seen (seen (.inl due))
      | reported others same reported =>
          obtain rfl : report :: rest = others := Phase.handling.inj (phase.symm.trans same)
          obtain ⟨found, member, isPipe, readable⟩ := reported
          rcases List.mem_cons.mp member with rfl | later
          · exact .seen (seen (.inr ⟨isPipe, readable⟩))
          · refine .reported rest phase' ⟨found, later, ?_, readable⟩
            rw [sigPipe]
            exact isPipe
  | turn => contradiction
  | work fs recvs writevs =>
      obtain ⟨_, same⟩ := serve_ok taken
      refine ⟨same.alarm.trans off, fun soon => .inr ?_⟩
      cases soon with
      | seen due => exact .seen (same.timeout.trans due)
      | reported rest phase pipe =>
          refine .reported rest (same.phase.trans phase) ?_
          rw [Reported, same.sigPipe]
          exact pipe

theorem turn_ticks {loop : EventLoop} (soon : loop.Soon) (legal : Event.turn.Legal loop) :
    loop.timeout = true := by
  have phase : loop.phase = .handling [] := legal
  cases soon with
  | seen due => exact due
  | reported rest same pipe =>
      obtain rfl : [] = rest := Phase.handling.inj (phase.symm.trans same)
      obtain ⟨report, member, _⟩ := pipe
      contradiction

theorem turns_cons {event : Event} {rest : List Event} (inside : event ≠ .turn) :
    (event :: rest).countP Event.isTurn = rest.countP Event.isTurn := by
  have other : event.isTurn = false := by
    cases event <;> first | rfl | contradiction
  rw [List.countP_cons, other]
  rfl

theorem soon_ticks (later : List Event) {loop final : EventLoop} (beating : loop.Beating)
    (off : loop.alarm = false) (soon : loop.Soon)
    (legal : Along step (fun loop event => event.Legal loop) loop later)
    (reached : run step loop later = .ok final) (turns : 1 ≤ later.countP Event.isTurn) :
    1 ≤ WebServer.tickCount (loop.steps later) := by
  induction later generalizing loop with
  | nil => simp at turns
  | cons event rest ih =>
      simp only [run] at reached
      cases taken : loop.step event with
      | error fault =>
          rw [taken] at reached
          contradiction
      | ok next =>
          rw [taken] at reached
          rw [steps_cons rest taken, tickCount_append]
          by_cases isTurn : event = .turn
          · subst isTurn
            have due := turn_ticks soon legal.1
            have one : WebServer.tickCount (Event.turn.steps loop) = 1 := by
              rw [Event.steps, if_pos due]
              rfl
            omega
          · have others : 1 ≤ rest.countP Event.isTurn := by
              rwa [turns_cons isTurn] at turns
            obtain ⟨off', kept⟩ := soon_step beating off legal.1 isTurn taken
            obtain ⟨beating', _⟩ := step_beats beating legal.1 taken
            rcases kept soon with ended | soon'
            · cases rest with
              | nil => simp at others
              | cons event rest => exact absurd ended (not_ended (legal.2 next taken).1)
            · have tick := ih beating' off' soon' (legal.2 next taken) reached others
              omega

theorem wake_soon {loop : EventLoop} {reports : List Report} (beating : loop.Beating)
    (off : loop.alarm = false) (legal : (Event.wake reports).Legal loop)
    (levels : (Event.wake reports).Levels loop) (room : reports.length < maxEventNumber) :
    Soon { loop with phase := .handling reports } := by
  have some' : loop.pipe ≠ [] := by
    cases beating.token with
    | set on => simp [off] at on
    | sent _ pipe _ => simp [pipe]
    | seen _ _ due => simp [beating.cleared legal.1] at due
  rcases levels some' with reported | full
  · exact .reported reports rfl reported
  · omega

/-- In every run, an alarm that has gone off has its tick by the end of the first pass that begins
from then on with fewer than `MAX_EVENT_NUMBER` reports, whatever else is reported in between. -/
theorem alarm_answered (users : Nat → HttpConn) (setReactorMode : Bool) (listenFd sigPipe : Nat)
    (apart : sigPipe ≠ listenFd) (events early : List Event) (reports : List Report)
    (later : List Event) (middle final : EventLoop)
    (legal : Along step (fun loop event => event.Legal loop)
      (init (WebServer.init users setReactorMode) listenFd sigPipe) events)
    (reached : run step (init (WebServer.init users setReactorMode) listenFd sigPipe) events =
      .ok middle)
    (off : middle.alarm = false)
    (legal' : Along step (fun loop event => event.Legal loop) middle
      (early ++ .wake reports :: later))
    (levels : Along step (fun loop event => event.Levels loop) middle
      (early ++ .wake reports :: later))
    (reached' : run step middle (early ++ .wake reports :: later) = .ok final)
    (room : reports.length < maxEventNumber) (turns : 1 ≤ later.countP Event.isTurn) :
    1 ≤ WebServer.tickCount (middle.steps (early ++ .wake reports :: later)) := by
  have beating := (run_beats events (init_beating _ apart) legal reached).1
  obtain ⟨waiting, ran, rest⟩ := run_append_ok reached'
  obtain ⟨legalEarly, legalWake⟩ := (along_append ran).mp legal'
  have levelsWake := ((along_append ran).mp levels).2.1
  obtain ⟨beating', _, count⟩ := run_beats early beating legalEarly ran
  have woken : waiting.step (.wake reports) = .ok { waiting with phase := .handling reports } := rfl
  rw [run_cons_of_ok woken] at rest
  rw [along_cons_of_ok woken] at legalWake
  rw [steps_append _ ran, steps_cons later woken, tickCount_append, tickCount_append]
  rcases Bool.eq_false_or_eq_true waiting.alarm with on | on
  · -- the alarm has been set again, by the tick
    simp only [owed, on, off, if_true, Bool.false_eq_true, if_false] at count
    omega
  · have soon := wake_soon beating' on legalWake.1 levelsWake room
    have beating'' := (step_beats beating' legalWake.1 woken).1
    have tick := soon_ticks later beating'' on soon legalWake.2 rest turns
    omega

theorem alarm_answered_interrupted :
    ∃ middle : EventLoop, 1 ≤ WebServer.tickCount (middle.steps alarmPasses.tail) :=
  ⟨_, alarm_answered (fun _ => HttpConn.zeroed) false 3 4 (by decide) [.signal sigalrm true]
    [.turn] [pipeReport] [.handle ⟨none, [], []⟩, .turn] _ _ (by decide +kernel) rfl rfl
    (by decide +kernel) (by decide +kernel) rfl (by decide) (by decide)⟩

end EventLoop

end StudyRecord.Server
