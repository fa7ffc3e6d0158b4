import StudyRecord.Chat.ShmServer
import StudyRecord.Library.Dispatch
import StudyRecord.Library.Outcome
import StudyRecord.Timer.CloseInactive

/-!
The signals of the event loops. A handler writes the number of a signal into a pipe as one
byte, and the loop that finds the pipe readable receives up to 1024 of them at once and
switches on them: `deal_signal` of the web server, and the branches of
`closeInactiveConnection.cpp` and `chatRoomServerShm.cpp` for the event at index `i` of a
batch. The memory of `signals` after the received bytes holds anything.
-/

namespace StudyRecord

open Dispatch Outcome Runs

open CloseInactive (sigint sigalrm sigterm)

namespace Signals

def sigchld : UInt8 := 17

def received (ret : Nat) (signals : Nat → UInt8) : List UInt8 := (List.range ret).map signals

structure Flags where
  timeout : Bool
  stopServer : Bool
  deriving DecidableEq

def Flags.switch (flags : Flags) (sig : UInt8) : Flags :=
  if sig = sigalrm then
    { flags with timeout := true }
  else if sig = sigint then
    { flags with stopServer := true }
  else if sig = sigterm then
    { flags with stopServer := true }
  else
    flags

/-- `WebServer::deal_signal`, with the positions of `signal` that it has looked at. -/
def dealSignal (ret : Int) (signal : Nat → UInt8) (flags : Flags) : Bool × Progress Flags Empty :=
  if ret ≤ 0 then
    (false, ⟨[], .ok flags⟩)
  else
    (true, loop (fun _ sig flags => .ok (flags.switch sig)) signal id ret.toNat flags)

theorem Flags.switch_stop (flags : Flags) (sig : UInt8) :
    (flags.switch sig).stopServer = true ↔
      flags.stopServer = true ∨ sigint ∈ [sig] ∨ sigterm ∈ [sig] := by
  simp only [Flags.switch, List.mem_singleton]
  by_cases alarm : sig = sigalrm
  · subst alarm
    simp [sigalrm, sigint, sigterm]
  by_cases interrupt : sig = sigint
  · simp [interrupt, sigint, sigalrm]
  by_cases terminate : sig = sigterm
  · simp [terminate, sigterm, sigalrm]
  · simp [alarm, interrupt, terminate, Ne.symm interrupt, Ne.symm terminate]

theorem dealSignal_spec {ret : Nat} (positive : 1 ≤ ret) (signal : Nat → UInt8) (flags : Flags) :
    (dealSignal ret signal flags).1 = true ∧
      EachOnce ret (dealSignal ret signal flags).2.looked ∧
      (dealSignal ret signal flags).2.result =
        .ok ((received ret signal).foldl Flags.switch flags) := by
  have looped : dealSignal ret signal flags =
      (true, loop (fun _ sig flags => .ok (flags.switch sig)) signal id ret flags) := by
    rw [dealSignal, if_neg (by omega), Int.toNat_natCast]
  have finished : (loop (fun _ sig flags => .ok (flags.switch sig)) signal id ret flags :
      Progress Flags Empty).result = .ok ((received ret signal).foldl Flags.switch flags) := by
    rw [loop_id_result, fold_ok, received]
  rw [looped]
  exact ⟨rfl, loop_id_eachOnce ret finished, finished⟩

end Signals

open Signals

namespace CloseInactive.Server

def flags (server : Server) : Flags := ⟨server.timeout, server.stopServer⟩

/-- The loop over the signals, for the event at index `i` of the batch. It has an index of its
own, `j`, and looks at `signals[i]`. -/
def signalLoop (i ret : Nat) (signals : Nat → UInt8) (server : Server) : Progress Server Fault :=
  loop (fun _ sig server => .ok (server.signal sig)) signals (fun _ => i) ret server

/-- Each received signal is handled once and no other byte is, and the flags are the ones
that `deal_signal` has for what was received. -/
def HandlesSignals (i ret : Nat) (signals : Nat → UInt8) (server : Server) : Prop :=
  EachOnce ret (server.signalLoop i ret signals).looked ∧
    (server.signalLoop i ret signals).result.map flags =
      .ok ((received ret signals).foldl Flags.switch server.flags)

theorem signal_flags (server : Server) (sig : UInt8) :
    (server.signal sig).flags = server.flags.switch sig := by
  simp only [signal, flags, Flags.switch]
  by_cases alarm : sig = sigalrm
  · simp [alarm]
  by_cases interrupt : sig = sigint
  · simp [interrupt, sigint, sigalrm]
  by_cases terminate : sig = sigterm
  · simp [terminate, sigterm, sigalrm]
  · simp [alarm, terminate, interrupt]

theorem foldl_signal_flags (bytes : List UInt8) (server : Server) :
    (bytes.foldl signal server).flags = bytes.foldl Flags.switch server.flags := by
  induction bytes generalizing server with
  | nil => rfl
  | cons sig rest ih => rw [List.foldl_cons, ih, signal_flags, List.foldl_cons]

theorem handlesSignals_iff (i ret : Nat) (signals : Nat → UInt8) (server : Server)
    (positive : 1 ≤ ret) : server.HandlesSignals i ret signals ↔ i = 0 ∧ ret = 1 := by
  have each : server.HandlesSignals i ret signals ↔
      HandlesEach (fun _ sig server => (.ok (signal server sig) : Except Fault Server)) signals
        (fun _ => i) flags ret server := by
    rw [HandlesSignals, HandlesEach, fold_ok, ← foldl_signal_flags]
    rfl
  rw [each]
  exact handlesEach_const_iff i positive server

theorem signalLoop_result (i ret : Nat) (signals : Nat → UInt8) (server : Server) :
    (server.signalLoop i ret signals).result =
      .ok ((List.range ret).foldl (fun server _ => server.signal (signals i)) server) := by
  rw [signalLoop, loop_result]
  exact List.foldlM_pure

theorem switch_switch (flags : Flags) (sig : UInt8) :
    (flags.switch sig).switch sig = flags.switch sig := by
  simp only [Flags.switch]
  split
  · rfl
  split
  · rfl
  split <;> rfl

theorem signalLoop_flags (i ret : Nat) (signals : Nat → UInt8) (server : Server)
    (positive : 1 ≤ ret) :
    (server.signalLoop i ret signals).result.map flags =
      .ok (server.flags.switch (signals i)) := by
  rw [signalLoop_result]
  refine congrArg Except.ok ?_
  obtain ⟨more, rfl⟩ : ∃ more, ret = more + 1 := ⟨ret - 1, by omega⟩
  induction more with
  | zero => exact signal_flags server (signals i)
  | succ more ih =>
      specialize ih (by omega)
      rw [List.range_succ, List.foldl_append, List.foldl_cons, List.foldl_nil, signal_flags, ih,
        switch_switch]

/-! The signals of a run. -/

def Steady (server next : Server) : Prop :=
  next.batch = server.batch ∧ next.index = server.index ∧ next.stopServer = server.stopServer

theorem Steady.trans {server middle next : Server} (early : Steady server middle)
    (late : Steady middle next) : Steady server next :=
  ⟨late.1.trans early.1, late.2.1.trans early.2.1, late.2.2.trans early.2.2⟩

theorem cbFunc_steady (server : Server) (userData : Option Nat) :
    Meets (fun _ => True) (Steady server) (server.cbFunc userData) := by
  cases userData with
  | none => trivial
  | some slot =>
      simp only [cbFunc]
      split
      · exact ⟨rfl, rfl, rfl⟩
      · trivial

theorem delTimer_steady (server : Server) (timer : Option Nat) :
    Meets (fun _ => True) (Steady server) (server.delTimer timer) := by
  simp only [delTimer]
  split
  · trivial
  · exact ⟨rfl, rfl, rfl⟩

theorem callbacks_steady (fired : List (Nat × SortedList.UtilTimer Unit Nat)) (server : Server) :
    Meets (fun _ => True) (Steady server)
      (fired.foldlM (fun server timer => server.cbFunc timer.2.userData) server) := by
  induction fired generalizing server with
  | nil => exact ⟨rfl, rfl, rfl⟩
  | cons timer rest ih =>
      rw [List.foldlM_cons]
      refine (server.cbFunc_steady timer.2.userData).bind fun next steady => ?_
      exact (ih next).imp (fun _ _ => trivial) fun _ further => steady.trans further

theorem tick_steady (server : Server) (cur : Int) :
    Meets (fun _ => True) (Steady server) (server.tick cur) := by
  simp only [tick]
  split
  · trivial
  · exact (callbacks_steady _ server).bind fun next steady => steady

theorem handleTimeout_steady (server : Server) (cur : Int) :
    Meets (fun _ => True) (Steady server) (server.handleTimeout cur) := by
  simp only [handleTimeout]
  split
  · exact (server.tick_steady cur).bind fun next steady => steady
  · exact ⟨rfl, rfl, rfl⟩

theorem timed_steady {server : Server} {first : Except Fault Server} (cur : Int)
    (here : Meets (fun _ => True) (Steady server) first) :
    Meets (fun _ => True) (Steady server) (first >>= fun next => next.handleTimeout cur) :=
  here.bind fun next steady =>
    (next.handleTimeout_steady cur).imp (fun _ _ => trivial) fun _ further => steady.trans further

theorem accept_steady (server : Server) (clientfd : Nat) (cur : Int) :
    Meets (fun _ => True) (Steady server) (server.accept clientfd cur) := by
  simp only [accept]
  split
  · trivial
  · exact ⟨rfl, rfl, rfl⟩

theorem client_steady (server : Server) (sockfd : Nat) (answer : Answer) :
    Meets (fun _ => True) (Steady server) (server.client sockfd answer) := by
  simp only [client]
  split
  · split
    · refine (server.cbFunc_steady (some sockfd)).bind fun next steady => ?_
      exact (next.delTimer_steady _).imp (fun _ _ => trivial) fun _ further =>
        steady.trans further
    · exact ⟨rfl, rfl, rfl⟩
  · split
    · exact ⟨rfl, rfl, rfl⟩
    · split
      · trivial
      · exact ⟨rfl, rfl, rfl⟩

theorem foldl_signal_place (server : Server) (sig : UInt8) (passes : List Nat) :
    (passes.foldl (fun server _ => server.signal sig) server).batch = server.batch ∧
      (passes.foldl (fun server _ => server.signal sig) server).index = server.index := by
  induction passes generalizing server with
  | nil => exact ⟨rfl, rfl⟩
  | cons j rest ih =>
      have here : (server.signal sig).batch = server.batch ∧
          (server.signal sig).index = server.index := by
        simp only [signal]
        split
        · exact ⟨rfl, rfl⟩
        split <;> exact ⟨rfl, rfl⟩
      exact ⟨(ih (server.signal sig)).1.trans here.1, (ih (server.signal sig)).2.trans here.2⟩

theorem handle_pipe {server : Server} {rest : List Source} (answer : Answer)
    (here : server.batch = .pipe :: rest) (positive : 1 ≤ answer.ret) :
    server.handle answer =
      ({ server with batch := rest, index := server.index + 1 }.signalLoop server.index
        answer.ret.toNat answer.signals).result >>= fun server =>
          server.handleTimeout answer.tickTime := by
  rw [signalLoop_result]
  simp only [handle, here]
  rw [if_neg (by omega), if_neg (by omega)]
  rfl

def switched (server : Server) : Event → List UInt8
  | .handle answer =>
      if server.batch.head? = some .pipe ∧ 1 ≤ answer.ret then [answer.signals server.index] else []
  | .wait _ | .finish => []

def Stops (bytes : List UInt8) : Prop := sigint ∈ bytes ∨ sigterm ∈ bytes

instance decidableStops (bytes : List UInt8) : Decidable (Stops bytes) :=
  inferInstanceAs (Decidable (_ ∨ _))

structure Handled (server : Server) (rest : List Source) (bytes : List UInt8) (next : Server) :
    Prop where
  place : next.batch = [] ∨ next.batch = rest ∧ next.index = server.index + 1
  stop : next.stopServer = true ↔ server.stopServer = true ∨ Stops bytes

theorem Handled.steady {server next : Server} {rest : List Source}
    (steady : Steady { server with batch := rest, index := server.index + 1 } next) :
    Handled server rest [] next := by
  refine ⟨.inr ⟨steady.1, steady.2.1⟩, ?_⟩
  rw [steady.2.2]
  simp [Stops]

theorem handle_spec {server next : Server} {source : Source} {rest : List Source}
    {answer : Answer} (shape : server.batch = source :: rest)
    (taken : server.handle answer = .ok next) :
    Handled server rest (server.switched (.handle answer)) next := by
  let first : Server := { server with batch := rest, index := server.index + 1 }
  cases source with
  | listen =>
      have steady := timed_steady answer.tickTime (first.accept_steady answer.clientfd answer.cur)
      simp only [handle, shape] at taken
      rw [switched, shape, if_neg (by simp)]
      exact .steady (steady.of_ok taken)
  | client fd readable =>
      rw [switched, shape, if_neg (by simp)]
      simp only [handle, shape] at taken
      cases readable with
      | true =>
          exact .steady ((timed_steady answer.tickTime (first.client_steady fd answer)).of_ok taken)
      | false => exact .steady ((first.handleTimeout_steady answer.tickTime).of_ok taken)
  | pipe =>
      by_cases positive : 1 ≤ answer.ret
      · rw [handle_pipe answer shape positive, signalLoop_result] at taken
        rw [switched, shape, if_pos ⟨rfl, positive⟩]
        have steady := (handleTimeout_steady _ answer.tickTime).of_ok taken
        obtain ⟨batch, index⟩ := first.foldl_signal_place (answer.signals server.index)
          (List.range answer.ret.toNat)
        have flags := first.signalLoop_flags server.index answer.ret.toNat answer.signals (by omega)
        rw [signalLoop_result] at flags
        have stop := congrArg Flags.stopServer (Except.ok.inj flags)
        refine ⟨.inr ⟨steady.1.trans batch, steady.2.1.trans index⟩, ?_⟩
        rw [steady.2.2]
        exact (Eq.to_iff (congrArg (· = true) stop)).trans (first.flags.switch_stop _)
      · rw [switched, if_neg fun both => positive both.2]
        simp only [handle, shape] at taken
        split at taken
        · obtain rfl := Except.ok.inj taken
          exact ⟨.inl rfl, by simp [Stops]⟩
        split at taken
        · obtain rfl := Except.ok.inj taken
          exact .steady ⟨rfl, rfl, rfl⟩
        · have none' : answer.ret.toNat = 0 := by omega
          rw [none'] at taken
          exact .steady ((first.handleTimeout_steady answer.tickTime).of_ok taken)

theorem step_stop (server : Server) (event : Event) (next : Server) (bytes : List UInt8)
    (noted : server.stopServer = true ↔ Stops bytes) (_ : True)
    (taken : step server event = .ok next) :
    next.stopServer = true ↔ Stops (bytes ++ server.switched event) := by
  have more (added : List UInt8) : Stops (bytes ++ added) ↔ Stops bytes ∨ Stops added := by
    simp only [Stops, List.mem_append]
    tauto
  rw [more, ← noted]
  cases event with
  | wait batch =>
      obtain rfl := Except.ok.inj taken
      simp [switched, Stops]
  | handle answer =>
      cases shape : server.batch with
      | nil =>
          simp only [step, handle, shape, Except.ok.injEq] at taken
          subst taken
          simp [switched, shape, Stops]
      | cons source rest => exact (handle_spec shape taken).stop
  | finish =>
      simp only [step, finish] at taken
      split at taken
      · contradiction
      · obtain rfl := Except.ok.inj taken
        simp [switched, Stops]

def lastBatch (last : List Source) : List Event → List Source
  | [] => last
  | .wait batch :: rest => lastBatch batch rest
  | .handle _ :: rest | .finish :: rest => lastBatch last rest

theorem run_place (events : List Event) {server final : Server} {last : List Source}
    (placed : server.batch = [] ∨ server.batch = last.drop server.index)
    (reached : run step server events = .ok final) :
    final.batch = [] ∨ final.batch = (lastBatch last events).drop final.index := by
  induction events generalizing server last with
  | nil =>
      obtain rfl : server = final := Except.ok.inj reached
      exact placed
  | cons event rest ih =>
      cases taken : step server event with
      | error fault =>
          simp only [run, taken] at reached
          contradiction
      | ok next =>
          rw [run_cons_of_ok taken] at reached
          cases event with
          | wait batch =>
              obtain rfl := Except.ok.inj taken
              exact ih (.inr rfl) reached
          | handle answer =>
              refine ih ?_ reached
              cases shape : server.batch with
              | nil =>
                  simp only [step, handle, shape, Except.ok.injEq] at taken
                  subst taken
                  exact .inl shape
              | cons source later =>
                  have behind : later = last.drop (server.index + 1) := by
                    have here := placed.resolve_left (by rw [shape]; exact List.cons_ne_nil _ _)
                    rw [← List.tail_drop, ← here, shape, List.tail_cons]
                  refine (handle_spec shape taken).place.imp_right fun place => ?_
                  rw [place.1, place.2, behind]
          | finish =>
              refine ih ?_ reached
              simp only [step, finish] at taken
              split at taken
              · contradiction
              · obtain rfl := Except.ok.inj taken
                exact placed

/-- In every run the server is to stop exactly if one of the bytes that were switched on says so.
Of the bytes received for an event this is only the one with the place of the event in its batch. -/
theorem stop_noted_iff (users : Nat → ClientData) (events : List Event) (final : Server)
    (reached : run step (init users) events = .ok final) :
    (final.stopServer = true ↔ Stops (emitted step switched (init users) events)) ∧
      (final.batch = [] ∨ final.batch = (lastBatch [] events).drop final.index) := by
  have start : (init users).stopServer = true ↔ Stops [] := by simp [init, Stops]
  have noted := run_emitted step_stop events start (along_of_forall events _ fun _ _ _ => trivial)
    reached
  exact ⟨noted, run_place events (.inl rfl) reached⟩

def stopAndAlarm : Answer := ⟨0, 2, false, fun j => if j = 0 then sigterm else sigalrm, 1, 1⟩

theorem stop_noted_iff_second :
    ∃ final, run step (init fun _ => ⟨0, none⟩)
        [.wait [.client 7 false, .pipe], .handle stopAndAlarm, .handle stopAndAlarm] = .ok final ∧
      ¬final.stopServer = true := by
  refine ⟨_, rfl, fun stop => ?_⟩
  have bytes := (stop_noted_iff (fun _ => ⟨0, none⟩)
    [.wait [.client 7 false, .pipe], .handle stopAndAlarm, .handle stopAndAlarm] _ rfl).1.mp stop
  revert bytes
  decide +kernel

end CloseInactive.Server

namespace ShmServer.Server

/-- The switch of the loop. `pids` are the processes that `waitpid` returns if pass `j` is
for `SIGCHLD`. -/
def dispatch (pids : Nat → List Nat) (j : Nat) (sig : UInt8) (server : Server) :
    Except Fault Server :=
  if sig = sigchld then do
    let server ← (pids j).foldlM reap server
    return server.reaped
  else if sig = sigterm ∨ sig = sigint then
    .ok server.terminated
  else
    .ok server

/-- The loop over the signals, for the event at index `i` of the batch. The index of the loop
over the children that are killed is another `i`, which hides this one only there. -/
def signalLoop (pids : Nat → List Nat) (i ret : Nat) (signals : Nat → UInt8) (server : Server) :
    Progress Server Fault :=
  loop (dispatch pids) signals (fun _ => i) ret server

def flags (server : Server) : Bool × Bool := (server.terminate, server.stopServer)

def HandlesSignals (pids : Nat → List Nat) (i ret : Nat) (signals : Nat → UInt8)
    (server : Server) : Prop :=
  EachOnce ret (server.signalLoop pids i ret signals).looked ∧
    (server.signalLoop pids i ret signals).result.map flags =
      (fold (dispatch pids) (received ret signals) server).map flags

theorem handlesSignals_iff (pids : Nat → List Nat) (i ret : Nat) (signals : Nat → UInt8)
    (server : Server) (positive : 1 ≤ ret) :
    server.HandlesSignals pids i ret signals ↔ i = 0 ∧ ret = 1 :=
  handlesEach_const_iff i positive server

end ShmServer.Server

namespace Signals

/-- The received signals are each handled once, and no other byte, for the first event of a
batch and one signal, and for no other. -/
theorem signals_handled_iff (i ret : Nat) (signals : Nat → UInt8) (positive : 1 ≤ ret) :
    (∀ server : CloseInactive.Server,
      server.HandlesSignals i ret signals ↔ i = 0 ∧ ret = 1) ∧
    (∀ (server : ShmServer.Server) (pids : Nat → List Nat),
      server.HandlesSignals pids i ret signals ↔ i = 0 ∧ ret = 1) :=
  ⟨fun server => server.handlesSignals_iff i ret signals positive,
    fun server pids => server.handlesSignals_iff pids i ret signals positive⟩

def alarmAndStop : Nat → UInt8
  | 0 => sigalrm
  | 1 => sigterm
  | _ => 0

def idle : CloseInactive.Server := .init fun _ => ⟨0, none⟩

def empty : ShmServer.Server := .init (fun _ => ⟨0, 0, 0, 0, (0, 0)⟩) fun _ => 0

theorem signals_handled_single :
    idle.HandlesSignals 0 1 alarmAndStop ∧ ¬idle.HandlesSignals 0 2 alarmAndStop ∧
      empty.HandlesSignals (fun _ => []) 0 1 alarmAndStop :=
  ⟨((signals_handled_iff 0 1 alarmAndStop (by decide)).1 idle).mpr ⟨rfl, rfl⟩,
    fun handled => absurd
      (((signals_handled_iff 0 2 alarmAndStop (by decide)).1 idle).mp handled).2 (by decide),
    ((signals_handled_iff 0 1 alarmAndStop (by decide)).2 empty fun _ => []).mpr ⟨rfl, rfl⟩⟩

/-- An alarm and a request to stop, received for the first event of a batch: both loops switch
on the alarm twice, and neither server stops. -/
theorem stop_missed :
    (idle.signalLoop 0 2 alarmAndStop).looked = [0, 0] ∧
      (idle.signalLoop 0 2 alarmAndStop).result.map CloseInactive.Server.flags =
        .ok ⟨true, false⟩ ∧
      (received 2 alarmAndStop).foldl Flags.switch idle.flags = ⟨true, true⟩ ∧
      ¬idle.HandlesSignals 0 2 alarmAndStop ∧
      (empty.signalLoop (fun _ => []) 0 2 alarmAndStop).looked = [0, 0] ∧
      (empty.signalLoop (fun _ => []) 0 2 alarmAndStop).result.map ShmServer.Server.flags =
        .ok (false, false) ∧
      (fold (ShmServer.Server.dispatch fun _ => []) (received 2 alarmAndStop) empty).map
        ShmServer.Server.flags = .ok (false, true) ∧
      ¬empty.HandlesSignals (fun _ => []) 0 2 alarmAndStop := by
  refine ⟨rfl, rfl, rfl, fun handled => ?_, rfl, rfl, rfl, fun handled => ?_⟩
  · exact absurd (handled.1 1) (by decide)
  · exact absurd (handled.1 1) (by decide)

end Signals

end StudyRecord
