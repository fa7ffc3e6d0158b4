import Mathlib.Data.List.Nodup
import Mathlib.Logic.Function.Basic
import StudyRecord.Library.Readiness
import StudyRecord.Library.Threads

/-!
`epolloneshot.cpp`: the main thread starts a thread for each report of a connection. A reported
connection stays disarmed until its thread has read all there is and arms it again. The thread
takes its descriptor and that of epoll out of a variable of the main thread, which uses its memory
again for the next report, and for the length of an address in the next `accept`.
-/

namespace StudyRecord.EpollOneshot

open Readiness Runs

def bufferSize : Nat := 1024

/-- What stands behind a descriptor. Its watch is held while it is disarmed. -/
structure Client where
  watch : Watch UInt8
  finished : Bool
  isOpen : Bool

namespace Client

def closed : Client := ⟨.empty, false, false⟩

def write (client : Client) (bytes : List UInt8) : Client :=
  { client with watch := client.watch.arrive bytes }

/-- The end of the stream is reported like data. -/
def shutdown (client : Client) : Client :=
  { client with finished := true, watch := client.watch.arrive [] }

def report (client : Client) : Client := { client with watch := client.watch.report }

def arm (client : Client) : Client :=
  { client with
    watch := if client.finished then client.watch.rearm.arrive [] else client.watch.rearm }

def take (client : Client) (count : Nat) : Client :=
  { client with watch := client.watch.take count }

def close (client : Client) : Client := { client with isOpen := false }

end Client

inductive Source
  | listen
  | client (sockfd : Nat)
  deriving DecidableEq

/-- `worker`, by what it does next. It reads `sockfd` out of its argument, and then `epollfd`. -/
inductive Worker
  | starting
  | opening (sockfd : Nat)
  | receiving (sockfd epollfd : Nat)
  | resetting (sockfd epollfd : Nat)
  | closing (sockfd : Nat)
  | ended
  deriving DecidableEq

structure Argument where
  epollfd : Nat
  sockfd : Nat
  deriving DecidableEq

/-- `events` is what the main thread still has to handle, and `argument` is what
`fds_for_new_worker` holds, at the same place in each pass. -/
structure Server where
  clients : Nat → Client
  events : List Source
  epollfd : Nat
  argument : Option Argument
  workers : List Worker

inductive Recv
  | bytes (count : Nat)
  | error
  deriving DecidableEq

structure Accepted where
  connfd : Nat
  clientLen : Nat
  waiting : List UInt8
  finished : Bool
  deriving DecidableEq

def Accepted.client (accepted : Accepted) : Client :=
  Client.arm ⟨Watch.empty.arrive accepted.waiting, accepted.finished, true⟩

inductive Event
  | write (sockfd : Nat) (bytes : List UInt8)
  | shutdown (sockfd : Nat)
  | wait (reports : List Source)
  | handle (accepted : Option Accepted)
  | run (index : Nat) (result : Recv)

namespace Server

def init (epollfd : Nat) : Server := ⟨fun _ => .closed, [], epollfd, none, []⟩

def setClient (server : Server) (sockfd : Nat) (client : Client) : Server :=
  { server with clients := Function.update server.clients sockfd client }

def wait (server : Server) (reports : List Source) : Server :=
  { server with
    clients := fun sockfd =>
      if .client sockfd ∈ reports then (server.clients sockfd).report else server.clients sockfd
    events := reports }

/-- `client_len` lies where `fds_for_new_worker.epollfd` does. -/
def putLen (server : Server) (clientLen : Nat) : Server :=
  { server with argument := server.argument.map fun fds => { fds with epollfd := clientLen } }

/-- One pass of the loop over the events. Threads can always be created. -/
def handle (server : Server) (accepted : Option Accepted) : Server :=
  match server.events with
  | [] => server
  | .listen :: rest =>
      match accepted with
      | none => { server with events := rest }
      | some accepted =>
          ({ server with events := rest }.putLen accepted.clientLen).setClient accepted.connfd
            accepted.client
  | .client sockfd :: rest =>
      { server with
        events := rest
        argument := some ⟨server.epollfd, sockfd⟩
        workers := server.workers ++ [.starting] }

def recv (server : Server) (sockfd epollfd : Nat) : Recv → Server × Worker
  | .error => (server, .closing sockfd)
  | .bytes count =>
      let client := server.clients sockfd
      if client.isOpen then
        if client.watch.queue = [] then
          (server, if client.finished then .closing sockfd else .resetting sockfd epollfd)
        else (server.setClient sockfd (client.take count), .receiving sockfd epollfd)
      else (server, .closing sockfd)

/-- `reset_oneshot`, which fails for a descriptor that is not that of epoll. -/
def resetOneshot (server : Server) (epollfd sockfd : Nat) : Server :=
  if epollfd = server.epollfd ∧ (server.clients sockfd).isOpen then
    server.setClient sockfd (server.clients sockfd).arm
  else server

def work (server : Server) (result : Recv) : Worker → Server × Worker
  | .starting =>
      match server.argument with
      | none => (server, .starting)
      | some fds => (server, .opening fds.sockfd)
  | .opening sockfd =>
      match server.argument with
      | none => (server, .opening sockfd)
      | some fds => (server, .receiving sockfd fds.epollfd)
  | .receiving sockfd epollfd => server.recv sockfd epollfd result
  | .resetting sockfd epollfd => (server.resetOneshot epollfd sockfd, .ended)
  | .closing sockfd => (server.setClient sockfd (server.clients sockfd).close, .ended)
  | .ended => (server, .ended)

def after (server : Server) : Event → Server
  | .write sockfd bytes => server.setClient sockfd ((server.clients sockfd).write bytes)
  | .shutdown sockfd => server.setClient sockfd (server.clients sockfd).shutdown
  | .wait reports => server.wait reports
  | .handle accepted => server.handle accepted
  | .run index result =>
      match server.workers[index]? with
      | none => server
      | some worker =>
          let (next, worker) := server.work result worker
          { next with workers := server.workers.set index worker }

def step (server : Server) (event : Event) : Except Empty Server := .ok (server.after event)

def Ready (server : Server) : Source → Prop
  | .listen => True
  | .client sockfd =>
      (server.clients sockfd).isOpen = true ∧ (server.clients sockfd).watch.held = false ∧
        (server.clients sockfd).watch.edge = true

def Fits : Recv → Prop
  | .bytes count => 1 ≤ count ∧ count ≤ bufferSize - 1
  | .error => True

/-- `epoll_wait` reports a connection that is armed and has become readable; `accept` returns a
descriptor that is not in use; and `recv` returns at least one byte and at most what fits. -/
def Legal (server : Server) : Event → Prop
  | .write sockfd _ =>
      (server.clients sockfd).isOpen = true ∧ (server.clients sockfd).finished = false
  | .shutdown sockfd =>
      (server.clients sockfd).isOpen = true ∧ (server.clients sockfd).finished = false
  | .wait reports =>
      server.events = [] ∧ reports.Nodup ∧ ∀ source ∈ reports, server.Ready source
  | .handle accepted =>
      server.events ≠ [] ∧ ∀ new ∈ accepted, (server.clients new.connfd).isOpen = false
  | .run index result =>
      (∃ worker ∈ server.workers[index]?, worker ≠ .ended) ∧ Fits result

end Server

def Worker.reading : Worker → Bool
  | .starting => true
  | .opening _ => true
  | _ => false

namespace Server

/-- No report of a connection is handled before the last thread has read `sockfd`, and no
connection is accepted before it has read `epollfd`, unless its length is the same number. -/
def Started (server : Server) (accepted : Option Accepted) : List Source → Prop
  | [] => True
  | .listen :: _ =>
      ∀ new ∈ accepted, new.clientLen = server.epollfd ∨
        ∀ worker ∈ server.workers, worker.reading = false
  | .client _ :: _ => .starting ∉ server.workers

def InTime (server : Server) : Event → Prop
  | .write _ _ => True
  | .shutdown _ => True
  | .wait _ => True
  | .handle accepted => server.Started accepted server.events
  | .run _ _ => True

instance decidableReady (server : Server) : (source : Source) → Decidable (server.Ready source)
  | .listen => .isTrue trivial
  | .client _ => inferInstanceAs (Decidable (_ ∧ _ ∧ _))

instance decidableFits : (result : Recv) → Decidable (Fits result)
  | .bytes _ => inferInstanceAs (Decidable (_ ∧ _))
  | .error => .isTrue trivial

instance decidableLegal (server : Server) : (event : Event) → Decidable (server.Legal event)
  | .write _ _ => inferInstanceAs (Decidable (_ ∧ _))
  | .shutdown _ => inferInstanceAs (Decidable (_ ∧ _))
  | .wait _ => inferInstanceAs (Decidable (_ ∧ _ ∧ _))
  | .handle _ => inferInstanceAs (Decidable (_ ∧ _))
  | .run _ _ => inferInstanceAs (Decidable (_ ∧ _))

instance decidableStarted (server : Server) (accepted : Option Accepted) :
    (events : List Source) → Decidable (server.Started accepted events)
  | [] => .isTrue trivial
  | .listen :: _ => inferInstanceAs (Decidable (∀ new ∈ accepted, _ ∨ _))
  | .client _ :: _ => inferInstanceAs (Decidable (_ ∉ server.workers))

instance decidableInTime (server : Server) : (event : Event) → Decidable (server.InTime event)
  | .write _ _ => .isTrue trivial
  | .shutdown _ => .isTrue trivial
  | .wait _ => .isTrue trivial
  | .handle _ => inferInstanceAs (Decidable (server.Started _ server.events))
  | .run _ _ => .isTrue trivial

end Server

/-! In whose hands the connections are. -/

def Source.client? : Source → Option Nat
  | .listen => none
  | .client sockfd => some sockfd

/-- The descriptor that a thread works on, or is going to find in the variable. -/
def Worker.hand (target : Option Nat) : Worker → Option Nat
  | .starting => target
  | .opening sockfd => some sockfd
  | .receiving sockfd _ => some sockfd
  | .resetting sockfd _ => some sockfd
  | .closing sockfd => some sockfd
  | .ended => none

def Worker.epoll (argument : Option Argument) : Worker → Option Nat
  | .starting => argument.map Argument.epollfd
  | .opening _ => argument.map Argument.epollfd
  | .receiving _ epollfd => some epollfd
  | .resetting _ epollfd => some epollfd
  | .closing _ => none
  | .ended => none

namespace Server

def target (server : Server) : Option Nat := server.argument.map Argument.sockfd

def hands (server : Server) : List Nat :=
  server.events.filterMap Source.client? ++ server.workers.filterMap (Worker.hand server.target)

/-- No connection is in two hands, one with something to be read is in one, or armed and to be
reported, and who has it in hand can arm it. -/
structure Orderly (server : Server) : Prop where
  exclusive : server.hands.Nodup
  attended : ∀ sockfd, (server.clients sockfd).isOpen = true →
    (server.clients sockfd).watch.queue ≠ [] ∨ (server.clients sockfd).finished = true →
      sockfd ∈ server.hands ∨
        (server.clients sockfd).watch.held = false ∧ (server.clients sockfd).watch.edge = true
  able : ∀ worker ∈ server.workers, ∀ epollfd ∈ worker.epoll server.argument,
    epollfd = server.epollfd

end Server

structure Held (clients : Nat → Client) (hands : List Nat) : Prop where
  nodup : hands.Nodup
  held : ∀ sockfd, sockfd ∈ hands ↔
    (clients sockfd).isOpen = true ∧ (clients sockfd).watch.held = true
  idle : ∀ sockfd, (clients sockfd).isOpen = true → (clients sockfd).watch.held = false →
    (clients sockfd).watch.queue ≠ [] ∨ (clients sockfd).finished = true →
      (clients sockfd).watch.edge = true

section Held

variable {clients : Nat → Client} {hands : List Nat}

theorem Held.perm (holds : Held clients hands) {hands' : List Nat} (same : hands.Perm hands') :
    Held clients hands' :=
  ⟨same.nodup_iff.mp holds.nodup, fun sockfd => same.mem_iff.symm.trans (holds.held sockfd),
    holds.idle⟩

theorem Held.update (holds : Held clients hands) (sockfd : Nat) {client : Client}
    (isOpen : client.isOpen = (clients sockfd).isOpen)
    (held : client.watch.held = (clients sockfd).watch.held)
    (idle : client.isOpen = true → client.watch.held = false →
      client.watch.queue ≠ [] ∨ client.finished = true → client.watch.edge = true) :
    Held (Function.update clients sockfd client) hands := by
  refine ⟨holds.nodup, fun other => ?_, fun other => ?_⟩
  · by_cases same : other = sockfd
    · subst same
      rw [Function.update_self, isOpen, held]
      exact holds.held other
    · rw [Function.update_of_ne same]
      exact holds.held other
  · by_cases same : other = sockfd
    · subst same
      rw [Function.update_self]
      exact idle
    · rw [Function.update_of_ne same]
      exact holds.idle other

theorem Held.release {sockfd : Nat} (holds : Held clients (sockfd :: hands)) {client : Client}
    (released : client.isOpen = true → client.watch.held = false)
    (idle : client.isOpen = true → client.watch.held = false →
      client.watch.queue ≠ [] ∨ client.finished = true → client.watch.edge = true) :
    Held (Function.update clients sockfd client) hands := by
  obtain ⟨absent, nodup⟩ := List.nodup_cons.mp holds.nodup
  refine ⟨nodup, fun other => ?_, fun other => ?_⟩
  · by_cases same : other = sockfd
    · subst same
      rw [Function.update_self]
      refine iff_of_false absent ?_
      rintro ⟨isOpen, held⟩
      rw [released isOpen] at held
      contradiction
    · rw [Function.update_of_ne same, ← holds.held other, List.mem_cons, or_iff_right same]
  · by_cases same : other = sockfd
    · subst same
      rw [Function.update_self]
      exact idle
    · rw [Function.update_of_ne same]
      exact holds.idle other

theorem Held.accept (holds : Held clients hands) {sockfd : Nat} {client : Client}
    (unused : (clients sockfd).isOpen = false) (held : client.watch.held = false)
    (idle : client.watch.queue ≠ [] ∨ client.finished = true → client.watch.edge = true) :
    Held (Function.update clients sockfd client) hands := by
  refine ⟨holds.nodup, fun other => ?_, fun other => ?_⟩
  · by_cases same : other = sockfd
    · subst same
      rw [Function.update_self, holds.held other, unused, held]
      exact iff_of_false (fun both => Bool.false_ne_true both.1) fun both => Bool.false_ne_true both.2
    · rw [Function.update_of_ne same]
      exact holds.held other
  · by_cases same : other = sockfd
    · subst same
      rw [Function.update_self]
      exact fun _ _ => idle
    · rw [Function.update_of_ne same]
      exact holds.idle other

theorem Held.report (holds : Held clients hands) {reports : List Source} (once : reports.Nodup)
    (ready : ∀ sockfd, .client sockfd ∈ reports →
      (clients sockfd).isOpen = true ∧ (clients sockfd).watch.held = false) :
    Held (fun sockfd =>
        if .client sockfd ∈ reports then (clients sockfd).report else clients sockfd)
      (reports.filterMap Source.client? ++ hands) := by
  have member (sockfd : Nat) :
      sockfd ∈ reports.filterMap Source.client? ↔ .client sockfd ∈ reports := by
    rw [List.mem_filterMap]
    constructor
    · rintro ⟨source, member, same⟩
      cases source with
      | listen => contradiction
      | client other =>
          obtain rfl : other = sockfd := Option.some.inj same
          exact member
    · exact fun member => ⟨_, member, rfl⟩
  refine ⟨?_, fun sockfd => ?_, fun sockfd => ?_⟩
  · refine List.nodup_append'.mpr ⟨?_, holds.nodup, fun sockfd reported inHand => ?_⟩
    · refine once.filterMap fun first second sockfd one two => ?_
      cases first with
      | listen => contradiction
      | client first =>
          cases second with
          | listen => contradiction
          | client second =>
              obtain rfl : first = sockfd := Option.some.inj one
              obtain rfl : second = first := Option.some.inj two
              rfl
    · have free := (ready sockfd ((member sockfd).mp reported)).2
      rw [((holds.held sockfd).mp inHand).2] at free
      contradiction
  · rw [List.mem_append, member]
    by_cases reported : Source.client sockfd ∈ reports
    · simp only [reported, if_true, true_or, true_iff]
      exact ⟨(ready sockfd reported).1, rfl⟩
    · simp only [reported, if_false, false_or]
      exact holds.held sockfd
  · by_cases reported : Source.client sockfd ∈ reports
    · simp only [reported, if_true]
      exact fun _ free => absurd free.symm Bool.false_ne_true
    · simp only [reported, if_false]
      exact holds.idle sockfd

end Held

theorem Client.arm_edge (client : Client)
    (some' : client.arm.watch.queue ≠ [] ∨ client.arm.finished = true) :
    client.arm.watch.edge = true := by
  cases finished : client.finished with
  | true =>
      simp only [arm, finished, if_true]
      rfl
  | false =>
      simp only [arm, finished, Bool.false_eq_true, if_false, or_false] at some' ⊢
      exact Watch.rearm_attentive client.watch rfl some'

theorem Client.arm_held (client : Client) : client.arm.watch.held = false := by
  rw [arm]
  split <;> rfl

namespace Server

structure Inv (server : Server) : Prop where
  holds : Held server.clients server.hands
  given : ∀ worker ∈ server.workers, worker.reading = true →
    ∃ sockfd, server.argument = some ⟨server.epollfd, sockfd⟩
  able : ∀ worker ∈ server.workers, ∀ epollfd ∈ worker.epoll server.argument,
    epollfd = server.epollfd

theorem Inv.orderly {server : Server} (inv : server.Inv) : server.Orderly := by
  refine ⟨inv.holds.nodup, fun sockfd isOpen some' => ?_, inv.able⟩
  cases held : (server.clients sockfd).watch.held with
  | true => exact .inl ((inv.holds.held sockfd).mpr ⟨isOpen, held⟩)
  | false => exact .inr ⟨rfl, inv.holds.idle sockfd isOpen held some'⟩

theorem init_inv (epollfd : Nat) : (init epollfd).Inv := by
  refine ⟨⟨List.nodup_nil, fun sockfd => ?_, fun sockfd isOpen => ?_⟩, fun worker member => ?_,
    fun worker member => ?_⟩
  · exact iff_of_false (List.not_mem_nil) fun both => Bool.false_ne_true both.1
  · exact absurd isOpen Bool.false_ne_true
  · exact absurd member List.not_mem_nil
  · exact absurd member List.not_mem_nil

/-! The steps of a thread. -/

structure SameMain (server next : Server) : Prop where
  events : next.events = server.events
  argument : next.argument = server.argument
  epollfd : next.epollfd = server.epollfd

theorem work_same (server : Server) (result : Recv) (worker : Worker) :
    SameMain server (server.work result worker).1 := by
  cases worker with
  | starting =>
      simp only [work]
      split <;> exact ⟨rfl, rfl, rfl⟩
  | opening sockfd =>
      simp only [work]
      split <;> exact ⟨rfl, rfl, rfl⟩
  | receiving sockfd epollfd =>
      cases result with
      | error => exact ⟨rfl, rfl, rfl⟩
      | bytes count =>
          simp only [work, recv]
          split
          · split <;> exact ⟨rfl, rfl, rfl⟩
          · exact ⟨rfl, rfl, rfl⟩
  | resetting sockfd epollfd =>
      simp only [work, resetOneshot]
      split <;> exact ⟨rfl, rfl, rfl⟩
  | closing sockfd => exact ⟨rfl, rfl, rfl⟩
  | ended => exact ⟨rfl, rfl, rfl⟩

theorem work_reading {server : Server} {result : Recv} {worker : Worker}
    (still : (server.work result worker).2.reading = true) : worker.reading = true := by
  cases worker with
  | starting => rfl
  | opening sockfd => rfl
  | receiving sockfd epollfd =>
      cases result with
      | error => contradiction
      | bytes count =>
          simp only [work, recv] at still
          split at still
          · split at still
            · split at still <;> contradiction
            · contradiction
          · contradiction
  | resetting sockfd epollfd => contradiction
  | closing sockfd => contradiction
  | ended => contradiction

theorem work_epoll {server : Server} {result : Recv} {worker : Worker} {epollfd : Nat}
    (takes : epollfd ∈ (server.work result worker).2.epoll server.argument) :
    epollfd ∈ worker.epoll server.argument := by
  cases worker with
  | starting =>
      simp only [work] at takes
      split at takes
      · exact takes
      · exact takes
  | opening sockfd =>
      simp only [work] at takes
      split at takes
      · exact takes
      · rename_i fds argument
        rw [Worker.epoll, argument]
        exact takes
  | receiving sockfd own =>
      cases result with
      | error => contradiction
      | bytes count =>
          simp only [work, recv] at takes
          split at takes
          · split at takes
            · split at takes
              · contradiction
              · exact takes
            · exact takes
          · contradiction
  | resetting sockfd own => contradiction
  | closing sockfd => contradiction
  | ended => contradiction

theorem work_holds {server : Server} {worker : Worker} {rest : List Nat}
    (holds : Held server.clients ((worker.hand server.target).toList ++ rest))
    (given : worker.reading = true → ∃ sockfd, server.argument = some ⟨server.epollfd, sockfd⟩)
    (able : ∀ epollfd ∈ worker.epoll server.argument, epollfd = server.epollfd) (result : Recv) :
    Held (server.work result worker).1.clients
      (((server.work result worker).2.hand server.target).toList ++ rest) := by
  cases worker with
  | starting =>
      obtain ⟨sockfd, argument⟩ := given rfl
      simp only [Server.work, Server.target, argument, Worker.hand] at holds ⊢
      exact holds
  | opening sockfd =>
      obtain ⟨other, argument⟩ := given rfl
      simp only [Server.work, argument, Worker.hand] at holds ⊢
      exact holds
  | receiving sockfd epollfd =>
      have here := (holds.held sockfd).mp List.mem_cons_self
      cases result with
      | error => exact holds
      | bytes count =>
          simp only [Server.work, recv, here.1, if_true]
          split
          · split <;> exact holds
          · refine Held.update holds sockfd rfl rfl fun _ free => ?_
            have held : ((server.clients sockfd).take count).watch.held = true := here.2
            rw [held] at free
            contradiction
  | resetting sockfd epollfd =>
      have here := (holds.held sockfd).mp List.mem_cons_self
      have own : epollfd = server.epollfd := able epollfd rfl
      simp only [Server.work, resetOneshot, own, here.1, and_self, if_true]
      exact Held.release holds (fun _ => Client.arm_held _) fun _ _ => Client.arm_edge _
  | closing sockfd =>
      have shut : ¬((server.clients sockfd).close.isOpen = true) := Bool.false_ne_true
      exact Held.release holds (fun isOpen => absurd isOpen shut) fun isOpen => absurd isOpen shut
  | ended => exact holds

theorem hands_perm {server : Server} {front back : List Worker} {worker : Worker}
    (split : server.workers = front ++ worker :: back) :
    server.hands.Perm ((worker.hand server.target).toList ++
      (server.events.filterMap Source.client? ++
        (front ++ back).filterMap (Worker.hand server.target))) := by
  have here : (front ++ worker :: back).filterMap (Worker.hand server.target) =
      front.filterMap (Worker.hand server.target) ++
        ((worker.hand server.target).toList ++
          back.filterMap (Worker.hand server.target)) := by
    rw [List.filterMap_append, List.filterMap_cons]
    cases worker.hand server.target <;> rfl
  rw [hands, split, here, List.filterMap_append, ← List.append_assoc, ← List.append_assoc]
  refine (List.perm_append_comm.append_right _).trans ?_
  simp only [List.append_assoc, List.Perm.refl]

theorem Inv.run {server : Server} (inv : server.Inv) {index : Nat} {worker : Worker}
    (found : server.workers[index]? = some worker) (result : Recv) :
    (server.after (.run index result)).Inv := by
  obtain ⟨front, back, split, place⟩ := Threads.split_at found
  have moved : server.workers.set index (server.work result worker).2 =
      front ++ (server.work result worker).2 :: back := by
    simp [split, ← place]
  have here : worker ∈ server.workers := by simp [split]
  have holds := work_holds (inv.holds.perm (hands_perm split)) (inv.given worker here)
    (inv.able worker here) result
  have same := work_same server result worker
  have target : (server.work result worker).1.target = server.target := by
    rw [Server.target, same.argument, Server.target]
  simp only [after, found, moved]
  refine ⟨holds.perm ?_, fun other member reading => ?_, fun other member => ?_⟩
  · have split' : ({ (server.work result worker).1 with
        workers := front ++ (server.work result worker).2 :: back } : Server).workers =
      front ++ (server.work result worker).2 :: back := rfl
    rw [← same.events, ← target]
    exact (hands_perm split').symm
  · rw [List.mem_append, List.mem_cons] at member
    simp only [same.argument, same.epollfd]
    rcases member with front' | now | back'
    · exact inv.given other (by simp [split, front']) reading
    · exact inv.given worker here (work_reading (now ▸ reading))
    · exact inv.given other (by simp [split, back']) reading
  · rw [List.mem_append, List.mem_cons] at member
    simp only [same.argument, same.epollfd]
    rcases member with front' | now | back'
    · exact inv.able other (by simp [split, front'])
    · rw [now]
      exact fun epollfd takes => inv.able worker here epollfd (work_epoll takes)
    · exact inv.able other (by simp [split, back'])

/-! The steps of the main thread. -/

theorem hand_started {target other : Option Nat} {workers : List Worker}
    (started : .starting ∉ workers) :
    workers.filterMap (Worker.hand target) = workers.filterMap (Worker.hand other) := by
  refine List.filterMap_congr fun worker member => ?_
  cases worker with
  | starting => exact absurd member started
  | opening sockfd => rfl
  | receiving sockfd epollfd => rfl
  | resetting sockfd epollfd => rfl
  | closing sockfd => rfl
  | ended => rfl

@[simp] theorem putLen_target (server : Server) (clientLen : Nat) :
    (server.putLen clientLen).target = server.target := by
  rw [target, putLen, Option.map_map]
  rfl

theorem Inv.putLen {server : Server} (inv : server.Inv) {clientLen : Nat}
    (harmless : clientLen = server.epollfd ∨ ∀ worker ∈ server.workers, worker.reading = false) :
    (server.putLen clientLen).Inv := by
  have hands' : (server.putLen clientLen).hands = server.hands := by
    rw [hands, putLen_target]
    rfl
  have unchanged (worker : Worker) (member : worker ∈ server.workers)
      (reading : worker.reading = true) :
      (server.putLen clientLen).argument = server.argument := by
    obtain ⟨sockfd, argument⟩ := inv.given worker member reading
    rcases harmless with same | read
    · rw [Server.putLen, argument, same]
      rfl
    · rw [read worker member] at reading
      contradiction
  refine ⟨hands' ▸ inv.holds, fun worker member reading => ?_, fun worker member epollfd takes => ?_⟩
  · rw [unchanged worker member reading]
    exact inv.given worker member reading
  · refine inv.able worker member epollfd ?_
    cases worker with
    | starting => exact unchanged _ member rfl ▸ takes
    | opening sockfd => exact unchanged _ member rfl ▸ takes
    | receiving sockfd own => exact takes
    | resetting sockfd own => exact takes
    | closing sockfd => contradiction
    | ended => contradiction

theorem Inv.handle {server : Server} (inv : server.Inv) {accepted : Option Accepted}
    (legal : server.Legal (.handle accepted)) (inTime : server.InTime (.handle accepted)) :
    (server.handle accepted).Inv := by
  have holds := inv.holds
  rw [hands] at holds
  cases events : server.events with
  | nil => exact absurd events legal.1
  | cons source rest =>
      rw [events] at holds
      simp only [Server.handle, events]
      cases source with
      | listen =>
          have popped : Inv { server with events := rest } := ⟨holds, inv.given, inv.able⟩
          cases accepted with
          | none => exact popped
          | some new =>
              simp only [InTime, Started, events] at inTime
              have put := popped.putLen (inTime new rfl)
              refine ⟨Held.accept put.holds (legal.2 new rfl) (Client.arm_held _) ?_, put.given,
                put.able⟩
              exact Client.arm_edge _
      | client sockfd =>
          simp only [InTime, Started, events] at inTime
          refine ⟨holds.perm ?_, fun _ _ _ => ⟨sockfd, rfl⟩, fun worker member epollfd takes => ?_⟩
          · have hands' :
                (server.workers ++ [Worker.starting]).filterMap (Worker.hand (some sockfd)) =
                  server.workers.filterMap (Worker.hand server.target) ++ [sockfd] := by
              rw [List.filterMap_append, hand_started inTime]
              rfl
            have target : some sockfd = ({ server with
                events := rest
                argument := some ⟨server.epollfd, sockfd⟩
                workers := server.workers ++ [.starting] } : Server).target := rfl
            rw [hands, ← target, hands', ← List.append_assoc]
            exact (List.perm_append_singleton sockfd _).symm
          · rw [List.mem_append, List.mem_singleton] at member
            cases worker with
            | starting => exact (Option.some.inj takes).symm
            | opening other => exact (Option.some.inj takes).symm
            | receiving other own => exact inv.able _ (member.resolve_right (by simp)) epollfd takes
            | resetting other own => exact inv.able _ (member.resolve_right (by simp)) epollfd takes
            | closing other => contradiction
            | ended => contradiction

theorem step_inv (server : Server) (event : Event) (next : Server) (inv : server.Inv)
    (legal : server.Legal event) (inTime : server.InTime event)
    (taken : server.step event = .ok next) : next.Inv := by
  obtain rfl : server.after event = next := Except.ok.inj taken
  cases event with
  | write sockfd bytes =>
      exact ⟨Held.update inv.holds sockfd rfl rfl fun _ _ _ => rfl, inv.given, inv.able⟩
  | shutdown sockfd =>
      exact ⟨Held.update inv.holds sockfd rfl rfl fun _ _ _ => rfl, inv.given, inv.able⟩
  | wait reports =>
      obtain ⟨idle, once, ready⟩ := legal
      have holds := inv.holds
      rw [hands, idle, List.filterMap_nil, List.nil_append] at holds
      refine ⟨holds.report once fun sockfd member => ?_, inv.given, inv.able⟩
      have here := ready _ member
      exact ⟨here.1, here.2.1⟩
  | handle accepted => exact inv.handle legal inTime
  | run index result =>
      obtain ⟨worker, found, _⟩ := legal.1
      exact inv.run found result

theorem late_argument {server : Server} (inv : server.Inv) {accepted : Option Accepted}
    (late : ¬server.InTime (.handle accepted)) : ¬(server.handle accepted).Orderly := by
  cases events : server.events with
  | nil =>
      rw [InTime, events] at late
      exact absurd trivial late
  | cons source rest =>
      rw [InTime, events] at late
      intro orderly
      cases source with
      | listen =>
          simp only [Started, Classical.not_forall, not_or, Bool.not_eq_false] at late
          obtain ⟨new, some', harmful, worker, member, reading⟩ := late
          obtain rfl := Option.mem_def.mp some'
          obtain ⟨sockfd, argument⟩ := inv.given worker member reading
          have able := orderly.able
          simp only [Server.handle, events, Server.setClient, putLen, argument] at able
          refine harmful (able worker member new.clientLen ?_)
          cases worker with
          | starting => rfl
          | opening other => rfl
          | receiving other own => contradiction
          | resetting other own => contradiction
          | closing other => contradiction
          | ended => contradiction
      | client sockfd =>
          rw [Started, not_not] at late
          have exclusive := orderly.exclusive
          simp only [Server.handle, events, hands, List.filterMap_append] at exclusive
          obtain ⟨_, workers, _⟩ := List.nodup_append'.mp exclusive
          obtain ⟨_, _, apart⟩ := List.nodup_append'.mp workers
          exact apart (List.mem_filterMap.mpr ⟨_, late, rfl⟩) (List.mem_singleton_self sockfd)

/-- In every run, each connection is in the hands of at most one thread at any time, one with
something to be read is in the hands of one or going to be reported, and its thread can arm it
again, if and only if no report of a connection is handled while a thread has not read the
descriptor in its argument yet, and none is accepted while one has not read all of it. -/
theorem orderly_iff_inTime (epollfd : Nat) (events : List Event)
    (legal : Along step Legal (init epollfd) events) :
    Always step Orderly (init epollfd) events ↔ Along step InTime (init epollfd) events := by
  refine always_iff_along (fun _ inv => inv.orderly) step_inv ?_ events (init_inv epollfd) legal
  intro server event inv _ late
  refine ⟨_, rfl, ?_⟩
  cases event with
  | write sockfd bytes => exact absurd trivial late
  | shutdown sockfd => exact absurd trivial late
  | wait reports => exact absurd trivial late
  | handle accepted => exact late_argument inv late
  | run index result => exact absurd trivial late

def twoReports : List Event :=
  [.wait [.listen], .handle (some ⟨5, 16, [1], false⟩), .wait [.listen],
    .handle (some ⟨6, 16, [2], false⟩), .wait [.client 5, .client 6], .handle none, .handle none]

theorem orderly_iff_inTime_two :
    Always step Orderly (init 4) twoReports ↔ Along step InTime (init 4) twoReports :=
  orderly_iff_inTime 4 twoReports (by decide)

/-- A connection is accepted before the thread of another one has read its argument to the end. -/
example : ¬Along step InTime (init 4)
    [.wait [.listen], .handle (some ⟨5, 16, [1], false⟩), .wait [.client 5, .listen], .handle none,
      .run 0 .error, .handle (some ⟨6, 16, [2], false⟩)] := by decide

end Server

end StudyRecord.EpollOneshot
