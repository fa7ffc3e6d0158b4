import Mathlib.Logic.Function.Basic
import StudyRecord.Library.CString
import StudyRecord.Library.Readiness
import StudyRecord.Library.Runs

/-!
`handleTcpAndUdpSameTime.cpp`: one thread echoes what it receives over TCP and UDP. All
descriptors are edge-triggered. A client is read until `recv` has nothing more, and a report of
one of the two server sockets is answered with one `accept` or one `recvfrom`.
-/

namespace StudyRecord.TcpAndUdp

open CString Readiness Runs

def tcpBufferSize : Nat := 512

def udpBufferSize : Nat := 1024

inductive Source
  | listen
  | udp
  | client (id : Nat)
  deriving DecidableEq

/-- A connection, from its first byte on, which may come before it is accepted. -/
structure Client where
  watch : Watch UInt8
  finished : Bool
  registered : Bool
  closed : Bool
  sent : List UInt8

namespace Client

def fresh : Client := ⟨.empty, false, false, false, []⟩

def write (client : Client) (bytes : List UInt8) : Client :=
  { client with watch := client.watch.arrive bytes }

/-- The end of the stream, or a reset of the connection, is reported like data. -/
def shutdown (client : Client) : Client :=
  { client with finished := true, watch := client.watch.arrive [] }

def report (client : Client) : Client := { client with watch := client.watch.report }

def register (client : Client) : Client :=
  { client with
    registered := true
    watch := if client.finished then client.watch.rearm.arrive [] else client.watch.rearm }

def echo (client : Client) (count accepted : Nat) : Client :=
  { client with
    watch := client.watch.take count
    sent := client.sent ++ (client.watch.queue.take count).take accepted }

def finish (client : Client) : Client :=
  { client with watch := client.watch.release, closed := client.closed || client.finished }

end Client

/-- `buf` is the array of the UDP branch, which keeps its memory from pass to pass and shares its
first `TCP_BUFFER_SIZE` bytes with that of the TCP branch; `batch` is what is left of the reported
events. -/
structure Server where
  backlog : Watch Nat
  datagrams : Watch (List UInt8)
  clients : Nat → Client
  buf : Buffer
  answers : List (List UInt8)
  batch : List Source

inductive Event
  | connect (id : Nat)
  | write (id : Nat) (bytes : List UInt8)
  | shutdown (id : Nat)
  | datagram (data : List UInt8)
  | wait (reports : List Source)
  | serve (count accepted : Nat)
  | refuse

namespace Server

def init (buf : Buffer) : Server where
  backlog := .empty
  datagrams := .empty
  clients := fun _ => .fresh
  buf := buf
  answers := []
  batch := []

def setClient (server : Server) (id : Nat) (client : Client) : Server :=
  { server with clients := Function.update server.clients id client }

def serveListen (server : Server) : Server :=
  match server.backlog.queue with
  | [] => { server with backlog := server.backlog.release }
  | id :: _ =>
      { server with backlog := (server.backlog.take 1).release }.setClient id
        (server.clients id).register

/-- `recvfrom` cuts a datagram to the buffer, and `sendto` sends `strlen(buf)` bytes. -/
def answer (server : Server) (data : List UInt8) : Server :=
  let received := data.take (udpBufferSize - 1)
  let buf := copyIn server.buf 0 received
  { server with
    buf := buf
    answers :=
      if received = [] then server.answers else server.answers ++ [stringAt udpBufferSize buf 0] }

def serveUdp (server : Server) : Server :=
  match server.datagrams.queue with
  | [] => { server with datagrams := server.datagrams.release }
  | data :: _ => { server with datagrams := (server.datagrams.take 1).release }.answer data

def fill (server : Server) (received : List UInt8) : Server :=
  { server with buf := copyIn (memset server.buf 0 tcpBufferSize) 0 received }

def serveClient (server : Server) (id : Nat) (rest : List Source) (count accepted : Nat) : Server :=
  if (server.clients id).watch.queue = [] then
    { server.fill [] with batch := rest }.setClient id (server.clients id).finish
  else
    (server.fill ((server.clients id).watch.queue.take count)).setClient id
      ((server.clients id).echo count accepted)

def serve (server : Server) (count accepted : Nat) : Server :=
  match server.batch with
  | [] => server
  | .listen :: rest => { server with batch := rest }.serveListen
  | .udp :: rest => { server with batch := rest }.serveUdp
  | .client id :: rest => server.serveClient id rest count accepted

/-- `accept` or `recvfrom` fails for want of a descriptor or of memory. The report is spent, and
what it stood for stays where it is. -/
def refuse (server : Server) : Server :=
  match server.batch with
  | .listen :: rest => { server with batch := rest, backlog := server.backlog.release }
  | .udp :: rest => { server with batch := rest, datagrams := server.datagrams.release }
  | _ => server

def wait (server : Server) (reports : List Source) : Server where
  backlog := if .listen ∈ reports then server.backlog.report else server.backlog
  datagrams := if .udp ∈ reports then server.datagrams.report else server.datagrams
  clients id := if .client id ∈ reports then (server.clients id).report else server.clients id
  buf := server.buf
  answers := server.answers
  batch := reports

def after (server : Server) : Event → Server
  | .connect id => { server with backlog := server.backlog.arrive [id] }
  | .write id bytes => server.setClient id ((server.clients id).write bytes)
  | .shutdown id => server.setClient id (server.clients id).shutdown
  | .datagram data => { server with datagrams := server.datagrams.arrive [data] }
  | .wait reports => server.wait reports
  | .serve count accepted => server.serve count accepted
  | .refuse => server.refuse

def step (server : Server) (event : Event) : Except Empty Server := .ok (server.after event)

def Due (server : Server) : Source → Prop
  | .listen => server.backlog.edge = true
  | .udp => server.datagrams.edge = true
  | .client id =>
      (server.clients id).registered = true ∧ (server.clients id).closed = false ∧
        (server.clients id).watch.edge = true

/-- A client connects once and writes until it has shut down its side, and `recv` returns at
least one byte and at most what fits the buffer. -/
def Legal (server : Server) : Event → Prop
  | .connect id => id ∉ server.backlog.arrived
  | .write id _ => id ∈ server.backlog.arrived ∧ (server.clients id).finished = false
  | .shutdown id => id ∈ server.backlog.arrived ∧ (server.clients id).finished = false
  | .datagram _ => True
  | .wait reports => server.batch = [] ∧ reports.Nodup ∧ ∀ source ∈ reports, server.Due source
  | .serve count _ => server.batch ≠ [] ∧ 1 ≤ count ∧ count ≤ tcpBufferSize - 1
  | .refuse => server.batch.head? = some .listen ∨ server.batch.head? = some .udp

instance decidableDue (server : Server) : ∀ source, Decidable (server.Due source)
  | .listen => inferInstanceAs (Decidable (server.backlog.edge = true))
  | .udp => inferInstanceAs (Decidable (server.datagrams.edge = true))
  | .client id =>
      inferInstanceAs (Decidable
        ((server.clients id).registered = true ∧ (server.clients id).closed = false ∧
          (server.clients id).watch.edge = true))

instance decidableLegal (server : Server) : ∀ event, Decidable (server.Legal event)
  | .connect id => inferInstanceAs (Decidable (id ∉ server.backlog.arrived))
  | .write id _ =>
      inferInstanceAs (Decidable
        (id ∈ server.backlog.arrived ∧ (server.clients id).finished = false))
  | .shutdown id =>
      inferInstanceAs (Decidable
        (id ∈ server.backlog.arrived ∧ (server.clients id).finished = false))
  | .datagram _ => .isTrue trivial
  | .wait reports =>
      inferInstanceAs (Decidable
        (server.batch = [] ∧ reports.Nodup ∧ ∀ source ∈ reports, server.Due source))
  | .serve count _ =>
      inferInstanceAs (Decidable (server.batch ≠ [] ∧ 1 ≤ count ∧ count ≤ tcpBufferSize - 1))
  | .refuse =>
      inferInstanceAs (Decidable
        (server.batch.head? = some .listen ∨ server.batch.head? = some .udp))

@[simp] theorem setClient_self (server : Server) (id : Nat) (client : Client) :
    (server.setClient id client).clients id = client :=
  Function.update_self ..

@[simp] theorem setClient_other (server : Server) {id other : Nat} (client : Client)
    (different : other ≠ id) : (server.setClient id client).clients other = server.clients other :=
  Function.update_of_ne different ..

@[simp] theorem setClient_backlog (server : Server) (id : Nat) (client : Client) :
    (server.setClient id client).backlog = server.backlog := rfl

@[simp] theorem setClient_batch (server : Server) (id : Nat) (client : Client) :
    (server.setClient id client).batch = server.batch := rfl

end Server

/-! No client that is connected and open is forgotten. -/

namespace Client

structure Tended (client : Client) (busy : Prop) : Prop where
  held : client.watch.held = true ↔ busy
  attentive : client.registered = true → client.closed = false → client.watch.Attentive
  ended : client.registered = true → client.closed = false → client.finished = true →
    client.watch.held = false → client.watch.edge = true
  done : client.closed = true → client.finished = true ∧ client.watch.queue = []

section Tended

variable {client : Client} {busy : Prop}

theorem fresh_tended : fresh.Tended False where
  held := iff_of_false Bool.false_ne_true id
  attentive _ _ := Watch.empty_attentive
  ended _ _ finished := absurd finished Bool.false_ne_true
  done closed := absurd closed Bool.false_ne_true

theorem Tended.congr {busy' : Prop} (tended : client.Tended busy) (same : busy ↔ busy') :
    client.Tended busy' :=
  ⟨tended.held.trans same, tended.attentive, tended.ended, tended.done⟩

theorem Tended.write (tended : client.Tended busy) (unfinished : client.finished = false)
    (bytes : List UInt8) : (client.write bytes).Tended busy where
  held := tended.held
  attentive _ _ := Watch.arrive_attentive client.watch bytes
  ended _ _ _ _ := rfl
  done closed := by
    have finished := (tended.done closed).1
    rw [unfinished] at finished
    contradiction

theorem Tended.shutdown (tended : client.Tended busy) : client.shutdown.Tended busy where
  held := tended.held
  attentive _ _ := Watch.arrive_attentive client.watch []
  ended _ _ _ _ := rfl
  done closed := by
    refine ⟨rfl, ?_⟩
    show client.watch.queue ++ [] = []
    rw [List.append_nil]
    exact (tended.done closed).2

theorem Tended.report (tended : client.Tended busy) : client.report.Tended True where
  held := iff_of_true rfl trivial
  attentive _ _ := Watch.held_attentive rfl
  ended _ _ _ free := absurd free.symm Bool.false_ne_true
  done := tended.done

theorem Tended.register (tended : client.Tended busy) : client.register.Tended False := by
  cases finished : client.finished with
  | true =>
      have rearmed : client.register.watch = client.watch.rearm.arrive [] := by
        rw [Client.register, finished, if_pos rfl]
      refine ⟨?_, fun _ _ => ?_, fun _ _ _ _ => ?_, fun closed => ⟨finished, ?_⟩⟩
      · rw [rearmed]
        exact iff_of_false Bool.false_ne_true id
      · rw [rearmed]
        exact Watch.arrive_attentive client.watch.rearm []
      · rw [rearmed]
        rfl
      · rw [rearmed]
        show client.watch.queue ++ [] = []
        rw [List.append_nil]
        exact (tended.done closed).2
  | false =>
      have rearmed : client.register.watch = client.watch.rearm := by
        rw [Client.register, finished, if_neg Bool.false_ne_true]
      have unfinished : client.register.finished ≠ true := by
        rw [show client.register.finished = client.finished from rfl, finished]
        exact Bool.false_ne_true
      refine ⟨?_, fun _ _ => ?_, fun _ _ ended => absurd ended unfinished, fun closed => ?_⟩
      · rw [rearmed]
        exact iff_of_false Bool.false_ne_true id
      · rw [rearmed]
        exact Watch.rearm_attentive client.watch
      · exact absurd (tended.done closed).1 unfinished

theorem Tended.echo (tended : client.Tended busy) (reported : busy) (count accepted : Nat) :
    (client.echo count accepted).Tended busy where
  held := tended.held
  attentive _ _ := Watch.held_attentive (tended.held.mpr reported)
  ended _ _ _ free := absurd ((tended.held.mpr reported).symm.trans free) Bool.true_eq_false.mp
  done closed := by
    obtain ⟨finished, empty⟩ := tended.done closed
    refine ⟨finished, ?_⟩
    show client.watch.queue.drop count = []
    rw [empty, List.drop_nil]

theorem Tended.finish (tended : client.Tended busy) (empty : client.watch.queue = []) :
    client.finish.Tended False where
  held := iff_of_false Bool.false_ne_true id
  attentive _ _ := Watch.release_attentive empty
  ended _ opened finished _ := by
    have either : client.finish.closed = (client.closed || client.finished) := rfl
    rw [either, Bool.or_eq_false_iff] at opened
    exact absurd (opened.2.symm.trans finished) Bool.false_ne_true
  done closed := by
    have either : client.finish.closed = (client.closed || client.finished) := rfl
    rw [either, Bool.or_eq_true] at closed
    refine ⟨?_, empty⟩
    obtain before | finished := closed
    · exact (tended.done before).1
    · exact finished

end Tended

end Client

namespace Server

structure Tended (server : Server) : Prop where
  once : server.backlog.arrived.Nodup
  order : server.batch.Nodup
  accepted : ∀ id, (server.clients id).registered = true ↔ id ∈ server.backlog.taken
  reported : ∀ id, .client id ∈ server.batch → (server.clients id).registered = true
  clients : ∀ id, (server.clients id).Tended (.client id ∈ server.batch)

section Tended

variable {server : Server}

theorem init_tended (buf : Buffer) : (init buf).Tended where
  once := List.nodup_nil
  order := List.nodup_nil
  accepted _ := iff_of_false Bool.false_ne_true List.not_mem_nil
  reported _ member := absurd member List.not_mem_nil
  clients _ := Client.fresh_tended.congr (iff_of_false id List.not_mem_nil)

theorem Tended.connect (tended : server.Tended) {id : Nat}
    (new : id ∉ server.backlog.arrived) :
    Tended { server with backlog := server.backlog.arrive [id] } where
  once := by
    show (server.backlog.arrive [id]).arrived.Nodup
    rw [Watch.arrived_arrive, List.nodup_append]
    refine ⟨tended.once, by simp, fun other member same mine => ?_⟩
    obtain rfl := List.mem_singleton.mp mine
    rintro rfl
    exact new member
  order := tended.order
  accepted := tended.accepted
  reported := tended.reported
  clients := tended.clients

theorem Tended.setClient (tended : server.Tended) {id : Nat} {client : Client}
    (registered : client.registered = (server.clients id).registered)
    (here : client.Tended (.client id ∈ server.batch)) :
    (server.setClient id client).Tended where
  once := tended.once
  order := tended.order
  accepted other := by
    by_cases same : other = id
    · subst same
      rw [setClient_self, registered]
      exact tended.accepted other
    · rw [setClient_other server client same]
      exact tended.accepted other
  reported other member := by
    have before := tended.reported other member
    by_cases same : other = id
    · subst same
      rw [setClient_self, registered]
      exact before
    · rw [setClient_other server client same]
      exact before
  clients other := by
    by_cases same : other = id
    · subst same
      rw [setClient_self]
      exact here
    · rw [setClient_other server client same]
      exact tended.clients other

theorem Tended.wait (tended : server.Tended) {reports : List Source} (idle : server.batch = [])
    (once : reports.Nodup) (due : ∀ source ∈ reports, server.Due source) :
    (server.wait reports).Tended := by
  have same (id : Nat) :
      ((server.wait reports).clients id).registered = (server.clients id).registered := by
    simp only [Server.wait]
    split <;> rfl
  refine ⟨?_, once, fun id => ?_, fun id member => ?_, fun id => ?_⟩
  · have before := tended.once
    simp only [Server.wait]
    split
    · exact before
    · exact before
  · rw [same]
    have before := tended.accepted id
    simp only [Server.wait]
    split
    · exact before
    · exact before
  · rw [same]
    exact (due _ member).1
  · show Client.Tended (if .client id ∈ reports then _ else _) _
    have before := tended.clients id
    rw [idle] at before
    split
    · rename_i member
      exact before.report.congr (iff_of_true trivial member)
    · rename_i missing
      exact before.congr (iff_of_false List.not_mem_nil missing)

theorem mem_batch_tail {source head : Source} {batch rest : List Source}
    (shape : batch = head :: rest) (different : source ≠ head) :
    source ∈ batch ↔ source ∈ rest := by
  rw [shape, List.mem_cons]
  exact or_iff_right different

theorem Tended.pop (tended : server.Tended) {source : Source} {rest : List Source}
    (shape : server.batch = source :: rest) (socket : ∀ id, source ≠ .client id) :
    Tended { server with batch := rest } := by
  have same (id : Nat) : .client id ∈ server.batch ↔ .client id ∈ rest :=
    mem_batch_tail shape fun here => socket id here.symm
  have order := tended.order
  rw [shape, List.nodup_cons] at order
  exact ⟨tended.once, order.2, tended.accepted,
    fun id member => tended.reported id ((same id).mpr member),
    fun id => (tended.clients id).congr (same id)⟩

theorem Tended.serveListen (tended : server.Tended) : server.serveListen.Tended := by
  rw [Server.serveListen]
  split
  · exact ⟨tended.once, tended.order, tended.accepted, tended.reported, tended.clients⟩
  · rename_i id queue shape
    have arrived : (server.backlog.take 1).arrived = server.backlog.arrived := by simp
    have taken : (server.backlog.take 1).taken = server.backlog.taken ++ [id] := by
      rw [Watch.take, shape]
      rfl
    have unaccepted : id ∉ server.backlog.taken := by
      have once := tended.once
      rw [Watch.arrived, shape, List.nodup_append] at once
      exact fun member => once.2.2 id member id List.mem_cons_self rfl
    have unreported : .client id ∉ server.batch := fun member =>
      unaccepted ((tended.accepted id).mp (tended.reported id member))
    refine ⟨?_, tended.order, fun other => ?_, fun other member => ?_, fun other => ?_⟩
    · show (server.backlog.take 1).arrived.Nodup
      rw [arrived]
      exact tended.once
    · show _ ↔ other ∈ (server.backlog.take 1).taken
      rw [taken, List.mem_append, List.mem_singleton]
      by_cases same : other = id
      · subst same
        rw [setClient_self]
        exact iff_of_true rfl (.inr rfl)
      · rw [setClient_other _ _ same, or_iff_left same]
        exact tended.accepted other
    · by_cases same : other = id
      · subst same
        exact absurd member unreported
      · rw [setClient_other _ _ same]
        exact tended.reported other member
    · by_cases same : other = id
      · subst same
        rw [setClient_self]
        exact (tended.clients other).register.congr (iff_of_false False.elim unreported)
      · rw [setClient_other _ _ same]
        exact tended.clients other

theorem Tended.serveUdp (tended : server.Tended) : server.serveUdp.Tended := by
  rw [Server.serveUdp]
  split
  · exact ⟨tended.once, tended.order, tended.accepted, tended.reported, tended.clients⟩
  · exact ⟨tended.once, tended.order, tended.accepted, tended.reported, tended.clients⟩

theorem Tended.fill (tended : server.Tended) (received : List UInt8) :
    (server.fill received).Tended :=
  ⟨tended.once, tended.order, tended.accepted, tended.reported, tended.clients⟩

theorem Tended.refuse (tended : server.Tended) : server.refuse.Tended := by
  rw [Server.refuse]
  split
  · rename_i rest shape
    have popped := tended.pop shape (by simp)
    exact ⟨popped.once, popped.order, popped.accepted, popped.reported, popped.clients⟩
  · rename_i rest shape
    have popped := tended.pop shape (by simp)
    exact ⟨popped.once, popped.order, popped.accepted, popped.reported, popped.clients⟩
  · exact tended

theorem Tended.serveClient (tended : server.Tended) {id : Nat} {rest : List Source}
    (shape : server.batch = .client id :: rest) (count accepted : Nat) :
    (server.serveClient id rest count accepted).Tended := by
  have here : .client id ∈ server.batch := shape ▸ List.mem_cons_self
  rw [Server.serveClient]
  split
  · rename_i empty
    have order := tended.order
    rw [shape, List.nodup_cons] at order
    have later (other : Nat) (different : other ≠ id) :
        .client other ∈ server.batch ↔ .client other ∈ rest :=
      mem_batch_tail shape fun same => different (Source.client.inj same)
    refine ⟨tended.once, order.2, fun other => ?_, fun other member => ?_, fun other => ?_⟩
    · by_cases same : other = id
      · subst same
        rw [setClient_self]
        exact tended.accepted other
      · rw [setClient_other _ _ same]
        exact tended.accepted other
    · by_cases same : other = id
      · subst same
        exact absurd member order.1
      · rw [setClient_other _ _ same]
        exact tended.reported other ((later other same).mpr member)
    · by_cases same : other = id
      · subst same
        rw [setClient_self]
        exact ((tended.clients other).finish empty).congr (iff_of_false False.elim order.1)
      · rw [setClient_other _ _ same]
        exact (tended.clients other).congr (later other same)
  · exact (tended.fill _).setClient rfl ((tended.clients id).echo here count accepted)

theorem Tended.serve (tended : server.Tended) (count accepted : Nat) :
    (server.serve count accepted).Tended := by
  rw [Server.serve]
  split
  · exact tended
  · rename_i rest shape
    exact (tended.pop shape (by simp)).serveListen
  · rename_i rest shape
    exact (tended.pop shape (by simp)).serveUdp
  · rename_i id rest shape
    exact tended.serveClient shape count accepted

theorem step_tended (server : Server) (event : Event) (next : Server) (tended : server.Tended)
    (legal : server.Legal event) (taken : step server event = .ok next) : next.Tended := by
  obtain rfl := Except.ok.inj taken
  cases event with
  | connect id => exact tended.connect legal
  | write id bytes => exact tended.setClient rfl ((tended.clients id).write legal.2 bytes)
  | shutdown id => exact tended.setClient rfl (tended.clients id).shutdown
  | datagram data =>
      exact ⟨tended.once, tended.order, tended.accepted, tended.reported, tended.clients⟩
  | wait reports => exact tended.wait legal.1 legal.2.1 legal.2.2
  | serve count accepted => exact tended.serve count accepted
  | refuse => exact tended.refuse

end Tended

/-- In every run, whenever the server goes back to `epoll_wait`, each open connection that has
been accepted and has bytes to be read, or its end, is reported there; and none is closed before
its end, or with bytes unread. -/
theorem clients_attended {buf : Buffer} {events : List Event} {server : Server}
    (legal : Along step Legal (init buf) events) (reached : run step (init buf) events = .ok server)
    (id : Nat) :
    (server.batch = [] → (server.clients id).registered = true →
      (server.clients id).closed = false →
      (server.clients id).watch.queue ≠ [] ∨ (server.clients id).finished = true →
      server.Due (.client id)) ∧
    ((server.clients id).closed = true →
      (server.clients id).finished = true ∧ (server.clients id).watch.queue = []) := by
  have tended := run_invariant step_tended events (init_tended buf) legal reached
  refine ⟨fun idle registered opened waiting => ⟨registered, opened, ?_⟩,
    (tended.clients id).done⟩
  have free : (server.clients id).watch.held = false := by
    rw [Bool.eq_false_iff]
    intro held
    have member := (tended.clients id).held.mp held
    rw [idle] at member
    exact List.not_mem_nil member
  obtain unread | finished := waiting
  · exact (tended.clients id).attentive registered opened free unread
  · exact (tended.clients id).ended registered opened finished free

theorem clients_attended_early :
    ∃ server, run step (init fun _ => 0)
        [.connect 0, .write 0 [1, 2], .wait [.listen], .serve 1 0, .shutdown 0] = .ok server ∧
      server.Due (.client 0) := by
  have legal : Along step Legal (init fun _ => 0)
      [.connect 0, .write 0 [1, 2], .wait [.listen], .serve 1 0, .shutdown 0] := by decide
  exact ⟨_, rfl, (clients_attended legal rfl 0).1 rfl rfl rfl (.inr rfl)⟩

end Server

end StudyRecord.TcpAndUdp
