import StudyRecord.Timer.SortedList

/-!
The server of `practice/closeInactiveConnection.cpp`: one timer for each client in the sorted
timer list, and an event loop that handles the events of a batch one after the other. A
timer is known by its place in the order of creation, so that a pointer to a deleted one
is never valid again.
-/

namespace StudyRecord.CloseInactive

open SortedList LinkedList

def timeslot : Int := 5

def sigint : UInt8 := 2

def sigalrm : UInt8 := 14

def sigterm : UInt8 := 15

/-- `client_data`, but for the address and the buffer. -/
structure ClientData where
  sockfd : Nat
  timer : Option Nat
  deriving DecidableEq

inductive Source
  | listen
  | pipe
  | client (fd : Nat) (readable : Bool)
  deriving DecidableEq

/-- `connected` says which descriptors of clients are open. `created` and `deleted` are
looked at by no function. -/
structure Server where
  users : Nat → ClientData
  timers : TimerList Unit Nat
  connected : Nat → Bool
  timeout : Bool
  stopServer : Bool
  /-- the process has returned from `main` and destroyed the list -/
  finished : Bool
  /-- the events of the batch that are not handled, and the index of the first of them -/
  batch : List Source
  index : Nat
  created : Nat
  deleted : List Nat

inductive Fault
  /-- a timer that was deleted is used -/
  | deletedTimer
  /-- `close` of a descriptor whose client is not connected -/
  | notConnected
  /-- `assert(user_data)` -/
  | assertion
  deriving DecidableEq

structure Answer where
  clientfd : Nat
  ret : Int
  again : Bool
  signals : Nat → UInt8
  cur : Int
  tickTime : Int

namespace Server

/-- Memory that `new` hands out for the table holds anything. -/
def init (users : Nat → ClientData) : Server where
  users := users
  timers := .empty
  connected := fun _ => false
  timeout := false
  stopServer := false
  finished := false
  batch := []
  index := 0
  created := 0
  deleted := []

def cbFunc (server : Server) (userData : Option Nat) : Except Fault Server :=
  match userData with
  | none => .error .assertion
  | some slot =>
      let fd := (server.users slot).sockfd
      if server.connected fd then
        .ok { server with connected := Function.update server.connected fd false }
      else
        .error .notConnected

def delTimer (server : Server) (timer : Option Nat) : Except Fault Server :=
  match server.timers.delTimer timer with
  | none => .error .deletedTimer
  | some timers => .ok { server with timers, deleted := server.deleted ++ timer.toList }

def tick (server : Server) (cur : Int) : Except Fault Server :=
  match server.timers.tick cur with
  | none => .error .deletedTimer
  | some (timers, fired) => do
      let server ← fired.foldlM (fun server timer => server.cbFunc timer.2.userData) server
      return { server with timers, deleted := server.deleted ++ fired.map Prod.fst }

def handleTimeout (server : Server) (cur : Int) : Except Fault Server :=
  if server.timeout then do
    let server ← server.tick cur
    return { server with timeout := false }
  else
    .ok server

def accept (server : Server) (clientfd : Nat) (cur : Int) : Except Fault Server :=
  let timer := server.created
  let timers := server.timers.newTimer timer ⟨cur + 3 * timeslot, (), some clientfd⟩
  match timers.addTimer (some timer) with
  | none => .error .deletedTimer
  | some timers =>
      .ok { server with
        users := Function.update server.users clientfd ⟨clientfd, some timer⟩
        connected := Function.update server.connected clientfd true
        timers
        created := timer + 1 }

/-- The switch of the loop over the signals, which looks at the signal with the index of
the event each time. -/
def signal (server : Server) (sig : UInt8) : Server :=
  if sig = sigalrm then
    { server with timeout := true }
  else if sig = sigterm ∨ sig = sigint then
    { server with stopServer := true }
  else
    server

/-- `recv` from a descriptor that is not open fails, and not with `EAGAIN`. -/
def receive (server : Server) (sockfd : Nat) (answer : Answer) : Int × Bool :=
  if server.connected sockfd then (answer.ret, answer.again) else (-1, false)

def client (server : Server) (sockfd : Nat) (answer : Answer) : Except Fault Server :=
  let (ret, again) := server.receive sockfd answer
  let timer := (server.users sockfd).timer
  if ret ≤ 0 then
    if again = false ∨ ret = 0 then do
      let server ← server.cbFunc (some sockfd)
      server.delTimer timer
    else
      .ok server
  else
    match timer with
    | none => .ok server
    | some timer =>
        let expired := server.timers.setExpire timer (answer.cur + timeslot * 3)
        match expired.bind fun timers => timers.adjustTimer (some timer) with
        | none => .error .deletedTimer
        | some timers => .ok { server with timers }

/-- One pass of the loop over the batch. A failed `recv` from the pipe ends the loop, and
an empty one goes on with the next event at once. -/
def handle (server : Server) (answer : Answer) : Except Fault Server :=
  match server.batch with
  | [] => .ok server
  | source :: rest =>
      let i := server.index
      let server := { server with batch := rest, index := i + 1 }
      match source with
      | .listen => do
          let server ← server.accept answer.clientfd answer.cur
          server.handleTimeout answer.tickTime
      | .pipe =>
          if answer.ret = -1 then
            .ok { server with batch := [] }
          else if answer.ret = 0 then
            .ok server
          else
            let sig := answer.signals i
            let server := (List.range answer.ret.toNat).foldl (fun server _ => server.signal sig) server
            server.handleTimeout answer.tickTime
      | .client fd true => do
          let server ← server.client fd answer
          server.handleTimeout answer.tickTime
      | .client _ false => server.handleTimeout answer.tickTime

def destroyLoop (heap : Heap (UtilTimer Unit Nat)) :
    Nat → Option Nat → List Nat → Option (Heap (UtilTimer Unit Nat) × List Nat)
  | _, none, deleted => some (heap, deleted)
  | 0, some _, _ => none
  | fuel + 1, some timer, deleted => do
      let node ← heap timer
      destroyLoop (Function.update heap timer none) fuel node.next (deleted ++ [timer])

def finish (server : Server) : Except Fault Server :=
  let list := server.timers
  match destroyLoop list.heap list.allocated list.head server.deleted with
  | none => .error .deletedTimer
  | some (heap, deleted) =>
      .ok { server with
        timers := { list with heap, head := none }
        deleted
        finished := true }

end Server

inductive Event
  | wait (batch : List Source)
  | handle (answer : Answer)
  | finish

def step (server : Server) : Event → Except Fault Server
  | .wait batch => .ok { server with batch, index := 0 }
  | .handle answer => server.handle answer
  | .finish => server.finish

def Source.Open (server : Server) : Source → Prop
  | .client fd _ => server.connected fd = true
  | .listen | .pipe => True

def Source.Accepts (server : Server) (answer : Answer) : Source → Prop
  | .listen => server.connected answer.clientfd = false
  | .pipe | .client _ _ => True

/-- `epoll_wait` reports what is the case then, and the events of a batch are handled in
their order, until `main` returns. The model of `users` has no end: its `FD_LIMIT` entries are
enough for a process whose descriptors are below that number. -/
def Legal (server : Server) : Event → Prop
  | .wait batch => server.finished = false ∧ server.stopServer = false ∧ server.batch = [] ∧
      ∀ source ∈ batch, source.Open server
  | .handle answer => server.finished = false ∧
      ∃ source ∈ server.batch.head?, source.Accepts server answer
  | .finish => server.finished = false ∧ server.batch = []

instance decidableOpen (server : Server) (source : Source) : Decidable (source.Open server) :=
  match source with
  | .client fd _ => inferInstanceAs (Decidable (server.connected fd = true))
  | .listen | .pipe => .isTrue trivial

instance decidableAccepts (server : Server) (answer : Answer) (source : Source) :
    Decidable (source.Accepts server answer) :=
  match source with
  | .listen => inferInstanceAs (Decidable (server.connected answer.clientfd = false))
  | .pipe | .client _ _ => .isTrue trivial

instance decidableLegal (server : Server) (event : Event) : Decidable (Legal server event) :=
  match event with
  | .wait batch =>
      inferInstanceAs (Decidable (server.finished = false ∧ server.stopServer = false ∧
        server.batch = [] ∧ ∀ source ∈ batch, source.Open server))
  | .handle answer =>
      inferInstanceAs (Decidable (server.finished = false ∧
        ∃ source ∈ server.batch.head?, source.Accepts server answer))
  | .finish => inferInstanceAs (Decidable (server.finished = false ∧ server.batch = []))

/-- An event of a client with `EPOLLIN` is handled while the client is still connected, or
its descriptor is a new client's. -/
def Source.Current (server : Server) : Source → Prop
  | .client fd true => server.connected fd = true
  | .client _ false | .listen | .pipe => True

def Current (server : Server) : Event → Prop
  | .handle _ => ∀ source ∈ server.batch.head?, source.Current server
  | .wait _ | .finish => True

end StudyRecord.CloseInactive
