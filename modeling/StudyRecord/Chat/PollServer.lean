import StudyRecord.Library.CString
import StudyRecord.Library.Runs

/-!
The chat server of `practice/chatRoomServer.cpp`: one table for `poll`, and for each client
one buffer for what it has said and one pointer to what it is to be sent. A round visits
the entries of the table one after the other.
-/

namespace StudyRecord.PollServer

open CString

def userLimit : Nat := 5

def bufferSize : Nat := 64

structure Flags where
  pollin : Bool
  pollout : Bool
  pollrdhup : Bool
  pollerr : Bool
  deriving DecidableEq

def Flags.none : Flags := ⟨false, false, false, false⟩

structure PollFd where
  fd : Nat
  events : Flags
  revents : Flags
  deriving DecidableEq

/-- `client_data`, but for the address. A pointer leads to the buffer of a descriptor. -/
structure ClientData where
  writeBuf : Option Nat
  buf : Buffer

structure Message where
  number : Nat
  sender : Nat
  bytes : List UInt8
  deriving DecidableEq

/-- The server, within a round if `i` is not above `userCount`. No function looks at the
fields from `received` on. -/
structure Server where
  listenFd : Nat
  users : Nat → ClientData
  fds : Nat → PollFd
  userCount : Nat
  i : Nat
  received : Nat
  /-- the messages for a client since it joined or was last writable -/
  pending : Nat → List Message
  /-- the messages that were pending when the client was writable -/
  due : Nat → List Message
  /-- what was sent to the client -/
  sent : Nat → List (List UInt8)
  /-- the last message of a client that is connected and has not been read from since -/
  kept : Nat → Option Message

/-- The result of `recv`: an error, the end, or at least one byte. -/
inductive Received
  | failed (again : Bool)
  | closed
  | data (bytes : List UInt8)
  deriving DecidableEq

structure Answer where
  connfd : Option Nat
  recv : Received

namespace Server

/-- Memory that `new` hands out for the users holds anything. The entries behind the last
one, -1 in the source, are written before they are read. -/
def init (listenFd : Nat) (users : Nat → ClientData) : Server where
  listenFd := listenFd
  users := users
  fds := fun i => if i = 0 then ⟨listenFd, ⟨true, false, false, true⟩, .none⟩ else ⟨0, .none, .none⟩
  userCount := 0
  i := 1
  received := 0
  pending := fun _ => []
  due := fun _ => []
  sent := fun _ => []
  kept := fun _ => .none

def poll (server : Server) (revents : Nat → Flags) : Server :=
  { server with
    fds := fun i =>
      if i ≤ server.userCount then { server.fds i with revents := revents i } else server.fds i
    i := 0 }

def next (server : Server) : Server := { server with i := server.i + 1 }

def accept (server : Server) (connfd : Option Nat) : Server :=
  match connfd with
  | .none => server
  | some connfd =>
      if server.userCount ≥ userLimit then
        server
      else
        let userCount := server.userCount + 1
        { server with
          userCount
          fds := Function.update server.fds userCount ⟨connfd, ⟨true, false, true, true⟩, .none⟩
          pending := Function.update server.pending connfd []
          due := Function.update server.due connfd []
          sent := Function.update server.sent connfd [] }

def clear (server : Server) (fd : Nat) : Server :=
  let user := server.users fd
  { server with
    users := Function.update server.users fd { user with buf := memset user.buf 0 bufferSize }
    kept := Function.update server.kept fd .none }

def setWriteBuf (server : Server) (fd : Nat) (pointer : Option Nat) : Server :=
  { server with
    users := Function.update server.users fd { server.users fd with writeBuf := pointer } }

def leave (server : Server) (fd : Nat) : Server :=
  let server := (server.setWriteBuf fd .none).clear fd
  { server with
    fds := Function.update server.fds server.i (server.fds server.userCount)
    userCount := server.userCount - 1 }

/-- The pass of the inner loop for the entry `j`, which is to be sent the message. -/
def address (message : Message) (server : Server) (j : Nat) : Server :=
  let entry := server.fds j
  if entry.fd = message.sender then
    server
  else
    let events := { entry.events with pollin := false, pollout := true }
    { server.setWriteBuf entry.fd (some message.sender) with
      fds := Function.update server.fds j { entry with events }
      pending := Function.update server.pending entry.fd (server.pending entry.fd ++ [message]) }

def receive (server : Server) (connfd : Nat) (recv : Received) : Server :=
  let server := server.clear connfd
  match recv with
  | .failed again => if again then server.next else server.leave connfd
  | .closed => server.next
  | .data bytes =>
      let message : Message := ⟨server.received, connfd, bytes⟩
      let user := server.users connfd
      let server := { server with
        users := Function.update server.users connfd { user with buf := copyIn user.buf 0 bytes }
        received := server.received + 1
        kept := Function.update server.kept connfd (some message) }
      ((List.range' 1 server.userCount).foldl (address message) server).next

def send (server : Server) (connfd : Nat) : Server :=
  let server := { server with
    pending := Function.update server.pending connfd []
    due := Function.update server.due connfd (server.due connfd ++ server.pending connfd) }
  match (server.users connfd).writeBuf with
  | .none => server
  | some fd =>
      let text := stringAt bufferSize (server.users fd).buf 0
      let entry := server.fds server.i
      let events := { entry.events with pollout := false, pollin := true }
      { server.setWriteBuf connfd .none with
        fds := Function.update server.fds server.i { entry with events }
        sent := Function.update server.sent connfd (server.sent connfd ++ [text]) }

inductive Branch
  | listen
  | pollerr
  | pollrdhup
  | pollin
  | pollout
  | nothing
  deriving DecidableEq

def branch (server : Server) : Branch :=
  let entry := server.fds server.i
  if entry.fd = server.listenFd ∧ entry.revents.pollin then .listen
  else if entry.revents.pollerr then .pollerr
  else if entry.revents.pollrdhup then .pollrdhup
  else if entry.revents.pollin then .pollin
  else if entry.revents.pollout then .pollout
  else .nothing

/-- One pass of the loop over the entries. A client that goes leaves `i` at the entry that
has taken its place. -/
def visit (server : Server) (answer : Answer) : Server :=
  let fd := (server.fds server.i).fd
  match server.branch with
  | .listen => (server.accept answer.connfd).next
  | .pollerr => server.next
  | .pollrdhup => server.leave fd
  | .pollin => server.receive fd answer.recv
  | .pollout => (server.send fd).next
  | .nothing => server.next

end Server

inductive Event
  | poll (revents : Nat → Flags)
  | visit (answer : Answer)

def step (server : Server) : Event → Except Empty Server
  | .poll revents => .ok (server.poll revents)
  | .visit answer => .ok (server.visit answer)

def Received.Legal : Received → Prop
  | .failed _ | .closed => True
  | .data bytes => bytes ≠ [] ∧ bytes.length ≤ bufferSize - 1

instance decidableReceived : ∀ recv : Received, Decidable recv.Legal
  | .failed _ | .closed => .isTrue trivial
  | .data bytes => inferInstanceAs (Decidable (bytes ≠ [] ∧ bytes.length ≤ bufferSize - 1))

/-- `poll` comes after the round before and reports of an entry what its `events` ask for,
or an error. `accept` returns a descriptor that is not in use, and `recv` at most as many
bytes as it is asked for. The model of `users` has no end: its `FD_LIMIT` entries are enough for
a process whose descriptors are below that number. -/
def Legal (server : Server) : Event → Prop
  | .poll revents => server.userCount < server.i ∧ ∀ i ≤ server.userCount,
      ((revents i).pollin = true → (server.fds i).events.pollin = true) ∧
        ((revents i).pollout = true → (server.fds i).events.pollout = true) ∧
        ((revents i).pollrdhup = true → (server.fds i).events.pollrdhup = true)
  | .visit answer => server.i ≤ server.userCount ∧ answer.recv.Legal ∧
      ∀ connfd ∈ answer.connfd, ∀ j ≤ server.userCount, (server.fds j).fd ≠ connfd

instance decidableLegal (server : Server) (event : Event) : Decidable (Legal server event) :=
  match event with
  | .poll revents =>
      inferInstanceAs (Decidable (server.userCount < server.i ∧ ∀ i ≤ server.userCount,
        ((revents i).pollin = true → (server.fds i).events.pollin = true) ∧
          ((revents i).pollout = true → (server.fds i).events.pollout = true) ∧
          ((revents i).pollrdhup = true → (server.fds i).events.pollrdhup = true)))
  | .visit answer =>
      inferInstanceAs (Decidable (server.i ≤ server.userCount ∧ answer.recv.Legal ∧
        ∀ connfd ∈ answer.connfd, ∀ j ≤ server.userCount, (server.fds j).fd ≠ connfd))

/-- A client is sent the messages for it: each one once with its bytes, and the messages of
a sender in their order. -/
def Delivered (due : List Message) (sent : List (List UInt8)) : Prop :=
  ∃ order : List Message, order.Perm due ∧ order.map Message.bytes = sent ∧
    ∀ sender, order.filter (fun message => message.sender = sender) =
      due.filter fun message => message.sender = sender

/-- When a client is writable, one message has come for it since it joined or was last
writable. The message has no zero byte, and its sender is connected and has not been read
from since. -/
def Prompt (server : Server) : Event → Prop
  | .poll _ => True
  | .visit _ => server.branch = .pollout →
      ∃ message, server.pending (server.fds server.i).fd = [message] ∧
        server.kept message.sender = some message ∧ 0 ∉ message.bytes

end StudyRecord.PollServer
