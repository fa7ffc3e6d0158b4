import StudyRecord.Library.Runs
import Mathlib.Logic.Function.Basic

/-!
The chat server of `practice/chatRoomServerShm.cpp`: a parent that starts one child for each
client and keeps them in a compact table, and children that share a memory with a segment
for each index of the table.
-/

namespace StudyRecord.ShmServer

def userLimit : Nat := 5

def bufferSize : Nat := 1024

def processLimit : Nat := 65536

structure ClientData where
  address : Nat
  length : Nat
  connfd : Nat
  pid : Nat
  pipefd : Nat × Nat
  deriving DecidableEq

structure Child where
  pid : Nat
  /-- the argument of `run_child` -/
  idx : Nat
  alive : Bool
  /-- how many children were not reaped when this one was started -/
  others : Nat
  deriving DecidableEq

/-- The parent and the shared memory. No function of the parent looks at the children or
at what it has sent. -/
structure Server where
  users : Nat → ClientData
  subProcess : Nat → Int
  userCount : Nat
  /-- the pipes that are registered with `epollfd` -/
  watched : List Nat
  terminate : Bool
  stopServer : Bool
  shareMem : Nat → UInt8
  children : List Child
  /-- the indices that were sent over pipes, in order -/
  sent : List (Nat × Int)

inductive Fault
  | outOfRange
  deriving DecidableEq

structure Accepted where
  address : Nat
  length : Nat
  connfd : Nat
  pipefd : Nat × Nat
  fork : Option Nat

namespace Server

/-- Memory that `new` hands out for the table holds anything. -/
def init (users : Nat → ClientData) (shareMem : Nat → UInt8) : Server where
  users := users
  subProcess := fun _ => -1
  userCount := 0
  watched := []
  terminate := false
  stopServer := false
  shareMem := shareMem
  children := []
  sent := []

/-- The branch of `listenfd`, without the failure of `accept`, which changes nothing. -/
def accept (server : Server) (client : Accepted) : Except Fault Server :=
  if server.userCount ≥ userLimit then
    .ok server
  else
    let idx := server.userCount
    let entry := { server.users idx with
      address := client.address, length := client.length, connfd := client.connfd,
      pipefd := client.pipefd }
    match client.fork with
    | none => .ok { server with users := Function.update server.users idx entry }
    | some pid =>
        if pid < processLimit then
          .ok { server with
            users := Function.update server.users idx { entry with pid := pid }
            subProcess := Function.update server.subProcess pid idx
            userCount := idx + 1
            watched := server.watched ++ [client.pipefd.1]
            children := server.children ++ [⟨pid, idx, true, server.children.length⟩] }
        else
          .error .outOfRange

/-- One pass of the loop over `waitpid`, which has returned `pid`. -/
def reap (server : Server) (pid : Nat) : Except Fault Server :=
  if pid < processLimit then
    let delUser := server.subProcess pid
    let server := { server with
      subProcess := Function.update server.subProcess pid (-1)
      children := server.children.filter fun child => child.pid ≠ pid }
    if delUser < 0 ∨ delUser > userLimit then
      .ok server
    else
      match server.userCount with
      | 0 => .error .outOfRange
      | userCount + 1 =>
          .ok { server with
            watched := server.watched.erase (server.users delUser.toNat).pipefd.1
            users := Function.update server.users delUser.toNat (server.users userCount)
            userCount := userCount }
  else
    .error .outOfRange

def reaped (server : Server) : Server :=
  if server.terminate ∧ server.userCount = 0 then { server with stopServer := true } else server

/-- `SIGTERM` and `SIGINT`. The children that are sent a signal exit later. -/
def terminated (server : Server) : Server :=
  if server.userCount = 0 then
    { server with stopServer := true }
  else
    { server with terminate := true }

def broadcast (server : Server) (sockfd : Nat) (child : Int) : Server :=
  let others := (List.range server.userCount).filter fun j => (server.users j).pipefd.1 ≠ sockfd
  { server with sent := server.sent ++ others.map fun j => ((server.users j).pipefd.1, child) }

end Server

/-- `memset` and `recv` in `run_child`, into the segment of `idx`. -/
def receive (idx : Nat) (data : List UInt8) (shareMem : Nat → UInt8) : Nat → UInt8 :=
  let start := idx * bufferSize
  let cleared := fun address =>
    if start ≤ address ∧ address < start + bufferSize then 0 else shareMem address
  let data := data.take (bufferSize - 1)
  fun address =>
    if start ≤ address ∧ address < start + data.length then
      data.getD (address - start) 0
    else
      cleared address

/-- What happens: a client is accepted, a child receives data or exits, and what the parent
does for a signal or a message of a child. -/
inductive Event
  | accept (client : Accepted)
  | receive (pid : Nat) (data : List UInt8)
  | exit (pid : Nat)
  | reap (pid : Nat)
  | reaped
  | terminated
  | broadcast (sockfd : Nat) (child : Int)

def step (server : Server) : Event → Except Fault Server
  | .accept client => server.accept client
  | .receive pid data =>
      match server.children.find? fun child => child.pid = pid ∧ child.alive with
      | none => .ok server
      | some child => .ok { server with shareMem := receive child.idx data server.shareMem }
  | .exit pid =>
      .ok { server with
        children := server.children.map fun child =>
          if child.pid = pid then { child with alive := false } else child }
  | .reap pid => server.reap pid
  | .reaped => .ok server.reaped
  | .terminated => .ok server.terminated
  | .broadcast sockfd child => .ok (server.broadcast sockfd child)

/-- A process has a number below the limit that no child has, and the parent reaps
children that have exited. -/
def Legal (server : Server) : Event → Prop
  | .accept client => ∀ pid ∈ client.fork, pid < processLimit ∧
      ∀ child ∈ server.children, child.pid ≠ pid
  | .reap pid => ∃ child ∈ server.children, child.pid = pid ∧ child.alive = false
  | .receive _ _ | .exit _ | .reaped | .terminated | .broadcast _ _ => True

instance decidableLegal (server : Server) (event : Event) : Decidable (Legal server event) :=
  match event with
  | .accept client =>
      inferInstanceAs (Decidable (∀ pid ∈ client.fork, pid < processLimit ∧
        ∀ child ∈ server.children, child.pid ≠ pid))
  | .reap pid =>
      inferInstanceAs (Decidable (∃ child ∈ server.children, child.pid = pid ∧
        child.alive = false))
  | .receive _ _ | .exit _ | .reaped | .terminated | .broadcast _ _ => .isTrue trivial

end StudyRecord.ShmServer
