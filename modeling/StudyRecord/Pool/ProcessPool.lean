import StudyRecord.Library.Runs
import Mathlib.Logic.Function.Basic

/-!
The process pool of `practice/processPool.h`. Clients wait in the queue of the listening
socket; the parent sends a request over the pipe of a child for a report of the socket, and
a child accepts a client for a report of its pipe. Both are edge-triggered.
-/

namespace StudyRecord.ProcessPool

open Runs

inductive Report
  | listen
  | signal
  deriving DecidableEq

/-- `ready` and `pipeReady` say that something has arrived since the descriptor was last
reported. `forgotten` is looked at by no function. -/
structure Pool where
  processNumber : Nat
  /-- `m_sub_process[k].m_pid` in the parent -/
  pid : Nat → Int
  subProcessCounter : Nat
  stop : Bool
  /-- the clients that wait to be accepted -/
  queue : Nat
  ready : Bool
  /-- what the parent still has to handle of the last report -/
  batch : List Report
  running : Nat → Bool
  /-- the requests in the pipe of a child -/
  pipe : Nat → Nat
  pipeReady : Nat → Bool
  /-- a child still has to handle the report of its pipe -/
  reported : Nat → Bool
  /-- the clients that a child has accepted -/
  accepted : Nat → Nat
  /-- the clients that no report or request stands for any more -/
  forgotten : Nat

inductive Fault
  | disabled
  | spins
  deriving DecidableEq

namespace Pool

/-- The loop of `run_parent` over the children. Its condition compares with a number that
`allocate` never has, so without a child it goes on for ever. -/
def allocateFrom (pool : Pool) : Nat → Nat → Option Nat
  | 0, _ => none
  | fuel + 1, allocate =>
      if pool.pid allocate ≠ -1 then
        some allocate
      else
        let allocate := (allocate + 1) % pool.processNumber
        if allocate ≠ pool.processNumber then allocateFrom pool fuel allocate else some allocate

def allocate (pool : Pool) : Option Nat :=
  pool.allocateFrom pool.processNumber pool.subProcessCounter

def connect (pool : Pool) : Pool :=
  { pool with
    queue := pool.queue + 1
    ready := true
    forgotten := pool.forgotten + pool.ready.toNat }

def parentWait (pool : Pool) (batch : List Report) : Except Fault Pool :=
  if pool.batch = [] ∧ pool.stop = false ∧ batch.Nodup ∧ (.listen ∈ batch → pool.ready = true) then
    .ok { pool with batch, ready := if .listen ∈ batch then false else pool.ready }
  else
    .error .disabled

/-- `send` over the pipe of a child. Nobody reads it when the child has exited. -/
def send (pool : Pool) (child : Nat) : Pool :=
  if pool.running child then
    { pool with
      pipe := Function.update pool.pipe child (pool.pipe child + 1)
      pipeReady := Function.update pool.pipeReady child true
      forgotten := pool.forgotten + (pool.pipeReady child).toNat }
  else
    { pool with forgotten := pool.forgotten + 1 }

def parentListen (pool : Pool) : Except Fault Pool :=
  match pool.batch with
  | .listen :: rest =>
      match pool.allocate with
      | none => .error .spins
      | some allocate =>
          if pool.pid allocate = -1 then
            .ok { pool with stop := true, batch := [], forgotten := pool.forgotten + 1 }
          else
            let counter := (pool.subProcessCounter + 1) % pool.processNumber
            .ok (send { pool with batch := rest, subProcessCounter := counter } allocate)
  | _ => .error .disabled

/-- The parent handles a report of its signals: with `SIGCHLD` among them `waitpid` returns
these children, and `SIGTERM` only sends signals to the children. -/
def parentSignal (pool : Pool) (chld : Option (List Int)) : Except Fault Pool :=
  match pool.batch, chld with
  | .signal :: rest, none => .ok { pool with batch := rest }
  | .signal :: rest, some pids =>
      if ∀ k < pool.processNumber, pool.pid k ∈ pids → pool.running k = false then
        let pid := fun k =>
          if k < pool.processNumber ∧ pool.pid k ∈ pids then -1 else pool.pid k
        let stop := decide (∀ k < pool.processNumber, pid k = -1)
        .ok { pool with pid, stop, batch := rest }
      else
        .error .disabled
  | _, _ => .error .disabled

def childWait (pool : Pool) (child : Nat) : Except Fault Pool :=
  if child < pool.processNumber ∧ pool.running child ∧ pool.reported child = false ∧
      pool.pipeReady child then
    .ok { pool with
      pipeReady := Function.update pool.pipeReady child false
      reported := Function.update pool.reported child true }
  else
    .error .disabled

/-- A child handles the report of its pipe. After `recv` has found nothing it goes on to
`accept` as well, which fails when no client waits. -/
def childPipe (pool : Pool) (child : Nat) : Except Fault Pool :=
  if child < pool.processNumber ∧ pool.running child ∧ pool.reported child then
    let pool := { pool with
      pipe := Function.update pool.pipe child (pool.pipe child - 1)
      reported := Function.update pool.reported child false }
    match pool.queue with
    | 0 => .ok pool
    | queue + 1 =>
        .ok { pool with
          queue
          accepted := Function.update pool.accepted child (pool.accepted child + 1) }
  else
    .error .disabled

def childExit (pool : Pool) (child : Nat) : Except Fault Pool :=
  if child < pool.processNumber ∧ pool.running child then
    .ok { pool with
      running := Function.update pool.running child false
      forgotten := pool.forgotten + (pool.pipeReady child).toNat + (pool.reported child).toNat }
  else
    .error .disabled

end Pool

inductive Event
  | connect
  | parentWait (batch : List Report)
  | parentListen
  | parentSignal (chld : Option (List Int))
  | childWait (child : Nat)
  | childPipe (child : Nat)
  | childExit (child : Nat)

def step (pool : Pool) : Event → Except Fault Pool
  | .connect => .ok pool.connect
  | .parentWait batch => pool.parentWait batch
  | .parentListen => pool.parentListen
  | .parentSignal chld => pool.parentSignal chld
  | .childWait child => pool.childWait child
  | .childPipe child => pool.childPipe child
  | .childExit child => pool.childExit child

def start (processNumber : Nat) (pid : Nat → Int) : Pool where
  processNumber := processNumber
  pid := pid
  subProcessCounter := 0
  stop := false
  queue := 0
  ready := false
  batch := []
  running := fun k => k < processNumber
  pipe := fun _ => 0
  pipeReady := fun _ => false
  reported := fun _ => false
  accepted := fun _ => 0
  forgotten := 0

/-- The parent and the running children wait in `epoll_wait` with nothing to report. -/
structure Quiet (pool : Pool) : Prop where
  parent : pool.batch = [] ∧ pool.ready = false
  children : ∀ k < pool.processNumber, pool.running k = true →
    pool.reported k = false ∧ pool.pipeReady k = false

/-- Everything that arrives is reported by itself: no client connects and no request is
sent while an earlier one has not been reported, and requests go to children that handle
them before they exit. -/
def ReportedAlone (pool : Pool) : Event → Prop
  | .connect => pool.ready = false
  | .parentListen => ∀ child ∈ pool.allocate,
      pool.running child = true ∧ pool.pipeReady child = false
  | .childExit child => pool.pipeReady child = false ∧ pool.reported child = false
  | _ => True

end StudyRecord.ProcessPool
