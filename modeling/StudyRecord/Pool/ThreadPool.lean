import StudyRecord.Library.Machine
import StudyRecord.Library.Threads

/-!
The thread pool of `threadpool/threadPool.h`: callers of `append` and workers in
`run` share a work queue, a lock and a semaphore. Each step below is one operation
on these; `process` of a request does not touch the pool and is one step.
-/

namespace StudyRecord.ThreadPool

open Machine Runs Threads

/-- `ThreadPool<T>`. A null pointer to a request is `none`. -/
structure Pool (T : Type) where
  maxRequests : Int
  workqueue : List (Option T)
  queuelocker : Bool
  queuestat : Nat
  stop : Bool
  /-- what `set_state` has stored in the requests -/
  states : T → Int
  /-- the requests that were pushed, in this order -/
  accepted : List (Option T)
  /-- the requests that were popped, in this order -/
  popped : List (Option T)
  /-- the requests whose `process` has run -/
  processed : List T

inductive Caller (T : Type)
  | idle (answer : Option Bool)
  | setState (request : T) (state : Int)
  | lock (request : Option T)
  | size (request : Option T)
  | full
  | push (request : Option T)
  | unlock
  | post

inductive Worker (T : Type)
  | loop
  | wait
  | lock
  | empty
  | skip
  | front
  | popFront (request : Option T)
  | unlock (request : Option T)
  | check (request : Option T)
  | process (request : T)
  | left

inductive Thread (T : Type)
  | caller (place : Caller T)
  | worker (place : Worker T)

/-- What the world decides: which `append` an idle caller makes, and whether a wait
comes back early. -/
inductive Choice (T : Type)
  | go
  | early
  | append (request : Option T)
  | appendState (request : T) (state : Int)

section Steps

variable {T : Type} [DecidableEq T]

def appendStep (pool : Pool T) (place : Caller T) (choice : Choice T) :
    Except Stuck (Pool T × Caller T) :=
  match place with
  | .idle _ =>
      match choice with
      | .append request => .ok (pool, .lock request)
      | .appendState request state => .ok (pool, .setState request state)
      | _ => .error .blocked
  | .setState request state =>
      .ok ({ pool with states := fun other => if other = request then state else pool.states other },
        .lock (some request))
  | .lock request =>
      match mutexLock pool.queuelocker with
      | .error stuck => .error stuck
      | .ok locked => .ok ({ pool with queuelocker := locked }, .size request)
  | .size request =>
      if pool.workqueue.length > toSize pool.maxRequests then
        .ok (pool, .full)
      else
        .ok (pool, .push request)
  | .full => .ok ({ pool with queuelocker := false }, .idle (some false))
  | .push request =>
      .ok ({ pool with
        workqueue := pool.workqueue ++ [request]
        accepted := pool.accepted ++ [request] }, .unlock)
  | .unlock => .ok ({ pool with queuelocker := false }, .post)
  | .post => .ok ({ pool with queuestat := semPost pool.queuestat }, .idle (some true))

def runStep (pool : Pool T) (place : Worker T) (choice : Choice T) :
    Except Stuck (Pool T × Worker T) :=
  match place with
  | .loop => .ok (pool, if pool.stop then .left else .wait)
  | .wait =>
      match choice with
      | .early => .ok (pool, .lock)
      | _ =>
          match semWait pool.queuestat with
          | .error stuck => .error stuck
          | .ok value => .ok ({ pool with queuestat := value }, .lock)
  | .lock =>
      match mutexLock pool.queuelocker with
      | .error stuck => .error stuck
      | .ok locked => .ok ({ pool with queuelocker := locked }, .empty)
  | .empty => .ok (pool, if pool.workqueue.isEmpty then .skip else .front)
  | .skip => .ok ({ pool with queuelocker := false }, .loop)
  | .front =>
      match pool.workqueue.head? with
      | none => .error .fault
      | some request => .ok (pool, .popFront request)
  | .popFront request =>
      match pool.workqueue with
      | [] => .error .fault
      | _ :: rest =>
          .ok ({ pool with workqueue := rest, popped := pool.popped ++ [request] }, .unlock request)
  | .unlock request => .ok ({ pool with queuelocker := false }, .check request)
  | .check none => .ok (pool, .loop)
  | .check (some request) => .ok (pool, .process request)
  | .process request => .ok ({ pool with processed := pool.processed ++ [request] }, .loop)
  | .left => .error .blocked

def micro (pool : Pool T) (thread : Thread T) (choice : Choice T) :
    Except Stuck (Pool T × Thread T) :=
  match thread with
  | .caller place =>
      match appendStep pool place choice with
      | .error stuck => .error stuck
      | .ok (pool, place) => .ok (pool, .caller place)
  | .worker place =>
      match runStep pool place choice with
      | .error stuck => .error stuck
      | .ok (pool, place) => .ok (pool, .worker place)

/-- The constructor, beside threads that will call `append`. -/
def construct (threadNumber maxRequests : Int) (callers : Nat) (states : T → Int) :
    Option (System (Pool T) (Thread T)) :=
  if threadNumber ≤ 0 ∨ maxRequests ≤ 0 then
    none
  else
    some {
      shared := {
        maxRequests, workqueue := [], queuelocker := false, queuestat := 0, stop := false, states,
        accepted := [], popped := [], processed := [] }
      threads := List.replicate callers (.caller (.idle none)) ++
        List.replicate threadNumber.toNat (.worker .loop) }

end Steps

end StudyRecord.ThreadPool
