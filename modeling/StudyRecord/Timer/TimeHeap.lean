import StudyRecord.Library.Runs
import Mathlib.Logic.Function.Basic

/-!
The `time_heap` of `practice/minHeapTimer.h`: an array of pointers to timers that is a
min-heap by their expiry and doubles its capacity when it is full.
-/

namespace StudyRecord.TimeHeap

/-- `heap_timer`. `del_timer` sets `cb_func` to null. -/
structure HeapTimer (F T : Type) where
  absoluteExpire : Int
  cbFunc : Option F
  userData : T
  deriving DecidableEq

structure Call (F T : Type) where
  timer : Nat
  cbFunc : F
  userData : T
  deriving DecidableEq

structure Heap (F T : Type) where
  memory : Nat → Option (HeapTimer F T)
  array : Nat → Option Nat
  capacity : Nat
  curSize : Nat
  /-- the timers that `pop_timer` has deleted, in order -/
  popped : List Nat
  /-- the calls that `tick` has made, in order -/
  called : List (Call F T)

inductive Fault
  | dangling

namespace Heap

variable {F T : Type}

def read (heap : Heap F T) (i : Nat) : Option (Option Nat) :=
  if i < heap.capacity then some (heap.array i) else none

def write (heap : Heap F T) (i : Nat) (timer : Option Nat) : Option (Heap F T) :=
  if i < heap.capacity then
    some { heap with array := Function.update heap.array i timer }
  else
    none

def expireAt (heap : Heap F T) (i : Nat) : Option Int := do
  let timer ← heap.read i
  let timer ← timer
  let data ← heap.memory timer
  return data.absoluteExpire

def smallerChild (heap : Heap F T) (hole : Nat) : Option Nat := do
  let child := hole * 2 + 1
  if child + 1 < heap.curSize then
    let second ← heap.expireAt (child + 1)
    let first ← heap.expireAt child
    return if second < first then child + 1 else child
  else
    return child

def percolateDown (heap : Heap F T) : Nat → Nat → Option (Heap F T)
  | fuel, hole =>
      if hole * 2 + 1 < heap.curSize then
        match fuel with
        | 0 => none
        | fuel + 1 => do
            let child ← heap.smallerChild hole
            let below ← heap.expireAt child
            let here ← heap.expireAt hole
            if below < here then
              let tmp ← heap.read hole
              let pointer ← heap.read child
              let heap ← heap.write hole pointer
              let heap ← heap.write child tmp
              percolateDown heap fuel child
            else
              return heap
      else
        some heap

def resize (heap : Heap F T) : Heap F T :=
  { heap with
    array := fun i => if i < heap.curSize then heap.array i else none
    capacity := 2 * heap.capacity }

def raise (timer : Nat) : Heap F T → Nat → Nat → Option (Heap F T × Nat)
  | heap, fuel, hole =>
      if 0 < hole then
        match fuel with
        | 0 => none
        | fuel + 1 => do
            let parent := (hole - 1) / 2
            let above ← heap.expireAt parent
            let data ← heap.memory timer
            if above ≤ data.absoluteExpire then
              return (heap, hole)
            else
              let pointer ← heap.read parent
              let heap ← heap.write hole pointer
              raise timer heap fuel parent
      else
        some (heap, hole)

def addTimer (heap : Heap F T) (timer : Option Nat) : Option (Heap F T) :=
  match timer with
  | none => some heap
  | some timer => do
      let heap := if heap.curSize ≥ heap.capacity then heap.resize else heap
      let hole := heap.curSize
      let heap := { heap with curSize := hole + 1 }
      let (heap, hole) ← raise timer heap hole hole
      heap.write hole (some timer)

def delTimer (heap : Heap F T) (timer : Option Nat) : Option (Heap F T) :=
  match timer with
  | none => some heap
  | some timer => do
      let data ← heap.memory timer
      return { heap with
        memory := Function.update heap.memory timer (some { data with cbFunc := none }) }

def top (heap : Heap F T) : Option (Option Nat) :=
  if heap.curSize = 0 then some none else heap.read 0

def free (heap : Heap F T) (timer : Nat) : Option (Heap F T) := do
  let _ ← heap.memory timer
  return { heap with
    memory := Function.update heap.memory timer none
    popped := heap.popped ++ [timer] }

def popTimer (heap : Heap F T) : Option (Heap F T) :=
  if heap.curSize = 0 then
    some heap
  else do
    match ← heap.read 0 with
    | none => return heap
    | some first =>
        let heap ← heap.free first
        let heap := { heap with curSize := heap.curSize - 1 }
        let last ← heap.read heap.curSize
        let heap ← heap.write 0 last
        heap.percolateDown heap.curSize 0

def callFirst (heap : Heap F T) : Option (Heap F T) := do
  let first ← heap.read 0
  let timer ← first
  let data ← heap.memory timer
  match data.cbFunc with
  | none => return heap
  | some cbFunc => return { heap with called := heap.called ++ [⟨timer, cbFunc, data.userData⟩] }

/-- The loop of `tick`. A callback does not touch the heap. -/
def tickLoop (cur : Int) : Nat → Heap F T → Option Nat → Option (Heap F T)
  | fuel, heap, tmp =>
      if heap.curSize = 0 then
        some heap
      else
        match tmp with
        | none => some heap
        | some timer => do
            let data ← heap.memory timer
            if data.absoluteExpire > cur then
              return heap
            else
              match fuel with
              | 0 => none
              | fuel + 1 => do
                  let heap ← heap.callFirst
                  let heap ← heap.popTimer
                  let tmp ← heap.read 0
                  tickLoop cur fuel heap tmp

def tick (heap : Heap F T) (cur : Int) : Option (Heap F T) := do
  let tmp ← heap.read 0
  tickLoop cur heap.curSize heap tmp

def make (memory : Nat → Option (HeapTimer F T)) (cap : Nat) : Heap F T :=
  { memory, array := fun _ => none, capacity := cap, curSize := 0, popped := [], called := [] }

def heapify (heap : Heap F T) : Nat → Option (Heap F T)
  | 0 => heap.percolateDown heap.curSize 0
  | i + 1 => do
      let heap ← heap.percolateDown heap.curSize (i + 1)
      heapify heap i

/-- `time_heap(init_array, size, capacity)`. An exception leaves a `noexcept` constructor. -/
def ofArray (memory : Nat → Option (HeapTimer F T)) (initArray : Nat → Option Nat)
    (size capacity : Nat) : Option (Heap F T) :=
  if capacity < size then
    none
  else if size ≠ 0 then
    let array := fun i => if i < size then initArray i else none
    heapify { make memory capacity with array := array, curSize := size } ((size - 1) / 2)
  else
    some (make memory capacity)

end Heap

structure Fresh (F T : Type) where
  absoluteExpire : Int
  cbFunc : F
  userData : T

def Fresh.timer {F T : Type} (fresh : Fresh F T) : HeapTimer F T :=
  ⟨fresh.absoluteExpire, some fresh.cbFunc, fresh.userData⟩

/-- The heap and what its users have done: the timers they inserted, and the ones that
they called `del_timer` on. -/
structure System (F T : Type) where
  heap : Heap F T
  inserted : List Nat
  deleted : Nat → Bool

inductive Op (F T : Type)
  | new (timer : Nat) (fresh : Fresh F T)
  | add (timer : Option Nat)
  | del (timer : Option Nat)
  | pop
  | tick (cur : Int)

inductive Start (F T : Type)
  | empty (memory : Nat → Option (Fresh F T)) (cap : Nat)
  | array (memory : Nat → Option (Fresh F T)) (initArray : Nat → Option Nat)
      (size capacity : Nat)

section Runs

variable {F T : Type}

def Start.heap : Start F T → Option (Heap F T)
  | .empty memory cap => some (.make (fun timer => (memory timer).map Fresh.timer) cap)
  | .array memory initArray size capacity =>
      Heap.ofArray (fun timer => (memory timer).map Fresh.timer) initArray size capacity

def Start.inserted : Start F T → List Nat
  | .empty .. => []
  | .array _ initArray size _ => (List.range size).filterMap initArray

/-- The capacity is at least 1, and an array holds distinct timers that are in use. -/
def Start.Legal : Start F T → Prop
  | .empty _ cap => 1 ≤ cap
  | .array memory initArray size capacity =>
      1 ≤ capacity ∧ size ≤ capacity ∧
        (∀ i < size, ∃ timer, initArray i = some timer ∧ memory timer ≠ none) ∧
        ∀ i < size, ∀ j < size, initArray i = initArray j → i = j

def Start.system (start : Start F T) : Option (System F T) := do
  let heap ← start.heap
  return { heap, inserted := start.inserted, deleted := fun _ => false }

def apply (system : System F T) : Op F T → Option (System F T)
  | .new timer fresh =>
      let memory := Function.update system.heap.memory timer (some fresh.timer)
      some { system with
        heap := { system.heap with memory }
        deleted := Function.update system.deleted timer false }
  | .add timer => do
      let heap ← system.heap.addTimer timer
      return { system with heap, inserted := system.inserted ++ timer.toList }
  | .del timer => do
      let heap ← system.heap.delTimer timer
      let deleted := match timer with
        | none => system.deleted
        | some timer => Function.update system.deleted timer true
      return { system with heap, deleted }
  | .pop => do
      let heap ← system.heap.popTimer
      return { system with heap }
  | .tick cur => do
      let heap ← system.heap.tick cur
      return { system with heap }

def step (system : System F T) (op : Op F T) : Except Fault (System F T) :=
  match apply system op with
  | none => .error .dangling
  | some system => .ok system

def Heap.Holds (heap : Heap F T) (timer : Nat) : Prop :=
  ∃ i < heap.curSize, heap.array i = some timer

instance decidableHolds (heap : Heap F T) (timer : Nat) : Decidable (heap.Holds timer) :=
  inferInstanceAs (Decidable (∃ i < heap.curSize, heap.array i = some timer))

/-- A new timer is at an address that is not in use, a timer goes into the heap once,
and pointers that are not null point to timers. -/
def Legal (system : System F T) : Op F T → Prop
  | .new timer _ => system.heap.memory timer = none
  | .add (some timer) => system.heap.memory timer ≠ none ∧ ¬system.heap.Holds timer
  | .del (some timer) => system.heap.memory timer ≠ none
  | .add none | .del none | .pop | .tick _ => True

instance decidableLegal (system : System F T) (op : Op F T) : Decidable (Legal system op) :=
  match op with
  | .new _ _ => decidable_of_iff _ Option.isNone_iff_eq_none
  | .add (some timer) =>
      have : Decidable (system.heap.memory timer ≠ none) :=
        decidable_of_iff _ Option.isSome_iff_ne_none
      inferInstanceAs (Decidable (_ ∧ _))
  | .del (some _) => decidable_of_iff _ Option.isSome_iff_ne_none
  | .add none | .del none | .pop | .tick _ => .isTrue trivial

end Runs

end StudyRecord.TimeHeap
