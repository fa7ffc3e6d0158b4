import StudyRecord.Library.Machine
import StudyRecord.Library.Runs
import Mathlib.Logic.Function.Basic

/-!
The `time_heap` with its sizes and indices as `int`s. Every access to the array checks
its index, and a call that ends early says why.
-/

namespace StudyRecord.TimeHeap

open Machine

/-- Why a call ends early: an index that is not one of the array, a signed overflow,
which leaves the program without a meaning, a pointer that is null or leads nowhere,
an exception, or a loop that goes on for ever. -/
inductive Stop
  | outOfRange
  | overflow
  | dangling
  | terminate
  | endless
  deriving DecidableEq

def int (value : Int) : Except Stop Int :=
  if FitsInt value then .ok value else .error .overflow

abbrev Memory := Nat → Option Int

structure IntHeap where
  memory : Memory
  array : Int → Option Nat
  capacity : Int
  curSize : Int

namespace IntHeap

def read (heap : IntHeap) (i : Int) : Except Stop (Option Nat) :=
  if 0 ≤ i ∧ i < heap.capacity then .ok (heap.array i) else .error .outOfRange

def write (heap : IntHeap) (i : Int) (timer : Option Nat) : Except Stop IntHeap :=
  if 0 ≤ i ∧ i < heap.capacity then
    .ok { heap with array := Function.update heap.array i timer }
  else
    .error .outOfRange

def absoluteExpire (heap : IntHeap) (timer : Option Nat) : Except Stop Int :=
  match timer.bind heap.memory with
  | none => .error .dangling
  | some expire => .ok expire

def expireAt (heap : IntHeap) (i : Int) : Except Stop Int := do
  let timer ← heap.read i
  heap.absoluteExpire timer

def smallerChild (heap : IntHeap) (child : Int) : Except Stop Int :=
  if child < heap.curSize - 1 then do
    let second ← heap.expireAt (child + 1)
    let first ← heap.expireAt child
    return if second < first then child + 1 else child
  else
    return child

def swap (heap : IntHeap) (hole child : Int) : Except Stop IntHeap := do
  let tmp ← heap.read hole
  let pointer ← heap.read child
  let heap ← heap.write hole pointer
  heap.write child tmp

def percolateDown : Nat → IntHeap → Int → Except Stop IntHeap
  | fuel, heap, hole => do
      let left ← int (hole * 2 + 1)
      if left ≤ heap.curSize - 1 then
        match fuel with
        | 0 => .error .endless
        | fuel + 1 => do
            let child ← heap.smallerChild left
            let below ← heap.expireAt child
            let here ← heap.expireAt hole
            if below < here then
              let heap ← heap.swap hole child
              percolateDown fuel heap child
            else
              return heap
      else
        return heap

def copy (source : Int → Except Stop (Option Nat)) : Nat → IntHeap → Int → Except Stop IntHeap
  | 0, heap, _ => .ok heap
  | count + 1, heap, i => do
      let timer ← source i
      let heap ← heap.write i timer
      copy source count heap (i + 1)

def resize (heap : IntHeap) : Except Stop IntHeap := do
  let capacity ← int (2 * heap.capacity)
  copy heap.read heap.curSize.toNat { heap with array := fun _ => none, capacity } 0

def raise (timer : Nat) : Nat → IntHeap → Int → Except Stop (IntHeap × Int)
  | fuel, heap, hole =>
      if 0 < hole then
        match fuel with
        | 0 => .error .endless
        | fuel + 1 => do
            let parent := (hole - 1) / 2
            let above ← heap.expireAt parent
            let expire ← heap.absoluteExpire timer
            if above ≤ expire then
              return (heap, hole)
            else
              let pointer ← heap.read parent
              let heap ← heap.write hole pointer
              raise timer fuel heap parent
      else
        return (heap, hole)

def addTimer (heap : IntHeap) (timer : Option Nat) : Except Stop IntHeap :=
  match timer with
  | none => return heap
  | some timer => do
      let heap ← if heap.curSize ≥ heap.capacity then heap.resize else pure heap
      let hole := heap.curSize
      let heap := { heap with curSize := hole + 1 }
      let (heap, hole) ← raise timer hole.toNat heap hole
      heap.write hole timer

def top (heap : IntHeap) : Except Stop (Option Nat) :=
  if heap.curSize = 0 then return none else heap.read 0

def free (heap : IntHeap) (timer : Nat) : Except Stop IntHeap :=
  match heap.memory timer with
  | none => .error .dangling
  | some _ => .ok { heap with memory := Function.update heap.memory timer none }

def popTimer (heap : IntHeap) : Except Stop IntHeap :=
  if heap.curSize = 0 then
    return heap
  else do
    match ← heap.read 0 with
    | none => return heap
    | some first =>
        let heap ← heap.free first
        let heap := { heap with curSize := heap.curSize - 1 }
        let last ← heap.read heap.curSize
        let heap ← heap.write 0 last
        percolateDown heap.curSize.toNat heap 0

/-- What the `cb_func` of a timer does to the timers in memory. It does not touch the heap. -/
abbrev Callback := Nat → Memory → Memory

def callFirst (heap : IntHeap) (callback : Callback) : Except Stop IntHeap := do
  let first ← heap.read 0
  let _ ← heap.absoluteExpire first
  match first with
  | none => .error .dangling
  | some timer => return { heap with memory := callback timer heap.memory }

def tickLoop (cur : Int) (callback : Callback) :
    Nat → IntHeap → Option Nat → Except Stop IntHeap
  | fuel, heap, tmp =>
      if heap.curSize = 0 then
        return heap
      else
        match tmp with
        | none => return heap
        | some timer => do
            let expire ← heap.absoluteExpire timer
            if expire > cur then
              return heap
            else
              match fuel with
              | 0 => .error .endless
              | fuel + 1 => do
                  let heap ← heap.callFirst callback
                  let heap ← heap.popTimer
                  let tmp ← heap.read 0
                  tickLoop cur callback fuel heap tmp

def tick (heap : IntHeap) (cur : Int) (callback : Callback) : Except Stop IntHeap := do
  let tmp ← heap.read 0
  tickLoop cur callback heap.curSize.toNat heap tmp

def heapify : Nat → IntHeap → Except Stop IntHeap
  | 0, heap => .ok heap
  | count + 1, heap => do
      let heap ← percolateDown heap.curSize.toNat heap count
      heapify count heap

def make (memory : Memory) (cap : Int) : IntHeap :=
  { memory, array := fun _ => none, capacity := cap, curSize := 0 }

/-- `time_heap(init_array, size, capacity)`. An exception leaves a `noexcept` constructor. -/
def ofArray (memory : Memory) (initArray : Int → Option Nat) (size capacity : Int) :
    Except Stop IntHeap :=
  if capacity < size then
    .error .terminate
  else
    let heap := { make memory capacity with curSize := size }
    if size ≠ 0 then do
      let heap ← copy (fun i => .ok (initArray i)) size.toNat heap 0
      let last ← int (heap.curSize - 1)
      heapify (last.tdiv 2 + 1).toNat heap
    else
      return heap

end IntHeap

inductive Made
  | empty (cap : Int)
  | array (initArray : Int → Option Nat) (size capacity : Int)

def Made.heap (memory : Memory) : Made → Except Stop IntHeap
  | .empty cap => .ok (.make memory cap)
  | .array initArray size capacity => IntHeap.ofArray memory initArray size capacity

/-- The arguments are `int`s, and no array has a negative length. -/
def Made.Fits : Made → Prop
  | .empty cap => 0 ≤ cap ∧ FitsInt cap
  | .array _ size capacity => FitsInt size ∧ 0 ≤ capacity ∧ FitsInt capacity

def Made.size : Made → Int
  | .empty _ => 0
  | .array _ size _ => size

/-- A call, or what the users of the heap do to the timers in memory between two calls. -/
inductive HeapCall
  | add (timer : Option Nat)
  | pop
  | top
  | tick (cur : Int) (callback : IntHeap.Callback)
  | outside (memory : Memory)

def IntHeap.step (heap : IntHeap) : HeapCall → Except Stop IntHeap
  | .add timer => heap.addTimer timer
  | .pop => heap.popTimer
  | .top => do
      let _ ← heap.top
      return heap
  | .tick cur callback => heap.tick cur callback
  | .outside memory => return { heap with memory }

end StudyRecord.TimeHeap
