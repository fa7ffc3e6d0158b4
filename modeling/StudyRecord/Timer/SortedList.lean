import StudyRecord.Library.LinkedList
import StudyRecord.Library.Runs

/-!
The sorted timer list of `timer/ascendSortedTimerList.h`: a doubly linked list of
timers with its two ends, in ascending order of their expiry.
-/

namespace StudyRecord.SortedList

open LinkedList

structure UtilTimer (F T : Type) where
  absoluteExpire : Int
  cbFunc : F
  userData : Option T
  deriving DecidableEq

/-- `sort_timer_list`. A timer that has been deleted is gone from the heap. -/
structure TimerList (F T : Type) where
  heap : Heap (UtilTimer F T)
  head : Option Nat
  tail : Option Nat
  /-- how many timers were ever made, which bounds the loops -/
  allocated : Nat

inductive Fault
  | dangling

namespace TimerList

variable {F T : Type}

def empty : TimerList F T :=
  { heap := fun _ => none, head := none, tail := none, allocated := 0 }

def firstAbove (heap : Heap (UtilTimer F T)) (expire : Int) :
    Nat → Option Nat → Option (Option Nat)
  | _, none => some none
  | 0, some _ => none
  | fuel + 1, some timer => do
      let node ← heap timer
      if node.data.absoluteExpire < expire then
        firstAbove heap expire fuel node.next
      else
        return some timer

def addTimer (list : TimerList F T) (timer : Option Nat) : Option (TimerList F T) :=
  match timer with
  | none => some list
  | some timer =>
      match list.head with
      | none => some { list with head := some timer, tail := some timer }
      | some head => do
          let first ← list.heap head
          let node ← list.heap timer
          if first.data.absoluteExpire ≥ node.data.absoluteExpire then
            let heap ← change list.heap head fun node => { node with prev := some timer }
            let heap ← change heap timer fun node => { node with next := some head }
            let heap ← change heap timer fun node => { node with prev := none }
            return { list with heap := heap, head := some timer }
          else
            match ← firstAbove list.heap node.data.absoluteExpire list.allocated (some head) with
            | some above =>
                let aboveNode ← list.heap above
                let pre ← aboveNode.prev
                let heap ← change list.heap pre fun node => { node with next := some timer }
                let heap ← change heap timer fun node => { node with next := some above }
                let heap ← change heap above fun node => { node with prev := some timer }
                let heap ← change heap timer fun node => { node with prev := some pre }
                return { list with heap := heap }
            | none =>
                let tail ← list.tail
                let heap ← change list.heap tail fun node => { node with next := some timer }
                let heap ← change heap timer fun node => { node with prev := some tail }
                let heap ← change heap timer fun node => { node with next := none }
                return { list with heap := heap, tail := some timer }

def delTimerSup (list : TimerList F T) (timer : Option Nat) : Option (TimerList F T) :=
  match timer with
  | none => some list
  | some timer =>
      if list.head = some timer then
        if list.head = list.tail then
          some { list with head := none, tail := none }
        else do
          let node ← list.heap timer
          let next ← node.next
          let heap ← change list.heap next fun node => { node with prev := none }
          return { list with heap := heap, head := some next }
      else if list.tail = some timer then do
        let node ← list.heap timer
        let before ← node.prev
        let heap ← change list.heap before fun node => { node with next := none }
        return { list with heap := heap, tail := some before }
      else do
        let node ← list.heap timer
        let pre ← node.prev
        let nex ← node.next
        let heap ← change list.heap pre fun node => { node with next := some nex }
        let heap ← change heap nex fun node => { node with prev := some pre }
        return { list with heap := heap }

def freeTimer (list : TimerList F T) (timer : Option Nat) : TimerList F T :=
  match timer with
  | none => list
  | some timer => { list with heap := Function.update list.heap timer none }

def delTimer (list : TimerList F T) (timer : Option Nat) : Option (TimerList F T) := do
  let list ← list.delTimerSup timer
  return list.freeTimer timer

def adjustTimer (list : TimerList F T) (timer : Option Nat) : Option (TimerList F T) := do
  let list ← list.delTimerSup timer
  list.addTimer timer

/-- The loop of `tick`, with the timers whose `cb_func` it has called. A callback does not
touch the list. -/
def tickLoop (cur : Int) : Nat → List (Nat × UtilTimer F T) → TimerList F T →
    Option (TimerList F T × List (Nat × UtilTimer F T))
  | fuel, fired, list =>
      match list.head with
      | none => some (list, fired)
      | some head => do
          let node ← list.heap head
          if cur < node.data.absoluteExpire then
            return (list, fired)
          else
            match fuel with
            | 0 => none
            | fuel + 1 =>
                let fired := fired ++ [(head, node.data)]
                let list ← list.delTimer (some head)
                tickLoop cur fuel fired list

def tick (list : TimerList F T) (cur : Int) : Option (TimerList F T × List (Nat × UtilTimer F T)) :=
  tickLoop cur list.allocated [] list

def newTimer (list : TimerList F T) (timer : Nat) (data : UtilTimer F T) : TimerList F T :=
  { list with
    heap := Function.update list.heap timer (some ⟨none, none, data⟩)
    allocated := list.allocated + 1 }

def setExpire (list : TimerList F T) (timer : Nat) (expire : Int) : Option (TimerList F T) := do
  let heap ← change list.heap timer fun node =>
    { node with data := { node.data with absoluteExpire := expire } }
  return { list with heap := heap }

end TimerList

inductive Op (F T : Type)
  | add (timer : Nat) (data : UtilTimer F T)
  | del (timer : Nat)
  | adjust (timer : Nat) (expire : Int)
  | tick (cur : Int)

section Runs

variable {F T : Type}

def apply (list : TimerList F T) (op : Op F T) : Option (TimerList F T) :=
  match op with
  | .add timer data => (list.newTimer timer data).addTimer (some timer)
  | .del timer => list.delTimer (some timer)
  | .adjust timer expire => do
      let list ← list.setExpire timer expire
      list.adjustTimer (some timer)
  | .tick cur => do
      let (list, _) ← list.tick cur
      return list

def step (list : TimerList F T) (op : Op F T) : Except Fault (TimerList F T) :=
  match apply list op with
  | none => .error .dangling
  | some list => .ok list

/-- A new timer is at an address that is not in use, and the others are timers that are. -/
def Legal (list : TimerList F T) : Op F T → Prop
  | .add timer _ => list.heap timer = none
  | .del timer => list.heap timer ≠ none
  | .adjust timer _ => list.heap timer ≠ none
  | .tick _ => True

instance decidableLegal (list : TimerList F T) (op : Op F T) : Decidable (Legal list op) :=
  match op with
  | .add _ _ => decidable_of_iff _ Option.isNone_iff_eq_none
  | .del _ => decidable_of_iff _ Option.isSome_iff_ne_none
  | .adjust _ _ => decidable_of_iff _ Option.isSome_iff_ne_none
  | .tick _ => .isTrue trivial

end Runs

end StudyRecord.SortedList
