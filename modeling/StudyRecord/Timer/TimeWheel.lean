import StudyRecord.Library.LinkedList
import StudyRecord.Library.Machine

/-!
The time wheel of the server: sixty slots, each with a doubly linked list of
timers, and a position that moves one slot on with every tick.
-/

namespace StudyRecord.Timer

open LinkedList Machine

def wheelSlots : Nat := 60

def slotInterval : Nat := 1

structure TwTimer (T : Type) where
  rotation : Int
  timeSlot : Nat
  userData : Option T

/-- `time_wheel`. Timers are allocated at fresh addresses and are gone from the
heap when they have been deleted. -/
structure TimeWheel (T : Type) where
  slots : Nat → Option Nat
  curSlot : Nat
  heap : Heap (TwTimer T)
  fresh : Nat

namespace TimeWheel

variable {T : Type}

def empty : TimeWheel T :=
  { slots := fun _ => none, curSlot := 0, heap := fun _ => none, fresh := 0 }

def ticksOf (timeout : Int) : Nat :=
  if timeout < slotInterval then 1 else (timeout / slotInterval).toNat

def insert (wheel : TimeWheel T) (timer ts : Nat) : Option (TimeWheel T) := do
  let (heap, head) ← pushFront wheel.heap (wheel.slots ts) timer
  return { wheel with heap := heap, slots := Function.update wheel.slots ts head }

def delTimerSup (wheel : TimeWheel T) (timer : Nat) : Option (TimeWheel T) := do
  let node ← wheel.heap timer
  let ts := node.data.timeSlot
  let (heap, head) ← unlink wheel.heap (wheel.slots ts) timer
  return { wheel with heap := heap, slots := Function.update wheel.slots ts head }

def free (wheel : TimeWheel T) (timer : Nat) : TimeWheel T :=
  { wheel with heap := Function.update wheel.heap timer none }

/-- `add_timer`, with the wheel behind it and the timer, which is null for a
negative timeout. -/
def addTimer (wheel : TimeWheel T) (timeout : Int) : Option (TimeWheel T × Option Nat) :=
  if timeout < 0 then some (wheel, none)
  else do
    let ticks := ticksOf timeout
    let rotation := ticks / wheelSlots
    let ts := (wheel.curSlot + ticks % wheelSlots) % wheelSlots
    let timer := wheel.fresh
    let node : Node (TwTimer T) := ⟨none, none, ⟨rotation, ts, none⟩⟩
    let wheel ← insert
      { wheel with heap := Function.update wheel.heap timer (some node), fresh := timer + 1 } timer ts
    return (wheel, some timer)

/-- The assignment of `user_data` by the owner of a timer. -/
def setUserData (wheel : TimeWheel T) (timer : Nat) (data : T) : Option (TimeWheel T) := do
  let heap ← change wheel.heap timer fun node =>
    { node with data := { node.data with userData := some data } }
  return { wheel with heap := heap }

def delTimer (wheel : TimeWheel T) (timer : Nat) : Option (TimeWheel T) := do
  let wheel ← wheel.delTimerSup timer
  return wheel.free timer

def adjustTimer (wheel : TimeWheel T) (timer : Nat) (timeout : Int) : Option (TimeWheel T) :=
  if timeout < 0 then some wheel
  else do
    let ticks := ticksOf timeout
    let rotation := ticks / wheelSlots
    let node ← wheel.heap timer
    let ts := (node.data.timeSlot + ticks % wheelSlots) % wheelSlots
    let wheel ← wheel.delTimerSup timer
    let heap ← change wheel.heap timer fun node => { node with prev := none, next := none }
    let wheel ← insert { wheel with heap := heap } timer ts
    let heap ← change wheel.heap timer fun node =>
      { node with
        data := { node.data with
          rotation := toInt (node.data.rotation + rotation)
          timeSlot := ts } }
    return { wheel with heap := heap }

/-- The loop of `tick` over the timers of one slot, with the timers whose callback
it has called. A callback does not touch the wheel. The fuel is as large as the
number of timers ever allocated. -/
def tickLoop : Nat → Option Nat → List (Nat × Option T) → TimeWheel T →
    Option (TimeWheel T × List (Nat × Option T))
  | _, none, fired, wheel => some (wheel, fired)
  | 0, some _, _, _ => none
  | fuel + 1, some tmp, fired, wheel => do
      let node ← wheel.heap tmp
      let store := node.next
      if node.data.rotation > 0 then
        let heap ← change wheel.heap tmp fun node =>
          { node with data := { node.data with rotation := node.data.rotation - 1 } }
        tickLoop fuel store fired { wheel with heap := heap }
      else
        let fired := fired ++ [(tmp, node.data.userData)]
        let wheel ← wheel.delTimerSup tmp
        tickLoop fuel store fired (wheel.free tmp)

def tickPass (wheel : TimeWheel T) (tmp : Nat) :
    Option (TimeWheel T × Option Nat × List (Nat × Option T)) := do
  let node ← wheel.heap tmp
  let store := node.next
  if node.data.rotation > 0 then
    let heap ← change wheel.heap tmp fun node =>
      { node with data := { node.data with rotation := node.data.rotation - 1 } }
    return ({ wheel with heap := heap }, store, [])
  else
    let wheel ← wheel.delTimerSup tmp
    return (wheel.free tmp, store, [(tmp, node.data.userData)])

theorem tickLoop_succ (fuel tmp : Nat) (fired : List (Nat × Option T)) (wheel : TimeWheel T) :
    tickLoop (fuel + 1) (some tmp) fired wheel =
      (wheel.tickPass tmp).bind fun (next, store, called) =>
        tickLoop fuel store (fired ++ called) next := by
  simp only [tickLoop, tickPass]
  cases wheel.heap tmp with
  | none => rfl
  | some node =>
      simp only [Option.bind_eq_bind, Option.bind_some]
      split
      · cases change wheel.heap tmp (fun node =>
            { node with data := { node.data with rotation := node.data.rotation - 1 } }) with
        | none => rfl
        | some heap => simp
      · cases wheel.delTimerSup tmp with
        | none => rfl
        | some next => rfl

def tick (wheel : TimeWheel T) : Option (TimeWheel T × List (Nat × Option T)) := do
  let (wheel, fired) ← tickLoop wheel.fresh (wheel.slots wheel.curSlot) [] wheel
  return ({ wheel with curSlot := (wheel.curSlot + 1) % wheelSlots }, fired)

end TimeWheel

end StudyRecord.Timer
