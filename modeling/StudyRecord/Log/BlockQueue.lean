import StudyRecord.Library.Machine
import StudyRecord.Library.Threads

/-!
The bounded queue of `log/blockQueue.h`: a ring of cells, two counters and three
semaphores. A call of `insert` or `remove` is a sequence of steps, one for each
semaphore operation and one for the access to the ring between them.
-/

namespace StudyRecord.BlockQueue

open Machine Threads

structure Queue (T : Type) where
  buf : List T
  maxSize : Int
  front : Int
  rear : Int
  mutex : Nat
  slots : Nat
  items : Nat
  /-- the values that were stored in the ring, in this order -/
  stored : List T
  /-- the values that were read from the ring, in this order -/
  removed : List T
  deriving DecidableEq

inductive Insert (T : Type)
  | slots (item : T)
  | mutex (item : T)
  | store (item : T)
  | unlock
  | items
  deriving DecidableEq

/-- Where a call of `remove` is. What it has read goes with its place in the order. -/
inductive Remove (T : Type)
  | items
  | mutex
  | take
  | unlock (ticket : Nat) (item : T)
  | slots (ticket : Nat) (item : T)
  deriving DecidableEq

section Operations

variable {T : Type}

/-- The constructor and `BlockQueue::init`. The cells hold what the constructor of `T` makes. -/
def init (size : Int) (cell : T) : Queue T where
  buf := List.replicate size.toNat cell
  maxSize := size
  front := 0
  rear := 0
  mutex := 1
  slots := size.toNat
  items := 0
  stored := []
  removed := []

def empty (queue : Queue T) : Bool := queue.slots = queue.maxSize

/-- `++counter`, which is undefined at the largest `int` -/
def increment (counter : Int) : Except Stuck Int :=
  if counter < intMax then .ok (counter + 1) else .error .fault

/-- The cell `buf[counter % max_size]`; outside of the array there is none. -/
def cell (queue : Queue T) (counter : Int) : Except Stuck (Nat × T) :=
  let index := counter.tmod queue.maxSize
  if index < 0 then
    .error .fault
  else
    match queue.buf[index.toNat]? with
    | none => .error .fault
    | some item => .ok (index.toNat, item)

def insertStep (queue : Queue T) (place : Insert T) :
    Except Stuck (Queue T × Option (Insert T)) :=
  match place with
  | .slots item =>
      match semWait queue.slots with
      | .error stuck => .error stuck
      | .ok slots => .ok ({ queue with slots }, some (.mutex item))
  | .mutex item =>
      match semWait queue.mutex with
      | .error stuck => .error stuck
      | .ok mutex => .ok ({ queue with mutex }, some (.store item))
  | .store item =>
      match increment queue.rear with
      | .error stuck => .error stuck
      | .ok rear =>
          match cell queue rear with
          | .error stuck => .error stuck
          | .ok (index, _) =>
              .ok ({ queue with
                rear
                buf := queue.buf.set index item
                stored := queue.stored ++ [item] }, some .unlock)
  | .unlock => .ok ({ queue with mutex := semPost queue.mutex }, some .items)
  | .items => .ok ({ queue with items := semPost queue.items }, none)

/-- `BlockQueue::remove`; after its last step the call has returned the value. What the
move leaves in the cell is unspecified. -/
def removeStep (queue : Queue T) (place : Remove T) (left : T) :
    Except Stuck (Queue T × (Remove T ⊕ Nat × T)) :=
  match place with
  | .items =>
      match semWait queue.items with
      | .error stuck => .error stuck
      | .ok items => .ok ({ queue with items }, .inl .mutex)
  | .mutex =>
      match semWait queue.mutex with
      | .error stuck => .error stuck
      | .ok mutex => .ok ({ queue with mutex }, .inl .take)
  | .take =>
      match increment queue.front with
      | .error stuck => .error stuck
      | .ok front =>
          match cell queue front with
          | .error stuck => .error stuck
          | .ok (index, item) =>
              .ok ({ queue with
                front
                buf := queue.buf.set index left
                removed := queue.removed ++ [item] }, .inl (.unlock queue.removed.length item))
  | .unlock ticket item =>
      .ok ({ queue with mutex := semPost queue.mutex }, .inl (.slots ticket item))
  | .slots ticket item => .ok ({ queue with slots := semPost queue.slots }, .inr (ticket, item))

inductive Thread (T : Type)
  | idle
  | inserting (place : Insert T)
  | removing (place : Remove T)
  deriving DecidableEq

inductive Choice (T : Type)
  | insert (item : T)
  | remove
  | go (left : T)

def micro (queue : Queue T) (thread : Thread T) (choice : Choice T) :
    Except Stuck (Queue T × Thread T) :=
  match thread, choice with
  | .idle, .insert item => .ok (queue, .inserting (.slots item))
  | .idle, .remove => .ok (queue, .removing .items)
  | .inserting place, .go _ =>
      match insertStep queue place with
      | .error stuck => .error stuck
      | .ok (queue, some place) => .ok (queue, .inserting place)
      | .ok (queue, none) => .ok (queue, .idle)
  | .removing place, .go left =>
      match removeStep queue place left with
      | .error stuck => .error stuck
      | .ok (queue, .inl place) => .ok (queue, .removing place)
      | .ok (queue, .inr _) => .ok (queue, .idle)
  | _, _ => .error .blocked

/-! What the two calls do to the values. -/

def Insert.pending : Insert T → Option T
  | .slots item | .mutex item | .store item => some item
  | .unlock | .items => none

def Remove.held : Remove T → Option (Nat × T)
  | .items | .mutex | .take => none
  | .unlock ticket item | .slots ticket item => some (ticket, item)

theorem insertStep_cases {queue queue' : Queue T} {place : Insert T} {place' : Option (Insert T)}
    (moved : insertStep queue place = .ok (queue', place')) :
    queue'.removed = queue.removed ∧ (place' = none ↔ place = .items) ∧
      ((∃ item, place.pending = some item ∧ place'.bind Insert.pending = none ∧
        queue'.stored = queue.stored ++ [item]) ∨
      (place'.bind Insert.pending = place.pending ∧ queue'.stored = queue.stored)) := by
  cases place <;> simp only [insertStep] at moved
  case store item =>
    split at moved
    · simp at moved
    · split at moved
      · simp at moved
      · simp only [Except.ok.injEq, Prod.mk.injEq] at moved
        obtain ⟨rfl, rfl⟩ := moved
        exact ⟨rfl, by simp, .inl ⟨item, rfl, rfl, rfl⟩⟩
  all_goals
    try split at moved
    all_goals
      simp only [Except.ok.injEq, Prod.mk.injEq, reduceCtorEq] at moved
    all_goals
      obtain ⟨rfl, rfl⟩ := moved
      exact ⟨rfl, by simp, .inr ⟨rfl, rfl⟩⟩

theorem removeStep_cases {queue queue' : Queue T} {place : Remove T}
    {place' : Remove T ⊕ Nat × T} {left : T}
    (moved : removeStep queue place left = .ok (queue', place')) :
    queue'.stored = queue.stored ∧
      ((∃ item, place.held = none ∧ place'.elim Remove.held some = some (queue.removed.length, item) ∧
        queue'.removed = queue.removed ++ [item]) ∨
      (place'.elim Remove.held some = place.held ∧ queue'.removed = queue.removed)) := by
  cases place <;> simp only [removeStep] at moved
  case take =>
    split at moved
    · simp at moved
    · split at moved
      · simp at moved
      · rename_i index item _
        simp only [Except.ok.injEq, Prod.mk.injEq] at moved
        obtain ⟨rfl, rfl⟩ := moved
        exact ⟨rfl, .inl ⟨item, rfl, rfl, rfl⟩⟩
  all_goals
    try split at moved
    all_goals
      simp only [Except.ok.injEq, Prod.mk.injEq, reduceCtorEq] at moved
    all_goals
      obtain ⟨rfl, rfl⟩ := moved
      exact ⟨rfl, .inr ⟨rfl, rfl⟩⟩

end Operations

end StudyRecord.BlockQueue
