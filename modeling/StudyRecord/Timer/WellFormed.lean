import StudyRecord.Timer.Firing

/-!
The lists of the wheel as its pointers make them, between calls and in the middle of a tick,
which frees nodes of the list that it walks.
-/

namespace StudyRecord.Timer.TimeWheel

open LinkedList Machine

variable {T : Type}

structure WellFormed (wheel : TimeWheel T) (lists : Nat → List Nat) : Prop where
  walk : ∀ slot, slot < wheelSlots → Visits wheel.heap Node.next (wheel.slots slot) (lists slot)
  headPrev : ∀ slot, slot < wheelSlots → ∀ timer node, wheel.slots slot = some timer →
    wheel.heap timer = some node → node.prev = none
  nextPrev : ∀ timer other node, wheel.heap timer = some node → node.next = some other →
    ∃ node', wheel.heap other = some node' ∧ node'.prev = some timer
  prevNext : ∀ timer other node, wheel.heap timer = some node → node.prev = some other →
    ∃ node', wheel.heap other = some node' ∧ node'.next = some timer
  placed : ∀ slot, slot < wheelSlots → ∀ timer ∈ lists slot,
    ∃ node, wheel.heap timer = some node ∧ node.data.timeSlot = slot
  once : ∀ timer node, wheel.heap timer = some node →
    ∃ slot, slot < wheelSlots ∧ (lists slot).count timer = 1 ∧
      ∀ other, other < wheelSlots → other ≠ slot → timer ∉ lists other
  noneFreed : ∀ timer, wheel.heap timer = none → ¬wheel.Reaches timer

theorem Holds.placed_node {wheel : TimeWheel T} {content : Nat → List Nat}
    (holds : wheel.Holds content none) {slot timer : Nat} (bound : slot < wheelSlots)
    (member : timer ∈ content slot) :
    ∃ node, wheel.heap timer = some node ∧ node.data.timeSlot = slot := by
  obtain ⟨node, live⟩ := (holds.linked slot bound).live member
  have here := holds.placed slot bound timer member (by simp)
  refine ⟨node, live, ?_⟩
  simpa [dataOf, live] using here

theorem Holds.of_node {wheel : TimeWheel T} {content : Nat → List Nat}
    (holds : wheel.Holds content none) {timer : Nat} {node : Node (TwTimer T)}
    (live : wheel.heap timer = some node) :
    node.data.timeSlot < wheelSlots ∧ timer ∈ content node.data.timeSlot :=
  holds.listed timer node.data (by simp [dataOf, live]) (by simp)

theorem Holds.wellFormed {wheel : TimeWheel T} {content : Nat → List Nat}
    (holds : wheel.Holds content none) : wheel.WellFormed content where
  walk := fun slot bound => by
    have linked : Linked wheel.heap (wheel.slots slot) ([] ++ content slot) :=
      holds.linked slot bound
    rw [(holds.linked slot bound).first]
    exact linked.visits_from
  headPrev := fun slot bound timer node head live => by
    have linked := holds.linked slot bound
    rw [linked.first] at head
    obtain ⟨rest, split⟩ := List.head?_eq_some_iff.mp head
    obtain ⟨data, cell⟩ := linked.cell [] timer rest split
    rw [live, Option.some.injEq] at cell
    rw [cell]
    rfl
  nextPrev := fun timer other node live next => by
    obtain ⟨bound, member⟩ := holds.of_node live
    exact (holds.linked _ bound).next_prev member live next
  prevNext := fun timer other node live prev => by
    obtain ⟨bound, member⟩ := holds.of_node live
    exact (holds.linked _ bound).prev_next member live prev
  placed := fun slot bound timer member => holds.placed_node bound member
  once := fun timer node live => by
    obtain ⟨bound, member⟩ := holds.of_node live
    refine ⟨node.data.timeSlot, bound, ?_, fun other bound' different => ?_⟩
    · exact List.nodup_iff_count_eq_one.mp (holds.linked _ bound).nodup timer member
    · exact holds.apart bound bound' (Ne.symm different) (by simp) member
  noneFreed := fun timer gone =>
    Valid.unreached ⟨content, holds⟩ (by simp [dataOf, gone])

/-! The loop of a tick. -/

/-- The states in which the loop of a tick looks at its pointer, which is the first of the
list or was saved in the pass before. -/
inductive InTick (wheel : TimeWheel T) : TimeWheel T → Option Nat → Prop
  | start : InTick wheel wheel (wheel.slots wheel.curSlot)
  | pass {middle next : TimeWheel T} {tmp : Nat} {store : Option Nat}
      {called : List (Nat × Option T)} (before : InTick wheel middle (some tmp))
      (passed : middle.tickPass tmp = some (next, store, called)) : InTick wheel next store

theorem InTick.spec {wheel : TimeWheel T} {content : Nat → List Nat}
    (holds : wheel.Holds content none) {middle : TimeWheel T} {pointer : Option Nat}
    (inTick : InTick wheel middle pointer) :
    ∃ content' kept todo, middle.Holds content' none ∧
      content' wheel.curSlot = kept ++ todo ∧ pointer = todo.head? ∧
      middle.curSlot = wheel.curSlot := by
  induction inTick with
  | start =>
      exact ⟨content, [], content wheel.curSlot, holds, rfl,
        (holds.linked wheel.curSlot holds.cur).first, rfl⟩
  | pass before passed ih =>
      obtain ⟨content', kept, todo, holds', split, pointer, cur⟩ := ih
      obtain ⟨rest, rfl⟩ := List.head?_eq_some_iff.mp pointer.symm
      rw [← cur] at split
      obtain ⟨next, content'', kept', passed', holds'', split', _, cur', _⟩ :=
        tickPass_spec holds' split
      rw [passed', Option.some.injEq, Prod.mk.injEq, Prod.mk.injEq] at passed
      obtain ⟨rfl, rfl, _⟩ := passed
      exact ⟨content'', kept', rest, holds'', cur ▸ split', rfl, cur'.trans cur⟩

/-- After every sequence of calls the lists are in order, and each pointer that a tick has
saved is a timer of the slot when it is used. -/
theorem lists_wellFormed (ops : List Op) (legal : LegalRun (empty : TimeWheel T) ops) :
    ∃ (wheel : TimeWheel T) (lists : Nat → List Nat),
      runOps empty ops = some wheel ∧ wheel.WellFormed lists ∧
      ∀ middle tmp, InTick wheel middle (some tmp) →
        ∃ node lists', middle.heap tmp = some node ∧ node.data.timeSlot = wheel.curSlot ∧
          middle.WellFormed lists' ∧ tmp ∈ lists' wheel.curSlot := by
  obtain ⟨wheel, reached⟩ := run_simulates ops empty_sound legal
  obtain ⟨content, holds⟩ := reached.sound.valid
  refine ⟨wheel, content, reached.run, holds.wellFormed, fun middle tmp inTick => ?_⟩
  obtain ⟨content', kept, todo, holds', split, pointer, cur⟩ := inTick.spec holds
  obtain ⟨rest, rfl⟩ := List.head?_eq_some_iff.mp pointer.symm
  have member : tmp ∈ content' wheel.curSlot := by simp [split]
  obtain ⟨node, live, here⟩ := holds'.placed_node holds.cur member
  exact ⟨node, content', live, here, holds'.wellFormed, member⟩

theorem lists_wellFormed_two :
    ∃ (wheel : TimeWheel Unit) (lists : Nat → List Nat),
      runOps empty [.add 0, .add 1, .adjust 1 1, .tick] = some wheel ∧ wheel.WellFormed lists ∧
      ∀ middle tmp, InTick wheel middle (some tmp) →
        ∃ node lists', middle.heap tmp = some node ∧ node.data.timeSlot = wheel.curSlot ∧
          middle.WellFormed lists' ∧ tmp ∈ lists' wheel.curSlot := by
  refine lists_wellFormed [.add 0, .add 1, .adjust 1 1, .tick]
    ⟨(by decide : FitsInt 0), fun first added => ⟨(by decide : FitsInt 1), fun second added' =>
      ⟨⟨?_, (by decide : FitsInt 1)⟩, fun _ _ => ⟨trivial, fun _ _ => trivial⟩⟩⟩⟩
  cases added
  cases added'
  rfl

end StudyRecord.Timer.TimeWheel
