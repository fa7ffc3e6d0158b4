import Mathlib.Data.List.Basic

/-!
A source of items that epoll watches edge-triggered: it is reported again only after something
has arrived that no report has stood for. A handler that takes everything forgets nothing, and
one that takes one item for each report forgets the items that arrive behind an unreported one.
-/

namespace StudyRecord.Readiness

/-- `edge` is raised by an arrival and lowered by a report, and `held` while the program has a
report that it has not finished with. -/
structure Watch (α : Type) where
  queue : List α
  taken : List α
  edge : Bool
  held : Bool

namespace Watch

section Watch

variable {α : Type}

def empty : Watch α := ⟨[], [], false, false⟩

def arrive (watch : Watch α) (items : List α) : Watch α :=
  { watch with queue := watch.queue ++ items, edge := true }

def report (watch : Watch α) : Watch α := { watch with edge := false, held := true }

def take (watch : Watch α) (count : Nat) : Watch α :=
  { watch with
    queue := watch.queue.drop count
    taken := watch.taken ++ watch.queue.take count }

def release (watch : Watch α) : Watch α := { watch with held := false }

/-- Adding or changing a descriptor looks for what is there already. -/
def rearm (watch : Watch α) : Watch α :=
  { watch with edge := !watch.queue.isEmpty, held := false }

def arrived (watch : Watch α) : List α := watch.taken ++ watch.queue

@[simp] theorem arrived_arrive (watch : Watch α) (items : List α) :
    (watch.arrive items).arrived = watch.arrived ++ items :=
  (List.append_assoc ..).symm

@[simp] theorem arrived_report (watch : Watch α) : watch.report.arrived = watch.arrived := rfl

@[simp] theorem arrived_release (watch : Watch α) : watch.release.arrived = watch.arrived := rfl

@[simp] theorem arrived_rearm (watch : Watch α) : watch.rearm.arrived = watch.arrived := rfl

@[simp] theorem arrived_take (watch : Watch α) (count : Nat) :
    (watch.take count).arrived = watch.arrived := by
  rw [arrived, take, arrived, List.append_assoc, List.take_append_drop]

/-! Handlers that take everything. -/

/-- What is left in the queue will be reported, unless the program is still at it. -/
def Attentive (watch : Watch α) : Prop :=
  watch.held = false → watch.queue ≠ [] → watch.edge = true

theorem empty_attentive : Attentive (empty : Watch α) := fun _ some' => absurd rfl some'

theorem arrive_attentive (watch : Watch α) (items : List α) : (watch.arrive items).Attentive :=
  fun _ _ => rfl

theorem held_attentive {watch : Watch α} (held : watch.held = true) : watch.Attentive := by
  intro free
  rw [held] at free
  contradiction

theorem release_attentive {watch : Watch α} (drained : watch.queue = []) :
    watch.release.Attentive :=
  fun _ some' => absurd drained some'

theorem rearm_attentive (watch : Watch α) : watch.rearm.Attentive := by
  intro _ some'
  have more : watch.queue.isEmpty = false := by
    rw [List.isEmpty_eq_false_iff]
    exact some'
  exact congrArg not more

/-! Handlers that take one item for each report. -/

def stood (watch : Watch α) : Nat :=
  (if watch.edge then 1 else 0) + (if watch.held then 1 else 0)

def Overdue (watch : Watch α) (count : Nat) : Prop := watch.queue.length = watch.stood + count

theorem empty_overdue : Overdue (empty : Watch α) 0 := rfl

theorem Overdue.arrive {watch : Watch α} {count : Nat} (overdue : watch.Overdue count) (item : α) :
    (watch.arrive [item]).Overdue (count + if watch.edge then 1 else 0) := by
  have before : watch.queue.length = watch.stood + count := overdue
  rw [Overdue, Watch.arrive, List.length_append, List.length_singleton, before, stood, stood]
  simp only [if_true]
  split <;> split <;> omega

theorem Overdue.report {watch : Watch α} {count : Nat} (overdue : watch.Overdue count)
    (edge : watch.edge = true) (free : watch.held = false) : watch.report.Overdue count := by
  have before : watch.queue.length = watch.stood + count := overdue
  simp only [stood, edge, free, if_true, Bool.false_eq_true, if_false] at before
  simp only [Overdue, Watch.report, stood, if_true, Bool.false_eq_true, if_false]
  omega

theorem Overdue.serve {watch : Watch α} {count : Nat} (overdue : watch.Overdue count)
    (held : watch.held = true) : ((watch.take 1).release).Overdue count := by
  have before : watch.queue.length = watch.stood + count := overdue
  simp only [stood, held, if_true] at before
  rw [Overdue, release, take, List.length_drop, before, stood]
  simp only [Bool.false_eq_true, if_false]
  omega

theorem Overdue.refuse {watch : Watch α} {count : Nat} (overdue : watch.Overdue count)
    (held : watch.held = true) : watch.release.Overdue (count + 1) := by
  have before : watch.queue.length = watch.stood + count := overdue
  simp only [stood, held, if_true] at before
  rw [Overdue, release, before, stood]
  simp only [Bool.false_eq_true, if_false]
  omega

theorem Overdue.some {watch : Watch α} {count : Nat} (overdue : watch.Overdue count)
    (held : watch.held = true) : watch.queue ≠ [] := by
  have before : watch.queue.length = watch.stood + count := overdue
  simp only [stood, held, if_true] at before
  intro empty
  rw [empty, List.length_nil] at before
  omega

theorem Overdue.raised {watch : Watch α} {count : Nat} (overdue : watch.Overdue count)
    (edge : watch.edge = true) : watch.queue ≠ [] := by
  have before : watch.queue.length = watch.stood + count := overdue
  simp only [stood, edge, if_true] at before
  intro empty
  rw [empty, List.length_nil] at before
  omega

structure Counted (watch : Watch α) (busy : Prop) (count : Nat) : Prop where
  overdue : watch.Overdue count
  held : watch.held = true ↔ busy

section Counted

variable {watch : Watch α} {busy : Prop} {count : Nat}

theorem empty_counted : Counted (empty : Watch α) False 0 :=
  ⟨empty_overdue, iff_of_false Bool.false_ne_true id⟩

theorem Counted.congr {busy' : Prop} (counted : watch.Counted busy count) (same : busy ↔ busy') :
    watch.Counted busy' count :=
  ⟨counted.overdue, counted.held.trans same⟩

theorem Counted.arrive (counted : watch.Counted busy count) (item : α) :
    (watch.arrive [item]).Counted busy (count + if watch.edge then 1 else 0) :=
  ⟨counted.overdue.arrive item, counted.held⟩

theorem Counted.report (counted : watch.Counted busy count) (edge : watch.edge = true)
    (free : ¬busy) : watch.report.Counted True count :=
  ⟨counted.overdue.report edge (Bool.eq_false_iff.mpr fun held => free (counted.held.mp held)),
    iff_of_true rfl trivial⟩

theorem Counted.serve (counted : watch.Counted busy count) (here : busy) :
    ((watch.take 1).release).Counted False count :=
  ⟨counted.overdue.serve (counted.held.mpr here), iff_of_false Bool.false_ne_true id⟩

theorem Counted.refuse (counted : watch.Counted busy count) (here : busy) :
    watch.release.Counted False (count + 1) :=
  ⟨counted.overdue.refuse (counted.held.mpr here), iff_of_false Bool.false_ne_true id⟩

theorem Counted.some (counted : watch.Counted busy count) (here : busy) : watch.queue ≠ [] :=
  counted.overdue.some (counted.held.mpr here)

theorem Counted.raised (counted : watch.Counted busy count) (edge : watch.edge = true) :
    watch.queue ≠ [] :=
  counted.overdue.raised edge

theorem Counted.idle (counted : watch.Counted busy count) (free : ¬busy) :
    watch.queue.length = (if watch.edge then 1 else 0) + count := by
  have length : watch.queue.length = watch.stood + count := counted.overdue
  have held : watch.held = false := Bool.eq_false_iff.mpr fun held => free (counted.held.mp held)
  rw [length, stood, held, if_neg Bool.false_ne_true, Nat.add_zero]

end Counted

end Watch

end Watch

end StudyRecord.Readiness
