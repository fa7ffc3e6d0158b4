import Mathlib.Data.Multiset.Range
import Mathlib.Order.Basic

/-!
Binary min-heaps in the cells of an array, the children of `i` at `2 * i + 1` and
`2 * i + 2`. A sift exchanges two cells at each step; what it needs of the order is the
heap order but for the pairs around one position.
-/

namespace StudyRecord.ArrayHeap

def parent (i : Nat) : Nat := (i - 1) / 2

theorem parent_lt {i : Nat} (inside : 0 < i) : parent i < i := by
  unfold parent
  omega

theorem parent_eq {i hole : Nat} (inside : 0 < i) :
    parent i = hole ↔ i = 2 * hole + 1 ∨ i = 2 * hole + 2 := by
  unfold parent
  omega

structure Exchanged {A : Type} (cells result : Nat → A) (left right : Nat) : Prop where
  first : result left = cells right
  second : result right = cells left
  others : ∀ i, i ≠ left → i ≠ right → result i = cells i

section Content

variable {A : Type}

def content (cells : Nat → A) (size : Nat) : Multiset A :=
  (Multiset.range size).map cells

@[simp] theorem content_zero (cells : Nat → A) : content cells 0 = 0 := rfl

theorem content_succ (cells : Nat → A) (size : Nat) :
    content cells (size + 1) = cells size ::ₘ content cells size := by
  simp [content, Multiset.range_succ]

theorem mem_content {cells : Nat → A} {size : Nat} {entry : A} :
    entry ∈ content cells size ↔ ∃ i < size, cells i = entry := by
  simp [content]

theorem content_congr {cells result : Nat → A} {size : Nat}
    (same : ∀ i < size, result i = cells i) : content result size = content cells size :=
  Multiset.map_congr rfl fun i inside => same i (by simpa using inside)

theorem content_update (cells : Nat → A) {size i : Nat} (inside : i < size) (entry : A) :
    cells i ::ₘ content (Function.update cells i entry) size = entry ::ₘ content cells size := by
  induction size with
  | zero => omega
  | succ size ih =>
      rw [content_succ, content_succ]
      by_cases last : i = size
      · subst last
        have below : content (Function.update cells i entry) i = content cells i :=
          content_congr fun j lower => Function.update_of_ne (by omega) ..
        rw [Function.update_self, below, Multiset.cons_swap]
      · rw [Function.update_of_ne (Ne.symm last), Multiset.cons_swap, ih (by omega),
          Multiset.cons_swap]

theorem Exchanged.eq_update {cells result : Nat → A} {left right : Nat}
    (exchanged : Exchanged cells result left right) :
    result = Function.update (Function.update cells left (cells right)) right (cells left) := by
  funext i
  by_cases here : i = right
  · subst here
    rw [Function.update_self, exchanged.second]
  · rw [Function.update_of_ne here]
    by_cases there : i = left
    · subst there
      rw [Function.update_self, exchanged.first]
    · rw [Function.update_of_ne there, exchanged.others i there here]

theorem Exchanged.content {cells result : Nat → A} {left right size : Nat}
    (exchanged : Exchanged cells result left right) (leftInside : left < size)
    (rightInside : right < size) : content result size = content cells size := by
  have first := content_update cells leftInside (cells right)
  have second :=
    content_update (Function.update cells left (cells right)) rightInside (cells left)
  have there : Function.update cells left (cells right) right = cells right := by
    by_cases same : right = left
    · rw [same, Function.update_self]
    · exact Function.update_of_ne same ..
  rw [there, ← exchanged.eq_update] at second
  have both := congrArg (cells left ::ₘ ·) second
  simp only [first, Multiset.cons_swap (cells left) (cells right)] at both
  rw [Multiset.cons_inj_right, Multiset.cons_inj_right] at both
  exact both

end Content

section Order

variable {K : Type} [LinearOrder K]

def OrderedFrom (key : Nat → K) (size start : Nat) : Prop :=
  ∀ i, 0 < i → i < size → start ≤ parent i → key (parent i) ≤ key i

abbrev Ordered (key : Nat → K) (size : Nat) : Prop := OrderedFrom key size 0

theorem Ordered.first_le {key : Nat → K} {size : Nat} (ordered : Ordered key size) (i : Nat)
    (inside : i < size) : key 0 ≤ key i := by
  induction i using Nat.strongRecOn with
  | ind i ih =>
      by_cases root : i = 0
      · rw [root]
      · have lower : parent i < i := parent_lt (by omega)
        exact (ih (parent i) lower (by omega)).trans (ordered i (by omega) inside (by omega))

theorem OrderedFrom.congr {key key' : Nat → K} {size start : Nat}
    (ordered : OrderedFrom key size start) (same : ∀ i < size, key' i = key i) :
    OrderedFrom key' size start := by
  intro i positive inside from'
  have lower := parent_lt positive
  rw [same i inside, same (parent i) (by omega)]
  exact ordered i positive inside from'

theorem OrderedFrom.shrink {key : Nat → K} {size less start : Nat}
    (ordered : OrderedFrom key size start) (fewer : less ≤ size) : OrderedFrom key less start :=
  fun i positive inside from' => ordered i positive (by omega) from'

theorem orderedFrom_leaves (key : Nat → K) {size start : Nat} (leaves : size ≤ 2 * start + 1) :
    OrderedFrom key size start := by
  intro i positive inside from'
  unfold parent at from'
  omega

/-- The order while an entry rises: the pair above the hole is left open. -/
structure Rising (key : Nat → K) (size hole : Nat) : Prop where
  others : ∀ i, 0 < i → i < size → i ≠ hole → key (parent i) ≤ key i
  around : 0 < hole → ∀ i, 0 < i → i < size → parent i = hole → key (parent hole) ≤ key i

theorem Rising.last {key : Nat → K} {size : Nat} (ordered : Ordered key size) :
    Rising key (size + 1) size := by
  constructor
  · intro i positive inside notLast
    exact ordered i positive (by omega) (by omega)
  · intro _ i positive inside below
    have lower := parent_lt positive
    omega

theorem Rising.finish {key : Nat → K} {size hole : Nat} (rising : Rising key size hole)
    (stop : 0 < hole → key (parent hole) ≤ key hole) : Ordered key size := by
  intro i positive inside _
  by_cases here : i = hole
  · subst here
    exact stop positive
  · exact rising.others i positive inside here

theorem Rising.move {key key' : Nat → K} {size hole : Nat} (rising : Rising key size hole)
    (positive : 0 < hole) (inside : hole < size) (below : key hole < key (parent hole))
    (exchanged : Exchanged key key' hole (parent hole)) : Rising key' size (parent hole) := by
  have lower := parent_lt positive
  constructor
  · intro i positive' inside' notParent
    by_cases here : i = hole
    · subst here
      rw [exchanged.first, exchanged.second]
      exact below.le
    · rw [exchanged.others i here notParent]
      by_cases child : parent i = hole
      · rw [child, exchanged.first]
        exact rising.around positive i positive' inside' child
      · by_cases sibling : parent i = parent hole
        · rw [sibling, exchanged.second]
          have order := rising.others i positive' inside' here
          rw [sibling] at order
          exact below.le.trans order
        · rw [exchanged.others (parent i) child sibling]
          exact rising.others i positive' inside' here
  · intro positiveParent i positive' inside' below'
    have lowerParent := parent_lt positiveParent
    have above : key (parent (parent hole)) ≤ key (parent hole) :=
      rising.others (parent hole) positiveParent (by omega) (by omega)
    rw [exchanged.others (parent (parent hole)) (by omega) (by omega)]
    by_cases here : i = hole
    · subst here
      rw [exchanged.first]
      exact above
    · have lower' := parent_lt positive'
      rw [exchanged.others i here (by omega)]
      have order := rising.others i positive' inside' here
      rw [below'] at order
      exact above.trans order

/-- The order while an entry sinks, for the parents from `start` on: the pairs below the
hole are left open. -/
structure Sinking (key : Nat → K) (size start hole : Nat) : Prop where
  others : ∀ i, 0 < i → i < size → start ≤ parent i → parent i ≠ hole → key (parent i) ≤ key i
  around : 0 < hole → start ≤ parent hole →
    ∀ i, 0 < i → i < size → parent i = hole → key (parent hole) ≤ key i

theorem Sinking.start {key : Nat → K} {size start : Nat}
    (ordered : OrderedFrom key size (start + 1)) : Sinking key size start start := by
  constructor
  · intro i positive inside from' notStart
    exact ordered i positive inside (by omega)
  · intro positive from'
    have lower := parent_lt positive
    omega

theorem Sinking.root {key key' : Nat → K} {size : Nat} (ordered : Ordered key size)
    (same : ∀ i, 0 < i → i < size → key' i = key i) : Sinking key' size 0 0 := by
  constructor
  · intro i positive inside from' notRoot
    have lower := parent_lt positive
    rw [same i positive inside, same (parent i) (by omega) (by omega)]
    exact ordered i positive inside from'
  · intro positive
    omega

theorem Sinking.finish {key : Nat → K} {size start hole : Nat}
    (sinking : Sinking key size start hole)
    (stop : ∀ i, 0 < i → i < size → parent i = hole → key hole ≤ key i) :
    OrderedFrom key size start := by
  intro i positive inside from'
  by_cases here : parent i = hole
  · rw [here]
    exact stop i positive inside here
  · exact sinking.others i positive inside from' here

theorem Sinking.move {key key' : Nat → K} {size start hole child : Nat}
    (sinking : Sinking key size start hole) (positive : 0 < child) (inside : child < size)
    (from' : start ≤ hole) (under : parent child = hole)
    (least : ∀ i, 0 < i → i < size → parent i = hole → key child ≤ key i)
    (below : key child < key hole) (exchanged : Exchanged key key' hole child) :
    Sinking key' size start child := by
  have lower := parent_lt positive
  constructor
  · intro i positive' inside' fromParent notChild
    have lower' := parent_lt positive'
    by_cases here : parent i = hole
    · rw [here, exchanged.first]
      by_cases same : i = child
      · subst same
        rw [exchanged.second]
        exact below.le
      · rw [exchanged.others i (by omega) same]
        exact least i positive' inside' here
    · rw [exchanged.others (parent i) here notChild]
      by_cases hole' : i = hole
      · subst hole'
        rw [exchanged.first]
        exact sinking.around positive' fromParent child positive inside under
      · have notChild' : i ≠ child := by
          rintro rfl
          exact here under
        rw [exchanged.others i hole' notChild']
        exact sinking.others i positive' inside' fromParent here
  · intro _ fromParent i positive' inside' under'
    have lower' := parent_lt positive'
    rw [under, exchanged.first, exchanged.others i (by omega) (by omega)]
    have order := sinking.others i positive' inside' (by omega) (by omega)
    rwa [under'] at order

end Order

end StudyRecord.ArrayHeap
