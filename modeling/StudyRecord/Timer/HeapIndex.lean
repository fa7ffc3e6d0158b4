import StudyRecord.Library.Outcome
import StudyRecord.Timer.IntHeap

/-!
The indices into the array of the heap. They are in range as long as the heap was made
with room for a timer.
-/

namespace StudyRecord.TimeHeap

open Machine Outcome

/-- How a call may end early that keeps to the array: a signed overflow takes a heap
of 2 ^ 30 timers. -/
def Allowed (size : Int) : Stop → Prop
  | .outOfRange | .endless => False
  | .overflow => 2 ^ 30 ≤ size.natAbs
  | .dangling | .terminate => True

theorem Allowed.mono {smaller larger : Int} (less : smaller.natAbs ≤ larger.natAbs) :
    ∀ stop, Allowed smaller stop → Allowed larger stop := by
  intro stop allowed
  cases stop with
  | overflow => exact Nat.le_trans allowed less
  | outOfRange => exact allowed
  | endless => exact allowed
  | dangling => trivial
  | terminate => trivial

theorem int_meets {size value : Int} (fits : size.natAbs < 2 ^ 30 → FitsInt value) :
    Meets (Allowed size) (fun result => result = value) (int value) := by
  simp only [int]
  split
  · rfl
  · rename_i large
    refine Nat.le_of_not_lt fun small => large (fits small)

namespace IntHeap

structure Fitting (heap : IntHeap) : Prop where
  nonneg : 0 ≤ heap.capacity
  within : heap.curSize ≤ heap.capacity
  cleared : heap.curSize < 0 → heap.array 0 = none

theorem Fitting.positive {heap : IntHeap} (fitting : heap.Fitting) {timer : Nat}
    (filled : heap.curSize ≠ 0) (first : heap.array 0 = some timer) : 0 < heap.curSize := by
  by_contra negative
  rw [fitting.cleared (by omega)] at first
  contradiction

structure SameSize (heap next : IntHeap) : Prop where
  capacity : next.capacity = heap.capacity
  curSize : next.curSize = heap.curSize

theorem SameSize.refl (heap : IntHeap) : SameSize heap heap := ⟨rfl, rfl⟩

theorem SameSize.trans {first second third : IntHeap} (early : SameSize first second)
    (late : SameSize second third) : SameSize first third :=
  ⟨late.capacity.trans early.capacity, late.curSize.trans early.curSize⟩

/-! Single accesses. -/

theorem read_of_lt {heap : IntHeap} {i : Int} (lower : 0 ≤ i) (upper : i < heap.capacity) :
    heap.read i = .ok (heap.array i) := if_pos ⟨lower, upper⟩

theorem read_zero_of_empty {heap : IntHeap} (empty : heap.capacity < 1) :
    heap.read 0 = .error .outOfRange := by
  apply if_neg
  omega

theorem write_meets {size : Int} {heap : IntHeap} {i : Int} (timer : Option Nat) (lower : 0 ≤ i)
    (upper : i < heap.capacity) : Meets (Allowed size) (SameSize heap) (heap.write i timer) := by
  rw [write, if_pos ⟨lower, upper⟩]
  exact ⟨rfl, rfl⟩

theorem absoluteExpire_meets (size : Int) (heap : IntHeap) (timer : Option Nat) :
    Meets (Allowed size) (fun _ => True) (heap.absoluteExpire timer) := by
  simp only [absoluteExpire]
  split
  · trivial
  · trivial

theorem expireAt_meets (size : Int) {heap : IntHeap} {i : Int} (lower : 0 ≤ i)
    (upper : i < heap.capacity) :
    Meets (Allowed size) (fun _ => True) (heap.expireAt i) := by
  rw [expireAt, read_of_lt lower upper]
  exact absoluteExpire_meets size heap (heap.array i)

/-! `percolate_down`. -/

theorem smallerChild_meets (size : Int) {heap : IntHeap} {child : Int} (lower : 0 ≤ child)
    (upper : child ≤ heap.curSize - 1) (within : heap.curSize ≤ heap.capacity) :
    Meets (Allowed size) (fun smaller => child ≤ smaller ∧ smaller < heap.curSize)
      (heap.smallerChild child) := by
  simp only [smallerChild]
  split
  · rename_i two
    apply (expireAt_meets size (by omega) (by omega)).bind
    intro second _
    apply (expireAt_meets size lower (by omega)).bind
    intro first _
    simp only [pure, Except.pure, Meets]
    split <;> omega
  · exact ⟨by omega, by omega⟩

theorem swap_meets (size : Int) {heap : IntHeap} {hole child : Int} (lower : 0 ≤ hole)
    (below : hole < child) (upper : child < heap.capacity) :
    Meets (Allowed size) (SameSize heap) (heap.swap hole child) := by
  rw [swap, read_of_lt lower (by omega), read_of_lt (by omega) upper]
  apply (write_meets (heap.array child) lower (by omega)).bind
  intro moved same
  have upper' : child < moved.capacity := by
    rw [same.capacity]
    exact upper
  refine (write_meets (heap.array hole) (by omega) upper').imp (fun _ => id) ?_
  exact fun next same' => same.trans same'

theorem percolateDown_meets (fuel : Nat) (heap : IntHeap) (hole : Int) (lower : 0 ≤ hole)
    (held : hole < heap.curSize ∨ hole = 0) (within : heap.curSize ≤ heap.capacity)
    (enough : heap.curSize ≤ hole + fuel) :
    Meets (Allowed heap.curSize) (SameSize heap) (percolateDown fuel heap hole) := by
  induction fuel generalizing heap hole with
  | zero =>
      rw [percolateDown]
      have fits (small : heap.curSize.natAbs < 2 ^ 30) : FitsInt (hole * 2 + 1) := by
        simp only [FitsInt, intMin, intMax]
        omega
      apply (int_meets fits).bind
      rintro left rfl
      have leaf : ¬hole * 2 + 1 ≤ heap.curSize - 1 := by omega
      rw [if_neg leaf]
      exact .refl heap
  | succ fuel ih =>
      rw [percolateDown]
      have fits (small : heap.curSize.natAbs < 2 ^ 30) : FitsInt (hole * 2 + 1) := by
        simp only [FitsInt, intMin, intMax]
        omega
      apply (int_meets fits).bind
      rintro left rfl
      split
      · rename_i inner
        apply (smallerChild_meets heap.curSize (by omega) inner within).bind
        rintro child ⟨above, last⟩
        apply (expireAt_meets heap.curSize (by omega) (by omega)).bind
        intro below _
        apply (expireAt_meets heap.curSize lower (by omega)).bind
        intro here _
        split
        · apply (swap_meets heap.curSize lower (by omega) (by omega)).bind
          intro moved same
          obtain ⟨capacity, curSize⟩ := same
          have later := ih moved child (by omega) (by omega) (by omega) (by omega)
          rw [curSize] at later
          exact later.imp (fun _ => id) fun next same' => SameSize.trans ⟨capacity, curSize⟩ same'
        · exact .refl heap
      · exact .refl heap

/-! `add_timer`. -/

theorem copy_meets (size : Int) (source : Int → Except Stop (Option Nat)) (count : Nat)
    (heap : IntHeap) (i : Int) (lower : 0 ≤ i) (room : i + count ≤ heap.capacity)
    (has : ∀ j, i ≤ j → j < i + count → ∃ timer, source j = .ok timer) :
    Meets (Allowed size) (SameSize heap) (copy source count heap i) := by
  induction count generalizing heap i with
  | zero => exact .refl heap
  | succ count ih =>
      obtain ⟨timer, found⟩ := has i (by omega) (by omega)
      rw [copy, found]
      apply (write_meets timer lower (by omega)).bind
      intro next same
      have room' : i + 1 + count ≤ next.capacity := by
        rw [same.capacity]
        omega
      have later := ih next (i + 1) (by omega) room' fun j from' to' => has j (by omega) (by omega)
      exact later.imp (fun _ => id) fun last same' => same.trans same'

theorem resize_meets {heap : IntHeap} (fitting : heap.Fitting)
    (full : heap.curSize ≥ heap.capacity) :
    Meets (Allowed heap.curSize)
      (fun grown => grown.capacity = 2 * heap.capacity ∧ grown.curSize = heap.curSize)
      heap.resize := by
  have nonneg := fitting.nonneg
  have within := fitting.within
  have fits (small : heap.curSize.natAbs < 2 ^ 30) : FitsInt (2 * heap.capacity) := by
    simp only [FitsInt, intMin, intMax]
    omega
  apply (int_meets fits).bind
  rintro capacity rfl
  have copied := copy_meets heap.curSize heap.read heap.curSize.toNat
    { heap with array := fun _ => none, capacity := 2 * heap.capacity } 0 (Int.le_refl 0)
    (show 0 + (heap.curSize.toNat : Int) ≤ 2 * heap.capacity by omega)
    fun j from' to' => ⟨heap.array j, read_of_lt from' (by omega)⟩
  exact copied.imp (fun _ => id) fun grown same => ⟨same.capacity, same.curSize⟩

theorem raise_meets (size : Int) (timer fuel : Nat) (heap : IntHeap) (hole : Int)
    (lower : 0 ≤ hole) (upper : hole < heap.capacity) (enough : hole ≤ fuel) :
    Meets (Allowed size)
      (fun raised => SameSize heap raised.1 ∧ 0 ≤ raised.2 ∧ raised.2 ≤ hole)
      (raise timer fuel heap hole) := by
  induction fuel generalizing heap hole with
  | zero =>
      have root : ¬0 < hole := by omega
      rw [raise, if_neg root]
      exact ⟨.refl heap, lower, Int.le_refl hole⟩
  | succ fuel ih =>
      rw [raise]
      split
      · have parent : 0 ≤ (hole - 1) / 2 ∧ (hole - 1) / 2 < hole := by omega
        apply (expireAt_meets size parent.1 (by omega)).bind
        intro above _
        apply (absoluteExpire_meets size heap timer).bind
        intro expire _
        split
        · exact ⟨.refl heap, lower, Int.le_refl hole⟩
        · rw [read_of_lt parent.1 (by omega)]
          apply (write_meets (heap.array ((hole - 1) / 2)) lower upper).bind
          intro moved same
          have upper' : (hole - 1) / 2 < moved.capacity := by
            rw [same.capacity]
            omega
          refine (ih moved ((hole - 1) / 2) parent.1 upper' (by omega)).imp (fun _ => id) ?_
          rintro raised ⟨same', first, last⟩
          exact ⟨same.trans same', first, by omega⟩
      · exact ⟨.refl heap, lower, Int.le_refl hole⟩

theorem insert_meets (size : Int) {heap : IntHeap} (timer : Nat) (lower : 0 ≤ heap.curSize)
    (room : heap.curSize < heap.capacity) :
    Meets (Allowed size) Fitting (do
      let (heap, hole) ← raise timer heap.curSize.toNat { heap with curSize := heap.curSize + 1 }
        heap.curSize
      heap.write hole timer) := by
  apply (raise_meets size timer heap.curSize.toNat { heap with curSize := heap.curSize + 1 }
    heap.curSize lower room (by omega)).bind
  rintro ⟨raised, hole⟩ ⟨same, first, last⟩
  have capacity : raised.capacity = heap.capacity := same.capacity
  have curSize : raised.curSize = heap.curSize + 1 := same.curSize
  simp only at first last
  refine (write_meets timer first (by omega)).imp (fun _ => id) fun next same' => ?_
  obtain ⟨capacity', curSize'⟩ := same'
  exact ⟨by omega, by omega, fun negative => by omega⟩

theorem addTimer_meets {heap : IntHeap} (fitting : heap.Fitting) (timer : Nat)
    (lower : 0 ≤ heap.curSize) (room : 1 ≤ heap.capacity) :
    Meets (Allowed heap.curSize) Fitting (heap.addTimer (some timer)) := by
  have within := fitting.within
  simp only [addTimer]
  split
  · rename_i full
    apply (resize_meets fitting full).bind
    rintro grown ⟨capacity, curSize⟩
    exact insert_meets heap.curSize timer (by omega) (by omega)
  · exact insert_meets heap.curSize timer lower (by omega)

/-! `pop_timer` and `tick`. -/

structure Pops (heap next : IntHeap) : Prop where
  fitting : next.Fitting
  capacity : next.capacity = heap.capacity
  curSize : next.curSize = if (heap.array 0).isSome then heap.curSize - 1 else heap.curSize

theorem sink_meets (heap : IntHeap) (lower : 0 ≤ heap.curSize)
    (room : heap.curSize < heap.capacity) :
    Meets (Allowed heap.curSize) (SameSize heap) (do
      let last ← heap.read heap.curSize
      let heap ← heap.write 0 last
      percolateDown heap.curSize.toNat heap 0) := by
  rw [read_of_lt lower room]
  apply (write_meets (heap.array heap.curSize) (Int.le_refl 0) (by omega)).bind
  rintro moved ⟨capacity, curSize⟩
  have sunk := percolateDown_meets moved.curSize.toNat moved 0 (Int.le_refl 0) (Or.inr rfl)
    (show moved.curSize ≤ moved.capacity by omega) (by omega)
  refine sunk.imp (Allowed.mono (by omega)) fun next same => ?_
  exact SameSize.trans ⟨capacity, curSize⟩ same

theorem popTimer_meets {heap : IntHeap} (fitting : heap.Fitting) (filled : heap.curSize ≠ 0)
    (room : 1 ≤ heap.capacity) : Meets (Allowed heap.curSize) (Pops heap) heap.popTimer := by
  have within := fitting.within
  simp only [popTimer, if_neg filled, read_of_lt (Int.le_refl 0) room]
  cases first : heap.array 0 with
  | none => exact ⟨fitting, rfl, by simp [first]⟩
  | some timer =>
      have positive := fitting.positive filled first
      have freed : Meets (Allowed heap.curSize) (SameSize heap) (heap.free timer) := by
        simp only [free]
        split
        · trivial
        · exact ⟨rfl, rfl⟩
      apply freed.bind
      rintro rest ⟨capacity, curSize⟩
      have sunk := sink_meets { rest with curSize := rest.curSize - 1 }
        (show 0 ≤ rest.curSize - 1 by omega) (show rest.curSize - 1 < rest.capacity by omega)
      refine sunk.imp (Allowed.mono (show (rest.curSize - 1).natAbs ≤ heap.curSize.natAbs by omega)) ?_
      rintro next ⟨capacity', curSize'⟩
      simp only at capacity' curSize'
      refine ⟨⟨by omega, by omega, fun negative => by omega⟩, by omega, ?_⟩
      simp only [first, Option.isSome_some, if_true]
      omega

theorem callFirst_meets (size : Int) {heap : IntHeap} (callback : Callback) {timer : Nat}
    (first : heap.array 0 = some timer) (room : 1 ≤ heap.capacity) :
    Meets (Allowed size) (fun called => called = { heap with memory := callback timer heap.memory })
      (heap.callFirst callback) := by
  rw [callFirst, read_of_lt (Int.le_refl 0) room]
  apply (absoluteExpire_meets size heap (heap.array 0)).bind
  intro _ _
  rw [first]
  rfl

theorem tickLoop_meets (cur : Int) (callback : Callback) (fuel : Nat) {heap : IntHeap}
    {tmp : Option Nat} (fitting : heap.Fitting) (room : 1 ≤ heap.capacity)
    (front : heap.array 0 = tmp) (enough : heap.curSize ≤ fuel) :
    Meets (Allowed heap.curSize) Fitting (tickLoop cur callback fuel heap tmp) := by
  induction fuel generalizing heap tmp with
  | zero =>
      cases tmp with
      | none =>
          rw [tickLoop, ite_self]
          exact fitting
      | some timer =>
          have empty : heap.curSize = 0 := by
            by_contra filled
            have positive := fitting.positive filled front
            omega
          rw [tickLoop, if_pos empty]
          exact fitting
  | succ fuel ih =>
      cases tmp with
      | none =>
          rw [tickLoop, ite_self]
          exact fitting
      | some timer =>
          rw [tickLoop]
          split
          · exact fitting
          · rename_i filled
            have positive := fitting.positive filled front
            apply (absoluteExpire_meets heap.curSize heap (some timer)).bind
            intro expire _
            split
            · exact fitting
            · apply (callFirst_meets heap.curSize callback front room).bind
              rintro called rfl
              have fitting' : ({ heap with memory := callback timer heap.memory } : IntHeap).Fitting :=
                ⟨fitting.nonneg, fitting.within, fitting.cleared⟩
              apply (popTimer_meets fitting' filled room).bind
              rintro rest ⟨fitting'', capacity, curSize⟩
              simp only [front, Option.isSome_some, if_true] at capacity curSize
              have room' : 1 ≤ rest.capacity := by omega
              rw [read_of_lt (Int.le_refl 0) room']
              have fewer : rest.curSize.natAbs ≤ heap.curSize.natAbs := by omega
              exact (ih fitting'' room' rfl (by omega)).imp (Allowed.mono fewer) fun _ => id

/-! The constructors. -/

theorem heapify_meets (count : Nat) (heap : IntHeap) (held : count ≤ heap.curSize)
    (within : heap.curSize ≤ heap.capacity) :
    Meets (Allowed heap.curSize) (SameSize heap) (heapify count heap) := by
  induction count generalizing heap with
  | zero => exact .refl heap
  | succ count ih =>
      rw [heapify]
      apply (percolateDown_meets heap.curSize.toNat heap count (by omega) (by omega) within
        (by omega)).bind
      rintro sunk ⟨capacity, curSize⟩
      have later := ih sunk (by omega) (by omega)
      rw [curSize] at later
      exact later.imp (fun _ => id) fun next same => SameSize.trans ⟨capacity, curSize⟩ same

theorem ofArray_meets (memory : Memory) (initArray : Int → Option Nat) {size capacity : Int}
    (nonneg : 0 ≤ capacity) :
    Meets (Allowed size) Fitting (ofArray memory initArray size capacity) := by
  simp only [ofArray]
  split
  · trivial
  · split
    · rename_i within filled
      have copied : Meets (Allowed size)
          (fun heap => SameSize { make memory capacity with curSize := size } heap ∧
            (size < 0 → heap.array 0 = none))
          (copy (fun i => .ok (initArray i)) size.toNat
            { make memory capacity with curSize := size } 0) := by
        by_cases negative : size < 0
        · have none' : size.toNat = 0 := by omega
          rw [none']
          exact ⟨.refl _, fun _ => rfl⟩
        · have room : (0 : Int) + size.toNat ≤ capacity := by omega
          refine (copy_meets size _ size.toNat _ 0 (Int.le_refl 0) room ?_).imp (fun _ => id) ?_
          · exact fun j _ _ => ⟨initArray j, rfl⟩
          · exact fun heap same => ⟨same, fun negative' => absurd negative' negative⟩
      apply copied.bind
      rintro heap ⟨⟨capacity', curSize'⟩, cleared⟩
      simp only [make] at capacity' curSize'
      have small (few : size.natAbs < 2 ^ 30) : FitsInt (heap.curSize - 1) := by
        simp only [FitsInt, intMin, intMax]
        omega
      apply (int_meets small).bind
      rintro last rfl
      by_cases negative : size < 0
      · have nothing : ((heap.curSize - 1).tdiv 2 + 1).toNat = 0 := by
          have opposite : (heap.curSize - 1).tdiv 2 = -((1 - heap.curSize) / 2) := by
            rw [← Int.tdiv_eq_ediv_of_nonneg (by omega), ← Int.neg_tdiv, Int.neg_sub]
          omega
        rw [nothing]
        exact ⟨by omega, by omega, fun _ => cleared negative⟩
      · have held : (((heap.curSize - 1).tdiv 2 + 1).toNat : Int) ≤ heap.curSize := by
          rw [Int.tdiv_eq_ediv_of_nonneg (by omega)]
          omega
        refine (heapify_meets _ heap held (by omega)).imp (Allowed.mono (by omega)) ?_
        rintro made ⟨capacity'', curSize''⟩
        exact ⟨by omega, by omega, fun negative' => by omega⟩
    · rename_i within filled
      have empty : size = 0 := by omega
      exact ⟨nonneg, by simp only [make]; omega, fun _ => rfl⟩

/-! Calls. -/

def Grows (heap : IntHeap) (call : HeapCall) : Prop :=
  ∀ timer grown, call = .add (some timer) → heap.curSize ≥ heap.capacity →
    heap.resize = .ok grown → grown.curSize < grown.capacity

/-- Every index that the call reads or writes is one of the array, and none of its
loops goes on for ever. -/
structure InRange (heap : IntHeap) (call : HeapCall) : Prop where
  inside : heap.step call ≠ .error .outOfRange
  ends : heap.step call ≠ .error .endless
  grows : heap.Grows call

def HasFirst (heap : IntHeap) : HeapCall → Prop
  | .add (some _) => 0 ≤ heap.curSize ∧ 1 ≤ heap.capacity
  | .tick _ _ => 1 ≤ heap.capacity
  | .pop | .top => heap.curSize = 0 ∨ 1 ≤ heap.capacity
  | .add none | .outside _ => True

theorem step_meets {heap : IntHeap} {call : HeapCall} (fitting : heap.Fitting)
    (first : heap.HasFirst call) : Meets (Allowed heap.curSize) Fitting (heap.step call) := by
  cases call with
  | add timer =>
      cases timer with
      | none => exact fitting
      | some timer => exact addTimer_meets fitting timer first.1 first.2
  | pop =>
      by_cases filled : heap.curSize = 0
      · rw [step, popTimer, if_pos filled]
        exact fitting
      · exact (popTimer_meets fitting filled (first.resolve_left filled)).imp (fun _ => id)
          fun next pops => pops.fitting
  | top =>
      by_cases filled : heap.curSize = 0
      · rw [step, top, if_pos filled]
        exact fitting
      · rw [step, top, if_neg filled, read_of_lt (Int.le_refl 0) (first.resolve_left filled)]
        exact fitting
  | tick cur callback =>
      rw [step, tick, read_of_lt (Int.le_refl 0) first]
      exact tickLoop_meets cur callback heap.curSize.toNat fitting first rfl (by omega)
  | outside memory => exact ⟨fitting.nonneg, fitting.within, fitting.cleared⟩

theorem addTimer_outOfRange {heap : IntHeap} (fitting : heap.Fitting) (timer : Nat)
    (missing : heap.curSize < 0 ∨ heap.capacity < 1) :
    heap.addTimer (some timer) = .error .outOfRange := by
  have nonneg := fitting.nonneg
  have within := fitting.within
  by_cases negative : heap.curSize < 0
  · have kept : ¬heap.curSize ≥ heap.capacity := by omega
    have root : ¬0 < heap.curSize := by omega
    have outside : ¬(0 ≤ heap.curSize ∧ heap.curSize < heap.capacity) := by omega
    have nothing : heap.curSize.toNat = 0 := by omega
    simp only [addTimer, if_neg kept, pure_bind, nothing]
    rw [raise, if_neg root]
    exact if_neg outside
  · have empty : heap.capacity = 0 := by omega
    have filled : heap.curSize = 0 := by omega
    have resized : heap.resize = .ok { heap with array := fun _ => none, capacity := 0 } := by
      rw [resize, empty, filled]
      rfl
    simp only [addTimer, empty, filled, ge_iff_le, Int.le_refl, if_true, resized]
    rfl

theorem step_outOfRange {heap : IntHeap} {call : HeapCall} (fitting : heap.Fitting)
    (none' : ¬heap.HasFirst call) : heap.step call = .error .outOfRange := by
  have nonneg := fitting.nonneg
  have within := fitting.within
  cases call with
  | add timer =>
      cases timer with
      | none => exact absurd trivial none'
      | some timer =>
          simp only [HasFirst] at none'
          exact addTimer_outOfRange fitting timer (by omega)
  | pop =>
      obtain ⟨filled, empty⟩ := not_or.mp none'
      rw [step, popTimer, if_neg filled, read_zero_of_empty (by omega)]
      rfl
  | top =>
      obtain ⟨filled, empty⟩ := not_or.mp none'
      rw [step, top, if_neg filled, read_zero_of_empty (by omega)]
      rfl
  | tick cur callback =>
      rw [step, tick, read_zero_of_empty (not_le.mp none')]
      rfl
  | outside memory => exact absurd trivial none'

theorem inRange_iff {heap : IntHeap} {call : HeapCall} (fitting : heap.Fitting) :
    heap.InRange call ↔ heap.HasFirst call := by
  constructor
  · intro inRange
    by_contra none'
    exact inRange.inside (step_outOfRange fitting none')
  · intro first
    have meets := step_meets fitting first
    refine ⟨meets.avoids id, meets.avoids id, ?_⟩
    rintro timer grown rfl full resized
    obtain ⟨capacity, curSize⟩ := (resize_meets fitting full).of_ok resized
    have within := fitting.within
    have room := first.2
    omega

end IntHeap

theorem Made.heap_meets (memory : Memory) {made : Made} (fits : made.Fits) :
    Meets (Allowed made.size) IntHeap.Fitting (made.heap memory) := by
  cases made with
  | empty cap => exact ⟨fits.1, fits.1, fun _ => rfl⟩
  | array initArray size capacity => exact IntHeap.ofArray_meets memory initArray fits.2.1

abbrev runCalls (heap : IntHeap) (calls : List HeapCall) : Except Stop IntHeap :=
  Runs.run IntHeap.step heap calls

abbrev AlongCalls (allowed : IntHeap → HeapCall → Prop) (heap : IntHeap) (calls : List HeapCall) : Prop :=
  Runs.Along IntHeap.step allowed heap calls

/-- A constructor takes a capacity of 0, which `resize` does not get beyond, and `tick`
looks at the first entry before it looks whether there is one. -/
theorem inRange_iff_hasFirst (memory : Memory) (made : Made) (fits : made.Fits) :
    made.heap memory ≠ .error .outOfRange ∧ made.heap memory ≠ .error .endless ∧
      ∀ heap, made.heap memory = .ok heap → ∀ calls,
        (AlongCalls IntHeap.InRange heap calls ↔ AlongCalls IntHeap.HasFirst heap calls) ∧
        (AlongCalls (fun heap _ => heap.curSize.natAbs < 2 ^ 30) heap calls →
          runCalls heap calls ≠ .error .overflow) := by
  have meets := made.heap_meets memory fits
  refine ⟨meets.avoids id, meets.avoids id, fun heap returned calls => ?_⟩
  have fitting := meets.of_ok returned
  have same (heap : IntHeap) (call : HeapCall) (fitting : heap.Fitting) (_ : True) :
      heap.InRange call ↔ heap.HasFirst call := IntHeap.inRange_iff fitting
  have preserved (heap : IntHeap) (call : HeapCall) (next : IntHeap) (fitting : heap.Fitting)
      (taken : heap.step call = .ok next) : next.Fitting := by
    by_cases first : heap.HasFirst call
    · exact (IntHeap.step_meets fitting first).of_ok taken
    · rw [IntHeap.step_outOfRange fitting first] at taken
      contradiction
  have exact' (heap : IntHeap) (call : HeapCall) (fitting : heap.Fitting)
      (few : heap.curSize.natAbs < 2 ^ 30) : heap.step call ≠ .error .overflow := by
    by_cases first : heap.HasFirst call
    · exact (IntHeap.step_meets fitting first).avoids (Nat.not_le_of_lt few)
    · rw [IntHeap.step_outOfRange fitting first]
      simp
  constructor
  · exact Runs.along_congr same (fun heap call next fitting _ _ => preserved heap call next fitting)
      calls fitting (Runs.along_of_forall calls heap fun _ _ _ => trivial)
  · exact Runs.run_avoids (fun heap call next fitting _ => preserved heap call next fitting) exact'
      calls fitting

theorem inRange_iff_hasFirst_one :
    (Made.empty 1).heap (fun timer => some timer) ≠ .error .outOfRange ∧
      (Made.empty 1).heap (fun timer => some timer) ≠ .error .endless ∧
      ∀ heap, (Made.empty 1).heap (fun timer => some timer) = .ok heap → ∀ calls,
        (AlongCalls IntHeap.InRange heap calls ↔ AlongCalls IntHeap.HasFirst heap calls) ∧
        (AlongCalls (fun heap _ => heap.curSize.natAbs < 2 ^ 30) heap calls →
          runCalls heap calls ≠ .error .overflow) :=
  inRange_iff_hasFirst (fun timer => some timer) (.empty 1) ⟨by decide, by decide⟩

/-- `tick` reads the first entry of an array without entries, and the array that `resize`
makes of it has no room either. -/
theorem empty_array_read :
    (Made.empty 0).Fits ∧
      (Made.empty 0).heap (fun timer => some timer) = .ok (.make (fun timer => some timer) 0) ∧
      ¬AlongCalls IntHeap.InRange (.make (fun timer => some timer) 0)
        [.tick 0 fun _ memory => memory] ∧
      ¬AlongCalls IntHeap.InRange (.make (fun timer => some timer) 0) [.add (some 7)] ∧
      ¬(IntHeap.make (fun timer => some timer) 0).Grows (.add (some 7)) := by
  refine ⟨⟨by decide, by decide⟩, rfl, ?_, ?_, ?_⟩
  · exact fun inRange => inRange.1.inside rfl
  · exact fun inRange => inRange.1.inside rfl
  · intro grows
    exact absurd (grows 7 _ rfl (Int.le_refl 0) rfl) (by decide)

end StudyRecord.TimeHeap
