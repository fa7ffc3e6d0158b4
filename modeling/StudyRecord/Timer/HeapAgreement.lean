import StudyRecord.Library.Outcome
import StudyRecord.Timer.IntHeap
import StudyRecord.Timer.Expiry

/-!
The heap with `int`s and the heap with natural numbers take the same steps: below 2 ^ 30
timers no `int` overflows.
-/

namespace StudyRecord.TimeHeap

open Machine Outcome

section Ints

variable {F T : Type}

namespace Heap

def ints (heap : Heap F T) : IntHeap where
  memory := fun timer => (heap.memory timer).map HeapTimer.absoluteExpire
  array := fun i => if 0 ≤ i then heap.array i.toNat else none
  capacity := heap.capacity
  curSize := heap.curSize

theorem expiries_update (memory : Nat → Option (HeapTimer F T)) (timer : Nat)
    (data : Option (HeapTimer F T)) :
    (fun other => (Function.update memory timer data other).map HeapTimer.absoluteExpire) =
      Function.update (fun other => (memory other).map HeapTimer.absoluteExpire) timer
        (data.map HeapTimer.absoluteExpire) :=
  Function.comp_update (Option.map HeapTimer.absoluteExpire) memory timer data

structure Stands (size : Nat) (next : Heap F T) (next' : IntHeap) : Prop where
  same : next' = next.ints
  curSize : next.curSize = size

theorem int_bind {Value : Type} {value : Int} (fits : FitsInt value)
    (next : Int → Except Stop Value) : (int value >>= next) = next value := by
  rw [int, if_pos fits]
  rfl

theorem ints_inside (heap : Heap F T) (i : Nat) :
    0 ≤ (i : Int) ∧ (i : Int) < heap.ints.capacity ↔ i < heap.capacity := by
  simp only [ints]
  omega

theorem read_agrees (heap : Heap F T) (i : Nat) :
    Agree (fun timer timer' => timer = timer') (heap.read i) (heap.ints.read i) := by
  simp only [read, IntHeap.read, ints_inside]
  split
  · simp [Agree, ints]
  · trivial

theorem front_agrees (heap : Heap F T) :
    Agree (fun timer timer' => timer = timer') (heap.read 0) (heap.ints.read 0) :=
  read_agrees heap 0

theorem cells_update (array : Nat → Option Nat) (i : Nat) (timer : Option Nat) :
    (fun j : Int => if 0 ≤ j then Function.update array i timer j.toNat else none) =
      Function.update (fun j : Int => if 0 ≤ j then array j.toNat else none) i timer := by
  funext j
  by_cases here : j = i
  · subst here
    simp
  · rw [Function.update_of_ne here]
    by_cases nonneg : 0 ≤ j
    · have other : j.toNat ≠ i := by omega
      rw [if_pos nonneg, if_pos nonneg, Function.update_of_ne other]
    · rw [if_neg nonneg, if_neg nonneg]

theorem write_agrees (heap : Heap F T) (i : Nat) (timer : Option Nat) :
    Agree (Stands heap.curSize) (heap.write i timer) (heap.ints.write i timer) := by
  simp only [write, IntHeap.write, ints_inside]
  split
  · refine ⟨?_, rfl⟩
    simp only [ints, cells_update]
  · trivial

theorem absoluteExpire_agrees (heap : Heap F T) (timer : Nat) :
    Agree (fun data expire => expire = data.absoluteExpire) (heap.memory timer)
      (heap.ints.absoluteExpire timer) := by
  simp only [IntHeap.absoluteExpire, Option.bind_some, ints]
  cases heap.memory timer with
  | none => trivial
  | some data => rfl

theorem expireAt_agrees (heap : Heap F T) (i : Nat) :
    Agree (fun expire expire' => expire = expire') (heap.expireAt i) (heap.ints.expireAt i) := by
  apply (read_agrees heap i).bind
  rintro timer _ rfl
  cases timer with
  | none => trivial
  | some timer =>
      have agrees : Agree (fun expire expire' => expire = expire')
          (heap.memory timer >>= fun data => some data.absoluteExpire)
          (heap.ints.absoluteExpire timer >>= pure) := by
        apply (absoluteExpire_agrees heap timer).bind
        rintro data _ rfl
        rfl
      rwa [bind_pure] at agrees

theorem smallerChild_agrees (heap : Heap F T) {hole : Nat} (inner : hole * 2 + 1 < heap.curSize) :
    Agree (fun (child : Nat) (child' : Int) => child' = child ∧ child < heap.curSize)
      (heap.smallerChild hole) (heap.ints.smallerChild (hole * 2 + 1)) := by
  by_cases two : hole * 2 + 1 + 1 < heap.curSize
  · have two' : (hole * 2 + 1 : Int) < heap.ints.curSize - 1 := by
      simp only [ints]
      omega
    have later := expireAt_agrees heap (hole * 2 + 1 + 1)
    have earlier := expireAt_agrees heap (hole * 2 + 1)
    push_cast at later earlier
    simp only [smallerChild, if_pos two, IntHeap.smallerChild, if_pos two']
    apply later.bind
    rintro second _ rfl
    apply earlier.bind
    rintro first _ rfl
    by_cases smaller : second < first
    · rw [if_pos smaller, if_pos smaller]
      exact ⟨by push_cast; rfl, two⟩
    · rw [if_neg smaller, if_neg smaller]
      exact ⟨by push_cast; rfl, inner⟩
  · have one : ¬(hole * 2 + 1 : Int) < heap.ints.curSize - 1 := by
      simp only [ints]
      omega
    simp only [smallerChild, if_neg two, IntHeap.smallerChild, if_neg one]
    exact ⟨by push_cast; rfl, inner⟩

theorem percolateDown_agrees (fuel : Nat) (heap : Heap F T) {hole : Nat}
    (held : hole < heap.curSize ∨ hole = 0) (few : heap.curSize < 2 ^ 30) :
    Agree (Stands heap.curSize) (heap.percolateDown fuel hole)
      (IntHeap.percolateDown fuel heap.ints hole) := by
  have fits : FitsInt (hole * 2 + 1) := by
    simp only [FitsInt, intMin, intMax]
    omega
  have same : (hole * 2 + 1 : Int) ≤ heap.ints.curSize - 1 ↔ hole * 2 + 1 < heap.curSize := by
    simp only [ints]
    omega
  induction fuel generalizing heap hole with
  | zero =>
      rw [percolateDown, IntHeap.percolateDown, int_bind fits]
      simp only [same]
      split
      · trivial
      · exact ⟨rfl, rfl⟩
  | succ fuel ih =>
      rw [percolateDown, IntHeap.percolateDown, int_bind fits]
      simp only [same]
      split
      · rename_i inner
        apply (smallerChild_agrees heap inner).bind
        rintro child _ ⟨rfl, bound⟩
        apply (expireAt_agrees heap child).bind
        rintro below _ rfl
        apply (expireAt_agrees heap hole).bind
        rintro here _ rfl
        split
        · simp only [IntHeap.swap, bind_assoc]
          apply (read_agrees heap hole).bind
          rintro tmp _ rfl
          apply (read_agrees heap child).bind
          rintro pointer _ rfl
          apply (write_agrees heap hole pointer).bind
          rintro moved _ ⟨rfl, curSize⟩
          apply (write_agrees moved child tmp).bind
          rintro swapped _ ⟨rfl, curSize'⟩
          rw [← curSize, ← curSize']
          refine ih swapped (by omega) (by omega) ?_ ?_
          · simp only [FitsInt, intMin, intMax]
            omega
          · simp only [ints]
            omega
        · exact ⟨rfl, rfl⟩
      · exact ⟨rfl, rfl⟩

/-! `add_timer`. -/

theorem copy_eq (source : Int → Except Stop (Option Nat)) (value : Int → Option Nat) (count : Nat)
    (heap : IntHeap) (i : Int) (lower : 0 ≤ i) (room : i + count ≤ heap.capacity)
    (has : ∀ j, i ≤ j → j < i + count → source j = .ok (value j)) :
    IntHeap.copy source count heap i = .ok { heap with
      array := fun j => if i ≤ j ∧ j < i + count then value j else heap.array j } := by
  induction count generalizing heap i with
  | zero =>
      have none' (j : Int) : ¬(i ≤ j ∧ j < i + (0 : Nat)) := by omega
      simp only [IntHeap.copy, none', if_false]
  | succ count ih =>
      have inside : 0 ≤ i ∧ i < heap.capacity := by omega
      have room' : i + 1 + count ≤ heap.capacity := by omega
      have later := ih { heap with array := Function.update heap.array i (value i) } (i + 1)
        (by omega) room' fun j from' to' => has j (by omega) (by omega)
      rw [IntHeap.copy, has i (by omega) (by omega)]
      simp only [bind, Except.bind, IntHeap.write, if_pos inside, later]
      congr 2
      funext j
      by_cases here : j = i
      · subst here
        have outside : ¬(j + 1 ≤ j ∧ j < j + 1 + (count : Int)) := by omega
        have first : j ≤ j ∧ j < j + ((count + 1 : Nat) : Int) := by omega
        rw [if_neg outside, if_pos first, Function.update_self]
      · have same : (i + 1 ≤ j ∧ j < i + 1 + (count : Int)) ↔
            (i ≤ j ∧ j < i + ((count + 1 : Nat) : Int)) := by omega
        rw [Function.update_of_ne here]
        exact if_congr same rfl rfl

theorem cells_eq (cell : Nat → Option Nat) (size : Nat) :
    (fun j : Int => if 0 ≤ j ∧ j < 0 + ((size : Int).toNat : Int) then cell j.toNat else none) =
      fun j => if 0 ≤ j then (if j.toNat < size then cell j.toNat else none) else none := by
  funext j
  by_cases nonneg : 0 ≤ j
  · have inside : (0 ≤ j ∧ j < 0 + ((size : Int).toNat : Int)) ↔ j.toNat < size := by omega
    rw [if_pos nonneg]
    exact if_congr inside rfl rfl
  · rw [if_neg nonneg]
    exact if_neg fun both => nonneg both.1

theorem resize_agrees (heap : Heap F T) (within : heap.curSize ≤ heap.capacity)
    (few : heap.capacity < 2 ^ 30) : heap.ints.resize = .ok heap.resize.ints := by
  have fits : FitsInt (2 * heap.ints.capacity) := by
    simp only [FitsInt, intMin, intMax, ints]
    omega
  have source (j : Int) (from' : 0 ≤ j) (to' : j < 0 + ((heap.curSize : Int).toNat : Int)) :
      heap.ints.read j = .ok (heap.array j.toNat) := by
    have inside : 0 ≤ j ∧ j < heap.ints.capacity := by
      simp only [ints]
      omega
    rw [IntHeap.read, if_pos inside]
    simp only [ints, if_pos from']
  have room : (0 : Int) + ((heap.curSize : Int).toNat : Int) ≤ 2 * heap.ints.capacity := by
    simp only [ints]
    omega
  have copied := copy_eq heap.ints.read (fun j => heap.array j.toNat) (heap.curSize : Int).toNat
    { heap.ints with array := fun _ => none, capacity := 2 * heap.ints.capacity } 0
    (Int.le_refl 0) room source
  rw [IntHeap.resize, int_bind fits]
  refine copied.trans ?_
  simp only [cells_eq]
  rfl

theorem raise_agrees (timer fuel : Nat) (heap : Heap F T) (hole : Nat) :
    Agree (fun (raised : Heap F T × Nat) (raised' : IntHeap × Int) =>
        raised' = (raised.1.ints, (raised.2 : Int)))
      (raise timer heap fuel hole) (IntHeap.raise timer fuel heap.ints hole) := by
  induction fuel generalizing heap hole with
  | zero =>
      rw [raise, IntHeap.raise]
      simp only [Int.natCast_pos]
      split
      · trivial
      · rfl
  | succ fuel ih =>
      rw [raise, IntHeap.raise]
      simp only [Int.natCast_pos]
      split
      · rename_i inner
        have parent : ((hole : Int) - 1) / 2 = ((hole - 1) / 2 : Nat) := by omega
        rw [parent]
        apply (expireAt_agrees heap ((hole - 1) / 2)).bind
        rintro above _ rfl
        apply (absoluteExpire_agrees heap timer).bind
        rintro data _ rfl
        split
        · rfl
        · apply (read_agrees heap ((hole - 1) / 2)).bind
          rintro pointer _ rfl
          apply (write_agrees heap hole pointer).bind
          rintro moved _ ⟨rfl, _⟩
          exact ih moved ((hole - 1) / 2)
      · rfl

theorem insert_agrees (heap : Heap F T) (timer : Nat) :
    Agree (fun (next : Heap F T) next' => next' = next.ints)
      (do
        let (heap, hole) ← raise timer { heap with curSize := heap.curSize + 1 } heap.curSize
          heap.curSize
        heap.write hole (some timer))
      (do
        let (heap, hole) ← IntHeap.raise timer heap.ints.curSize.toNat
          { heap.ints with curSize := heap.ints.curSize + 1 } heap.ints.curSize
        heap.write hole timer) := by
  apply (raise_agrees timer heap.curSize { heap with curSize := heap.curSize + 1 } heap.curSize).bind
  rintro ⟨raised, hole⟩ _ rfl
  exact (write_agrees raised hole (some timer)).imp fun next next' stands => stands.same

theorem addTimer_agrees (heap : Heap F T) (timer : Option Nat)
    (within : heap.curSize ≤ heap.capacity) (few : heap.curSize < 2 ^ 30) :
    Agree (fun (next : Heap F T) next' => next' = next.ints) (heap.addTimer timer)
      (heap.ints.addTimer timer) := by
  cases timer with
  | none => rfl
  | some timer =>
      have same : heap.ints.curSize ≥ heap.ints.capacity ↔ heap.curSize ≥ heap.capacity := by
        simp only [ints]
        omega
      simp only [addTimer, IntHeap.addTimer, same]
      split
      · rename_i full
        rw [resize_agrees heap within (by omega)]
        exact insert_agrees heap.resize timer
      · exact insert_agrees heap timer

/-! `pop_timer` and `tick`. -/

theorem free_agrees (heap : Heap F T) (timer : Nat) :
    Agree (Stands heap.curSize) (heap.free timer) (heap.ints.free timer) := by
  simp only [free, IntHeap.free]
  cases found : heap.memory timer with
  | none =>
      have missing : heap.ints.memory timer = none := by simp [ints, found]
      simp only [missing]
      trivial
  | some data =>
      have live : heap.ints.memory timer = some data.absoluteExpire := by simp [ints, found]
      simp only [live]
      refine ⟨?_, rfl⟩
      simp only [ints, expiries_update]
      rfl

theorem sink_agrees (heap : Heap F T) (filled : 0 < heap.curSize) (few : heap.curSize < 2 ^ 30) :
    Agree (fun (next : Heap F T) next' => next' = next.ints ∧ next.curSize < 2 ^ 30)
      (do
        let heap := { heap with curSize := heap.curSize - 1 }
        let last ← heap.read heap.curSize
        let heap ← heap.write 0 last
        heap.percolateDown heap.curSize 0)
      (do
        let heap := { heap.ints with curSize := heap.ints.curSize - 1 }
        let last ← heap.read heap.curSize
        let heap ← heap.write 0 last
        IntHeap.percolateDown heap.curSize.toNat heap 0) := by
  have size : heap.ints.curSize - 1 = ((heap.curSize - 1 : Nat) : Int) := by
    simp only [ints]
    omega
  simp only [size]
  apply (read_agrees { heap with curSize := heap.curSize - 1 } (heap.curSize - 1)).bind
  rintro last _ rfl
  apply (write_agrees { heap with curSize := heap.curSize - 1 } 0 last).bind
  rintro moved _ ⟨rfl, curSize⟩
  simp only at curSize
  refine (percolateDown_agrees moved.curSize moved (Or.inr rfl) (by omega)).imp ?_
  rintro sunk _ ⟨rfl, curSize'⟩
  exact ⟨rfl, by omega⟩

theorem popTimer_agrees (heap : Heap F T) (few : heap.curSize < 2 ^ 30) :
    Agree (fun (next : Heap F T) next' => next' = next.ints ∧ next.curSize < 2 ^ 30) heap.popTimer
      heap.ints.popTimer := by
  have same : heap.ints.curSize = 0 ↔ heap.curSize = 0 := by
    simp only [ints]
    omega
  simp only [popTimer, IntHeap.popTimer, same]
  split
  · exact ⟨rfl, few⟩
  · rename_i filled
    apply (front_agrees heap).bind
    rintro first _ rfl
    cases first with
    | none => exact ⟨rfl, few⟩
    | some first =>
        apply (free_agrees heap first).bind
        rintro rest _ ⟨rfl, curSize⟩
        exact sink_agrees rest (by omega) (by omega)

theorem callFirst_agrees (heap : Heap F T) :
    Agree (Stands heap.curSize) heap.callFirst
      (heap.ints.callFirst fun _ memory => memory) := by
  apply (front_agrees heap).bind
  rintro first _ rfl
  cases first with
  | none => trivial
  | some timer =>
      apply (absoluteExpire_agrees heap timer).bind
      rintro data _ rfl
      split
      · exact ⟨rfl, rfl⟩
      · exact ⟨rfl, rfl⟩

theorem tickLoop_agrees (cur : Int) (fuel : Nat) (heap : Heap F T) (tmp : Option Nat)
    (few : heap.curSize < 2 ^ 30) :
    Agree (fun (next : Heap F T) next' => next' = next.ints) (tickLoop cur fuel heap tmp)
      (IntHeap.tickLoop cur (fun _ memory => memory) fuel heap.ints tmp) := by
  have same : heap.ints.curSize = 0 ↔ heap.curSize = 0 := by
    simp only [ints]
    omega
  induction fuel generalizing heap tmp with
  | zero =>
      cases tmp with
      | none => rw [tickLoop, IntHeap.tickLoop, ite_self, ite_self]; rfl
      | some timer =>
          rw [tickLoop, IntHeap.tickLoop]
          simp only [same]
          split
          · rfl
          · apply (absoluteExpire_agrees heap timer).bind
            rintro data _ rfl
            split
            · rfl
            · trivial
  | succ fuel ih =>
      cases tmp with
      | none => rw [tickLoop, IntHeap.tickLoop, ite_self, ite_self]; rfl
      | some timer =>
          rw [tickLoop, IntHeap.tickLoop]
          simp only [same]
          split
          · rfl
          · apply (absoluteExpire_agrees heap timer).bind
            rintro data _ rfl
            split
            · rfl
            · apply (callFirst_agrees heap).bind
              rintro called _ ⟨rfl, curSize⟩
              apply (popTimer_agrees called (by omega)).bind
              rintro rest _ ⟨rfl, few'⟩
              apply (front_agrees rest).bind
              rintro tmp _ rfl
              apply ih rest tmp few'
              simp only [ints]
              omega

theorem tick_agrees (heap : Heap F T) (cur : Int) (few : heap.curSize < 2 ^ 30) :
    Agree (fun (next : Heap F T) next' => next' = next.ints) (heap.tick cur)
      (heap.ints.tick cur fun _ memory => memory) := by
  apply (front_agrees heap).bind
  rintro tmp _ rfl
  exact tickLoop_agrees cur heap.curSize heap tmp few

/-! The second constructor. -/

theorem heapify_agrees (last : Nat) (heap : Heap F T) (held : last < heap.curSize ∨ last = 0)
    (few : heap.curSize < 2 ^ 30) :
    Agree (fun (next : Heap F T) next' => next' = next.ints) (heapify heap last)
      (IntHeap.heapify (last + 1) heap.ints) := by
  induction last generalizing heap with
  | zero =>
      have once : IntHeap.heapify 1 heap.ints =
          IntHeap.percolateDown heap.ints.curSize.toNat heap.ints (0 : Nat) := bind_pure _
      rw [once]
      exact (percolateDown_agrees heap.curSize heap held few).imp fun next next' stands => stands.same
  | succ last ih =>
      apply (percolateDown_agrees heap.curSize heap held few).bind
      rintro next _ ⟨rfl, curSize⟩
      exact ih next (by omega) (by omega)

theorem make_ints (memory : Nat → Option (HeapTimer F T)) (capacity : Nat) :
    (make memory capacity).ints =
      IntHeap.make (fun timer => (memory timer).map HeapTimer.absoluteExpire) capacity := by
  simp [ints, make, IntHeap.make]

theorem ofArray_agrees (memory : Nat → Option (HeapTimer F T)) (initArray : Nat → Option Nat)
    (size capacity : Nat) (few : size < 2 ^ 30) :
    Agree (fun (next : Heap F T) next' => next' = next.ints)
      (ofArray memory initArray size capacity)
      (IntHeap.ofArray (fun timer => (memory timer).map HeapTimer.absoluteExpire)
        (fun i => initArray i.toNat) size capacity) := by
  simp only [ofArray, IntHeap.ofArray, Int.ofNat_lt]
  split
  · trivial
  · rename_i within
    have same : (size : Int) ≠ 0 ↔ size ≠ 0 := by omega
    simp only [same]
    split
    · rename_i filled
      have fits : FitsInt ((size : Int) - 1) := by
        simp only [FitsInt, intMin, intMax]
        omega
      have last : (((size : Int) - 1).tdiv 2 + 1).toNat = (size - 1) / 2 + 1 := by
        rw [Int.tdiv_eq_ediv_of_nonneg (by omega)]
        omega
      have room : (0 : Int) + ((size : Int).toNat : Int) ≤ capacity := by omega
      have copied := copy_eq (fun i => .ok (initArray i.toNat)) (fun i => initArray i.toNat)
        (size : Int).toNat
        { IntHeap.make (fun timer => (memory timer).map HeapTimer.absoluteExpire) capacity
          with curSize := size } 0 (Int.le_refl 0) room fun _ _ _ => rfl
      simp only [IntHeap.make, cells_eq] at copied
      simp only [IntHeap.make, copied]
      have heaped := heapify_agrees ((size - 1) / 2)
        { make memory capacity with
          array := fun i => if i < size then initArray i else none
          curSize := size } (Or.inl (by simp only; omega)) few
      rw [← last] at heaped
      change Agree _ _ (int ((size : Int) - 1) >>= fun last =>
        IntHeap.heapify (last.tdiv 2 + 1).toNat (ints { make memory capacity with
          array := fun i => if i < size then initArray i else none
          curSize := size }))
      rw [int_bind fits]
      exact heaped
    · rename_i empty
      obtain rfl : size = 0 := by omega
      exact (make_ints memory capacity).symm

end Heap

def System.call (system : System F T) : Op F T → HeapCall
  | .new timer fresh =>
      .outside (Function.update system.heap.ints.memory timer (some fresh.absoluteExpire))
  | .add timer => .add timer
  | .del _ => .outside system.heap.ints.memory
  | .pop => .pop
  | .tick cur => .tick cur fun _ memory => memory

theorem delTimer_ints {heap next : Heap F T} {timer : Option Nat}
    (deleted : heap.delTimer timer = some next) : next.ints = heap.ints := by
  cases timer with
  | none =>
      obtain rfl : heap = next := Option.some.inj deleted
      rfl
  | some timer =>
      simp only [Heap.delTimer, Option.bind_eq_bind, Option.bind_eq_some_iff] at deleted
      obtain ⟨data, live, made⟩ := deleted
      obtain rfl := Option.some.inj made
      have same : Function.update heap.ints.memory timer (some data.absoluteExpire) =
          heap.ints.memory := by
        refine Function.update_eq_self_iff.mpr ?_
        simp only [Heap.ints, live, Option.map_some]
      simp only [Heap.ints, Heap.expiries_update]
      exact congrArg (fun memory => { heap.ints with memory }) same

theorem apply_simulated {system next : System F T} {op : Op F T}
    (within : system.heap.curSize ≤ system.heap.capacity) (few : system.heap.curSize < 2 ^ 30)
    (applied : apply system op = some next) :
    system.heap.ints.step (system.call op) = .ok next.heap.ints := by
  cases op with
  | new timer fresh =>
      obtain rfl := Option.some.inj applied
      have memory := Heap.expiries_update system.heap.memory timer (some fresh.timer)
      exact congrArg (fun memory => Except.ok { system.heap.ints with memory }) memory.symm
  | add timer =>
      simp only [apply, Option.bind_eq_bind, Option.bind_eq_some_iff] at applied
      obtain ⟨heap, added, made⟩ := applied
      obtain rfl := Option.some.inj made
      obtain ⟨_, taken, rfl⟩ := (system.heap.addTimer_agrees timer within few).of_some added
      exact taken
  | del timer =>
      simp only [apply, Option.bind_eq_bind, Option.bind_eq_some_iff] at applied
      obtain ⟨heap, deleted, made⟩ := applied
      obtain rfl := Option.some.inj made
      exact congrArg Except.ok (delTimer_ints deleted).symm
  | pop =>
      simp only [apply, Option.bind_eq_bind, Option.bind_eq_some_iff] at applied
      obtain ⟨heap, popped, made⟩ := applied
      obtain rfl := Option.some.inj made
      obtain ⟨_, taken, rfl, _⟩ := (system.heap.popTimer_agrees few).of_some popped
      exact taken
  | tick cur =>
      simp only [apply, Option.bind_eq_bind, Option.bind_eq_some_iff] at applied
      obtain ⟨heap, ticked, made⟩ := applied
      obtain rfl := Option.some.inj made
      obtain ⟨_, taken, rfl⟩ := (system.heap.tick_agrees cur few).of_some ticked
      exact taken

def calls (system : System F T) (ops : List (Op F T)) : List HeapCall :=
  Runs.emitted step (fun system op => [system.call op]) system ops

def Few (system : System F T) (op : Op F T) : Prop :=
  Legal system op ∧ system.heap.curSize < 2 ^ 30

instance decidableFew (system : System F T) (op : Op F T) : Decidable (Few system op) :=
  inferInstanceAs (Decidable (_ ∧ _))

theorem run_simulated {system final : System F T} (ops : List (Op F T))
    (consistent : Consistent system) (few : Runs.Along step Few system ops)
    (reached : Runs.run step system ops = .ok final) :
    Runs.run IntHeap.step system.heap.ints (calls system ops) = .ok final.heap.ints := by
  have preserved (system : System F T) (op : Op F T) (next : System F T)
      (consistent : Consistent system) (few : Few system op) (taken : step system op = .ok next) :
      Consistent next := by
    obtain ⟨next', applied, consistent'⟩ := consistent.apply few.1
    obtain rfl : next' = next := by
      simpa only [step, applied, Except.ok.injEq] using taken
    exact consistent'
  have projects (system : System F T) (op : Op F T) (next : System F T) (heap : IntHeap)
      (consistent : Consistent system) (few : Few system op) (same : heap = system.heap.ints)
      (taken : step system op = .ok next) :
      ∃ heap', Runs.run IntHeap.step heap [system.call op] = .ok heap' ∧
        heap' = next.heap.ints := by
    obtain ⟨next', applied, _⟩ := consistent.apply few.1
    obtain rfl : next' = next := by
      simpa only [step, applied, Except.ok.injEq] using taken
    rw [same]
    exact ⟨_, Runs.run_cons_of_ok (apply_simulated consistent.valid.fits few.2 applied), rfl⟩
  obtain ⟨heap, moved, rfl⟩ := Runs.run_projected preserved projects ops consistent few rfl reached
  exact moved

/-! Both constructors. -/

def Start.expiries : Start F T → Memory
  | .empty memory _ => fun timer => (memory timer).map Fresh.absoluteExpire
  | .array memory _ _ _ => fun timer => (memory timer).map Fresh.absoluteExpire

def Start.made : Start F T → Made
  | .empty _ cap => .empty cap
  | .array _ initArray size capacity => .array (fun i => initArray i.toNat) size capacity

theorem expiries_timer (memory : Nat → Option (Fresh F T)) :
    (fun timer => ((memory timer).map Fresh.timer).map HeapTimer.absoluteExpire) =
      fun timer => (memory timer).map Fresh.absoluteExpire := by
  funext timer
  rw [Option.map_map]
  rfl

theorem start_agrees {start : Start F T} {system : System F T}
    (made : start.system = some system) (small : start.made.size < 2 ^ 30) :
    start.made.heap start.expiries = .ok system.heap.ints := by
  cases start with
  | empty memory cap =>
      obtain rfl := Option.some.inj made
      have same := Heap.make_ints (fun timer => (memory timer).map Fresh.timer) cap
      rw [expiries_timer] at same
      exact congrArg Except.ok same.symm
  | array memory initArray size capacity =>
      simp only [Start.system, Option.bind_eq_bind, Option.bind_eq_some_iff] at made
      obtain ⟨heap, built, made⟩ := made
      obtain rfl := Option.some.inj made
      simp only [Start.made, Made.size] at small
      have agrees := Heap.ofArray_agrees (fun timer => (memory timer).map Fresh.timer) initArray
        size capacity (by omega)
      rw [expiries_timer] at agrees
      obtain ⟨_, taken, rfl⟩ := agrees.of_some built
      exact taken

/-- Where the heap never holds as many as 2 ^ 30 timers, the one with `int`s goes through the same
calls and is correct as well: no index leaves its array and no `int` overflows. -/
theorem ints_follow (start : Start F T) (ops : List (Op F T)) (legal : start.Legal)
    (small : start.made.size < 2 ^ 30)
    (few : ∀ system, start.system = some system → Runs.Along step Few system ops) :
    ∃ system final, start.system = some system ∧ Runs.run step system ops = .ok final ∧
      Correct final ∧ start.made.heap start.expiries = .ok system.heap.ints ∧
      Runs.run IntHeap.step system.heap.ints (calls system ops) = .ok final.heap.ints := by
  obtain ⟨system, made, consistent⟩ := consistent_start legal
  have along := (few system made).imp (fun _ _ both => both.1) ops
  obtain ⟨final, reached, consistent'⟩ := consistent_run consistent ops along
  exact ⟨system, final, made, reached, consistent'.correct, start_agrees made small,
    run_simulated ops consistent (few system made) reached⟩

theorem ints_follow_descending :
    ∃ system final, descending.system = some system ∧
      Runs.run step system [.new 3 ⟨5, 3, 3⟩, .add (some 3), .del (some 1), .tick 8, .pop] =
        .ok final ∧
      Correct final ∧ descending.made.heap descending.expiries = .ok system.heap.ints ∧
      Runs.run IntHeap.step system.heap.ints
        (calls system [.new 3 ⟨5, 3, 3⟩, .add (some 3), .del (some 1), .tick 8, .pop]) =
          .ok final.heap.ints := by
  refine ints_follow descending _ ⟨by decide, by decide, ?_, ?_⟩ (by decide) ?_
  · intro i inside
    exact ⟨i, rfl, by simp [inside]⟩
  · intro i _ j _ same
    exact Option.some.inj same
  · have few : ∀ system ∈ descending.system, Runs.Along step Few system
        [.new 3 ⟨5, 3, 3⟩, .add (some 3), .del (some 1), .tick 8, .pop] := by
      decide +kernel
    exact few

end Ints

end StudyRecord.TimeHeap
