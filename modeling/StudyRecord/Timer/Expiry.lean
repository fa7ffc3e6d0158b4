import StudyRecord.Timer.MinHeap
import Mathlib.Data.Multiset.Filter

/-!
Ticks of the timer heap, and its users: which timers a tick calls and deletes, from every
state that the operations reach.
-/

namespace StudyRecord.TimeHeap

open ArrayHeap Runs

namespace Heap

variable {F T : Type}

def callOf (heap : Heap F T) (timer : Nat) : Option (Call F T) := do
  let data ← heap.memory timer
  let cbFunc ← data.cbFunc
  return ⟨timer, cbFunc, data.userData⟩

structure Fires (heap result : Heap F T) (cur : Int) (fired : List Nat) : Prop where
  valid : Valid result
  held : heap.held = ((fired.map some : List (Option Nat)) : Multiset (Option Nat)) + result.held
  due : ∀ timer ∈ fired, heap.expireOf timer ≤ cur
  later : ∀ timer, result.Holds timer → cur < heap.expireOf timer
  order : fired.Pairwise fun early late => heap.expireOf early ≤ heap.expireOf late
  memory : ∀ timer, result.memory timer = if timer ∈ fired then none else heap.memory timer
  popped : result.popped = heap.popped ++ fired
  called : result.called = heap.called ++ fired.filterMap heap.callOf

theorem Fires.nil {heap : Heap F T} (valid : Valid heap) {cur : Int}
    (later : ∀ timer, heap.Holds timer → cur < heap.expireOf timer) :
    Fires heap heap cur [] where
  valid := valid
  held := by simp
  due := by simp
  later := later
  order := .nil
  memory := by simp
  popped := by simp
  called := by simp

theorem callFirst_spec {heap : Heap F T} {first : Nat} {data : HeapTimer F T}
    (room : 1 ≤ heap.capacity) (root : heap.array 0 = some first)
    (live : heap.memory first = some data) :
    heap.callFirst = some { heap with called := heap.called ++ (heap.callOf first).toList } := by
  simp only [callFirst, read_inside room, root, live, callOf, Option.bind_eq_bind,
    Option.bind_some]
  cases data.cbFunc with
  | none => simp [pure]
  | some cbFunc => rfl

theorem Fires.cons {heap next result : Heap F T} {cur : Int} {first : Nat} {fired : List Nat}
    (valid : Valid heap) (root : heap.array 0 = some first) (due : heap.expireOf first ≤ cur)
    (popped : Popped { heap with called := heap.called ++ (heap.callOf first).toList } next first)
    (fires : Fires next result cur fired) : Fires heap result cur (first :: fired) := by
  have held : heap.held = some first ::ₘ next.held := popped.held
  have nodup := valid.nodup
  rw [held, Multiset.nodup_cons] at nodup
  have outside (timer : Nat) (different : timer ≠ first) :
      next.memory timer = heap.memory timer := by
    rw [popped.memory]
    exact Function.update_of_ne different ..
  have kept (timer : Nat) (member : some timer ∈ next.held) :
      timer ≠ first ∧ next.expireOf timer = heap.expireOf timer := by
    have different : timer ≠ first := by
      rintro rfl
      exact nodup.1 member
    exact ⟨different, by rw [expireOf, outside timer different]; rfl⟩
  have firedHeld (timer : Nat) (member : timer ∈ fired) : some timer ∈ next.held := by
    rw [fires.held, Multiset.mem_add]
    exact .inl (by simpa using member)
  refine ⟨fires.valid, ?_, ?_, ?_, ?_, ?_, ?_, ?_⟩
  · rw [held, fires.held, List.map_cons, ← Multiset.cons_coe, Multiset.cons_add]
  · intro timer member
    rcases List.mem_cons.mp member with rfl | member
    · exact due
    · rw [← (kept timer (firedHeld timer member)).2]
      exact fires.due timer member
  · intro timer holds
    have member : some timer ∈ next.held := by
      rw [fires.held, Multiset.mem_add]
      exact .inr (mem_held.mpr holds)
    rw [← (kept timer member).2]
    exact fires.later timer holds
  · refine List.pairwise_cons.mpr ⟨?_, ?_⟩
    · intro timer member
      refine valid.first_le root (mem_held.mp ?_)
      rw [held]
      exact Multiset.mem_cons_of_mem (firedHeld timer member)
    · refine fires.order.imp_of_mem fun {early late} one two order => ?_
      rwa [(kept early (firedHeld early one)).2, (kept late (firedHeld late two)).2] at order
  · intro timer
    rw [fires.memory]
    by_cases here : timer = first
    · subst here
      have gone : next.memory timer = none := by
        rw [popped.memory]
        exact Function.update_self ..
      simp [gone]
    · simp only [List.mem_cons, here, false_or, outside timer here]
  · rw [fires.popped, popped.popped]
    simp
  · have calls : fired.filterMap next.callOf = fired.filterMap heap.callOf := by
      refine List.filterMap_congr fun timer member => ?_
      rw [callOf, outside timer (kept timer (firedHeld timer member)).1]
      rfl
    rw [fires.called, popped.called, calls]
    cases call : heap.callOf first with
    | none => simp [call]
    | some _ => simp [call]

theorem tickLoop_spec (cur : Int) {heap : Heap F T} (valid : Valid heap) {fuel : Nat}
    (enough : heap.curSize ≤ fuel) :
    ∃ result fired, tickLoop cur fuel heap (heap.array 0) = some result ∧
      Fires heap result cur fired := by
  induction fuel generalizing heap with
  | zero =>
      have empty : heap.curSize = 0 := by omega
      refine ⟨heap, [], by rw [tickLoop.eq_def]; exact if_pos empty, .nil valid ?_⟩
      rintro timer ⟨i, inside, _⟩
      omega
  | succ fuel ih =>
      rw [tickLoop.eq_def]
      by_cases empty : heap.curSize = 0
      · refine ⟨heap, [], if_pos empty, .nil valid ?_⟩
        rintro timer ⟨i, inside, _⟩
        omega
      · obtain ⟨first, data, root, live⟩ := valid.cell (show 0 < heap.curSize by omega)
        have expire : heap.expireOf first = data.absoluteExpire := by simp [expireOf, live]
        simp only [if_neg empty, root, live, Option.bind_eq_bind, Option.bind_some]
        by_cases late : data.absoluteExpire > cur
        · rw [if_pos late]
          refine ⟨heap, [], rfl, .nil valid fun timer holds => ?_⟩
          have order := valid.first_le root holds
          omega
        · let called := { heap with called := heap.called ++ (heap.callOf first).toList }
          have valid' : Valid called :=
            valid.congr rfl (le_refl _) (fun _ _ => rfl) fun _ data _ found => ⟨data, found, rfl⟩
          obtain ⟨next, made, valid'', popped⟩ :=
            popTimer_spec valid' (show 0 < heap.curSize by omega) root
          have fewer : next.curSize ≤ fuel := by
            have count := congrArg Multiset.card popped.held
            simp [Heap.held, content] at count
            have size : called.curSize = heap.curSize := rfl
            omega
          obtain ⟨result, fired, made', fires⟩ := ih valid'' fewer
          refine ⟨result, first :: fired, ?_, .cons valid root (by omega) popped fires⟩
          simp only [if_neg late, callFirst_spec valid.room root live, Option.bind_some]
          change (called.popTimer).bind _ = _
          rw [made, Option.bind_some, read_inside valid''.room, Option.bind_some]
          exact made'

theorem tick_spec {heap : Heap F T} (valid : Valid heap) (cur : Int) :
    ∃ result fired, heap.tick cur = some result ∧ Fires heap result cur fired := by
  obtain ⟨result, fired, made, fires⟩ := tickLoop_spec cur valid (le_refl heap.curSize)
  refine ⟨result, fired, ?_, fires⟩
  simp only [tick, read_inside valid.room, Option.bind_eq_bind, Option.bind_some]
  exact made

end Heap

open Heap

section Users

variable {F T : Type}

structure Consistent (system : System F T) : Prop where
  valid : Valid system.heap
  held : system.heap.held +
    ((system.heap.popped.map some : List (Option Nat)) : Multiset (Option Nat)) =
      ((system.inserted.map some : List (Option Nat)) : Multiset (Option Nat))
  callbacks : ∀ timer data, system.heap.memory timer = some data →
    (data.cbFunc = none ↔ system.deleted timer = true)

structure Ticks (system : System F T) (cur : Int) (result : Heap F T) (calls : List (Call F T)) :
    Prop where
  called : result.called = system.heap.called ++ calls
  once : (calls.map Call.timer).Nodup
  due : ∀ timer, timer ∈ calls.map Call.timer ↔
    system.heap.Holds timer ∧ system.heap.expireOf timer ≤ cur ∧ system.deleted timer = false
  own : ∀ call ∈ calls, ∃ data, system.heap.memory call.timer = some data ∧
    data.cbFunc = some call.cbFunc ∧ data.userData = call.userData
  order : calls.Pairwise fun early late =>
    system.heap.expireOf early.timer ≤ system.heap.expireOf late.timer
  left : result.held = system.heap.held.filter fun pointer => cur < system.heap.keyOf pointer

/-- The heap is in order, holds the timers that were inserted and not popped, has a first
one at its top, and ticks right at any time. -/
structure Correct (system : System F T) : Prop where
  ordered : ∀ i, 0 < i → i < system.heap.curSize → ∃ above here,
    system.heap.expireAt ((i - 1) / 2) = some above ∧ system.heap.expireAt i = some here ∧
      above ≤ here
  held : system.heap.held +
    ((system.heap.popped.map some : List (Option Nat)) : Multiset (Option Nat)) =
      ((system.inserted.map some : List (Option Nat)) : Multiset (Option Nat))
  top : (system.heap.curSize = 0 ∧ system.heap.top = some none) ∨
    ∃ first, system.heap.top = some (some first) ∧ system.heap.Holds first ∧
      ∀ timer, system.heap.Holds timer → system.heap.expireOf first ≤ system.heap.expireOf timer
  tick : ∀ cur, ∃ result calls, system.heap.tick cur = some result ∧
    Ticks system cur result calls

theorem Heap.Sound.live_of_holds {heap : Heap F T} (sound : Sound heap) {timer : Nat}
    (holds : heap.Holds timer) : ∃ data, heap.memory timer = some data := by
  obtain ⟨other, data, same, found⟩ := sound.live (some timer) (mem_held.mpr holds)
  obtain rfl := Option.some.inj same
  exact ⟨data, found⟩

theorem Heap.callOf_timer {heap : Heap F T} {timer : Nat} {call : Call F T}
    (made : heap.callOf timer = some call) :
    call.timer = timer ∧ ∃ data, heap.memory timer = some data ∧
      data.cbFunc = some call.cbFunc ∧ data.userData = call.userData := by
  simp only [callOf, Option.bind_eq_bind, Option.bind_eq_some_iff] at made
  obtain ⟨data, found, cbFunc, callback, same⟩ := made
  obtain rfl : (⟨timer, cbFunc, data.userData⟩ : Call F T) = call := Option.some.inj same
  exact ⟨rfl, data, found, callback, rfl⟩

theorem Consistent.callOf_isSome {system : System F T} (consistent : Consistent system)
    {timer : Nat} (holds : system.heap.Holds timer) :
    (∃ call, system.heap.callOf timer = some call) ↔ system.deleted timer = false := by
  obtain ⟨data, found⟩ := consistent.valid.live_of_holds holds
  have callback := consistent.callbacks timer data found
  rw [← Bool.not_eq_true, ← callback]
  constructor
  · rintro ⟨call, made⟩ missing
    obtain ⟨_, data', found', callback', _⟩ := callOf_timer made
    obtain rfl : data = data' := Option.some.inj (found.symm.trans found')
    rw [missing] at callback'
    contradiction
  · intro present
    obtain ⟨cbFunc, callback'⟩ := Option.ne_none_iff_exists'.mp present
    exact ⟨⟨timer, cbFunc, data.userData⟩, by simp [callOf, found, callback']⟩

theorem Heap.Fires.left {heap result : Heap F T} {cur : Int} {fired : List Nat}
    (fires : Fires heap result cur fired) :
    result.held = heap.held.filter fun pointer => cur < heap.keyOf pointer := by
  rw [fires.held, Multiset.filter_add]
  have gone : Multiset.filter (fun pointer => cur < heap.keyOf pointer)
      ((fired.map some : List (Option Nat)) : Multiset (Option Nat)) = 0 := by
    refine Multiset.filter_eq_nil.mpr fun pointer member => ?_
    obtain ⟨timer, among, rfl⟩ := List.mem_map.mp (Multiset.mem_coe.mp member)
    exact not_lt.mpr (fires.due timer among)
  have stays : Multiset.filter (fun pointer => cur < heap.keyOf pointer) result.held =
      result.held := by
    refine Multiset.filter_eq_self.mpr fun pointer member => ?_
    obtain ⟨timer, _, rfl, _⟩ := fires.valid.live pointer member
    exact fires.later timer (mem_held.mp member)
  rw [gone, stays, Multiset.zero_add]

theorem Heap.Fires.mem_iff {heap result : Heap F T} {cur : Int} {fired : List Nat}
    (valid : Valid heap) (fires : Fires heap result cur fired) :
    fired.Nodup ∧ ∀ timer, timer ∈ fired ↔ heap.Holds timer ∧ heap.expireOf timer ≤ cur := by
  have nodup := valid.nodup
  rw [fires.held, Multiset.nodup_add, Multiset.coe_nodup] at nodup
  refine ⟨List.Nodup.of_map some nodup.1, fun timer => ⟨fun member => ?_, ?_⟩⟩
  · have held : some timer ∈ heap.held := by
      rw [fires.held, Multiset.mem_add]
      exact .inl (by simpa using member)
    exact ⟨mem_held.mp held, fires.due timer member⟩
  · rintro ⟨holds, due⟩
    have member := mem_held.mpr holds
    rw [fires.held, Multiset.mem_add] at member
    rcases member with member | stays
    · simpa using member
    · have later := fires.later timer (mem_held.mp stays)
      omega

theorem Consistent.correct {system : System F T} (consistent : Consistent system) :
    Correct system := by
  have valid := consistent.valid
  refine ⟨?_, consistent.held, ?_, ?_⟩
  · intro i positive inside
    have lower := parent_lt positive
    exact ⟨_, _, valid.expireAt (show parent i < system.heap.curSize by omega),
      valid.expireAt inside, valid.ordered i positive inside (Nat.zero_le _)⟩
  · by_cases empty : system.heap.curSize = 0
    · exact .inl ⟨empty, if_pos empty⟩
    · obtain ⟨first, data, root, live⟩ := valid.cell (show 0 < system.heap.curSize by omega)
      refine .inr ⟨first, ?_, ⟨0, by omega, root⟩, fun timer holds => valid.first_le root holds⟩
      rw [top, if_neg empty, read_inside valid.room, root]
  · intro cur
    obtain ⟨result, fired, made, fires⟩ := tick_spec valid cur
    obtain ⟨nodup, among⟩ := fires.mem_iff valid
    have timers : (fired.filterMap system.heap.callOf).map Call.timer =
        fired.filter fun timer => (system.heap.callOf timer).isSome := by
      clear fires nodup among
      induction fired with
      | nil => rfl
      | cons timer fired ih =>
          cases call : system.heap.callOf timer with
          | none => simp [call, ih]
          | some call' => simp [call, ih, (callOf_timer call).1]
    refine ⟨result, fired.filterMap system.heap.callOf, made, fires.called, ?_, ?_, ?_, ?_,
      fires.left⟩
    · rw [timers]
      exact nodup.filter _
    · intro timer
      rw [timers, List.mem_filter, among, and_assoc]
      refine and_congr_right fun holds => and_congr_right fun _ => ?_
      rw [Option.isSome_iff_exists]
      exact consistent.callOf_isSome holds
    · intro call member
      obtain ⟨timer, _, made'⟩ := List.mem_filterMap.mp member
      obtain ⟨rfl, own⟩ := callOf_timer made'
      exact own
    · have order := fires.order.sublist (List.filter_sublist
        (p := fun timer => (system.heap.callOf timer).isSome))
      rw [← timers, List.pairwise_map] at order
      exact order

theorem consistent_start {start : Start F T} (legal : start.Legal) :
    ∃ system, start.system = some system ∧ Consistent system := by
  have callbacks (memory : Nat → Option (Fresh F T)) (timer : Nat) (data : HeapTimer F T)
      (found : (memory timer).map Fresh.timer = some data) :
      data.cbFunc = none ↔ false = true := by
    obtain ⟨fresh, _, rfl⟩ := Option.map_eq_some_iff.mp found
    simp [Fresh.timer]
  cases start with
  | empty memory cap =>
      refine ⟨_, rfl, ⟨⟨⟨Nat.zero_le cap, ?_, ?_⟩, legal, ?_⟩, rfl, callbacks memory⟩⟩
      · intro pointer member
        simp [Heap.held, make] at member
      · exact Multiset.nodup_zero
      · intro i positive inside
        exact absurd inside (Nat.not_lt_zero i)
  | array memory initArray size capacity =>
      obtain ⟨room, fits, live, distinct⟩ := legal
      let memory' := fun timer => (memory timer).map Fresh.timer
      let array := fun i => if i < size then initArray i else none
      let filled : Heap F T := { make memory' capacity with array, curSize := size }
      have cells (i : Nat) (inside : i < size) : array i = initArray i := if_pos inside
      have sound : Sound filled := by
        refine ⟨fits, ?_, ?_⟩
        · intro pointer member
          obtain ⟨i, inside, rfl⟩ := mem_content.mp member
          obtain ⟨timer, cell, used⟩ := live i inside
          obtain ⟨fresh, found⟩ := Option.ne_none_iff_exists'.mp used
          exact ⟨timer, fresh.timer, (cells i inside).trans cell, congrArg (Option.map Fresh.timer) found⟩
        · refine Multiset.Nodup.map_on ?_ (Multiset.nodup_range size)
          intro i inside j inside' same
          rw [Multiset.mem_range] at inside inside'
          change array i = array j at same
          rw [cells i inside, cells j inside'] at same
          exact distinct i inside j inside' same
      have all (indices : List Nat) (inside : ∀ i ∈ indices, i < size) :
          indices.map array = (indices.filterMap initArray).map some := by
        induction indices with
        | nil => rfl
        | cons i indices ih =>
            obtain ⟨timer, cell, _⟩ := live i (inside i (by simp))
            simp [cell, cells i (inside i (by simp)), ih fun j member => inside j (by simp [member])]
      have inserted : filled.held =
          ((((List.range size).filterMap initArray).map some : List (Option Nat)) :
            Multiset (Option Nat)) := by
        rw [← all (List.range size) fun i member => List.mem_range.mp member]
        rfl
      by_cases empty : size = 0
      · subst empty
        refine ⟨⟨make memory' capacity, [], fun _ => false⟩, ?_, ?_⟩
        · simp [Start.system, Start.heap, ofArray, Start.inserted, memory']
        · refine ⟨⟨⟨Nat.zero_le _, ?_, Multiset.nodup_zero⟩, room, ?_⟩, rfl, callbacks memory⟩
          · intro pointer member
            simp [Heap.held, make] at member
          · intro i positive inside
            exact absurd inside (Nat.not_lt_zero i)
      · have leaves : size ≤ 2 * ((size - 1) / 2 + 1) + 1 := by omega
        obtain ⟨result, made, arranged, ordered⟩ :=
          heapify_spec sound (orderedFrom_leaves filled.keys leaves)
        have same := arranged.same
        refine ⟨⟨result, (List.range size).filterMap initArray, fun _ => false⟩, ?_, ?_⟩
        · have short : ¬capacity < size := by omega
          simp only [Start.system, Start.heap, ofArray, if_neg short, if_pos empty, Start.inserted]
          change (heapify filled ((size - 1) / 2)).bind _ = _
          rw [made]
          rfl
        · refine ⟨⟨arranged.sound sound, ?_, ?_⟩, ?_, ?_⟩
          · rw [same]
            exact room
          · rw [arranged.curSize]
            exact ordered
          · have none' : result.popped = [] := by
              rw [same]
              rfl
            simp only [none', arranged.held, inserted]
            simp
          · rw [same]
            exact callbacks memory

theorem Consistent.new {system : System F T} (consistent : Consistent system) {timer : Nat}
    (fresh : Fresh F T) (unused : system.heap.memory timer = none) :
    ∃ next, TimeHeap.apply system (.new timer fresh) = some next ∧ Consistent next := by
  refine ⟨_, rfl, ?_, consistent.held, ?_⟩
  · refine consistent.valid.congr rfl (le_refl _) (fun _ _ => rfl) fun other data holds found => ?_
    have different : other ≠ timer := by
      rintro rfl
      rw [unused] at found
      contradiction
    exact ⟨data, (Function.update_of_ne different ..).trans found, rfl⟩
  · intro other data found
    by_cases here : other = timer
    · subst here
      obtain rfl : fresh.timer = data := by simpa using found
      simp [Fresh.timer]
    · simp only [Function.update_of_ne here] at found ⊢
      exact consistent.callbacks other data found

theorem Consistent.add {system : System F T} (consistent : Consistent system) {timer : Nat}
    (used : system.heap.memory timer ≠ none) (apart : ¬system.heap.Holds timer) :
    ∃ next, TimeHeap.apply system (.add (some timer)) = some next ∧ Consistent next := by
  obtain ⟨data, live⟩ := Option.ne_none_iff_exists'.mp used
  obtain ⟨result, made, valid', added⟩ := addTimer_spec consistent.valid live apart
  refine ⟨{ system with heap := result, inserted := system.inserted ++ [timer] }, ?_,
    valid', ?_, ?_⟩
  · simp only [TimeHeap.apply, made]
    rfl
  · have before := consistent.held
    simp only [added.held, added.popped, Multiset.cons_add, before, List.map_append,
      List.map_cons, List.map_nil, ← Multiset.coe_add, Multiset.coe_singleton]
    rw [Multiset.add_comm, Multiset.singleton_add]
  · simp only [added.memory]
    exact consistent.callbacks

theorem Consistent.del {system : System F T} (consistent : Consistent system) {timer : Nat}
    (used : system.heap.memory timer ≠ none) :
    ∃ next, TimeHeap.apply system (.del (some timer)) = some next ∧ Consistent next := by
  obtain ⟨data, live⟩ := Option.ne_none_iff_exists'.mp used
  let marked : Heap F T :=
    { system.heap with
      memory := Function.update system.heap.memory timer
        (some { data with cbFunc := none }) }
  refine ⟨⟨marked, system.inserted, Function.update system.deleted timer true⟩, ?_, ?_,
    consistent.held, ?_⟩
  · simp only [TimeHeap.apply, delTimer, live]
    rfl
  · refine consistent.valid.congr rfl (le_refl _) (fun _ _ => rfl) fun other data' holds found => ?_
    by_cases here : other = timer
    · subst here
      obtain rfl : data = data' := Option.some.inj (live.symm.trans found)
      exact ⟨{ data with cbFunc := none }, Function.update_self .., rfl⟩
    · exact ⟨data', (Function.update_of_ne here ..).trans found, rfl⟩
  · intro other data' found
    by_cases here : other = timer
    · subst here
      obtain rfl : { data with cbFunc := none } = data' := by simpa [marked] using found
      simp
    · simp only [marked, Function.update_of_ne here] at found ⊢
      exact consistent.callbacks other data' found

theorem Consistent.pop {system : System F T} (consistent : Consistent system) :
    ∃ next, TimeHeap.apply system .pop = some next ∧ Consistent next := by
  by_cases empty : system.heap.curSize = 0
  · refine ⟨system, ?_, consistent⟩
    simp only [TimeHeap.apply, popTimer, if_pos empty]
    rfl
  · obtain ⟨first, data, root, live⟩ := consistent.valid.cell (show 0 < system.heap.curSize by omega)
    obtain ⟨result, made, valid', popped⟩ := popTimer_spec consistent.valid (by omega) root
    refine ⟨{ system with heap := result }, ?_, valid', ?_, ?_⟩
    · simp only [TimeHeap.apply, made]
      rfl
    · have before := consistent.held
      rw [popped.held, Multiset.cons_add] at before
      simp only [popped.popped, List.map_append, List.map_cons, List.map_nil,
        ← Multiset.coe_add, Multiset.coe_singleton, ← before]
      rw [← Multiset.add_assoc, Multiset.add_comm, Multiset.singleton_add]
    · intro timer data' found
      have different : timer ≠ first := by
        rintro rfl
        simp [popped.memory] at found
      simp only [popped.memory, Function.update_of_ne different] at found
      exact consistent.callbacks timer data' found

theorem Consistent.tick {system : System F T} (consistent : Consistent system) (cur : Int) :
    ∃ next, TimeHeap.apply system (.tick cur) = some next ∧ Consistent next := by
  obtain ⟨result, fired, made, fires⟩ := tick_spec consistent.valid cur
  refine ⟨{ system with heap := result }, ?_, fires.valid, ?_, ?_⟩
  · simp only [TimeHeap.apply, made]
    rfl
  · have before := consistent.held
    simp only [fires.popped, List.map_append, ← Multiset.coe_add, ← before, fires.held]
    generalize ((fired.map some : List (Option Nat)) : Multiset (Option Nat)) = gone
    rw [Multiset.add_comm gone, Multiset.add_assoc, Multiset.add_comm gone]
  · intro timer data found
    rw [fires.memory] at found
    by_cases member : timer ∈ fired
    · simp [member] at found
    · rw [if_neg member] at found
      exact consistent.callbacks timer data found

theorem Consistent.apply {system : System F T} (consistent : Consistent system) {op : Op F T}
    (legal : Legal system op) :
    ∃ next, TimeHeap.apply system op = some next ∧ Consistent next := by
  cases op with
  | new timer fresh => exact consistent.new fresh legal
  | add timer =>
      cases timer with
      | none =>
          refine ⟨_, rfl, ?_⟩
          simpa using consistent
      | some timer => exact consistent.add legal.1 legal.2
  | del timer =>
      cases timer with
      | none => exact ⟨_, rfl, consistent⟩
      | some timer => exact consistent.del legal
  | pop => exact consistent.pop
  | tick cur => exact consistent.tick cur

theorem consistent_run {system : System F T} (consistent : Consistent system)
    (ops : List (Op F T)) (legal : Along step Legal system ops) :
    ∃ final, run step system ops = .ok final ∧ Consistent final := by
  induction ops generalizing system with
  | nil => exact ⟨system, rfl, consistent⟩
  | cons op rest ih =>
      obtain ⟨next, made, consistent'⟩ := consistent.apply legal.1
      have taken : step system op = .ok next := by simp only [step, made]
      obtain ⟨final, reached, consistent''⟩ := ih consistent' (legal.2 next taken)
      exact ⟨final, by simp only [run, taken, reached], consistent''⟩

/-- From either constructor and after any operations the timer heap is correct. -/
theorem timeHeap_correct (start : Start F T) (ops : List (Op F T)) (legal : start.Legal)
    (along : ∀ system, start.system = some system → Along step Legal system ops) :
    ∃ system final, start.system = some system ∧ run step system ops = .ok final ∧
      Correct final := by
  obtain ⟨system, made, consistent⟩ := consistent_start legal
  obtain ⟨final, reached, consistent'⟩ := consistent_run consistent ops (along system made)
  exact ⟨system, final, made, reached, consistent'.correct⟩

def descending : Start Nat Nat :=
  .array (fun timer => if timer < 3 then some ⟨9 - timer, timer, timer⟩ else none) some 3 3

theorem timeHeap_correct_descending :
    ∃ system final, descending.system = some system ∧
      run step system [.new 3 ⟨5, 3, 3⟩, .add (some 3), .del (some 1), .tick 8, .pop] = .ok final ∧
      Correct final := by
  refine timeHeap_correct descending _ ⟨by decide, by decide, ?_, ?_⟩ ?_
  · intro i inside
    exact ⟨i, rfl, by simp [inside]⟩
  · intro i _ j _ same
    exact Option.some.inj same
  · have legal : ∀ system ∈ descending.system, Along step Legal system
        [.new 3 ⟨5, 3, 3⟩, .add (some 3), .del (some 1), .tick 8, .pop] := by
      decide +kernel
    exact legal

end Users

end StudyRecord.TimeHeap
