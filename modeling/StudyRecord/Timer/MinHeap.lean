import StudyRecord.Timer.TimeHeap
import StudyRecord.Library.ArrayHeap

/-!
The timer heap as a min-heap: each loop restores the heap order and keeps the timers that
are held, and a tick takes the due ones from the root in the order of their expiry.
-/

namespace StudyRecord.TimeHeap

open ArrayHeap Runs

namespace Heap

variable {F T : Type}

def expireOf (heap : Heap F T) (timer : Nat) : Int :=
  (heap.memory timer).elim 0 HeapTimer.absoluteExpire

def keyOf (heap : Heap F T) (pointer : Option Nat) : Int :=
  pointer.elim 0 heap.expireOf

def keys (heap : Heap F T) (i : Nat) : Int := heap.keyOf (heap.array i)

def held (heap : Heap F T) : Multiset (Option Nat) := content heap.array heap.curSize

structure Sound (heap : Heap F T) : Prop where
  fits : heap.curSize ≤ heap.capacity
  live : ∀ pointer ∈ heap.held, ∃ timer data, pointer = some timer ∧ heap.memory timer = some data
  nodup : heap.held.Nodup

structure Valid (heap : Heap F T) : Prop extends Sound heap where
  room : 1 ≤ heap.capacity
  ordered : Ordered heap.keys heap.curSize

theorem keyOf_memory {heap result : Heap F T} (memory : result.memory = heap.memory) :
    result.keyOf = heap.keyOf := by
  funext pointer
  cases pointer with
  | none => rfl
  | some timer =>
      change result.expireOf timer = heap.expireOf timer
      rw [expireOf, memory]
      rfl

structure Arranged (heap result : Heap F T) : Prop where
  same : result = { heap with array := result.array }
  held : result.held = heap.held

theorem Arranged.refl (heap : Heap F T) : Arranged heap heap := ⟨rfl, rfl⟩

theorem Arranged.trans {heap middle result : Heap F T} (early : Arranged heap middle)
    (late : Arranged middle result) : Arranged heap result := by
  refine ⟨?_, late.held.trans early.held⟩
  rw [late.same, early.same]

theorem Arranged.curSize {heap result : Heap F T} (arranged : Arranged heap result) :
    result.curSize = heap.curSize := by
  rw [arranged.same]

theorem Arranged.sound {heap result : Heap F T} (arranged : Arranged heap result)
    (sound : Sound heap) : Sound result := by
  constructor
  · rw [arranged.same]
    exact sound.fits
  · rw [arranged.held, arranged.same]
    exact sound.live
  · rw [arranged.held]
    exact sound.nodup

theorem mem_held {heap : Heap F T} {timer : Nat} : some timer ∈ heap.held ↔ heap.Holds timer :=
  mem_content

theorem Sound.cell {heap : Heap F T} (sound : Sound heap) {i : Nat} (inside : i < heap.curSize) :
    ∃ timer data, heap.array i = some timer ∧ heap.memory timer = some data :=
  sound.live (heap.array i) (mem_content.mpr ⟨i, inside, rfl⟩)

theorem read_inside {heap : Heap F T} {i : Nat} (inside : i < heap.capacity) :
    heap.read i = some (heap.array i) :=
  if_pos inside

theorem write_inside {heap : Heap F T} {i : Nat} (inside : i < heap.capacity)
    (pointer : Option Nat) :
    heap.write i pointer = some { heap with array := Function.update heap.array i pointer } :=
  if_pos inside

theorem expireAt_cell {heap : Heap F T} {i timer : Nat} {data : HeapTimer F T}
    (inside : i < heap.capacity) (cell : heap.array i = some timer)
    (live : heap.memory timer = some data) : heap.expireAt i = some (heap.keys i) := by
  simp [expireAt, read_inside inside, keys, keyOf, expireOf, cell, live]

theorem Sound.expireAt {heap : Heap F T} (sound : Sound heap) {i : Nat}
    (inside : i < heap.curSize) : heap.expireAt i = some (heap.keys i) := by
  obtain ⟨timer, data, cell, live⟩ := sound.cell inside
  exact expireAt_cell (inside.trans_le sound.fits) cell live

theorem smallerChild_spec {heap : Heap F T} (sound : Sound heap) {hole : Nat}
    (inside : hole * 2 + 1 < heap.curSize) :
    ∃ child, heap.smallerChild hole = some child ∧ 0 < child ∧ child < heap.curSize ∧
      parent child = hole ∧
      ∀ i, 0 < i → i < heap.curSize → parent i = hole → heap.keys child ≤ heap.keys i := by
  simp only [smallerChild]
  by_cases pair : hole * 2 + 1 + 1 < heap.curSize
  · rw [if_pos pair, sound.expireAt pair, sound.expireAt inside]
    simp only [Option.bind_eq_bind, Option.bind_some]
    by_cases smaller : heap.keys (hole * 2 + 1 + 1) < heap.keys (hole * 2 + 1)
    · rw [if_pos smaller]
      refine ⟨hole * 2 + 1 + 1, rfl, by omega, pair, (parent_eq (by omega)).mpr (by omega), ?_⟩
      intro i positive inside' under
      rcases (parent_eq positive).mp under with rfl | rfl
      · rw [Nat.mul_comm 2]
        exact smaller.le
      · rw [Nat.mul_comm 2]
    · rw [if_neg smaller]
      refine ⟨hole * 2 + 1, rfl, by omega, inside, (parent_eq (by omega)).mpr (by omega), ?_⟩
      intro i positive inside' under
      rcases (parent_eq positive).mp under with rfl | rfl
      · rw [Nat.mul_comm 2]
      · rw [Nat.mul_comm 2]
        exact not_lt.mp smaller
  · rw [if_neg pair]
    refine ⟨hole * 2 + 1, rfl, by omega, inside, (parent_eq (by omega)).mpr (by omega), ?_⟩
    intro i positive inside' under
    rcases (parent_eq positive).mp under with rfl | rfl
    · rw [Nat.mul_comm 2]
    · omega

def exchange (heap : Heap F T) (left right : Nat) : Heap F T :=
  let array := Function.update heap.array left (heap.array right)
  { heap with array := Function.update array right (heap.array left) }

theorem exchange_exchanged (heap : Heap F T) {left right : Nat} (apart : left ≠ right) :
    Exchanged heap.array (heap.exchange left right).array left right := by
  refine ⟨?_, Function.update_self .., ?_⟩
  · simp [exchange, Function.update_of_ne apart]
  · intro i notLeft notRight
    simp [exchange, notLeft, notRight]

theorem Exchanged.keys {heap result : Heap F T} {left right : Nat}
    (memory : result.memory = heap.memory)
    (exchanged : Exchanged heap.array result.array left right) :
    Exchanged heap.keys result.keys left right := by
  have same := keyOf_memory memory
  constructor
  · rw [Heap.keys, same, exchanged.first]
    rfl
  · rw [Heap.keys, same, exchanged.second]
    rfl
  · intro i notLeft notRight
    rw [Heap.keys, same, exchanged.others i notLeft notRight]
    rfl

theorem percolateDown_spec {heap : Heap F T} (sound : Sound heap) {start hole fuel : Nat}
    (sinking : Sinking heap.keys heap.curSize start hole) (from' : start ≤ hole)
    (enough : heap.curSize ≤ hole + fuel) :
    ∃ result, heap.percolateDown fuel hole = some result ∧ Arranged heap result ∧
      OrderedFrom result.keys heap.curSize start := by
  induction fuel generalizing heap hole with
  | zero =>
      have leaf : ¬hole * 2 + 1 < heap.curSize := by omega
      refine ⟨heap, by rw [percolateDown, if_neg leaf], .refl heap, sinking.finish ?_⟩
      intro i positive inside under
      rcases (parent_eq positive).mp under with rfl | rfl <;> omega
  | succ fuel ih =>
      rw [percolateDown]
      by_cases inner : hole * 2 + 1 < heap.curSize
      · obtain ⟨child, picked, positive, inside, under, least⟩ := smallerChild_spec sound inner
        have lower := parent_lt positive
        have fits := sound.fits
        have holeInside : hole < heap.curSize := by omega
        rw [if_pos inner]
        simp only [picked, sound.expireAt inside, sound.expireAt holeInside,
          Option.bind_eq_bind, Option.bind_some]
        by_cases below : heap.keys child < heap.keys hole
        · have apart : hole ≠ child := by omega
          have exchanged := heap.exchange_exchanged apart
          have arranged : Arranged heap (heap.exchange hole child) :=
            ⟨rfl, exchanged.content holeInside inside⟩
          obtain ⟨result, made, arranged', ordered⟩ :=
            ih (arranged.sound sound)
              (sinking.move positive inside from' under least below (Exchanged.keys rfl exchanged))
              (by omega) (show heap.curSize ≤ child + fuel by omega)
          refine ⟨result, ?_, arranged.trans arranged', ordered⟩
          have holeFits : hole < heap.capacity := by omega
          have childFits : child < heap.capacity := by omega
          simp only [if_pos below, read, write, if_pos holeFits, if_pos childFits,
            Option.bind_some]
          exact made
        · rw [if_neg below]
          refine ⟨heap, rfl, .refl heap, sinking.finish ?_⟩
          intro i positive' inside' under'
          exact (not_lt.mp below).trans (least i positive' inside' under')
      · rw [if_neg inner]
        refine ⟨heap, rfl, .refl heap, sinking.finish ?_⟩
        intro i positive inside under
        rcases (parent_eq positive).mp under with rfl | rfl <;> omega

theorem heapify_spec {heap : Heap F T} (sound : Sound heap) {i : Nat}
    (ordered : OrderedFrom heap.keys heap.curSize (i + 1)) :
    ∃ result, heap.heapify i = some result ∧ Arranged heap result ∧
      Ordered result.keys heap.curSize := by
  induction i generalizing heap with
  | zero =>
      exact percolateDown_spec sound (.start ordered) (le_refl 0) (by omega)
  | succ i ih =>
      obtain ⟨middle, made, arranged, ordered'⟩ :=
        percolateDown_spec sound (.start ordered) (le_refl (i + 1))
          (show heap.curSize ≤ i + 1 + heap.curSize by omega)
      rw [← arranged.curSize] at ordered'
      obtain ⟨result, made', arranged', sorted⟩ := ih (arranged.sound sound) ordered'
      rw [arranged.curSize] at sorted
      refine ⟨result, ?_, arranged.trans arranged', sorted⟩
      simp only [heapify, made, Option.bind_eq_bind, Option.bind_some, made']

def filled (heap : Heap F T) (timer hole : Nat) : Heap F T :=
  { heap with array := Function.update heap.array hole (some timer) }

theorem raise_spec {heap : Heap F T} {timer hole fuel : Nat} {data : HeapTimer F T}
    (live : heap.memory timer = some data) (sound : Sound (heap.filled timer hole))
    (inside : hole < heap.curSize)
    (rising : Rising (heap.filled timer hole).keys heap.curSize hole) (enough : hole ≤ fuel) :
    ∃ result place, raise timer heap fuel hole = some (result, place) ∧
      place < result.capacity ∧
      Arranged (heap.filled timer hole) (result.filled timer place) ∧
      Ordered (result.filled timer place).keys heap.curSize := by
  have fits : heap.curSize ≤ heap.capacity := sound.fits
  induction fuel generalizing heap hole with
  | zero =>
      have root : ¬0 < hole := by omega
      refine ⟨heap, hole, by rw [raise, if_neg root], by omega, .refl _, ?_⟩
      exact rising.finish fun positive => absurd positive root
  | succ fuel ih =>
      rw [raise]
      by_cases positive : 0 < hole
      · have lower := parent_lt positive
        have apart : parent hole ≠ hole := by omega
        have same : heap.array (parent hole) = (heap.filled timer hole).array (parent hole) :=
          (Function.update_of_ne apart ..).symm
        obtain ⟨other, data', cell, live'⟩ := sound.cell (show parent hole < heap.curSize by omega)
        have above := expireAt_cell (show parent hole < heap.capacity by omega)
          (same.trans cell) live'
        have keyAbove : heap.keys (parent hole) = (heap.filled timer hole).keys (parent hole) :=
          congrArg heap.keyOf same
        have keyHole : (heap.filled timer hole).keys hole = data.absoluteExpire := by
          simp [keys, filled, keyOf, expireOf, live]
        have up : (hole - 1) / 2 = parent hole := rfl
        simp only [if_pos positive, up, above, live, Option.bind_eq_bind, Option.bind_some]
        by_cases stop : heap.keys (parent hole) ≤ data.absoluteExpire
        · rw [if_pos stop]
          refine ⟨heap, hole, rfl, by omega, .refl _, rising.finish fun _ => ?_⟩
          rw [keyHole, ← keyAbove]
          exact stop
        · have parentFits : parent hole < heap.capacity := by omega
          have holeFits : hole < heap.capacity := by omega
          simp only [if_neg stop, read, write, if_pos parentFits, if_pos holeFits,
            Option.bind_some]
          let lowered : Heap F T :=
            { heap with array := Function.update heap.array hole (heap.array (parent hole)) }
          have exchanged : Exchanged (heap.filled timer hole).array
              (lowered.filled timer (parent hole)).array hole (parent hole) := by
            refine ⟨?_, ?_, ?_⟩
            · simp [filled, lowered, Function.update_of_ne apart.symm, Function.update_of_ne apart]
            · simp [filled]
            · intro i notHole notParent
              simp [filled, lowered, notHole, notParent]
          have arranged : Arranged (heap.filled timer hole)
              (lowered.filled timer (parent hole)) :=
            ⟨rfl, exchanged.content inside (show parent hole < heap.curSize by omega)⟩
          have below : (heap.filled timer hole).keys hole <
              (heap.filled timer hole).keys (parent hole) := by
            rw [keyHole, ← keyAbove]
            exact not_le.mp stop
          obtain ⟨result, place, made, placed, arranged', ordered⟩ :=
            ih (show lowered.memory timer = some data from live) (arranged.sound sound)
              (lower.trans inside)
              (rising.move positive inside below (Exchanged.keys rfl exchanged)) (by omega) fits
          exact ⟨result, place, made, placed, arranged.trans arranged', ordered⟩
      · rw [if_neg positive]
        refine ⟨heap, hole, rfl, by omega, .refl _, ?_⟩
        exact rising.finish fun positive' => absurd positive' positive

theorem Valid.congr {heap result : Heap F T} (valid : Valid heap)
    (size : result.curSize = heap.curSize) (more : heap.capacity ≤ result.capacity)
    (cells : ∀ i < heap.curSize, result.array i = heap.array i)
    (live : ∀ timer data, heap.Holds timer → heap.memory timer = some data →
      ∃ data', result.memory timer = some data' ∧ data'.absoluteExpire = data.absoluteExpire) :
    Valid result := by
  have held : result.held = heap.held := by
    rw [Heap.held, size]
    exact content_congr cells
  refine ⟨⟨?_, ?_, ?_⟩, ?_, ?_⟩
  · rw [size]
    exact valid.fits.trans more
  · intro pointer member
    rw [held] at member
    obtain ⟨timer, data, rfl, found⟩ := valid.live pointer member
    obtain ⟨data', found', _⟩ := live timer data (mem_held.mp member) found
    exact ⟨timer, data', rfl, found'⟩
  · rw [held]
    exact valid.nodup
  · exact valid.room.trans more
  · rw [size]
    refine valid.ordered.congr fun i inside => ?_
    obtain ⟨timer, data, cell, found⟩ := valid.cell inside
    obtain ⟨data', found', same⟩ := live timer data ⟨i, inside, cell⟩ found
    simp [keys, keyOf, expireOf, cells i inside, cell, found, found', same]

theorem Valid.resize {heap : Heap F T} (valid : Valid heap) :
    Valid heap.resize ∧ heap.resize.held = heap.held := by
  have cells : ∀ i < heap.curSize, heap.resize.array i = heap.array i := fun i inside =>
    if_pos inside
  refine ⟨valid.congr rfl ?_ cells fun timer data _ found => ⟨data, found, rfl⟩, ?_⟩
  · change heap.capacity ≤ 2 * heap.capacity
    omega
  · exact content_congr cells

structure Added (heap result : Heap F T) (timer : Nat) : Prop where
  held : result.held = some timer ::ₘ heap.held
  memory : result.memory = heap.memory
  popped : result.popped = heap.popped
  called : result.called = heap.called

theorem addTimer_spec {heap : Heap F T} (valid : Valid heap) {timer : Nat}
    {data : HeapTimer F T} (live : heap.memory timer = some data) (apart : ¬heap.Holds timer) :
    ∃ result, heap.addTimer (some timer) = some result ∧ Valid result ∧
      Added heap result timer := by
  obtain ⟨wide, grown, valid', room, held', memory, popped, called⟩ :
      ∃ wide, (if heap.curSize ≥ heap.capacity then heap.resize else heap) = wide ∧
        Valid wide ∧ wide.curSize < wide.capacity ∧ wide.held = heap.held ∧
        wide.memory = heap.memory ∧ wide.popped = heap.popped ∧ wide.called = heap.called := by
    have capacity := valid.room
    by_cases full : heap.curSize ≥ heap.capacity
    · refine ⟨heap.resize, if_pos full, valid.resize.1, ?_, valid.resize.2, rfl, rfl, rfl⟩
      have fits := valid.fits
      change heap.curSize < 2 * heap.capacity
      omega
    · exact ⟨heap, if_neg full, valid, not_le.mp full, rfl, rfl, rfl, rfl⟩
  have held : (filled { wide with curSize := wide.curSize + 1 } timer wide.curSize).held =
      some timer ::ₘ wide.held := by
    have below : content (Function.update wide.array wide.curSize (some timer)) wide.curSize =
        content wide.array wide.curSize :=
      content_congr fun i inside => Function.update_of_ne (by omega) ..
    simp only [Heap.held, filled, content_succ, Function.update_self, below]
  have notHeld : some timer ∉ wide.held := by
    rw [held', mem_held]
    exact apart
  have sound : Sound (filled { wide with curSize := wide.curSize + 1 } timer wide.curSize) := by
    refine ⟨room, ?_, ?_⟩
    · intro pointer member
      rw [held, Multiset.mem_cons] at member
      rcases member with rfl | member
      · exact ⟨timer, data, rfl, by rw [← live, ← memory]; rfl⟩
      · exact valid'.live pointer member
    · rw [held]
      exact Multiset.nodup_cons.mpr ⟨notHeld, valid'.nodup⟩
  have ordered : Ordered (filled { wide with curSize := wide.curSize + 1 } timer
      wide.curSize).keys wide.curSize := by
    refine valid'.ordered.congr fun i inside => ?_
    exact congrArg wide.keyOf (Function.update_of_ne (by omega) ..)
  obtain ⟨result, place, made, placed, arranged, sorted⟩ :=
    raise_spec (memory ▸ live) sound (Nat.lt_succ_self wide.curSize) (.last ordered)
      (le_refl wide.curSize)
  have same := arranged.same
  have size := arranged.curSize
  refine ⟨result.filled timer place, ?_, ⟨arranged.sound sound, ?_, ?_⟩, ?_, ?_, ?_, ?_⟩
  · simp only [addTimer, grown, made, Option.bind_eq_bind, Option.bind_some]
    exact write_inside placed _
  · rw [same]
    exact valid'.room
  · rw [size]
    exact sorted
  · rw [arranged.held, held, held']
  · rw [same, ← memory]
    rfl
  · rw [same, ← popped]
    rfl
  · rw [same, ← called]
    rfl

structure Popped (heap result : Heap F T) (first : Nat) : Prop where
  held : heap.held = some first ::ₘ result.held
  memory : result.memory = Function.update heap.memory first none
  popped : result.popped = heap.popped ++ [first]
  called : result.called = heap.called

theorem Valid.first_le {heap : Heap F T} (valid : Valid heap) {first timer : Nat}
    (root : heap.array 0 = some first) (holds : heap.Holds timer) :
    heap.expireOf first ≤ heap.expireOf timer := by
  obtain ⟨i, inside, cell⟩ := holds
  have order := valid.ordered.first_le i inside
  rw [keys, keys, root, cell] at order
  exact order

theorem popTimer_spec {heap : Heap F T} (valid : Valid heap) {first : Nat}
    (inside : 0 < heap.curSize) (root : heap.array 0 = some first) :
    ∃ result, heap.popTimer = some result ∧ Valid result ∧ Popped heap result first := by
  obtain ⟨size, split⟩ : ∃ size, heap.curSize = size + 1 := ⟨heap.curSize - 1, by omega⟩
  obtain ⟨timer, data, cell, live⟩ := valid.cell inside
  obtain rfl : first = timer := Option.some.inj (root.symm.trans cell)
  have fits := valid.fits
  have rootFits : 0 < heap.capacity := by omega
  have lastFits : size < heap.capacity := by omega
  let memory := Function.update heap.memory first none
  let moved := Function.update heap.array 0 (heap.array size)
  let middle : Heap F T :=
    { heap with memory, array := moved, curSize := size, popped := heap.popped ++ [first] }
  have held : heap.held = some first ::ₘ middle.held := by
    rw [Heap.held, split, content_succ]
    by_cases alone : size = 0
    · subst alone
      rw [root]
      rfl
    · have changed := content_update heap.array (show 0 < size by omega) (heap.array size)
      rw [root] at changed
      exact changed.symm
  have nodup := valid.nodup
  rw [held, Multiset.nodup_cons] at nodup
  have sound : Sound middle := by
    refine ⟨lastFits.le, ?_, nodup.2⟩
    intro pointer member
    obtain ⟨other, data', rfl, found⟩ :=
      valid.live pointer (held ▸ Multiset.mem_cons_of_mem member)
    refine ⟨other, data', rfl, ?_⟩
    have different : other ≠ first := by
      rintro rfl
      exact nodup.1 member
    exact (Function.update_of_ne different ..).trans found
  have ordered : Ordered heap.keys size := by
    have ordered := valid.ordered
    rw [split] at ordered
    exact ordered.shrink (Nat.le_succ size)
  have sinking : Sinking middle.keys middle.curSize 0 0 := by
    refine .root ordered fun i positive below => ?_
    have here : middle.array i = heap.array i := Function.update_of_ne (by omega) ..
    obtain ⟨other, data', cell', found⟩ := sound.cell below
    have different : other ≠ first := by
      rintro rfl
      rw [show middle.memory other = none from Function.update_self ..] at found
      contradiction
    have same : middle.memory other = heap.memory other := Function.update_of_ne different ..
    rw [keys, keys, ← here, cell', keyOf, keyOf, Option.elim_some, Option.elim_some, expireOf,
      expireOf, same]
  obtain ⟨result, made, arranged, sorted⟩ :=
    percolateDown_spec sound sinking (le_refl 0) (show middle.curSize ≤ 0 + middle.curSize by omega)
  have same := arranged.same
  refine ⟨result, ?_, ⟨arranged.sound sound, ?_, ?_⟩, ?_, ?_, ?_, ?_⟩
  · have nonempty : ¬heap.curSize = 0 := by omega
    have back : heap.curSize - 1 = size := by omega
    have freed : heap.free first = some { heap with memory, popped := heap.popped ++ [first] } := by
      simp only [free, live]
      rfl
    simp only [popTimer, if_neg nonempty, root, freed, back, read, write,
      if_pos lastFits, if_pos rootFits, Option.bind_eq_bind, Option.bind_some]
    exact made
  · rw [same]
    exact valid.room
  · rw [arranged.curSize]
    exact sorted
  · rw [held, arranged.held]
  · rw [same]
  · rw [same]
  · rw [same]

end Heap

end StudyRecord.TimeHeap
