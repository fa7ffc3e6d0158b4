import StudyRecord.Library.Schedule
import StudyRecord.Timer.Expiry
import StudyRecord.Timer.SortedSet

/-!
The sorted list and the time heap as containers of timers: both keep the same schedule, so that
a program which uses one may use the other.
-/

namespace StudyRecord.SortedList

open Schedules

variable {F T : Type}

def entryOf (timer : Nat × UtilTimer F T) : Entry Nat Int (F × Option T) :=
  ⟨timer.1, timer.2.absoluteExpire, (timer.2.cbFunc, timer.2.userData)⟩

def timerOf (timer : Int × F × Option T) : UtilTimer F T := ⟨timer.1, timer.2.1, timer.2.2⟩

def scheduleStep (list : TimerList F T) :
    Schedules.Op Nat Int (F × Option T) →
      Except Fault (TimerList F T × List (Entry Nat Int (F × Option T)))
  | .add entry =>
      match apply list (.add entry.id (timerOf (entry.time, entry.data))) with
      | none => .error .dangling
      | some next => .ok (next, [])
  | .cancel id =>
      match apply list (.del id) with
      | none => .error .dangling
      | some next => .ok (next, [])
  | .tick now =>
      match list.tick now with
      | none => .error .dangling
      | some (next, fired) => .ok (next, fired.map entryOf)

structure Scheduled (list : TimerList F T) (schedule : Schedule Nat Int (F × Option T)) : Prop where
  holds : ∃ items, Holds list items
  pending : ∀ id, contents list id = (schedule.pending id).map timerOf
  unused : ∀ id, schedule.used id = false → contents list id = none

theorem timerOf_injective {first second : Int × F × Option T}
    (same : timerOf first = timerOf second) : first = second := by
  obtain ⟨time, cbFunc, userData⟩ := first
  obtain ⟨time', cbFunc', userData'⟩ := second
  simp only [timerOf, UtilTimer.mk.injEq] at same
  obtain ⟨rfl, rfl, rfl⟩ := same
  rfl

theorem Scheduled.fires {list : TimerList F T} {schedule : Schedule Nat Int (F × Option T)}
    (scheduled : Scheduled list schedule) {now : Int} {fired : List (Nat × UtilTimer F T)}
    (fires : Fires (contents list) now fired) :
    Schedules.Fires schedule now (fired.map entryOf) where
  exact entry := by
    rw [List.mem_map]
    constructor
    · rintro ⟨timer, member, rfl⟩
      obtain ⟨found, due⟩ := (fires.exact timer.1 timer.2).mp member
      rw [scheduled.pending, Option.map_eq_some_iff] at found
      obtain ⟨kept, pending, same⟩ := found
      obtain rfl : kept = (timer.2.absoluteExpire, timer.2.cbFunc, timer.2.userData) :=
        timerOf_injective same
      exact ⟨pending, due⟩
    · rintro ⟨pending, due⟩
      refine ⟨(entry.id, timerOf (entry.time, entry.data)), (fires.exact _ _).mpr ⟨?_, due⟩, rfl⟩
      rw [scheduled.pending, pending]
      rfl
  once := by
    have once := List.Nodup.of_map Prod.fst fires.once
    refine once.map ?_
    rintro ⟨timer, data⟩ ⟨timer', data'⟩ same
    simp only [entryOf, Entry.mk.injEq, Prod.mk.injEq] at same
    obtain ⟨rfl, expire, cbFunc, userData⟩ := same
    rw [Prod.mk.injEq]
    refine ⟨rfl, ?_⟩
    cases data
    cases data'
    simp_all only
  ordered := List.pairwise_map.mpr fires.ordered

theorem Scheduled.add {list : TimerList F T} {schedule : Schedule Nat Int (F × Option T)}
    (scheduled : Scheduled list schedule) {entry : Entry Nat Int (F × Option T)}
    (fresh : schedule.used entry.id = false) :
    ∃ next, scheduleStep list (.add entry) = .ok (next, []) ∧
      Scheduled next (schedule.on (.add entry)) := by
  obtain ⟨items, holds⟩ := scheduled.holds
  have unused : list.heap entry.id = none := Option.map_eq_none_iff.mp (scheduled.unused _ fresh)
  obtain ⟨next, items', added, holds', kept⟩ :=
    add_spec holds unused (timerOf (entry.time, entry.data))
  refine ⟨next, ?_, ⟨items', holds'⟩, fun id => ?_, fun id fresh' => ?_⟩
  · simp only [scheduleStep, SortedList.apply, added]
  · rw [kept]
    by_cases same : id = entry.id
    · subst same
      simp [Schedule.on]
    · simp [Schedule.on, same, scheduled.pending]
  · rw [kept]
    by_cases same : id = entry.id
    · subst same
      simp [Schedule.on] at fresh'
    · simp only [Schedule.on, Function.update_of_ne same] at fresh' ⊢
      exact scheduled.unused id fresh'

theorem Scheduled.cancel {list : TimerList F T} {schedule : Schedule Nat Int (F × Option T)}
    (scheduled : Scheduled list schedule) {id : Nat} (pending : (schedule.pending id).isSome) :
    ∃ next, scheduleStep list (.cancel id) = .ok (next, []) ∧
      Scheduled next (schedule.on (.cancel id)) := by
  obtain ⟨items, holds⟩ := scheduled.holds
  have live : contents list id ≠ none := by
    rw [scheduled.pending, ← Option.isSome_iff_ne_none, Option.isSome_map]
    exact pending
  obtain ⟨before, after, rfl⟩ :=
    List.append_of_mem ((holds.live id).mpr ((live_iff_contents id).mpr live))
  obtain ⟨next, deleted, holds', kept, _⟩ := del_spec holds
  refine ⟨next, ?_, ⟨_, holds'⟩, fun other => ?_, fun other fresh => ?_⟩
  · simp only [scheduleStep, SortedList.apply, deleted]
  · rw [kept]
    by_cases same : other = id
    · subst same
      simp [Schedule.on]
    · simp [Schedule.on, same, scheduled.pending]
  · rw [kept]
    by_cases same : other = id
    · subst same
      rw [Function.update_self]
    · rw [Function.update_of_ne same]
      exact scheduled.unused other fresh

theorem Scheduled.tick {list : TimerList F T} {schedule : Schedule Nat Int (F × Option T)}
    (scheduled : Scheduled list schedule) (now : Int) :
    ∃ next fired, scheduleStep list (.tick now) = .ok (next, fired) ∧
      Scheduled next (schedule.on (.tick now)) ∧ Schedules.Fires schedule now fired := by
  obtain ⟨items, holds⟩ := scheduled.holds
  obtain ⟨next, fired, left, ticked, holds', kept, fires⟩ := tick_spec holds now
  refine ⟨next, fired.map entryOf, ?_, ⟨⟨left, holds'⟩, fun id => ?_, fun id fresh => ?_⟩,
    scheduled.fires fires⟩
  · simp only [scheduleStep, ticked]
  · rw [kept]
    show (contents list id).filter _ = ((schedule.pending id).filter _).map timerOf
    rw [scheduled.pending]
    cases schedule.pending id with
    | none => rfl
    | some timer =>
        by_cases later : now < timer.1
        · simp [Option.filter, timerOf, later]
        · simp [Option.filter, timerOf, later]
  · rw [kept]
    show (contents list id).filter _ = none
    rw [scheduled.unused id fresh]
    rfl

theorem keeps_schedule : Keeps (scheduleStep (F := F) (T := T)) (fun _ _ => True) Scheduled := by
  intro list schedule op scheduled legal _
  cases op with
  | add entry =>
      obtain ⟨next, taken, scheduled'⟩ := scheduled.add legal
      exact ⟨next, [], taken, scheduled', rfl⟩
  | cancel id =>
      obtain ⟨next, taken, scheduled'⟩ := scheduled.cancel legal
      exact ⟨next, [], taken, scheduled', rfl⟩
  | tick now => exact scheduled.tick now

theorem empty_scheduled : Scheduled (TimerList.empty : TimerList F T) Schedules.empty :=
  ⟨⟨[], empty_holds⟩, fun _ => rfl, fun _ _ => rfl⟩

end StudyRecord.SortedList

namespace StudyRecord.TimeHeap

open Schedules Heap

variable {F T : Type}

def entryOf (heap : Heap F (Option T)) (call : Call F (Option T)) :
    Entry Nat Int (F × Option T) :=
  ⟨call.timer, heap.expireOf call.timer, (call.cbFunc, call.userData)⟩

def scheduleStep (system : System F (Option T)) :
    Schedules.Op Nat Int (F × Option T) →
      Except Fault (System F (Option T) × List (Entry Nat Int (F × Option T)))
  | .add entry =>
      match (apply system (.new entry.id ⟨entry.time, entry.data.1, entry.data.2⟩)).bind
        fun next => apply next (.add (some entry.id)) with
      | none => .error .dangling
      | some next => .ok (next, [])
  | .cancel id =>
      match apply system (.del (some id)) with
      | none => .error .dangling
      | some next => .ok (next, [])
  | .tick now =>
      match apply system (.tick now) with
      | none => .error .dangling
      | some next =>
          .ok (next,
            (next.heap.called.drop system.heap.called.length).map (entryOf system.heap))

structure Scheduled (system : System F (Option T)) (schedule : Schedule Nat Int (F × Option T)) :
    Prop where
  consistent : Consistent system
  pending : ∀ id time cbFunc userData, schedule.pending id = some (time, cbFunc, userData) ↔
    system.heap.Holds id ∧ system.heap.memory id = some ⟨time, some cbFunc, userData⟩
  unused : ∀ id, schedule.used id = false → system.heap.memory id = none

theorem Scheduled.fires {system : System F (Option T)} {schedule : Schedule Nat Int (F × Option T)}
    (scheduled : Scheduled system schedule) {now : Int} {result : Heap F (Option T)}
    {fired : List Nat} (fires : Heap.Fires system.heap result now fired) :
    Schedules.Fires schedule now
      ((fired.filterMap system.heap.callOf).map (entryOf system.heap)) := by
  obtain ⟨nodup, among⟩ := fires.mem_iff scheduled.consistent.valid
  have expire (timer : Nat) (data : HeapTimer F (Option T))
      (found : system.heap.memory timer = some data) :
      system.heap.expireOf timer = data.absoluteExpire := by
    simp [expireOf, found]
  refine ⟨fun entry => ?_, ?_, ?_⟩
  · rw [List.mem_map]
    constructor
    · rintro ⟨call, member, rfl⟩
      obtain ⟨timer, gone, made⟩ := List.mem_filterMap.mp member
      obtain ⟨rfl, data, found, callback, user⟩ := callOf_timer made
      obtain ⟨holds, due⟩ := (among call.timer).mp gone
      refine ⟨(scheduled.pending _ _ _ _).mpr ⟨holds, ?_⟩, due⟩
      show system.heap.memory call.timer =
        some ⟨system.heap.expireOf call.timer, some call.cbFunc, call.userData⟩
      rw [expire _ _ found, ← callback, ← user, found]
    · obtain ⟨id, time, cbFunc, userData⟩ := entry
      rintro ⟨pending, due⟩
      obtain ⟨holds, found⟩ := (scheduled.pending _ _ _ _).mp pending
      refine ⟨⟨id, cbFunc, userData⟩,
        List.mem_filterMap.mpr ⟨id, (among id).mpr ⟨holds, ?_⟩, ?_⟩, ?_⟩
      · rw [expire _ _ found]
        exact due
      · simp [callOf, found]
      · simp [entryOf, expire _ _ found]
  · refine (nodup.filterMap ?_).map ?_
    · intro timer other call made made'
      exact (callOf_timer made).1.symm.trans (callOf_timer made').1
    · rintro ⟨timer, cbFunc, userData⟩ ⟨timer', cbFunc', userData'⟩ same
      simp only [entryOf, Entry.mk.injEq, Prod.mk.injEq] at same
      rw [Call.mk.injEq]
      exact ⟨same.1, same.2.2.1, same.2.2.2⟩
  · rw [List.pairwise_map, List.pairwise_filterMap]
    refine fires.order.imp fun ordered call made call' made' => ?_
    obtain ⟨rfl, _⟩ := callOf_timer made
    obtain ⟨rfl, _⟩ := callOf_timer made'
    exact ordered

theorem Scheduled.add {system : System F (Option T)} {schedule : Schedule Nat Int (F × Option T)}
    (scheduled : Scheduled system schedule) {entry : Entry Nat Int (F × Option T)}
    (fresh : schedule.used entry.id = false) :
    ∃ next, scheduleStep system (.add entry) = .ok (next, []) ∧
      Scheduled next (schedule.on (.add entry)) := by
  have unused := scheduled.unused _ fresh
  have unheld : ¬system.heap.Holds entry.id := by
    intro holds
    obtain ⟨data, found⟩ := scheduled.consistent.valid.live_of_holds holds
    rw [unused] at found
    contradiction
  let timer : HeapTimer F (Option T) := ⟨entry.time, some entry.data.1, entry.data.2⟩
  obtain ⟨middle, made, consistent⟩ := scheduled.consistent.new
    ⟨entry.time, entry.data.1, entry.data.2⟩ unused
  have memory : middle.heap.memory = Function.update system.heap.memory entry.id (some timer) := by
    rw [← Option.some.inj made]
    rfl
  have holding (id : Nat) : middle.heap.Holds id ↔ system.heap.Holds id := by
    rw [← Option.some.inj made]
    exact Iff.rfl
  have live : middle.heap.memory entry.id = some timer := by
    rw [memory, Function.update_self]
  have apart : ¬middle.heap.Holds entry.id := fun holds => unheld ((holding _).mp holds)
  obtain ⟨next, added, consistent'⟩ := consistent.add (by rw [live]; simp) apart
  obtain ⟨result, pushed, _, grown⟩ := addTimer_spec consistent.valid live apart
  have heap : next.heap = result := by
    simp only [TimeHeap.apply, pushed, Option.bind_eq_bind, Option.bind_some] at added
    rw [← Option.some.inj added]
  have holding' (id : Nat) : next.heap.Holds id ↔ id = entry.id ∨ system.heap.Holds id := by
    rw [heap, ← mem_held, grown.held, Multiset.mem_cons, Option.some.injEq, mem_held, holding]
  have memory' : next.heap.memory = Function.update system.heap.memory entry.id (some timer) := by
    rw [heap, grown.memory, memory]
  refine ⟨next, ?_, consistent', fun id time cbFunc userData => ?_, fun id fresh' => ?_⟩
  · simp only [scheduleStep, made, Option.bind_some, added]
  · rw [holding', memory']
    by_cases same : id = entry.id
    · subst same
      simp [Schedule.on, timer, Prod.ext_iff]
    · simp only [Schedule.on, Function.update_of_ne same, same, false_or]
      exact scheduled.pending id time cbFunc userData
  · rw [memory']
    by_cases same : id = entry.id
    · subst same
      simp [Schedule.on] at fresh'
    · simp only [Schedule.on, Function.update_of_ne same] at fresh' ⊢
      exact scheduled.unused id fresh'

theorem Scheduled.cancel {system : System F (Option T)}
    {schedule : Schedule Nat Int (F × Option T)} (scheduled : Scheduled system schedule) {id : Nat}
    (pending : (schedule.pending id).isSome) :
    ∃ next, scheduleStep system (.cancel id) = .ok (next, []) ∧
      Scheduled next (schedule.on (.cancel id)) := by
  obtain ⟨⟨time, cbFunc, userData⟩, found⟩ := Option.isSome_iff_exists.mp pending
  obtain ⟨holds, live⟩ := (scheduled.pending _ _ _ _).mp found
  obtain ⟨next, deleted, consistent⟩ := scheduled.consistent.del (by rw [live]; simp)
  have marked := deleted
  simp only [TimeHeap.apply, delTimer, live, Option.bind_eq_bind, Option.bind_some] at marked
  have memory : next.heap.memory =
      Function.update system.heap.memory id (some ⟨time, none, userData⟩) := by
    rw [← Option.some.inj marked]
  have holding (other : Nat) : next.heap.Holds other ↔ system.heap.Holds other := by
    rw [← Option.some.inj marked]
    exact Iff.rfl
  refine ⟨next, ?_, consistent, fun other time' cbFunc' userData' => ?_, fun other fresh => ?_⟩
  · simp only [scheduleStep, deleted]
  · rw [holding, memory]
    by_cases same : other = id
    · subst same
      simp [Schedule.on]
    · simp only [Schedule.on, Function.update_of_ne same]
      exact scheduled.pending other time' cbFunc' userData'
  · have unused := scheduled.unused other fresh
    rw [memory]
    by_cases same : other = id
    · subst same
      rw [live] at unused
      contradiction
    · rw [Function.update_of_ne same]
      exact unused

theorem Scheduled.tick {system : System F (Option T)}
    {schedule : Schedule Nat Int (F × Option T)} (scheduled : Scheduled system schedule)
    (now : Int) :
    ∃ next fired, scheduleStep system (.tick now) = .ok (next, fired) ∧
      Scheduled next (schedule.on (.tick now)) ∧ Schedules.Fires schedule now fired := by
  obtain ⟨next, ticked, consistent⟩ := scheduled.consistent.tick now
  obtain ⟨result, fired, made, fires⟩ := Heap.tick_spec scheduled.consistent.valid now
  have heap : next.heap = result := by
    simp only [TimeHeap.apply, made, Option.bind_eq_bind, Option.bind_some] at ticked
    rw [← Option.some.inj ticked]
  have calls : next.heap.called.drop system.heap.called.length =
      fired.filterMap system.heap.callOf := by
    rw [heap, fires.called, List.drop_left]
  obtain ⟨_, among⟩ := fires.mem_iff scheduled.consistent.valid
  have holding (id : Nat) :
      result.Holds id ↔ system.heap.Holds id ∧ now < system.heap.expireOf id := by
    rw [← mem_held, fires.left, Multiset.mem_filter, mem_held]
    exact Iff.rfl
  refine ⟨next, (fired.filterMap system.heap.callOf).map (entryOf system.heap), ?_,
    ⟨consistent, fun id time cbFunc userData => ?_, fun id fresh => ?_⟩, scheduled.fires fires⟩
  · simp only [scheduleStep, ticked, calls]
  · rw [heap, holding, fires.memory]
    show (schedule.pending id).filter _ = _ ↔ _
    rw [Option.filter_eq_some_iff, scheduled.pending, and_assoc, and_assoc]
    refine and_congr_right fun holds => ?_
    constructor
    · rintro ⟨found, later⟩
      have expire : system.heap.expireOf id = time := by simp [expireOf, found]
      have later : now < time := of_decide_eq_true later
      have kept : id ∉ fired := fun gone => by
        have due := fires.due id gone
        omega
      rw [if_neg kept]
      exact ⟨by omega, found⟩
    · rintro ⟨later, found⟩
      split at found
      · contradiction
      · have expire : system.heap.expireOf id = time := by simp [expireOf, found]
        exact ⟨found, decide_eq_true (by omega)⟩
  · have unused := scheduled.unused id fresh
    rw [heap, fires.memory]
    split
    · rfl
    · exact unused

theorem keeps_schedule : Keeps (scheduleStep (F := F) (T := T)) (fun _ _ => True) Scheduled := by
  intro system schedule op scheduled legal _
  cases op with
  | add entry =>
      obtain ⟨next, taken, scheduled'⟩ := scheduled.add legal
      exact ⟨next, [], taken, scheduled', rfl⟩
  | cancel id =>
      obtain ⟨next, taken, scheduled'⟩ := scheduled.cancel legal
      exact ⟨next, [], taken, scheduled', rfl⟩
  | tick now => exact scheduled.tick now

def emptySystem (F T : Type) (cap : Nat) : System F (Option T) :=
  ⟨.make (fun _ => none) cap, [], fun _ => false⟩

theorem empty_scheduled {cap : Nat} (room : 1 ≤ cap) :
    Scheduled (emptySystem F T cap) Schedules.empty := by
  have legal : (Start.empty (fun _ => none) cap : Start F (Option T)).Legal := room
  obtain ⟨system, made, consistent⟩ := consistent_start legal
  obtain rfl : emptySystem F T cap = system := Option.some.inj made
  refine ⟨consistent, fun id time cbFunc userData => ?_, fun _ _ => rfl⟩
  refine iff_of_false (fun pending => Option.some_ne_none _ pending.symm) ?_
  rintro ⟨⟨i, inside, _⟩, _⟩
  exact absurd inside (Nat.not_lt_zero i)

/-- A program that adds timers, cancels pending ones and ticks at any times sees the same
callbacks from the sorted list and from the heap of any capacity, in the same order but for
timers that expire at the same time; neither of them ever follows a dangling pointer. -/
theorem list_and_heap_agree {cap : Nat} (room : 1 ≤ cap)
    (ops : List (Schedules.Op Nat Int (F × Option T))) (legal : LegalRun Schedules.empty ops) :
    ∃ fired fired', firings SortedList.scheduleStep SortedList.TimerList.empty ops = .ok fired ∧
      firings scheduleStep (emptySystem F T cap) ops = .ok fired' ∧
      List.Forall₂ SameUpToTies fired fired' :=
  SortedList.keeps_schedule.agree keeps_schedule ops SortedList.empty_scheduled
    (empty_scheduled room) legal (allowedRun_of_all (fun _ _ => trivial) _ ops)
    (allowedRun_of_all (fun _ _ => trivial) _ ops)

theorem list_and_heap_agree_three :
    ∃ fired fired', firings SortedList.scheduleStep SortedList.TimerList.empty
        [.add ⟨1, 20, (0, some 5)⟩, .add ⟨2, 10, (0, none)⟩, .add ⟨3, 10, (0, none)⟩, .tick 10,
          .cancel 1, .tick 30] = .ok fired ∧
      firings scheduleStep (emptySystem Nat Nat 1)
        [.add ⟨1, 20, (0, some 5)⟩, .add ⟨2, 10, (0, none)⟩, .add ⟨3, 10, (0, none)⟩, .tick 10,
          .cancel 1, .tick 30] = .ok fired' ∧
      List.Forall₂ SameUpToTies fired fired' :=
  list_and_heap_agree (Nat.le_refl 1) _ (by decide)

end StudyRecord.TimeHeap
