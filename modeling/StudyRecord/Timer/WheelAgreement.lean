import StudyRecord.Timer.Agreement
import StudyRecord.Timer.Firing

/-!
The time wheel beside the sorted list. A wheel whose ticks come one after the other fires what the
list fires if the list is given, for each timeout, the time one tick behind it.
-/

namespace StudyRecord.Timer

open Machine Schedules TimeWheel

variable {T : Type}

structure Clocked (T : Type) where
  wheel : TimeWheel T
  clock : Int

def Clocked.start : Clocked T := ⟨TimeWheel.empty, 0⟩

/-- The owner of a timer may leave its `user_data` null. -/
def TimeWheel.setUser (wheel : TimeWheel T) (timer : Nat) : Option T → Option (TimeWheel T)
  | none => some wheel
  | some user => wheel.setUserData timer user

def Clocked.timeout (clocked : Clocked T) (time : Int) : Int := time - clocked.clock - 1

def Clocked.scheduleStep (clocked : Clocked T) :
    Schedules.Op Nat Int (Unit × Option T) →
      Except Unit (Clocked T × List (Schedules.Entry Nat Int (Unit × Option T)))
  | .add entry =>
      match clocked.wheel.addTimer (clocked.timeout entry.time) with
      | some (wheel, some timer) =>
          match wheel.setUser timer entry.data.2 with
          | none => .error ()
          | some wheel => .ok ({ clocked with wheel := wheel }, [])
      | _ => .error ()
  | .cancel id =>
      match clocked.wheel.delTimer id with
      | none => .error ()
      | some wheel => .ok ({ clocked with wheel := wheel }, [])
  | .tick now =>
      match clocked.wheel.tick with
      | none => .error ()
      | some (wheel, fired) =>
          .ok (⟨wheel, clocked.clock + 1⟩, fired.map fun timer => ⟨timer.1, now, ((), timer.2)⟩)

/-- A timer goes to the next address with a timeout of at least one, and the ticks come one after
the other. -/
def Clocked.Allowed (clocked : Clocked T) : Schedules.Op Nat Int (Unit × Option T) → Prop
  | .add entry =>
      entry.id = clocked.wheel.fresh ∧ 1 ≤ clocked.timeout entry.time ∧
        FitsInt (clocked.timeout entry.time)
  | .cancel _ => True
  | .tick now => now = clocked.clock + 1

instance (clocked : Clocked T) : ∀ op, Decidable (clocked.Allowed op)
  | .add entry =>
      inferInstanceAs (Decidable (entry.id = clocked.wheel.fresh ∧
        1 ≤ clocked.timeout entry.time ∧ FitsInt (clocked.timeout entry.time)))
  | .cancel _ => .isTrue trivial
  | .tick now => inferInstanceAs (Decidable (now = clocked.clock + 1))

def Clocked.timerOf (clocked : Clocked T) (data : TwTimer T) : Int × Unit × Option T :=
  (clocked.clock + 1 + ticksLeft clocked.wheel.curSlot data, (), data.userData)

structure Clocked.Scheduled (clocked : Clocked T)
    (schedule : Schedule Nat Int (Unit × Option T)) : Prop where
  valid : clocked.wheel.Valid
  pending : ∀ id, schedule.pending id = (clocked.wheel.dataOf id).map clocked.timerOf

theorem TimeWheel.setUser_spec {wheel : TimeWheel T} (valid : wheel.Valid) {timer : Nat}
    {data : TwTimer T} (live : wheel.dataOf timer = some data) (none' : data.userData = none)
    (user : Option T) :
    ∃ result, wheel.setUser timer user = some result ∧ result.Valid ∧
      result.dataOf = Function.update wheel.dataOf timer (some { data with userData := user }) ∧
      result.curSlot = wheel.curSlot ∧ result.fresh = wheel.fresh := by
  cases user with
  | none =>
      refine ⟨wheel, rfl, valid, ?_, rfl, rfl⟩
      rw [← none', ← live, Function.update_eq_self]
  | some user => exact setUserData_spec valid live user

theorem ticksLeft_zero_iff {cur : Nat} (data : TwTimer T) (bound : cur < wheelSlots)
    (slot : data.timeSlot < wheelSlots) :
    ticksLeft cur data = 0 ↔ data.timeSlot = cur ∧ ¬data.rotation > 0 := by
  simp only [ticksLeft, wheelSlots] at bound slot ⊢
  omega

theorem userData_kept {cur : Nat} {data after : TwTimer T}
    (kept : (if data.timeSlot = cur then visit data else some data) = some after) :
    after.userData = data.userData := by
  split at kept
  · simp only [visit] at kept
    split at kept
    · rw [← Option.some.inj kept]
    · contradiction
  · rw [← Option.some.inj kept]

theorem Clocked.Scheduled.add {clocked : Clocked T} {schedule : Schedule Nat Int (Unit × Option T)}
    (scheduled : clocked.Scheduled schedule) {entry : Schedules.Entry Nat Int (Unit × Option T)}
    (allowed : clocked.Allowed (.add entry)) :
    ∃ next, clocked.scheduleStep (.add entry) = .ok (next, []) ∧
      next.Scheduled (schedule.on (.add entry)) := by
  obtain ⟨address, positive, fits⟩ := allowed
  obtain ⟨result, made, valid, _, payload, cur, _⟩ :=
    addTimer_spec scheduled.valid (clocked.timeout entry.time) (by omega)
  have bound := scheduled.valid.bounds.1
  have ticks : (ticksOf (clocked.timeout entry.time) : Int) = clocked.timeout entry.time := by
    rw [ticksOf_eq (by omega)]
    omega
  have live := congrFun payload clocked.wheel.fresh
  rw [Function.update_self] at live
  obtain ⟨final, set, valid', payload', cur', _⟩ := setUser_spec valid live rfl entry.data.2
  have slot : final.curSlot = clocked.wheel.curSlot := cur'.trans cur
  refine ⟨{ clocked with wheel := final }, ?_, valid', fun id => ?_⟩
  · simp only [scheduleStep, made, set]
  · rw [payload', payload, Function.update_idem]
    have same : timerOf { clocked with wheel := final } = clocked.timerOf := by
      funext data
      simp only [timerOf, slot]
    rw [same]
    by_cases here : id = entry.id
    · subst here
      have left : ticksLeft clocked.wheel.curSlot
          ⟨(ticksOf (clocked.timeout entry.time) / wheelSlots : Nat),
            (clocked.wheel.curSlot + ticksOf (clocked.timeout entry.time) % wheelSlots) %
              wheelSlots, entry.data.2⟩ = ticksOf (clocked.timeout entry.time) :=
        ticksLeft_new (T := T) _ _ bound
      simp only [Schedule.on, Function.update_self, address, Option.map_some, timerOf, left, ticks,
        Option.some.injEq, Prod.mk.injEq]
      refine ⟨?_, trivial⟩
      simp only [Clocked.timeout]
      omega
    · have elsewhere : id ≠ clocked.wheel.fresh := address ▸ here
      simp only [Schedule.on, Function.update_of_ne here, Function.update_of_ne elsewhere]
      exact scheduled.pending id

theorem Clocked.Scheduled.cancel {clocked : Clocked T}
    {schedule : Schedule Nat Int (Unit × Option T)} (scheduled : clocked.Scheduled schedule)
    {id : Nat} (pending : (schedule.pending id).isSome) :
    ∃ next, clocked.scheduleStep (.cancel id) = .ok (next, []) ∧
      next.Scheduled (schedule.on (.cancel id)) := by
  rw [scheduled.pending, Option.isSome_map] at pending
  obtain ⟨data, live⟩ := Option.isSome_iff_exists.mp pending
  obtain ⟨result, made, valid, payload, cur, _⟩ := delTimer_spec scheduled.valid live
  refine ⟨{ clocked with wheel := result }, ?_, valid, fun other => ?_⟩
  · simp only [scheduleStep, made]
  · have same : timerOf { clocked with wheel := result } = clocked.timerOf := by
      funext data
      simp only [timerOf, cur]
    rw [same, payload]
    by_cases here : other = id
    · subst here
      simp [Schedule.on]
    · simp only [Schedule.on, Function.update_of_ne here]
      exact scheduled.pending other

theorem Clocked.Scheduled.tick {clocked : Clocked T}
    {schedule : Schedule Nat Int (Unit × Option T)} (scheduled : clocked.Scheduled schedule)
    {now : Int} (next' : now = clocked.clock + 1) :
    ∃ next fired, clocked.scheduleStep (.tick now) = .ok (next, fired) ∧
      next.Scheduled (schedule.on (.tick now)) ∧ Schedules.Fires schedule now fired := by
  obtain ⟨result, fired, made, valid, cur, _, nodup, calls, payload⟩ := tick_spec scheduled.valid
  obtain ⟨bound, slots⟩ := scheduled.valid.bounds
  refine ⟨⟨result, clocked.clock + 1⟩, fired.map fun timer => ⟨timer.1, now, ((), timer.2)⟩, ?_,
    ⟨valid, fun id => ?_⟩, ?_⟩
  · simp only [scheduleStep, made]
  · show (schedule.pending id).filter _ = _
    rw [scheduled.pending, payload]
    cases live : clocked.wheel.dataOf id with
    | none => rfl
    | some data =>
        have step := ticksLeft_tick data bound (slots id data live)
        rw [Option.map_some, Option.bind_some]
        cases left : ticksLeft clocked.wheel.curSlot data with
        | zero =>
            rw [left] at step
            have gone := Option.map_eq_none_iff.mp step
            rw [gone]
            simp [Option.filter, timerOf, left, next']
        | succ more =>
            rw [left] at step
            obtain ⟨after, kept, ahead⟩ := Option.map_eq_some_iff.mp step
            have user := userData_kept kept
            have later : now < clocked.clock + 1 + (more + 1 : Nat) := by omega
            rw [kept, Option.map_some]
            simp only [timerOf, left, cur, ahead, user]
            rw [Option.filter_some, if_pos (decide_eq_true later), Option.some.injEq, Prod.mk.injEq]
            exact ⟨by omega, rfl⟩
  · refine ⟨fun entry => ?_, ?_, ?_⟩
    · rw [List.mem_map, scheduled.pending]
      constructor
      · rintro ⟨⟨timer, user⟩, member, rfl⟩
        obtain ⟨data, live, here, stopped, rfl⟩ := (calls timer user).mp member
        have zero := (ticksLeft_zero_iff data bound (slots timer data live)).mpr ⟨here, stopped⟩
        refine ⟨?_, le_refl now⟩
        rw [live, Option.map_some, timerOf, zero, next', Int.natCast_zero, Int.add_zero]
      · obtain ⟨id, time, _, user⟩ := entry
        rintro ⟨pending, due⟩
        obtain ⟨data, live, same⟩ := Option.map_eq_some_iff.mp pending
        simp only [timerOf, Prod.mk.injEq] at same
        obtain ⟨rfl, _, rfl⟩ := same
        have zero : ticksLeft clocked.wheel.curSlot data = 0 := by
          simp only at due
          omega
        obtain ⟨here, stopped⟩ := (ticksLeft_zero_iff data bound (slots id data live)).mp zero
        refine ⟨(id, data.userData), (calls id _).mpr ⟨data, live, here, stopped, rfl⟩, ?_⟩
        rw [zero, next', Int.natCast_zero, Int.add_zero]
    · have once := List.Nodup.of_map Prod.fst nodup
      refine once.map ?_
      rintro ⟨timer, user⟩ ⟨timer', user'⟩ same
      simp only [Schedules.Entry.mk.injEq, Prod.mk.injEq] at same
      rw [Prod.mk.injEq]
      exact ⟨same.1, same.2.2.2⟩
    · exact List.pairwise_map.mpr (List.pairwise_of_forall fun _ _ => le_refl now)

theorem Clocked.keeps_schedule :
    Keeps (scheduleStep (T := T)) (fun clocked op => clocked.Allowed op) Scheduled := by
  intro clocked schedule op scheduled legal allowed
  cases op with
  | add entry =>
      obtain ⟨next, taken, scheduled'⟩ := scheduled.add allowed
      exact ⟨next, [], taken, scheduled', rfl⟩
  | cancel id =>
      obtain ⟨next, taken, scheduled'⟩ := scheduled.cancel legal
      exact ⟨next, [], taken, scheduled', rfl⟩
  | tick now => exact scheduled.tick allowed

theorem Clocked.start_scheduled : (Clocked.start : Clocked T).Scheduled Schedules.empty :=
  ⟨empty_valid, fun _ => rfl⟩

/-- A program that adds timers with timeouts of at least one, cancels pending ones and ticks once
in each unit of time sees the same timers fire at every tick of the wheel as of a sorted list in
which each timer has the time one tick behind its timeout. -/
theorem wheel_and_list_agree (ops : List (Schedules.Op Nat Int (Unit × Option T)))
    (legal : LegalRun Schedules.empty ops)
    (allows : AllowedRun Clocked.scheduleStep (fun clocked op => clocked.Allowed op)
      (Clocked.start : Clocked T) ops) :
    ∃ fired fired',
      firings Clocked.scheduleStep (Clocked.start : Clocked T) ops = .ok fired ∧
      firings SortedList.scheduleStep SortedList.TimerList.empty ops = .ok fired' ∧
      List.Forall₂ SameUpToTies fired fired' :=
  Clocked.keeps_schedule.agree SortedList.keeps_schedule ops Clocked.start_scheduled
    SortedList.empty_scheduled legal allows (allowedRun_of_all (fun _ _ => trivial) _ ops)

theorem wheel_and_list_agree_turn :
    ∃ fired fired',
      firings Clocked.scheduleStep (Clocked.start : Clocked Nat)
        [.add ⟨0, 2, ((), some 7)⟩, .add ⟨1, 61, ((), none)⟩, .tick 1,
          .add ⟨2, 3, ((), none)⟩, .cancel 2, .tick 2, .tick 3] = .ok fired ∧
      firings SortedList.scheduleStep SortedList.TimerList.empty
        [.add ⟨0, 2, ((), some 7)⟩, .add ⟨1, 61, ((), none)⟩, .tick 1,
          .add ⟨2, 3, ((), none)⟩, .cancel 2, .tick 2, .tick 3] = .ok fired' ∧
      List.Forall₂ SameUpToTies fired fired' :=
  wheel_and_list_agree _ (by decide) (by decide)

end StudyRecord.Timer
