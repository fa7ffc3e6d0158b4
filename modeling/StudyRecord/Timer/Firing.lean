import StudyRecord.Library.Countdown
import StudyRecord.Timer.Slots

/-!
When timers fire. The wheel simulates a countdown: a timer that is `rotation`
turns and some slots away from the position of the wheel has that many ticks left.
-/

namespace StudyRecord.Timer.TimeWheel

open LinkedList Machine

variable {T : Type}

def ticksLeft (cur : Nat) (data : TwTimer T) : Nat :=
  data.rotation.toNat * wheelSlots + (data.timeSlot + wheelSlots - cur) % wheelSlots

def remaining (wheel : TimeWheel T) : Countdown.Remaining Nat :=
  fun timer => (wheel.dataOf timer).map (ticksLeft wheel.curSlot)

def renewed (data : TwTimer T) (timeout : Int) : TwTimer T :=
  { data with
    rotation := toInt (data.rotation + (ticksOf timeout / wheelSlots : Nat))
    timeSlot := (data.timeSlot + ticksOf timeout % wheelSlots) % wheelSlots }

/-! Calls of the wheel. -/

inductive Op
  | add (timeout : Int)
  | del (timer : Nat)
  | adjust (timer : Nat) (timeout : Int)
  | tick
  deriving DecidableEq, Repr

def Op.run (wheel : TimeWheel T) : Op → Option (TimeWheel T × List Nat)
  | .add timeout => (wheel.addTimer timeout).map fun result => (result.1, [])
  | .del timer => (wheel.delTimer timer).map fun result => (result, [])
  | .adjust timer timeout => (wheel.adjustTimer timer timeout).map fun result => (result, [])
  | .tick => wheel.tick.map fun result => (result.1, result.2.map Prod.fst)

/-- Timeouts are `int`s, and a timer that is deleted or adjusted is in the wheel. -/
def Op.Legal (wheel : TimeWheel T) : Op → Prop
  | .add timeout => FitsInt timeout
  | .del timer => (wheel.dataOf timer).isSome
  | .adjust timer timeout => (wheel.dataOf timer).isSome ∧ FitsInt timeout
  | .tick => True

def Op.Spares (timer : Nat) : Op → Prop
  | .del other => other ≠ timer
  | .adjust other _ => other ≠ timer
  | _ => True

def runOps (wheel : TimeWheel T) : List Op → Option (TimeWheel T)
  | [] => some wheel
  | op :: rest => (op.run wheel).bind fun result => runOps result.1 rest

def LegalRun (wheel : TimeWheel T) : List Op → Prop
  | [] => True
  | op :: rest => op.Legal wheel ∧ ∀ result, op.run wheel = some result → LegalRun result.1 rest

def tickCount (ops : List Op) : Nat := ops.count .tick

/-- The ticks, counted on from `before`, in which the callback of a timer is called,
one entry for every call. -/
def callbacks (timer : Nat) (before : Nat) (wheel : TimeWheel T) : List Op → List Nat
  | [] => []
  | op :: rest =>
      match op.run wheel with
      | none => []
      | some (result, fired) =>
          let now := if op = .tick then before + 1 else before
          List.replicate (fired.count timer) now ++ callbacks timer now result rest

/-! The simulation. -/

def Op.event (wheel : TimeWheel T) : Op → Option (Countdown.Event Nat)
  | .add timeout => if timeout < 0 then none else some (.set wheel.fresh (ticksOf timeout))
  | .del timer => some (.drop timer)
  | .adjust timer timeout =>
      if timeout < 0 then none
      else (wheel.dataOf timer).map fun data =>
        .set timer (ticksLeft wheel.curSlot (renewed data timeout))
  | .tick => some .tick

def follow (remaining : Countdown.Remaining Nat) : Option (Countdown.Event Nat) →
    Countdown.Remaining Nat
  | none => remaining
  | some event => Countdown.step remaining event

structure Sound (wheel : TimeWheel T) : Prop where
  valid : wheel.Valid
  rotation : ∀ timer data, wheel.dataOf timer = some data → FitsInt data.rotation

structure Simulates (wheel : TimeWheel T) (op : Op) (result : TimeWheel T × List Nat) : Prop where
  run : op.run wheel = some result
  sound : result.1.Sound
  remaining : result.1.remaining = follow wheel.remaining (op.event wheel)
  nodup : result.2.Nodup
  fired : ∀ timer, timer ∈ result.2 ↔ op = .tick ∧ wheel.remaining timer = some 0
  fresh : wheel.fresh ≤ result.1.fresh

theorem Valid.bounds {wheel : TimeWheel T} (valid : wheel.Valid) :
    wheel.curSlot < wheelSlots ∧
      ∀ timer data, wheel.dataOf timer = some data → data.timeSlot < wheelSlots := by
  obtain ⟨content, holds⟩ := valid
  exact ⟨holds.cur, fun timer data live => (holds.listed timer data live (by simp)).1⟩

theorem remaining_update {before after : TimeWheel T} {timer : Nat} {data : Option (TwTimer T)}
    (payload : after.dataOf = Function.update before.dataOf timer data)
    (cur : after.curSlot = before.curSlot) :
    after.remaining =
      Function.update before.remaining timer (data.map (ticksLeft before.curSlot)) := by
  funext other
  by_cases same : other = timer
  · rw [remaining, payload, same, Function.update_self, Function.update_self, cur]
  · rw [remaining, payload, Function.update_of_ne same, Function.update_of_ne same, cur]
    rfl

theorem rotation_update {before after : TimeWheel T} {timer : Nat} {data : Option (TwTimer T)}
    (payload : after.dataOf = Function.update before.dataOf timer data)
    (old : ∀ timer data, before.dataOf timer = some data → FitsInt data.rotation)
    (new : ∀ found, data = some found → FitsInt found.rotation) :
    ∀ timer data, after.dataOf timer = some data → FitsInt data.rotation := by
  intro other found live
  rw [payload] at live
  by_cases same : other = timer
  · rw [same, Function.update_self] at live
    exact new found live
  · rw [Function.update_of_ne same] at live
    exact old other found live

theorem ticksLeft_new (cur ticks : Nat) (bound : cur < wheelSlots) :
    ticksLeft cur ⟨(ticks / wheelSlots : Nat), (cur + ticks % wheelSlots) % wheelSlots,
      (none : Option T)⟩ = ticks := by
  simp only [ticksLeft, wheelSlots] at bound ⊢
  omega

theorem ticksOf_eq {timeout : Int} (notNegative : 0 ≤ timeout) :
    (ticksOf timeout : Int) = max 1 timeout := by
  by_cases short : timeout < 1
  · simp [ticksOf, slotInterval, short]
    omega
  · simp [ticksOf, slotInterval, short]
    omega

theorem add_simulates {wheel : TimeWheel T} (sound : wheel.Sound) (timeout : Int)
    (legal : FitsInt timeout) : ∃ result, Simulates wheel (.add timeout) result := by
  by_cases negative : timeout < 0
  · refine ⟨(wheel, []), ?_, sound, ?_, List.nodup_nil, by simp, Nat.le_refl _⟩
    · simp [Op.run, addTimer, negative]
    · simp [Op.event, negative, follow]
  · have notNegative : 0 ≤ timeout := by omega
    obtain ⟨result, made, valid, _, payload, cur, freshSame⟩ :=
      addTimer_spec sound.valid timeout notNegative
    have ticks := ticksOf_eq notNegative
    have fits : FitsInt (ticksOf timeout / wheelSlots : Nat) := by
      simp only [FitsInt, intMin, intMax, wheelSlots] at legal ⊢
      omega
    refine ⟨(result, []), ?_, ⟨valid, ?_⟩, ?_, List.nodup_nil, by simp, by simp [freshSame]⟩
    · simp [Op.run, made]
    · refine rotation_update payload sound.rotation ?_
      rintro found same
      rw [Option.some.injEq] at same
      rw [← same]
      exact fits
    · have left := ticksLeft_new (T := T) wheel.curSlot (ticksOf timeout) sound.valid.bounds.1
      rw [remaining_update payload cur]
      simp only [Op.event, negative, if_false, follow, Countdown.step, Option.map_some]
      rw [left]

theorem del_simulates {wheel : TimeWheel T} (sound : wheel.Sound) (timer : Nat)
    (legal : (wheel.dataOf timer).isSome) : ∃ result, Simulates wheel (.del timer) result := by
  obtain ⟨data, live⟩ := Option.isSome_iff_exists.mp legal
  obtain ⟨result, made, valid, payload, cur, freshSame⟩ := delTimer_spec sound.valid live
  refine ⟨(result, []), ?_, ⟨valid, ?_⟩, ?_, List.nodup_nil, by simp, by simp [freshSame]⟩
  · simp [Op.run, made]
  · exact rotation_update payload sound.rotation (by simp)
  · rw [remaining_update payload cur]
    rfl

theorem adjust_simulates {wheel : TimeWheel T} (sound : wheel.Sound) (timer : Nat) (timeout : Int)
    (legal : (wheel.dataOf timer).isSome) :
    ∃ result, Simulates wheel (.adjust timer timeout) result := by
  by_cases negative : timeout < 0
  · refine ⟨(wheel, []), ?_, sound, ?_, List.nodup_nil, by simp, Nat.le_refl _⟩
    · simp [Op.run, adjustTimer, negative]
    · simp [Op.event, negative, follow]
  · obtain ⟨data, live⟩ := Option.isSome_iff_exists.mp legal
    obtain ⟨result, made, valid, payload, cur, freshSame⟩ :=
      adjustTimer_spec sound.valid live timeout (by omega)
    refine ⟨(result, []), ?_, ⟨valid, ?_⟩, ?_, List.nodup_nil, by simp, by simp [freshSame]⟩
    · simp [Op.run, made]
    · refine rotation_update payload sound.rotation ?_
      rintro found same
      rw [Option.some.injEq] at same
      rw [← same]
      exact toInt_fits _
    · rw [remaining_update payload cur]
      simp only [Op.event, negative, if_false, live, Option.map_some, follow, Countdown.step]
      rfl

theorem ticksLeft_tick {cur : Nat} (data : TwTimer T) (bound : cur < wheelSlots)
    (slot : data.timeSlot < wheelSlots) :
    (if data.timeSlot = cur then visit data else some data).map
        (ticksLeft ((cur + 1) % wheelSlots)) =
      match ticksLeft cur data with
      | 0 => none
      | left + 1 => some left := by
  by_cases here : data.timeSlot = cur
  · by_cases more : data.rotation > 0
    · have left : ticksLeft cur data =
          ticksLeft ((cur + 1) % wheelSlots) { data with rotation := data.rotation - 1 } + 1 := by
        simp only [ticksLeft, wheelSlots] at bound slot ⊢
        omega
      rw [if_pos here, visit, if_pos more, left]
      rfl
    · have none : ticksLeft cur data = 0 := by
        simp only [ticksLeft, wheelSlots] at bound slot ⊢
        omega
      rw [if_pos here, visit, if_neg more, none]
      rfl
  · have left : ticksLeft cur data = ticksLeft ((cur + 1) % wheelSlots) data + 1 := by
      simp only [ticksLeft, wheelSlots] at bound slot ⊢
      omega
    rw [if_neg here, left]
    rfl

theorem tick_simulates {wheel : TimeWheel T} (sound : wheel.Sound) :
    ∃ result, Simulates wheel .tick result := by
  obtain ⟨result, fired, made, valid, cur, freshSame, nodup, calls, payload⟩ := tick_spec sound.valid
  obtain ⟨bound, slots⟩ := sound.valid.bounds
  refine ⟨(result, fired.map Prod.fst), ?_, ⟨valid, ?_⟩, ?_, nodup, ?_, by simp [freshSame]⟩
  · simp [Op.run, made]
  · intro timer found live
    rw [payload timer, Option.bind_eq_some_iff] at live
    obtain ⟨data, before, after⟩ := live
    have fits := sound.rotation timer data before
    split at after
    · simp only [visit] at after
      split at after
      · rw [Option.some.injEq] at after
        rw [← after]
        simp only [FitsInt, intMin] at fits ⊢
        omega
      · simp at after
    · rw [Option.some.injEq] at after
      rw [← after]
      exact fits
  · funext timer
    simp only [remaining, payload timer, cur, Op.event, follow, Countdown.step]
    cases live : wheel.dataOf timer with
    | none => rfl
    | some data =>
        rw [Option.bind_some, ticksLeft_tick data bound (slots timer data live), Option.map_some]
        cases ticksLeft wheel.curSlot data <;> rfl
  · intro timer
    rw [List.mem_map]
    constructor
    · rintro ⟨⟨other, user⟩, member, rfl⟩
      obtain ⟨data, live, here, stopped, _⟩ := (calls other user).mp member
      refine ⟨rfl, ?_⟩
      simp only [remaining, live, Option.map_some, Option.some.injEq, ticksLeft, here, wheelSlots]
      omega
    · rintro ⟨_, none⟩
      simp only [remaining, Option.map_eq_some_iff] at none
      obtain ⟨data, live, none⟩ := none
      have slot := slots timer data live
      refine ⟨(timer, data.userData), (calls timer data.userData).mpr ⟨data, live, ?_, ?_, rfl⟩, rfl⟩
      · simp only [ticksLeft, wheelSlots] at none bound slot
        omega
      · simp only [ticksLeft, wheelSlots] at none
        omega

theorem Op.simulates {wheel : TimeWheel T} (sound : wheel.Sound) (op : Op) (legal : op.Legal wheel) :
    ∃ result, Simulates wheel op result := by
  cases op with
  | add timeout => exact add_simulates sound timeout legal
  | del timer => exact del_simulates sound timer legal
  | adjust timer timeout => exact adjust_simulates sound timer timeout legal.1
  | tick => exact tick_simulates sound

/-! Whole runs. -/

def events (wheel : TimeWheel T) : List Op → List (Countdown.Event Nat)
  | [] => []
  | op :: rest =>
      (op.event wheel).toList ++
        match op.run wheel with
        | none => []
        | some result => events result.1 rest

structure RunSimulates (wheel : TimeWheel T) (ops : List Op) (result : TimeWheel T) : Prop where
  run : runOps wheel ops = some result
  sound : result.Sound
  remaining : result.remaining = Countdown.run wheel.remaining (events wheel ops)
  callbacks : ∀ timer before,
    callbacks timer before wheel ops = Countdown.firings timer before wheel.remaining (events wheel ops)
  ticks : Countdown.ticks (events wheel ops) = tickCount ops
  fresh : wheel.fresh ≤ result.fresh

theorem replicate_count {fired : List Nat} (nodup : fired.Nodup) (timer now : Nat) :
    List.replicate (fired.count timer) now = if timer ∈ fired then [now] else [] := by
  split
  · rename_i member
    rw [List.count_eq_one_of_mem nodup member]
    rfl
  · rename_i absent
    rw [List.count_eq_zero_of_not_mem absent]
    rfl

theorem event_tick {wheel : TimeWheel T} {op : Op} (other : op ≠ .tick) :
    op.event wheel ≠ some .tick := by
  cases op with
  | add timeout =>
      simp only [Op.event]
      split <;> simp
  | del timer => simp [Op.event]
  | adjust timer timeout =>
      simp only [Op.event]
      split
      · simp
      · cases wheel.dataOf timer <;> simp
  | tick => contradiction

theorem firings_follow (timer before : Nat) (left : Countdown.Remaining Nat)
    (event : Option (Countdown.Event Nat)) (rest : List (Countdown.Event Nat))
    (other : event ≠ some .tick) :
    Countdown.firings timer before left (event.toList ++ rest) =
      Countdown.firings timer before (follow left event) rest := by
  cases event with
  | none => rfl
  | some event =>
      cases event with
      | tick => contradiction
      | set => rfl
      | drop => rfl

theorem ticks_follow (event : Option (Countdown.Event Nat)) (rest : List (Countdown.Event Nat))
    (other : event ≠ some .tick) :
    Countdown.ticks (event.toList ++ rest) = Countdown.ticks rest := by
  cases event with
  | none => rfl
  | some event =>
      cases event with
      | tick => contradiction
      | set => simp [Countdown.ticks]
      | drop => simp [Countdown.ticks]

theorem run_simulates (ops : List Op) {wheel : TimeWheel T} (sound : wheel.Sound)
    (legal : LegalRun wheel ops) : ∃ result, RunSimulates wheel ops result := by
  induction ops generalizing wheel with
  | nil => exact ⟨wheel, rfl, sound, rfl, fun _ _ => rfl, rfl, Nat.le_refl _⟩
  | cons op rest ih =>
      obtain ⟨next, step⟩ := op.simulates sound legal.1
      obtain ⟨result, later⟩ := ih step.sound (legal.2 next step.run)
      have unfolded : events wheel (op :: rest) =
          (op.event wheel).toList ++ events next.1 rest := by
        simp only [events, step.run]
      refine ⟨result, ?_, later.sound, ?_, ?_, ?_, Nat.le_trans step.fresh later.fresh⟩
      · simp only [runOps, step.run, Option.bind_some]
        exact later.run
      · rw [later.remaining, step.remaining, unfolded]
        cases op.event wheel <;> rfl
      · intro timer before
        have calls := replicate_count step.nodup timer
        simp only [callbacks, step.run, calls, step.fired timer, later.callbacks, unfolded]
        by_cases tick : op = .tick
        · subst tick
          rw [step.remaining]
          simp only [Op.event, follow, Option.toList_some, List.singleton_append, Countdown.firings,
            true_and, if_true]
        · rw [firings_follow timer before _ _ _ (event_tick tick), ← step.remaining]
          simp [tick]
      · rw [unfolded]
        by_cases tick : op = .tick
        · subst tick
          have count : Countdown.ticks (.tick :: events next.1 rest) =
              Countdown.ticks (events next.1 rest) + 1 := by simp [Countdown.ticks]
          simp only [Op.event, Option.toList_some, List.singleton_append, count, later.ticks,
            tickCount, List.count_cons_self]
        · rw [ticks_follow _ _ (event_tick tick), later.ticks, tickCount, tickCount,
            List.count_cons_of_ne tick]

theorem event_spares {wheel : TimeWheel T} {op : Op} {timer : Nat} (spares : op.Spares timer)
    (old : timer < wheel.fresh) : ∀ event ∈ (op.event wheel).toList, event.Spares timer := by
  intro event member
  rw [Option.mem_toList] at member
  cases op with
  | add timeout =>
      simp only [Op.event] at member
      split at member
      · simp at member
      · rw [Option.some.injEq] at member
        rw [← member]
        exact (Nat.ne_of_lt old).symm
  | del other =>
      rw [Op.event, Option.some.injEq] at member
      rw [← member]
      exact spares
  | adjust other timeout =>
      simp only [Op.event] at member
      split at member
      · simp at member
      · rw [Option.map_eq_some_iff] at member
        obtain ⟨data, _, same⟩ := member
        rw [← same]
        exact spares
  | tick =>
      rw [Op.event, Option.some.injEq] at member
      rw [← member]
      trivial

theorem events_spare (ops : List Op) {wheel : TimeWheel T} (sound : wheel.Sound)
    (legal : LegalRun wheel ops) {timer : Nat} (old : timer < wheel.fresh)
    (spares : ∀ op ∈ ops, op.Spares timer) : ∀ event ∈ events wheel ops, event.Spares timer := by
  induction ops generalizing wheel with
  | nil => simp [events]
  | cons op rest ih =>
      obtain ⟨next, step⟩ := op.simulates sound legal.1
      have later := ih step.sound (legal.2 next step.run) (Nat.lt_of_lt_of_le old step.fresh)
        fun other member => spares other (by simp [member])
      simp only [events, step.run, List.forall_mem_append]
      exact ⟨event_spares (spares op (by simp)) old, later⟩

theorem gone_spared (ops : List Op) {wheel : TimeWheel T} (sound : wheel.Sound)
    (legal : LegalRun wheel ops) {timer : Nat} (old : timer < wheel.fresh)
    (gone : wheel.remaining timer = none) : ∀ op ∈ ops, op.Spares timer := by
  induction ops generalizing wheel with
  | nil => simp
  | cons op rest ih =>
      obtain ⟨next, step⟩ := op.simulates sound legal.1
      have dead : wheel.dataOf timer = none := by simpa [remaining] using gone
      have here : op.Spares timer := by
        have allowed := legal.1
        cases op with
        | add => trivial
        | del other =>
            rintro rfl
            simp [Op.Legal, dead] at allowed
        | adjust other =>
            rintro rfl
            simp [Op.Legal, dead] at allowed
        | tick => trivial
      have still : next.1.remaining timer = none := by
        rw [step.remaining]
        have spared := event_spares here old
        cases event : op.event wheel with
        | none => exact gone
        | some event' =>
            by_cases tick : event' = .tick
            · simp [follow, tick, Countdown.step, gone]
            · rw [follow, Countdown.step_spared (spared event' (by simp [event])) tick, gone]
      rw [List.forall_mem_cons]
      exact ⟨here, ih step.sound (legal.2 next step.run) (Nat.lt_of_lt_of_le old step.fresh) still⟩

theorem legalRun_append (early late : List Op) {wheel middle : TimeWheel T}
    (reached : runOps wheel early = some middle) (legal : LegalRun wheel (early ++ late)) :
    LegalRun wheel early ∧ LegalRun middle late := by
  induction early generalizing wheel with
  | nil =>
      obtain rfl : wheel = middle := by simpa [runOps] using reached
      exact ⟨trivial, legal⟩
  | cons op rest ih =>
      simp only [runOps, Option.bind_eq_some_iff] at reached
      obtain ⟨next, step, reached⟩ := reached
      obtain ⟨here, there⟩ := ih reached (legal.2 next step)
      refine ⟨⟨legal.1, fun other step' => ?_⟩, there⟩
      rw [step, Option.some.injEq] at step'
      exact step' ▸ here

theorem legalRun_early (early late : List Op) {wheel : TimeWheel T}
    (legal : LegalRun wheel (early ++ late)) : LegalRun wheel early := by
  induction early generalizing wheel with
  | nil => trivial
  | cons op rest ih => exact ⟨legal.1, fun result step => ih (legal.2 result step)⟩

theorem events_append (early late : List Op) {wheel middle : TimeWheel T}
    (reached : runOps wheel early = some middle) :
    events wheel (early ++ late) = events wheel early ++ events middle late := by
  induction early generalizing wheel with
  | nil =>
      obtain rfl : wheel = middle := by simpa [runOps] using reached
      rfl
  | cons op rest ih =>
      simp only [runOps, Option.bind_eq_some_iff] at reached
      obtain ⟨next, step, reached⟩ := reached
      simp only [List.cons_append, events, step, ih reached, List.append_assoc]

theorem legalRun_ticks (count : Nat) (wheel : TimeWheel T) :
    LegalRun wheel (List.replicate count .tick) := by
  induction count generalizing wheel with
  | zero => trivial
  | succ count ih => exact ⟨trivial, fun result _ => ih result.1⟩

theorem empty_sound : (empty : TimeWheel T).Sound := by
  refine ⟨empty_valid, ?_⟩
  intro timer data live
  simp [dataOf, empty] at live

/-! One timer. -/

def Reaches (wheel : TimeWheel T) (timer : Nat) : Prop :=
  (∃ slot, slot < wheelSlots ∧ wheel.slots slot = some timer) ∨
    ∃ other node, wheel.heap other = some node ∧ (node.prev = some timer ∨ node.next = some timer)

theorem Valid.unreached {wheel : TimeWheel T} (valid : wheel.Valid) {timer : Nat}
    (gone : wheel.dataOf timer = none) : ¬wheel.Reaches timer := by
  obtain ⟨content, holds⟩ := valid
  have absent (slot : Nat) (bound : slot < wheelSlots) : timer ∉ content slot :=
    holds.absent bound gone
  rintro (⟨slot, bound, head⟩ | ⟨other, node, live, points⟩)
  · rw [(holds.linked slot bound).first] at head
    exact absent slot bound (List.mem_of_mem_head? head)
  · have live' : wheel.dataOf other = some node.data := by simp [dataOf, live]
    obtain ⟨bound, before, after, split⟩ := holds.split live'
    obtain ⟨data, cell⟩ := (holds.linked _ bound).cell before other after split
    rw [live, Option.some.injEq] at cell
    rw [cell] at points
    rcases points with last | first
    · exact absent _ bound (by simp [split, List.mem_of_getLast? last])
    · exact absent _ bound (by simp [split, List.mem_of_mem_head? first])

theorem callbacks_spared {wheel : TimeWheel T} (sound : wheel.Sound) {timer left : Nat}
    (running : wheel.remaining timer = some left) (old : timer < wheel.fresh) (ops : List Op)
    (legal : LegalRun wheel ops) (spares : ∀ op ∈ ops, op.Spares timer) :
    ∃ result, RunSimulates wheel ops result ∧
      callbacks timer 0 wheel ops = (if tickCount ops ≤ left then [] else [left + 1]) ∧
      result.remaining timer = (if tickCount ops ≤ left then some (left - tickCount ops) else none) := by
  obtain ⟨result, simulates⟩ := run_simulates ops sound legal
  have fires := Countdown.firings_running timer 0 left wheel.remaining (events wheel ops) running
    (events_spare ops sound legal old spares)
  rw [simulates.ticks] at fires
  refine ⟨result, simulates, ?_, ?_⟩
  · rw [simulates.callbacks, fires.1, Nat.zero_add]
  · rw [simulates.remaining, fires.2]

theorem callbacks_deleted {wheel : TimeWheel T} (sound : wheel.Sound) {timer left : Nat}
    (running : wheel.remaining timer = some left) (old : timer < wheel.fresh) (early late : List Op)
    (legal : LegalRun wheel (early ++ .del timer :: late)) (spares : ∀ op ∈ early, op.Spares timer) :
    callbacks timer 0 wheel (early ++ .del timer :: late) = [] := by
  have legalEarly := legalRun_early early _ legal
  obtain ⟨middle, reached, _, still⟩ := callbacks_spared sound running old early legalEarly spares
  obtain ⟨_, legalLate⟩ := legalRun_append early _ reached.run legal
  have inTime : tickCount early ≤ left := by
    by_contra tooLate
    rw [if_neg tooLate, remaining, Option.map_eq_none_iff] at still
    have live := legalLate.1
    simp [Op.Legal, still] at live
  obtain ⟨next, deleted⟩ := (Op.del timer).simulates reached.sound legalLate.1
  have gone : next.1.remaining timer = none := by
    rw [deleted.remaining]
    exact Function.update_self ..
  have old' : timer < next.1.fresh :=
    Nat.lt_of_lt_of_le old (Nat.le_trans reached.fresh deleted.fresh)
  have legalAfter := legalLate.2 next deleted.run
  have sparesEarly := events_spare early sound legalEarly old spares
  have sparesLate := events_spare late deleted.sound legalAfter old'
    (gone_spared late deleted.sound legalAfter old' gone)
  have whole : events wheel (early ++ .del timer :: late) =
      events wheel early ++ .drop timer :: events next.1 late := by
    rw [events_append early _ reached.run]
    simp only [events, deleted.run, Op.event, Option.toList_some, List.singleton_append]
  obtain ⟨_, simulates⟩ := run_simulates _ sound legal
  rw [simulates.callbacks, whole]
  apply Countdown.firings_dropped timer left _ _ _ running
  · rw [reached.ticks]
    exact inTime
  · exact List.forall_mem_append.mpr ⟨sparesEarly, sparesLate⟩

/-- A new timer fires once, in the tick behind its timeout, and is gone then, whatever
happens to the other timers; when it is deleted before, it never fires. -/
theorem addTimer_fires_once (ops : List Op) (legal : LegalRun (empty : TimeWheel T) ops)
    (timeout : Int) (isInt : FitsInt timeout) (notNegative : 0 ≤ timeout) :
    ∃ (wheel added : TimeWheel T) (timer : Nat), runOps empty ops = some wheel ∧
      wheel.addTimer timeout = some (added, some timer) ∧
      (∀ later, LegalRun added later → (∀ op ∈ later, op.Spares timer) →
        ∃ final, runOps added later = some final ∧
          callbacks timer 0 added later =
            (if tickCount later ≤ max 1 timeout then [] else [(max 1 timeout).toNat + 1]) ∧
          (max 1 timeout < tickCount later → final.dataOf timer = none ∧ ¬final.Reaches timer)) ∧
      ∀ early late, LegalRun added (early ++ .del timer :: late) →
        (∀ op ∈ early, op.Spares timer) →
        callbacks timer 0 added (early ++ .del timer :: late) = [] := by
  obtain ⟨wheel, reached⟩ := run_simulates ops empty_sound legal
  obtain ⟨added, made, _, _, _, _, freshSame⟩ := addTimer_spec reached.sound.valid timeout notNegative
  obtain ⟨result, step⟩ := (Op.add timeout).simulates reached.sound isInt
  obtain rfl : (added, []) = result := by
    have run := step.run
    rw [Op.run, made] at run
    exact Option.some.inj run
  have ticks := ticksOf_eq notNegative
  have running : added.remaining wheel.fresh = some (ticksOf timeout) := by
    have notBelow : ¬timeout < 0 := by omega
    rw [step.remaining]
    simp only [Op.event, notBelow, if_false, follow]
    exact Function.update_self ..
  have old : wheel.fresh < added.fresh := by omega
  refine ⟨wheel, added, wheel.fresh, reached.run, made, ?_, ?_⟩
  · intro later legalLater spares
    obtain ⟨final, run, calls, left⟩ :=
      callbacks_spared step.sound running old later legalLater spares
    refine ⟨final, run.run, ?_, ?_⟩
    · have value : (max 1 timeout).toNat = ticksOf timeout := by omega
      have same : (tickCount later : Int) ≤ max 1 timeout ↔ tickCount later ≤ ticksOf timeout := by
        omega
      rw [calls, value]
      simp only [same]
    · intro behind
      rw [if_neg (by omega), remaining, Option.map_eq_none_iff] at left
      exact ⟨left, run.sound.valid.unreached left⟩
  · intro early late legalLater spares
    exact callbacks_deleted step.sound running old early late legalLater spares

theorem addTimer_fires_once_second :
    ∃ (wheel added : TimeWheel Unit) (timer : Nat),
      runOps empty [.add 61, .tick] = some wheel ∧ wheel.addTimer 60 = some (added, some timer) ∧
        (∃ final, runOps added (List.replicate 61 .tick) = some final ∧
          callbacks timer 0 added (List.replicate 61 .tick) = [61] ∧ final.dataOf timer = none) ∧
        callbacks timer 0 added [.tick, .del timer, .tick] = [] := by
  have legal : LegalRun (empty : TimeWheel Unit) [.add 61, .tick] :=
    ⟨(by decide : FitsInt 61), fun _ _ => ⟨trivial, fun _ _ => trivial⟩⟩
  obtain ⟨wheel, added, timer, reached, made, fires, silent⟩ :=
    addTimer_fires_once [.add 61, .tick] legal 60 (by decide) (by decide)
  refine ⟨wheel, added, timer, reached, made, ?_, ?_⟩
  · have spares : ∀ op ∈ List.replicate 61 Op.tick, op.Spares timer := by
      intro op member
      rw [List.eq_of_mem_replicate member]
      trivial
    obtain ⟨final, run, calls, gone⟩ :=
      fires (List.replicate 61 .tick) (legalRun_ticks 61 added) spares
    exact ⟨final, run, calls, (gone (by decide)).1⟩
  · have legalLater : LegalRun added [.tick, .del timer, .tick] := by
      refine ⟨trivial, fun next ticked => ⟨?_, fun _ _ => ⟨trivial, fun _ _ => trivial⟩⟩⟩
      cases reached
      cases made
      cases ticked
      rfl
    exact silent [.tick] [.tick] legalLater (by simp [Op.Spares])

end StudyRecord.Timer.TimeWheel
