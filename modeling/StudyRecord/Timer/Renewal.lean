import StudyRecord.Timer.Firing

/-!
Renewing a timer. `adjust_timer` moves a timer on from the slot it is in, and
adds no turn of the wheel when that passes the position of the wheel.
-/

namespace StudyRecord.Timer.TimeWheel

open Machine

variable {T : Type}

/-- A renewed timer is not called in as many ticks as its timeout has, and every
other timer is called when it would have been. -/
def RenewedInTime (wheel adjusted : TimeWheel T) (timer : Nat) (timeout : Int) : Prop :=
  (∀ later, LegalRun adjusted later → (∀ op ∈ later, op.Spares timer) →
      tickCount later ≤ max 1 timeout → callbacks timer 0 adjusted later = []) ∧
    ∀ other, (wheel.dataOf other).isSome → other ≠ timer →
      ∀ later, LegalRun wheel later → LegalRun adjusted later → (∀ op ∈ later, op.Spares other) →
        callbacks other 0 adjusted later = callbacks other 0 wheel later

/-- The sum of the rotations is an `int`, no earlier sum has made the rotation
negative, and the new slot is not behind the position of the wheel, unless there is
a turn left. -/
def Carries (cur : Nat) (data : TwTimer T) (timeout : Int) : Prop :=
  data.rotation + (ticksOf timeout / wheelSlots : Nat) ≤ intMax ∧
    (0 ≤ data.rotation ∨ ticksOf timeout < wheelSlots) ∧
    ((data.timeSlot + wheelSlots - cur) % wheelSlots + ticksOf timeout % wheelSlots < wheelSlots ∨
      1 ≤ data.rotation)

theorem ticksLeft_renewed_iff {cur : Nat} {data : TwTimer T} {timeout : Int}
    (bound : cur < wheelSlots) (slot : data.timeSlot < wheelSlots) (fits : FitsInt data.rotation)
    (isInt : FitsInt timeout) (notNegative : 0 ≤ timeout) :
    ticksOf timeout ≤ ticksLeft cur (renewed data timeout) ↔ Carries cur data timeout := by
  have ticks := ticksOf_eq notNegative
  have quotient : (ticksOf timeout / wheelSlots : Nat) ≤ intMax / 60 := by
    simp only [FitsInt, intMin, intMax, wheelSlots] at isInt ⊢
    omega
  simp only [ticksLeft, renewed, Carries]
  by_cases noOverflow : data.rotation + (ticksOf timeout / wheelSlots : Nat) ≤ intMax
  · have sum : FitsInt (data.rotation + (ticksOf timeout / wheelSlots : Nat)) := by
      simp only [FitsInt, intMin, intMax, wheelSlots] at fits noOverflow ⊢
      omega
    rw [toInt_of_fits sum]
    simp only [wheelSlots, intMax] at *
    omega
  · -- the sum wraps round to a negative rotation, which counts for none
    have negative : toInt (data.rotation + (ticksOf timeout / wheelSlots : Nat)) < 0 := by
      simp only [toInt, Int.bmod_def, FitsInt, intMax, intMin] at *
      omega
    simp only [FitsInt, wheelSlots, intMax, intMin] at *
    omega

theorem tickCount_ticks (count : Nat) : tickCount (List.replicate count .tick) = count := by
  simp [tickCount]

theorem Valid.allocated {wheel : TimeWheel T} (valid : wheel.Valid) {timer : Nat}
    {data : TwTimer T} (live : wheel.dataOf timer = some data) : timer < wheel.fresh := by
  obtain ⟨content, holds⟩ := valid
  exact holds.allocated timer data live

theorem silent_iff {wheel : TimeWheel T} (sound : wheel.Sound) {timer left : Nat}
    (running : wheel.remaining timer = some left) (old : timer < wheel.fresh) (count : Int) :
    (∀ later, LegalRun wheel later → (∀ op ∈ later, op.Spares timer) → tickCount later ≤ count →
        callbacks timer 0 wheel later = []) ↔ count ≤ left := by
  constructor
  · intro silent
    -- with nothing but ticks, the timer is called in the tick behind its last one
    by_contra early
    let later : List Op := List.replicate (left + 1) .tick
    have ticks : tickCount later = left + 1 := tickCount_ticks _
    have legal : LegalRun wheel later := legalRun_ticks _ _
    have spares : ∀ op ∈ later, op.Spares timer := by
      intro op member
      rw [List.eq_of_mem_replicate member]
      trivial
    obtain ⟨_, _, calls, _⟩ := callbacks_spared sound running old later legal spares
    rw [silent later legal spares (by omega), if_neg (by omega)] at calls
    simp at calls
  · intro enough later legal spares few
    obtain ⟨_, _, calls, _⟩ := callbacks_spared sound running old later legal spares
    rw [calls, if_pos (by omega)]

/-- In every state that calls of the wheel lead to, renewing a timer keeps its promise
exactly when the turn of the wheel is carried. -/
theorem adjustTimer_inTime_iff (ops : List Op) (legal : LegalRun (empty : TimeWheel T) ops)
    (wheel : TimeWheel T) (reached : runOps empty ops = some wheel) (timer : Nat)
    (data : TwTimer T) (live : wheel.dataOf timer = some data) (timeout : Int)
    (isInt : FitsInt timeout) (notNegative : 0 ≤ timeout) :
    ∃ adjusted, wheel.adjustTimer timer timeout = some adjusted ∧
      (RenewedInTime wheel adjusted timer timeout ↔ Carries wheel.curSlot data timeout) := by
  obtain ⟨wheel', simulates⟩ := run_simulates ops empty_sound legal
  obtain rfl : wheel = wheel' := by
    have run := simulates.run
    rw [reached] at run
    exact Option.some.inj run
  have sound := simulates.sound
  obtain ⟨bound, slots⟩ := sound.valid.bounds
  obtain ⟨adjusted, made, valid, payload, cur, freshSame⟩ :=
    adjustTimer_spec sound.valid live timeout notNegative
  obtain ⟨result, step⟩ :=
    (Op.adjust timer timeout).simulates sound ⟨by simp [live], isInt⟩
  obtain rfl : (adjusted, []) = result := by
    have run := step.run
    rw [Op.run, made] at run
    exact Option.some.inj run
  have left := remaining_update payload cur
  have running : adjusted.remaining timer =
      some (ticksLeft wheel.curSlot (renewed data timeout)) := by
    rw [left, Function.update_self]
    rfl
  have old : timer < adjusted.fresh := freshSame ▸ sound.valid.allocated live
  have ticks := ticksOf_eq notNegative
  have carries := ticksLeft_renewed_iff bound (slots timer data live)
    (sound.rotation timer data live) isInt notNegative
  refine ⟨adjusted, made, ?_⟩
  rw [← carries]
  rw [RenewedInTime, silent_iff step.sound running old (max 1 timeout)]
  constructor
  · rintro ⟨enough, _⟩
    omega
  · intro enough
    refine ⟨by omega, ?_⟩
    intro other liveOther different later legalBefore legalAfter spares
    obtain ⟨dataOther, liveOther⟩ := Option.isSome_iff_exists.mp liveOther
    have runningBefore : wheel.remaining other = some (ticksLeft wheel.curSlot dataOther) := by
      rw [remaining, liveOther, Option.map_some]
    have runningAfter : adjusted.remaining other = some (ticksLeft wheel.curSlot dataOther) := by
      rw [left, Function.update_of_ne different, runningBefore]
    have oldOther := sound.valid.allocated liveOther
    obtain ⟨_, _, callsBefore, _⟩ :=
      callbacks_spared sound runningBefore oldOther later legalBefore spares
    obtain ⟨_, _, callsAfter, _⟩ :=
      callbacks_spared step.sound runningAfter (freshSame ▸ oldOther) later legalAfter spares
    rw [callsBefore, callsAfter]

theorem adjustTimer_inTime_iff_second :
    ∃ (wheel adjusted : TimeWheel Unit) (data : TwTimer Unit),
      runOps empty [.add 3, .adjust 0 3] = some wheel ∧ wheel.dataOf 0 = some data ∧
        wheel.adjustTimer 0 3 = some adjusted ∧
        (RenewedInTime wheel adjusted 0 3 ↔ Carries wheel.curSlot data 3) := by
  let ops : List Op := [.add 3, .adjust 0 3]
  have legal : LegalRun (empty : TimeWheel Unit) ops := by
    refine ⟨(by decide : FitsInt 3), ?_⟩
    rintro _ ⟨⟩
    refine ⟨⟨rfl, (by decide : FitsInt 3)⟩, ?_⟩
    rintro _ ⟨⟩
    trivial
  obtain ⟨wheel, reached⟩ : ∃ wheel, runOps (empty : TimeWheel Unit) ops = some wheel := ⟨_, rfl⟩
  obtain ⟨data, live⟩ : ∃ data, wheel.dataOf 0 = some data := by
    cases reached
    exact ⟨_, rfl⟩
  obtain ⟨adjusted, made, same⟩ :=
    adjustTimer_inTime_iff ops legal wheel reached 0 data live 3 (by decide) (by decide)
  exact ⟨wheel, adjusted, data, reached, live, made, same⟩

/-- Nineteen renewals in one turn of the wheel bring a timer back to the position of the
wheel, and the next tick fires it. -/
theorem nineteenth_renewal_early :
    ∃ wheel adjusted : TimeWheel Unit,
      runOps empty (.add 3 :: List.replicate 18 (.adjust 0 3)) = some wheel ∧
        wheel.adjustTimer 0 3 = some adjusted ∧ ¬RenewedInTime wheel adjusted 0 3 := by
  refine ⟨_, _, rfl, rfl, ?_⟩
  intro inTime
  have silent := inTime.1 [.tick] ⟨trivial, fun _ _ => trivial⟩ (by simp [Op.Spares]) (by decide)
  revert silent
  decide +kernel

end StudyRecord.Timer.TimeWheel
