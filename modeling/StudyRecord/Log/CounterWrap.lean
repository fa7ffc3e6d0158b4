import StudyRecord.Log.BlockQueue
import StudyRecord.Library.Runs

/-!
The ring indices past the largest `int`: counters that wrap in two's complement, and the
remainder of C, which has the sign of its dividend.
-/

namespace StudyRecord.BlockQueue

open Machine Runs Threads

def wrap (counter : Int) : Int := toInt (counter + 1)

def index (maxSize counter : Int) : Int := counter.tmod maxSize

inductive Op
  | insert
  | remove
  deriving DecidableEq

structure Counters where
  maxSize : Int
  front : Int
  rear : Int
  slots : Nat
  items : Nat

namespace Counters

def init (size : Int) : Counters where
  maxSize := size
  front := 0
  rear := 0
  slots := size.toNat
  items := 0

def step (counters : Counters) : Op → Except Stuck Counters
  | .insert =>
      match semWait counters.slots with
      | .error stuck => .error stuck
      | .ok slots =>
          .ok { counters with slots, rear := wrap counters.rear, items := semPost counters.items }
  | .remove =>
      match semWait counters.items with
      | .error stuck => .error stuck
      | .ok items =>
          .ok { counters with items, front := wrap counters.front, slots := semPost counters.slots }

end Counters

/-- The next use of a counter is inside the array, one slot after the last one. -/
def Advances (maxSize counter : Int) : Prop :=
  0 ≤ index maxSize (wrap counter) ∧ index maxSize (wrap counter) < maxSize ∧
    index maxSize (wrap counter) = (index maxSize counter + 1) % maxSize

def Cyclic (counters : Counters) : Op → Prop
  | .insert => Advances counters.maxSize counters.rear
  | .remove => Advances counters.maxSize counters.front

/-- How many uses of one counter stay in the ring. -/
def usesInRing (maxSize : Int) : Nat := if maxSize ∣ 2 ^ 31 then 2 ^ 31 else 2 ^ 31 - 1

theorem increment_wraps {counter next : Int} (fits : FitsInt counter)
    (moved : increment counter = .ok next) : next = wrap counter := by
  simp only [increment] at moved
  split at moved
  · rename_i below
    obtain rfl := Except.ok.inj moved
    refine (toInt_of_fits ?_).symm
    simp only [FitsInt, intMin, intMax] at fits below ⊢
    omega
  · contradiction

theorem wrap_toInt (count : Int) : wrap (toInt count) = toInt (count + 1) := by
  have same : toInt count % 2 ^ 32 = count % 2 ^ 32 :=
    (toInt_eq_iff _ _).mp (toInt_of_fits (toInt_fits count))
  rw [wrap, toInt_eq_iff]
  omega

theorem toInt_of_early {count : Int} (lower : 0 ≤ count) (upper : count < 2 ^ 31) :
    toInt count = count := by
  refine toInt_of_fits ?_
  simp only [FitsInt, intMin, intMax]
  omega

theorem toInt_of_late {count : Int} (lower : 2 ^ 31 ≤ count) (upper : count < 2 ^ 32) :
    toInt count = count - 2 ^ 32 := by
  have fits : FitsInt (count - 2 ^ 32) := by
    simp only [FitsInt, intMin, intMax]
    omega
  rw [← toInt_of_fits fits, toInt_eq_iff]
  omega

theorem advances_early {maxSize count : Int} (positive : 0 < maxSize) (lower : 0 ≤ count)
    (upper : count + 1 < 2 ^ 31) : Advances maxSize (toInt count) := by
  rw [Advances, wrap_toInt, toInt_of_early lower (by omega), toInt_of_early (by omega) upper]
  simp only [index]
  rw [Int.tmod_eq_emod_of_nonneg lower, Int.tmod_eq_emod_of_nonneg (show 0 ≤ count + 1 by omega)]
  refine ⟨Int.emod_nonneg _ (by omega), Int.emod_lt_of_pos _ positive, ?_⟩
  rw [Int.emod_add_emod]

theorem advances_last {maxSize : Int} (positive : 0 < maxSize) (divides : maxSize ∣ 2 ^ 31) :
    Advances maxSize (toInt (2 ^ 31 - 1)) := by
  have zero : index maxSize (-2 ^ 31) = 0 := Int.tmod_eq_zero_of_dvd (Int.dvd_neg.mpr divides)
  have early : toInt (2 ^ 31 - 1) = 2 ^ 31 - 1 := toInt_of_early (by decide) (by decide)
  have late : toInt (2 ^ 31 - 1 + 1) = -2 ^ 31 := toInt_of_late (by decide) (by decide)
  rw [Advances, wrap_toInt, late, early, zero]
  refine ⟨Int.le_refl _, positive, ?_⟩
  rw [index, Int.tmod_eq_emod_of_nonneg (by decide), Int.emod_add_emod]
  exact (Int.emod_eq_zero_of_dvd divides).symm

theorem index_neg {maxSize count : Int} (positive : 0 < maxSize) (lower : 0 ≤ count)
    (off : ¬maxSize ∣ count) : index maxSize (-count) < 0 := by
  have above : 0 < count % maxSize := by
    have nonneg := Int.emod_nonneg count (show maxSize ≠ 0 by omega)
    have nonzero : count % maxSize ≠ 0 := mt Int.dvd_of_emod_eq_zero off
    omega
  rw [index, Int.neg_tmod, Int.tmod_eq_emod_of_nonneg lower]
  omega

theorem not_advances {maxSize : Int} (ring : 1 < maxSize) :
    ¬Advances maxSize (toInt (usesInRing maxSize)) := by
  rintro ⟨inside, _⟩
  rw [wrap_toInt, usesInRing] at inside
  split at inside
  · rename_i divides
    have late : toInt (((2 ^ 31 : Nat) : Int) + 1) = -(2 ^ 31 - 1) := toInt_of_late (by decide) (by decide)
    have off : ¬maxSize ∣ 2 ^ 31 - 1 := by
      intro other
      have one : maxSize ∣ 1 := by
        have difference := Int.dvd_sub divides other
        rwa [show (2 : Int) ^ 31 - (2 ^ 31 - 1) = 1 by decide] at difference
      have := Int.le_of_dvd (by decide) one
      omega
    rw [late] at inside
    have negative := index_neg (by omega) (by decide) off
    omega
  · rename_i off
    have late : toInt (((2 ^ 31 - 1 : Nat) : Int) + 1) = -2 ^ 31 := toInt_of_late (by decide) (by decide)
    rw [late] at inside
    have negative := index_neg (by omega) (by decide) off
    omega

theorem advances_iff {maxSize : Int} (positive : 1 ≤ maxSize) (uses : Nat) :
    (∀ use : Nat, use < uses → Advances maxSize (toInt use)) ↔
      maxSize = 1 ∨ uses ≤ usesInRing maxSize := by
  constructor
  · intro all
    by_cases single : maxSize = 1
    · exact .inl single
    · refine .inr (Nat.le_of_not_lt fun beyond => ?_)
      exact not_advances (by omega) (all _ beyond)
  · rintro (rfl | bounded) use inside
    · have zero (counter : Int) : index 1 counter = 0 := Int.tmod_one counter
      simp [Advances, zero]
    · rw [usesInRing] at bounded
      by_cases last : use = 2 ^ 31 - 1
      · subst last
        split at bounded
        · rename_i divides
          exact advances_last (by omega) divides
        · omega
      · have early : use + 1 < 2 ^ 31 := by
          split at bounded <;> omega
        exact advances_early (by omega) (by omega) (by omega)

theorem step_insert {counters next : Counters} (taken : counters.step .insert = .ok next) :
    next.maxSize = counters.maxSize ∧ next.rear = wrap counters.rear ∧
      next.front = counters.front := by
  simp only [Counters.step] at taken
  split at taken
  · contradiction
  · obtain rfl := Except.ok.inj taken
    exact ⟨rfl, rfl, rfl⟩

theorem step_remove {counters next : Counters} (taken : counters.step .remove = .ok next) :
    next.maxSize = counters.maxSize ∧ next.front = wrap counters.front ∧
      next.rear = counters.rear := by
  simp only [Counters.step] at taken
  split at taken
  · contradiction
  · obtain rfl := Except.ok.inj taken
    exact ⟨rfl, rfl, rfl⟩

theorem forall_from_succ (good : Nat → Prop) (from' count : Nat) :
    (∀ use, from' ≤ use → use < from' + (count + 1) → good use) ↔
      good from' ∧ ∀ use, from' + 1 ≤ use → use < from' + 1 + count → good use := by
  constructor
  · intro all
    exact ⟨all from' (by omega) (by omega), fun use lower upper => all use (by omega) (by omega)⟩
  · rintro ⟨here, later⟩ use lower upper
    by_cases first : use = from'
    · rwa [first]
    · exact later use (by omega) (by omega)

theorem cyclic_iff (ops : List Op) (counters final : Counters) (inserted removed : Nat)
    (rear : counters.rear = toInt inserted) (front : counters.front = toInt removed)
    (reached : run Counters.step counters ops = .ok final) :
    Along Counters.step Cyclic counters ops ↔
      (∀ use : Nat, inserted ≤ use → use < inserted + ops.count .insert →
        Advances counters.maxSize (toInt use)) ∧
      (∀ use : Nat, removed ≤ use → use < removed + ops.count .remove →
        Advances counters.maxSize (toInt use)) := by
  induction ops generalizing counters inserted removed with
  | nil =>
      refine iff_of_true trivial ⟨fun use lower upper => ?_, fun use lower upper => ?_⟩ <;>
        · rw [List.count_nil] at upper
          omega
  | cons op rest ih =>
      simp only [run] at reached
      cases taken : counters.step op with
      | error stuck =>
          rw [taken] at reached
          contradiction
      | ok next =>
          rw [taken] at reached
          rw [along_cons_of_ok taken]
          cases op with
          | insert =>
              obtain ⟨size, rear', front'⟩ := step_insert taken
              have later := ih next (inserted + 1) removed (by rw [rear', rear, wrap_toInt]; rfl)
                (front'.trans front) reached
              rw [later, size, List.count_cons_self, List.count_cons_of_ne (by decide),
                forall_from_succ fun use => Advances counters.maxSize (toInt use), Cyclic, rear,
                and_assoc]
          | remove =>
              obtain ⟨size, front', rear'⟩ := step_remove taken
              have later := ih next inserted (removed + 1) (rear'.trans rear)
                (by rw [front', front, wrap_toInt]; rfl) reached
              rw [later, size, List.count_cons_self, List.count_cons_of_ne (by decide),
                forall_from_succ fun use => Advances counters.maxSize (toInt use), Cyclic, front,
                and_left_comm]

/-- The indices stay in the ring and go around it slot by slot exactly as long as neither
counter has been used more often than there are counts up to the largest `int`, and once
more where the size of the ring divides the next one; a ring of one cell never leaves it. -/
theorem indices_cyclic_iff (size : Int) (positive : 1 ≤ size) (ops : List Op) (final : Counters)
    (reached : run Counters.step (.init size) ops = .ok final) :
    Along Counters.step Cyclic (.init size) ops ↔
      size = 1 ∨ ops.count .insert ≤ usesInRing size ∧ ops.count .remove ≤ usesInRing size := by
  have uses (count : Nat) :
      (∀ use : Nat, 0 ≤ use → use < 0 + count → Advances size (toInt use)) ↔
        size = 1 ∨ count ≤ usesInRing size := by
    simpa using advances_iff positive count
  rw [cyclic_iff ops (.init size) final 0 0 rfl rfl reached]
  exact (and_congr (uses _) (uses _)).trans or_and_left.symm

theorem indices_cyclic_iff_two :
    ∃ final, run Counters.step (.init 2) [.insert, .insert, .remove] = .ok final ∧
      (Along Counters.step Cyclic (.init 2) [.insert, .insert, .remove] ↔
        (2 : Int) = 1 ∨ [Op.insert, .insert, .remove].count .insert ≤ usesInRing 2 ∧
          [Op.insert, .insert, .remove].count .remove ≤ usesInRing 2) :=
  ⟨_, rfl, indices_cyclic_iff 2 (by decide) _ _ rfl⟩

def oneByOne : Nat → List Op
  | 0 => []
  | count + 1 => .insert :: .remove :: oneByOne count

theorem oneByOne_count (count : Nat) : (oneByOne count).count .insert = count := by
  induction count with
  | zero => rfl
  | succ count ih =>
      rw [oneByOne, List.count_cons_self, List.count_cons_of_ne (by decide), ih]

theorem oneByOne_runs (count : Nat) (counters : Counters) (slots : counters.slots = 3)
    (items : counters.items = 0) :
    ∃ final, run Counters.step counters (oneByOne count) = .ok final := by
  induction count generalizing counters with
  | zero => exact ⟨counters, rfl⟩
  | succ count ih =>
      have inserted : counters.step .insert =
          .ok { counters with slots := 2, rear := wrap counters.rear, items := 1 } := by
        simp only [Counters.step, slots, items, semWait]
        rfl
      rw [oneByOne, run_cons_of_ok inserted]
      exact ih _ rfl rfl

/-- 2147483648 values in a ring of three cells: the last one goes to index -2. -/
theorem counter_leaves_ring :
    ∃ final, run Counters.step (.init 3) (oneByOne (2 ^ 31)) = .ok final ∧
      ¬Along Counters.step Cyclic (.init 3) (oneByOne (2 ^ 31)) := by
  obtain ⟨final, reached⟩ := oneByOne_runs (2 ^ 31) (.init 3) rfl rfl
  refine ⟨final, reached, fun cyclic => ?_⟩
  have last := ((cyclic_iff _ (.init 3) final 0 0 rfl rfl reached).mp cyclic).1 (usesInRing 3)
  rw [oneByOne_count] at last
  exact not_advances (by decide) (last (Nat.zero_le _) (by decide))

end StudyRecord.BlockQueue
