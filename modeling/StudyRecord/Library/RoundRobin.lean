import Mathlib.Data.Int.CardIntervalMod
import Mathlib.Data.Nat.Count

/-!
A scan around a circle of which only some places are alive. Each turn starts one position
further on and takes the first living place at or after its start; positions are not
reduced modulo the size, places are.
-/

namespace StudyRecord.RoundRobin

structure TurnCircle where
  size : Nat
  alive : Nat → Bool
  left : ∃ place < size, alive place = true

namespace TurnCircle

variable (circle : TurnCircle)

def Live (position : Nat) : Prop := circle.alive (position % circle.size) = true

instance (position : Nat) : Decidable (circle.Live position) :=
  inferInstanceAs (Decidable (_ = true))

theorem size_pos : 0 < circle.size := by
  obtain ⟨place, inside, _⟩ := circle.left
  omega

theorem live_add (position : Nat) :
    circle.Live (position + circle.size) ↔ circle.Live position := by
  simp only [Live, Nat.add_mod_right]

theorem live_ahead (position : Nat) : ∃ ahead, position ≤ ahead ∧ circle.Live ahead := by
  obtain ⟨place, inside, alive⟩ := circle.left
  refine ⟨circle.size * position + place, ?_, ?_⟩
  · have := Nat.le_mul_of_pos_left position circle.size_pos
    omega
  · rwa [Live, Nat.mul_add_mod, Nat.mod_eq_of_lt inside]

def next (position : Nat) : Nat := Nat.find (circle.live_ahead position)

def chosen (position : Nat) : Nat := circle.next position % circle.size

def taken (place position turns : Nat) : Nat :=
  Nat.count (fun turn => circle.chosen (position + turn) = place) turns

variable {circle}

theorem le_next (circle : TurnCircle) (position : Nat) : position ≤ circle.next position :=
  (Nat.find_spec (circle.live_ahead position)).1

theorem next_live (circle : TurnCircle) (position : Nat) : circle.Live (circle.next position) :=
  (Nat.find_spec (circle.live_ahead position)).2

theorem next_le {position live : Nat} (behind : position ≤ live) (here : circle.Live live) :
    circle.next position ≤ live :=
  Nat.find_min' (circle.live_ahead position) ⟨behind, here⟩

theorem next_of_live {position : Nat} (here : circle.Live position) :
    circle.next position = position :=
  Nat.le_antisymm (next_le (Nat.le_refl _) here) (circle.le_next position)

theorem next_within {position between : Nat} (behind : position ≤ between)
    (before : between ≤ circle.next position) : circle.next between = circle.next position := by
  refine Nat.le_antisymm (next_le before (circle.next_live position)) ?_
  exact next_le (behind.trans (circle.le_next between)) (circle.next_live between)

theorem next_add (circle : TurnCircle) (position : Nat) :
    circle.next (position + circle.size) = circle.next position + circle.size := by
  refine Nat.le_antisymm ?_ ?_
  · have behind := circle.le_next position
    exact next_le (by omega) ((circle.live_add _).mpr (circle.next_live position))
  · have behind := circle.le_next (position + circle.size)
    have around : circle.next (position + circle.size) - circle.size + circle.size =
        circle.next (position + circle.size) := by
      omega
    have live : circle.Live (circle.next (position + circle.size) - circle.size) := by
      rw [← circle.live_add, around]
      exact circle.next_live _
    have := next_le (show position ≤ _ by omega) live
    omega

theorem chosen_add (circle : TurnCircle) (position : Nat) :
    circle.chosen (position + circle.size) = circle.chosen position := by
  simp only [chosen, next_add, Nat.add_mod_right]

theorem chosen_mod (circle : TurnCircle) (position : Nat) :
    circle.chosen (position % circle.size) = circle.chosen position := by
  have onward (rounds : Nat) : circle.chosen (position % circle.size + circle.size * rounds) =
      circle.chosen (position % circle.size) := by
    induction rounds with
    | zero => rfl
    | succ rounds ih => rw [Nat.mul_succ, ← Nat.add_assoc, chosen_add, ih]
  have here := onward (position / circle.size)
  rw [Nat.mod_add_div] at here
  exact here.symm

theorem mod_ne_of_near {size first second : Nat} (before : first < second)
    (near : second < first + size) : first % size ≠ second % size := by
  intro same
  have divides : size ∣ second - first := (Nat.modEq_iff_dvd' (by omega)).mp same
  have atLeast := Nat.le_of_dvd (by omega) divides
  omega

theorem taken_succ (circle : TurnCircle) (place position turns : Nat) :
    circle.taken place position (turns + 1) =
      (if circle.chosen position = place then 1 else 0) +
        circle.taken place (position + 1) turns := by
  simp only [taken, Nat.count_succ']
  rw [Nat.add_comm]
  congr 2
  funext turn
  rw [Nat.add_assoc, Nat.add_comm 1]

theorem taken_append (circle : TurnCircle) (place position first second : Nat) :
    circle.taken place position (first + second) =
      circle.taken place position first + circle.taken place (position + first) second := by
  simp only [taken, Nat.count_add, Nat.add_assoc]

theorem taken_mod (circle : TurnCircle) (place position turns : Nat) :
    circle.taken place (position % circle.size) turns = circle.taken place position turns := by
  have same (turn : Nat) :
      circle.chosen (position % circle.size + turn) = circle.chosen (position + turn) := by
    rw [← chosen_mod, Nat.mod_add_mod, chosen_mod]
  simp only [taken, same]

theorem taken_block (circle : TurnCircle) {position turns : Nat} (place : Nat)
    (upTo : position + turns = circle.next position + 1) :
    circle.taken place position turns =
      if circle.next position % circle.size = place then turns else 0 := by
  have same (turn : Nat) (inside : turn < turns) :
      circle.chosen (position + turn) = circle.next position % circle.size := by
    rw [chosen, next_within (Nat.le_add_right ..) (by omega)]
  split
  · rename_i here
    exact Nat.count_of_forall fun turn inside => (same turn inside).trans here
  · rename_i other
    exact Nat.count_of_forall_not fun turn inside here => other ((same turn inside).symm.trans here)

theorem taken_round (circle : TurnCircle) (place position : Nat) :
    circle.taken place position circle.size = circle.taken place 0 circle.size := by
  induction position with
  | zero => rfl
  | succ position ih =>
      rw [← ih]
      have forward := circle.taken_succ place position circle.size
      have backward := circle.taken_append place position circle.size 1
      have last : circle.taken place (position + circle.size) 1 =
          if circle.chosen position = place then 1 else 0 := by
        rw [taken_succ, chosen_add]
        rfl
      omega

/-! Balance: any two living places are taken equally often, but for one turn. -/

def Fair (circle : TurnCircle) (position : Nat) : Prop :=
  ∀ turns first second, first < circle.size → second < circle.size →
    circle.alive first = true → circle.alive second = true →
      circle.taken first position turns ≤ circle.taken second position turns + 1

structure Opposite (circle : TurnCircle) (position : Nat) : Prop where
  four : circle.size = 4
  first : circle.Live position
  gap : ¬circle.Live (position + 1)
  second : circle.Live (position + 2)
  last : ¬circle.Live (position + 3)

def Balanced (circle : TurnCircle) (position : Nat) : Prop :=
  (∀ place < circle.size, circle.alive place = true) ∨
    (∀ first < circle.size, ∀ second < circle.size, circle.alive first = true →
      circle.alive second = true → first = second) ∨
    Opposite circle position

theorem fair_of_full (full : ∀ place < circle.size, circle.alive place = true) (position : Nat) :
    Fair circle position := by
  intro turns first second inside inside' _ _
  have chosen (turn : Nat) : circle.chosen turn = turn % circle.size := by
    rw [TurnCircle.chosen, next_of_live]
    exact full _ (Nat.mod_lt _ circle.size_pos)
  have count (place : Nat) (within : place < circle.size) :
      Nat.count (· ≡ place [MOD circle.size]) position + circle.taken place position turns =
        Nat.count (· ≡ place [MOD circle.size]) (position + turns) := by
    rw [Nat.count_add, taken]
    simp only [chosen, Nat.ModEq, Nat.mod_eq_of_lt within]
  have one := count first inside
  have two := count second inside'
  rw [Nat.count_modEq_card _ circle.size_pos, Nat.count_modEq_card _ circle.size_pos] at one two
  rw [Nat.mod_eq_of_lt inside] at one
  rw [Nat.mod_eq_of_lt inside'] at two
  split at one <;> split at one <;> split at two <;> split at two <;> omega

theorem fair_of_single (single : ∀ first < circle.size, ∀ second < circle.size,
    circle.alive first = true → circle.alive second = true → first = second) (position : Nat) :
    Fair circle position := by
  intro turns first second inside inside' alive alive'
  obtain rfl := single first inside second inside' alive alive'
  exact Nat.le_succ _

theorem Opposite.next {position : Nat} (opposite : Opposite circle position) (turn : Nat) :
    circle.next (position + turn) = position + turn + turn % 2 := by
  have around (ahead : Nat) : circle.Live (position + ahead) ↔ circle.Live (position + ahead % 4) := by
    have : (position + ahead) % 4 = (position + ahead % 4) % 4 := by omega
    simp only [Live, opposite.four, this]
  have even (ahead : Nat) (here : ahead % 2 = 0) : circle.Live (position + ahead) := by
    rw [around]
    obtain residue | residue : ahead % 4 = 0 ∨ ahead % 4 = 2 := by omega
    · rw [residue]
      exact opposite.first
    · rw [residue]
      exact opposite.second
  rcases Nat.mod_two_eq_zero_or_one turn with here | here
  · rw [here]
    exact next_of_live (even turn here)
  · have dead : ¬circle.Live (position + turn) := by
      rw [around]
      obtain residue | residue : turn % 4 = 1 ∨ turn % 4 = 3 := by omega
      · rw [residue]
        exact opposite.gap
      · rw [residue]
        exact opposite.last
    rw [here]
    refine Nat.le_antisymm (next_le (Nat.le_succ _) (even (turn + 1) (by omega))) ?_
    have behind := circle.le_next (position + turn)
    have live := circle.next_live (position + turn)
    have different : circle.next (position + turn) ≠ position + turn := fun same =>
      dead (same ▸ live)
    omega

theorem fair_of_opposite {position : Nat} (opposite : Opposite circle position) :
    Fair circle position := by
  have four := opposite.four
  have count (place phase turns : Nat) (here : place = (position + 2 * phase) % 4)
      (which : phase < 2) :
      circle.taken place position turns =
        (turns + 3 - 2 * phase) / 4 + (turns + 2 * phase) / 4 := by
    obtain rfl | rfl : phase = 0 ∨ phase = 1 := by omega
    all_goals induction turns with
    | zero => rfl
    | succ turns ih =>
        rw [taken] at ih ⊢
        rw [Nat.count_succ, ih, chosen, opposite.next, four, here]
        split <;> omega
  have which (place : Nat) (inside : place < circle.size) (alive : circle.alive place = true) :
      ∃ phase, phase < 2 ∧ place = (position + 2 * phase) % 4 := by
    obtain ⟨turn, bound, here⟩ : ∃ turn, turn < 4 ∧ place = (position + turn) % 4 :=
      ⟨(place + 3 * position) % 4, Nat.mod_lt _ (by omega), by omega⟩
    have there : circle.Live (position + turn) := by
      rw [Live, four, ← here]
      exact alive
    match turn, bound with
    | 0, _ => exact ⟨0, by omega, here⟩
    | 1, _ => exact absurd there opposite.gap
    | 2, _ => exact ⟨1, by omega, here⟩
    | 3, _ => exact absurd there opposite.last
  intro turns first second inside inside' alive alive'
  obtain ⟨phase, bound, here⟩ := which first inside alive
  obtain ⟨phase', bound', here'⟩ := which second inside' alive'
  rw [count first phase turns here bound, count second phase' turns here' bound']
  omega

theorem Fair.shares_le {position : Nat} (fair : Fair circle position) {first second : Nat}
    (inside : first < circle.size) (inside' : second < circle.size)
    (alive : circle.alive first = true) (alive' : circle.alive second = true) :
    circle.taken first 0 circle.size ≤ circle.taken second 0 circle.size := by
  have twice (place : Nat) : circle.taken place position (circle.size + circle.size) =
      circle.taken place 0 circle.size + circle.taken place 0 circle.size := by
    rw [taken_append, taken_round, circle.taken_round place (position + circle.size)]
  have here := fair (circle.size + circle.size) first second inside inside' alive alive'
  rw [twice, twice] at here
  omega

theorem Fair.shares_eq {position : Nat} (fair : Fair circle position) {first second : Nat}
    (inside : first < circle.size) (inside' : second < circle.size)
    (alive : circle.alive first = true) (alive' : circle.alive second = true) :
    circle.taken first 0 circle.size = circle.taken second 0 circle.size :=
  Nat.le_antisymm (fair.shares_le inside inside' alive alive')
    (fair.shares_le inside' inside alive' alive)

theorem share_eq {before live : Nat} (here : circle.Live before)
    (next : circle.next (before + 1) = live) :
    circle.taken (live % circle.size) 0 circle.size = live - before := by
  have behind := circle.le_next (before + 1)
  have again : circle.Live (before + circle.size) := (circle.live_add before).mpr here
  have size := circle.size_pos
  have near := circle.next_le (show before + 1 ≤ before + circle.size by omega) again
  obtain ⟨gap, rfl⟩ : ∃ gap, live = before + gap := ⟨live - before, by omega⟩
  obtain ⟨rest, whole⟩ : ∃ rest, circle.size = gap + rest := ⟨circle.size - gap, by omega⟩
  have block : circle.taken ((before + gap) % circle.size) (before + 1) gap = gap := by
    rw [circle.taken_block _ (by omega), next, if_pos rfl]
  have others : circle.taken ((before + gap) % circle.size) (before + 1 + gap) rest = 0 := by
    refine Nat.count_of_forall_not fun turn inside same => ?_
    have after := circle.le_next (before + 1 + gap + turn)
    have upTo := next_le
      (show before + 1 + gap + turn ≤ before + circle.size by omega) again
    exact mod_ne_of_near (show before + gap < circle.next (before + 1 + gap + turn) by omega)
      (by omega) same.symm
  have split := circle.taken_append ((before + gap) % circle.size) (before + 1) gap rest
  rw [← whole, taken_round] at split
  omega

theorem exists_position {place size : Nat} (inside : place < size) (before : Nat) :
    ∃ position, before < position ∧ position ≤ before + size ∧ position % size = place := by
  have atLeast := Nat.le_mul_of_pos_left (before + 1) (show 0 < size by omega)
  have below := Nat.mod_lt (place + (size * (before + 1) - (before + 1))) (show 0 < size by omega)
  refine ⟨before + 1 + (place + (size * (before + 1) - (before + 1))) % size, by omega, by omega, ?_⟩
  have sum : before + 1 + (place + (size * (before + 1) - (before + 1))) =
      place + size * (before + 1) := by
    omega
  rw [Nat.add_mod_mod, sum, Nat.add_mul_mod_self_left, Nat.mod_eq_of_lt inside]

theorem exists_living_position {place : Nat} (inside : place < circle.size)
    (alive : circle.alive place = true) (before : Nat) :
    ∃ position, before < position ∧ position ≤ before + circle.size ∧
      position % circle.size = place ∧ circle.Live position := by
  obtain ⟨position, after, upTo, same⟩ := exists_position inside before
  exact ⟨position, after, upTo, same, by rwa [Live, same]⟩

theorem exists_gap (gaps : ¬∀ place < circle.size, circle.alive place = true) :
    ∃ position, circle.Live position ∧ ¬circle.Live (position + 1) := by
  refine Classical.byContradiction fun none' => gaps fun place inside => ?_
  have onward (position : Nat) (live : circle.Live position) : circle.Live (position + 1) :=
    Classical.byContradiction fun dead => none' ⟨position, live, dead⟩
  have all (turn : Nat) : circle.Live (circle.next 0 + turn) := by
    induction turn with
    | zero => exact circle.next_live 0
    | succ turn ih => exact onward _ ih
  obtain ⟨position, after, _, same⟩ := exists_position inside (circle.next 0)
  have live := all (position - circle.next 0)
  rwa [Nat.add_sub_cancel' after.le, Live, same] at live

theorem Fair.apart {position : Nat} (fair : Fair circle position)
    (gaps : ¬∀ place < circle.size, circle.alive place = true) {live : Nat}
    (here : circle.Live live) : ¬circle.Live (live + 1) := by
  intro neighbour
  obtain ⟨before, start, gap⟩ := exists_gap gaps
  have mod_lt (position : Nat) : position % circle.size < circle.size :=
    Nat.mod_lt _ circle.size_pos
  have one := share_eq here (next_of_live neighbour)
  have more := share_eq start rfl
  have equal := fair.shares_eq (mod_lt (live + 1)) (mod_lt (circle.next (before + 1))) neighbour
    (circle.next_live (before + 1))
  have behind := circle.le_next (before + 1)
  have different : circle.next (before + 1) ≠ before + 1 := fun same =>
    gap (same ▸ circle.next_live (before + 1))
  omega

theorem taken_two (circle : TurnCircle) (place position : Nat) :
    circle.taken place position (circle.next (circle.next position + 1) + 1 - position) =
      (if circle.next position % circle.size = place then circle.next position + 1 - position
        else 0) +
      if circle.next (circle.next position + 1) % circle.size = place then
        circle.next (circle.next position + 1) - circle.next position
      else 0 := by
  have first := circle.le_next position
  have second := circle.le_next (circle.next position + 1)
  have split : circle.next (circle.next position + 1) + 1 - position =
      (circle.next position + 1 - position) +
        (circle.next (circle.next position + 1) - circle.next position) := by
    omega
  have between : position + (circle.next position + 1 - position) = circle.next position + 1 := by
    omega
  rw [split, taken_append, between, circle.taken_block _ (by omega), circle.taken_block _ (by omega)]

theorem next_before_return {first : Nat} (live : circle.Live first) {one two : Nat}
    (inside : one < circle.size) (inside' : two < circle.size) (alive : circle.alive one = true)
    (alive' : circle.alive two = true) (different : one ≠ two) :
    circle.next (first + 1) < first + circle.size := by
  have around : circle.Live (first + circle.size) := (circle.live_add first).mpr live
  have upTo : circle.next (first + 1) ≤ first + circle.size :=
    next_le (by have := circle.size_pos; omega) around
  refine Nat.lt_of_le_of_ne upTo fun same => different ?_
  have only (place : Nat) (within : place < circle.size) (living : circle.alive place = true) :
      place = (first + circle.size) % circle.size := by
    obtain ⟨here, after, most, residue, living'⟩ := exists_living_position within living first
    have least : circle.next (first + 1) ≤ here := next_le after living'
    obtain rfl : here = first + circle.size := by omega
    exact residue.symm
  rw [only one inside alive, only two inside' alive']

theorem Fair.no_third {position : Nat} (fair : Fair circle position) {between : Nat}
    (wide : circle.next position + 2 ≤ circle.next (circle.next position + 1))
    (after : circle.next (circle.next position + 1) < between)
    (before : between < circle.next position + circle.size) : ¬circle.Live between := by
  intro third
  have mod_lt (position : Nat) : position % circle.size < circle.size :=
    Nat.mod_lt _ circle.size_pos
  have atFirst := circle.le_next position
  have balance := fair (circle.next (circle.next position + 1) + 1 - position)
    (circle.next (circle.next position + 1) % circle.size) (between % circle.size)
    (mod_lt _) (mod_lt between) (circle.next_live (circle.next position + 1)) third
  have firstSecond : circle.next position % circle.size ≠
      circle.next (circle.next position + 1) % circle.size :=
    mod_ne_of_near (by omega) (by omega)
  have notFirst : circle.next position % circle.size ≠ between % circle.size :=
    mod_ne_of_near (by omega) before
  have notSecond : circle.next (circle.next position + 1) % circle.size ≠ between % circle.size :=
    mod_ne_of_near after (by omega)
  rw [taken_two, taken_two, if_neg firstSecond, if_pos rfl, if_neg notFirst,
    if_neg notSecond] at balance
  omega

theorem Fair.opposite {position : Nat} (fair : Fair circle position)
    (gaps : ¬∀ place < circle.size, circle.alive place = true) {one two : Nat}
    (inside : one < circle.size) (inside' : two < circle.size) (alive : circle.alive one = true)
    (alive' : circle.alive two = true) (different : one ≠ two) : Opposite circle position := by
  obtain ⟨first, isFirst⟩ : ∃ first, circle.next position = first := ⟨_, rfl⟩
  obtain ⟨second, isSecond⟩ : ∃ second, circle.next (first + 1) = second := ⟨_, rfl⟩
  have mod_lt (position : Nat) : position % circle.size < circle.size :=
    Nat.mod_lt _ circle.size_pos
  have live : circle.Live first := isFirst ▸ circle.next_live position
  have live' : circle.Live second := isSecond ▸ circle.next_live (first + 1)
  have atFirst : position ≤ first := isFirst ▸ circle.le_next position
  have atSecond : first + 2 ≤ second := by
    have behind : first + 1 ≤ second := isSecond ▸ circle.le_next (first + 1)
    have apart := fair.apart gaps live
    have : second ≠ first + 1 := fun same => apart (same ▸ live')
    omega
  have around : circle.Live (first + circle.size) := (circle.live_add first).mpr live
  have early : second < first + circle.size :=
    isSecond ▸ next_before_return live inside inside' alive alive' different
  have counts (place : Nat) : circle.taken place position (second + 1 - position) =
      (if first % circle.size = place then first + 1 - position else 0) +
        if second % circle.size = place then second - first else 0 := by
    have both := circle.taken_two place position
    rwa [isFirst, isSecond] at both
  have firstSecond : first % circle.size ≠ second % circle.size := mod_ne_of_near (by omega) early
  have back : circle.next (second + 1) = first + circle.size := by
    refine Nat.le_antisymm (next_le (by omega) around) (Nat.le_of_not_lt fun before => ?_)
    have behind := circle.le_next (second + 1)
    refine fair.no_third ?_ ?_ (isFirst ▸ before) (circle.next_live (second + 1))
    · rw [isFirst, isSecond]
      exact atSecond
    · rw [isFirst, isSecond]
      omega
  have shares := fair.shares_eq (mod_lt second) (mod_lt (first + circle.size)) live' around
  rw [share_eq live isSecond, share_eq live' back] at shares
  have early' := fair (second + 1 - position) (second % circle.size) (first % circle.size)
    (mod_lt second) (mod_lt first) live' live
  rw [counts, counts, if_neg firstSecond, if_pos rfl, if_pos rfl, if_neg firstSecond.symm] at early'
  have late := fair (second + 1 - position + (first + circle.size - second))
    (first % circle.size) (second % circle.size) (mod_lt first) (mod_lt second) live live'
  have onward : position + (second + 1 - position) = second + 1 := by omega
  rw [taken_append, taken_append, counts, counts, onward, circle.taken_block _ (by omega),
    circle.taken_block _ (by omega), back, Nat.add_mod_right, if_pos rfl, if_pos rfl, if_neg firstSecond,
    if_neg firstSecond.symm, if_pos rfl, if_neg firstSecond] at late
  obtain rfl : position = first := by omega
  obtain rfl : second = position + 2 := by omega
  refine ⟨by omega, live, fair.apart gaps live, live', ?_⟩
  exact fair.apart gaps live'

/-- The scan is fair exactly if all places are alive, or one, or two opposite ones of
four with the scan at one of them. -/
theorem fair_iff (position : Nat) : Fair circle position ↔ Balanced circle position := by
  constructor
  · intro fair
    by_cases full : ∀ place < circle.size, circle.alive place = true
    · exact .inl full
    · refine .inr ?_
      by_cases single : ∀ first < circle.size, ∀ second < circle.size,
          circle.alive first = true → circle.alive second = true → first = second
      · exact .inl single
      · simp only [not_forall] at single
        obtain ⟨one, inside, two, inside', alive, alive', different⟩ := single
        exact .inr (fair.opposite full inside inside' alive alive' different)
  · rintro (full | single | opposite)
    · exact fair_of_full full position
    · exact fair_of_single single position
    · exact fair_of_opposite opposite

end TurnCircle

end StudyRecord.RoundRobin
