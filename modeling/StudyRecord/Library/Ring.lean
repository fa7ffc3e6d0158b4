import Mathlib.Data.List.Basic
import Mathlib.Data.Nat.ModEq

/-!
A sequence of values that passes through a ring of cells. The value at a position
lies in the cell at that position plus an offset, modulo the number of cells; the
values from some position on are still in their cells.
-/

namespace StudyRecord.Ring

section Ring

variable {T : Type}

def slot (cells : List T) (offset position : Nat) : Nat := (position + offset) % cells.length

def Holds (cells : List T) (offset first : Nat) (values : List T) : Prop :=
  ∀ position value, first ≤ position → values[position]? = some value →
    cells[slot cells offset position]? = some value

theorem slot_ne {cells : List T} {offset first second : Nat} (later : first < second)
    (near : second < first + cells.length) : slot cells offset first ≠ slot cells offset second := by
  intro same
  have divides : cells.length ∣ second + offset - (first + offset) :=
    (Nat.modEq_iff_dvd' (by omega)).mp same
  have atLeast := Nat.le_of_dvd (by omega) divides
  omega

theorem slot_lt {cells : List T} (some : 0 < cells.length) (offset position : Nat) :
    slot cells offset position < cells.length :=
  Nat.mod_lt _ some

@[simp] theorem slot_set (cells : List T) (index : Nat) (value : T) (offset position : Nat) :
    slot (cells.set index value) offset position = slot cells offset position := by
  simp only [slot, List.length_set]

theorem Holds.nil (cells : List T) (offset : Nat) : Holds cells offset 0 [] := by
  intro position value _ found
  simp at found

theorem Holds.push {cells : List T} {offset first : Nat} {values : List T}
    (holds : Holds cells offset first values) (room : values.length < first + cells.length)
    (some : 0 < cells.length) (value : T) :
    Holds (cells.set (slot cells offset values.length) value) offset first (values ++ [value]) := by
  intro position found later here
  rw [slot_set]
  by_cases last : position = values.length
  · subst last
    rw [List.getElem?_append_right (Nat.le_refl _), Nat.sub_self] at here
    rw [List.getElem?_set_self (slot_lt some offset _)]
    exact here
  · obtain ⟨inside, _⟩ := List.getElem?_eq_some_iff.mp here
    have before : position < values.length := by
      rw [List.length_append, List.length_singleton] at inside
      omega
    rw [List.getElem?_append_left before] at here
    rw [List.getElem?_set_ne (slot_ne before (by omega)).symm]
    exact holds position found later here

theorem Holds.pop {cells : List T} {offset first : Nat} {values : List T}
    (holds : Holds cells offset first values) (room : values.length ≤ first + cells.length)
    (left : T) : Holds (cells.set (slot cells offset first) left) offset (first + 1) values := by
  intro position found later here
  obtain ⟨inside, _⟩ := List.getElem?_eq_some_iff.mp here
  rw [slot_set, List.getElem?_set_ne (slot_ne (by omega) (by omega))]
  exact holds position found (by omega) here

end Ring

end StudyRecord.Ring
