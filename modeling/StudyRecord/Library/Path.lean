import Mathlib.Data.List.Basic

/-!
Paths read component by component. A component stays where it is, goes up one
level or goes down one, and a walk fails when it goes up from its root.
-/

namespace StudyRecord.Path

inductive Move
  | stay
  | up
  | down
  deriving DecidableEq, Repr

section Walk

variable {Part : Type*} (move : Part → Move)

/-- The depth below the root behind the components, if the walk never leaves the root. -/
def walk : Nat → List Part → Option Nat
  | depth, [] => some depth
  | depth, part :: rest =>
      match move part, depth with
      | .stay, depth => walk depth rest
      | .down, depth => walk (depth + 1) rest
      | .up, 0 => none
      | .up, depth + 1 => walk depth rest

def ups (parts : List Part) : Nat := parts.countP fun part => move part = .up

def downs (parts : List Part) : Nat := parts.countP fun part => move part = .down

def Balanced (depth : Nat) (parts : List Part) : Prop :=
  ∀ count, ups move (parts.take count) ≤ depth + downs move (parts.take count)

theorem balanced_nil (depth : Nat) : Balanced move depth ([] : List Part) := by
  intro count
  simp [ups, downs]

theorem balanced_stay {depth : Nat} {part : Part} {rest : List Part} (stay : move part = .stay) :
    Balanced move depth (part :: rest) ↔ Balanced move depth rest := by
  constructor
  · intro balanced count
    simpa [ups, downs, stay] using balanced (count + 1)
  · intro balanced count
    cases count with
    | zero => simp [ups]
    | succ count => simpa [ups, downs, stay] using balanced count

theorem balanced_down {depth : Nat} {part : Part} {rest : List Part} (down : move part = .down) :
    Balanced move depth (part :: rest) ↔ Balanced move (depth + 1) rest := by
  constructor
  · intro balanced count
    have next := balanced (count + 1)
    simp only [List.take_succ_cons, ups, downs, List.countP_cons, down] at next ⊢
    simp at next
    omega
  · intro balanced count
    cases count with
    | zero => simp [ups]
    | succ count =>
        have next := balanced count
        simp only [List.take_succ_cons, ups, downs, List.countP_cons, down] at next ⊢
        simp
        omega

theorem balanced_up {depth : Nat} {part : Part} {rest : List Part} (up : move part = .up) :
    Balanced move depth (part :: rest) ↔ 0 < depth ∧ Balanced move (depth - 1) rest := by
  constructor
  · intro balanced
    have first := balanced 1
    simp [ups, downs, up] at first
    refine ⟨first, fun count => ?_⟩
    have next := balanced (count + 1)
    simp only [List.take_succ_cons, ups, downs, List.countP_cons, up] at next ⊢
    simp at next
    omega
  · rintro ⟨positive, balanced⟩ count
    cases count with
    | zero => simp [ups]
    | succ count =>
        have next := balanced count
        simp only [List.take_succ_cons, ups, downs, List.countP_cons, up] at next ⊢
        simp
        omega

theorem walk_isSome_iff (depth : Nat) (parts : List Part) :
    (walk move depth parts).isSome ↔ Balanced move depth parts := by
  induction parts generalizing depth with
  | nil => simp [walk, balanced_nil]
  | cons part rest ih =>
      cases kind : move part with
      | stay =>
          rw [balanced_stay move kind, ← ih]
          simp [walk, kind]
      | down =>
          rw [balanced_down move kind, ← ih]
          simp [walk, kind]
      | up =>
          rw [balanced_up move kind]
          cases depth with
          | zero => simp [walk, kind]
          | succ depth => simpa [walk, kind] using ih depth

end Walk

/-! Components between slashes. -/

def components (path : List UInt8) : List (List UInt8) := path.splitOn 47

/-- Empty components and `.` stay, and `..` goes up. -/
def kind (part : List UInt8) : Move :=
  if part = [] ∨ part = [46] then .stay else if part = [46, 46] then .up else .down

def Inside (path : List UInt8) : Prop := (walk kind 0 (components path)).isSome

instance (path : List UInt8) : Decidable (Inside path) :=
  inferInstanceAs (Decidable ((walk kind 0 (components path)).isSome = true))

theorem inside_iff (path : List UInt8) : Inside path ↔ Balanced kind 0 (components path) :=
  walk_isSome_iff kind 0 (components path)

end StudyRecord.Path
