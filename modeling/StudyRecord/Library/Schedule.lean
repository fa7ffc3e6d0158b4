import Mathlib.Data.List.Sort
import Mathlib.Logic.Function.Basic
import Mathlib.Order.Defs.LinearOrder

/-!
What a container of timers is for: the timers that are pending, each with its time, and which of
them a tick fires. Two containers that do this fire the same timers at every tick, in the same
order but for timers of the same time.
-/

namespace StudyRecord.Schedules

section Schedules

variable {Id Time Data : Type}

structure Entry (Id Time Data : Type) where
  id : Id
  time : Time
  data : Data

structure Schedule (Id Time Data : Type) where
  pending : Id → Option (Time × Data)
  used : Id → Bool

inductive Op (Id Time Data : Type)
  | add (entry : Entry Id Time Data)
  | cancel (id : Id)
  | tick (now : Time)

def empty : Schedule Id Time Data := ⟨fun _ => none, fun _ => false⟩

section Fires

variable [LinearOrder Time]

structure Fires (schedule : Schedule Id Time Data) (now : Time)
    (fired : List (Entry Id Time Data)) : Prop where
  exact : ∀ entry, entry ∈ fired ↔
    schedule.pending entry.id = some (entry.time, entry.data) ∧ entry.time ≤ now
  once : fired.Nodup
  ordered : fired.Pairwise fun early late => early.time ≤ late.time

def SameUpToTies (first second : List (Entry Id Time Data)) : Prop :=
  first.Perm second ∧ first.map Entry.time = second.map Entry.time

theorem Fires.same {schedule : Schedule Id Time Data} {now : Time}
    {first second : List (Entry Id Time Data)} (one : Fires schedule now first)
    (two : Fires schedule now second) : SameUpToTies first second := by
  have perm : first.Perm second :=
    (List.perm_ext_iff_of_nodup one.once two.once).mpr fun entry =>
      (one.exact entry).trans (two.exact entry).symm
  refine ⟨perm, ?_⟩
  have ordered : (first.map Entry.time).Pairwise (· ≤ ·) := List.pairwise_map.mpr one.ordered
  have ordered' : (second.map Entry.time).Pairwise (· ≤ ·) := List.pairwise_map.mpr two.ordered
  exact (perm.map Entry.time).eq_of_pairwise' ordered ordered'

end Fires

section Legal

variable [DecidableEq Id] [LinearOrder Time]

def Schedule.on (schedule : Schedule Id Time Data) : Op Id Time Data → Schedule Id Time Data
  | .add entry =>
      { pending := Function.update schedule.pending entry.id (some (entry.time, entry.data))
        used := Function.update schedule.used entry.id true }
  | .cancel id => { schedule with pending := Function.update schedule.pending id none }
  | .tick now =>
      { schedule with pending := fun id => (schedule.pending id).filter fun timer => now < timer.1 }

/-- A timer has a new name, and only a pending timer is cancelled. -/
def Schedule.Legal (schedule : Schedule Id Time Data) : Op Id Time Data → Prop
  | .add entry => schedule.used entry.id = false
  | .cancel id => (schedule.pending id).isSome
  | .tick _ => True

instance decidableLegal (schedule : Schedule Id Time Data) :
    ∀ op, Decidable (schedule.Legal op)
  | .add entry => inferInstanceAs (Decidable (schedule.used entry.id = false))
  | .cancel id => inferInstanceAs (Decidable ((schedule.pending id).isSome = true))
  | .tick _ => .isTrue trivial

def LegalRun (schedule : Schedule Id Time Data) : List (Op Id Time Data) → Prop
  | [] => True
  | op :: rest => schedule.Legal op ∧ LegalRun (schedule.on op) rest

instance decidableLegalRun :
    ∀ (schedule : Schedule Id Time Data) (ops : List (Op Id Time Data)),
      Decidable (LegalRun schedule ops)
  | _, [] => .isTrue trivial
  | schedule, op :: rest =>
      have : Decidable (LegalRun (schedule.on op) rest) := decidableLegalRun (schedule.on op) rest
      inferInstanceAs (Decidable (schedule.Legal op ∧ LegalRun (schedule.on op) rest))

end Legal

/-! Containers. -/

section Containers

variable {State Fault : Type}

def firings (step : State → Op Id Time Data → Except Fault (State × List (Entry Id Time Data)))
    (state : State) : List (Op Id Time Data) → Except Fault (List (List (Entry Id Time Data)))
  | [] => .ok []
  | op :: rest =>
      match step state op with
      | .error fault => .error fault
      | .ok (next, fired) =>
          match firings step next rest with
          | .error fault => .error fault
          | .ok later => .ok (fired :: later)

def AllowedRun (step : State → Op Id Time Data → Except Fault (State × List (Entry Id Time Data)))
    (allowed : State → Op Id Time Data → Prop) (state : State) : List (Op Id Time Data) → Prop
  | [] => True
  | op :: rest =>
      allowed state op ∧
        ∀ next fired, step state op = .ok (next, fired) → AllowedRun step allowed next rest

section Allowed

variable {step : State → Op Id Time Data → Except Fault (State × List (Entry Id Time Data))}
  {allowed : State → Op Id Time Data → Prop}

theorem allowedRun_of_error {state : State} {op : Op Id Time Data} {fault : Fault}
    (taken : step state op = .error fault) (rest : List (Op Id Time Data)) :
    AllowedRun step allowed state (op :: rest) ↔ allowed state op := by
  simp [AllowedRun, taken]

theorem allowedRun_of_ok {state next : State} {op : Op Id Time Data}
    {fired : List (Entry Id Time Data)} (taken : step state op = .ok (next, fired))
    (rest : List (Op Id Time Data)) :
    AllowedRun step allowed state (op :: rest) ↔
      allowed state op ∧ AllowedRun step allowed next rest := by
  simp [AllowedRun, taken]

instance decidableAllowedRun [∀ state op, Decidable (allowed state op)] :
    ∀ (state : State) (ops : List (Op Id Time Data)), Decidable (AllowedRun step allowed state ops)
  | _, [] => .isTrue trivial
  | state, op :: rest =>
      match taken : step state op with
      | .error _ => decidable_of_iff _ (allowedRun_of_error taken rest).symm
      | .ok (next, _) =>
          have : Decidable (AllowedRun step allowed next rest) := decidableAllowedRun next rest
          decidable_of_iff _ (allowedRun_of_ok taken rest).symm

theorem allowedRun_of_all (all : ∀ state op, allowed state op) (state : State)
    (ops : List (Op Id Time Data)) : AllowedRun step allowed state ops := by
  induction ops generalizing state with
  | nil => trivial
  | cons op rest ih => exact ⟨all state op, fun next _ _ => ih next⟩

end Allowed

variable [LinearOrder Time]

def Due (schedule : Schedule Id Time Data) (fired : List (Entry Id Time Data)) :
    Op Id Time Data → Prop
  | .add _ | .cancel _ => fired = []
  | .tick now => Fires schedule now fired

theorem Due.same {schedule : Schedule Id Time Data} {op : Op Id Time Data}
    {first second : List (Entry Id Time Data)} (one : Due schedule first op)
    (two : Due schedule second op) : SameUpToTies first second := by
  cases op with
  | add entry =>
      obtain rfl : first = [] := one
      obtain rfl : second = [] := two
      exact ⟨.refl _, rfl⟩
  | cancel id =>
      obtain rfl : first = [] := one
      obtain rfl : second = [] := two
      exact ⟨.refl _, rfl⟩
  | tick now => exact Fires.same one two

section Keeps

variable [DecidableEq Id]

/-- A container keeps a schedule if each operation that is legal, and that it allows, succeeds,
does to the schedule what it is for, and fires what is due. -/
def Keeps (step : State → Op Id Time Data → Except Fault (State × List (Entry Id Time Data)))
    (allowed : State → Op Id Time Data → Prop) (related : State → Schedule Id Time Data → Prop) :
    Prop :=
  ∀ state schedule op, related state schedule → schedule.Legal op → allowed state op →
    ∃ next fired, step state op = .ok (next, fired) ∧ related next (schedule.on op) ∧
      Due schedule fired op

/-- Two containers that keep the same schedule fire the same timers at every operation. -/
theorem Keeps.agree {State' Fault' : Type}
    {step : State → Op Id Time Data → Except Fault (State × List (Entry Id Time Data))}
    {step' : State' → Op Id Time Data → Except Fault' (State' × List (Entry Id Time Data))}
    {allowed : State → Op Id Time Data → Prop} {allowed' : State' → Op Id Time Data → Prop}
    {related : State → Schedule Id Time Data → Prop}
    {related' : State' → Schedule Id Time Data → Prop} (keeps : Keeps step allowed related)
    (keeps' : Keeps step' allowed' related') (ops : List (Op Id Time Data)) {state : State}
    {state' : State'} {schedule : Schedule Id Time Data} (start : related state schedule)
    (start' : related' state' schedule) (legal : LegalRun schedule ops)
    (allows : AllowedRun step allowed state ops) (allows' : AllowedRun step' allowed' state' ops) :
    ∃ fired fired', firings step state ops = .ok fired ∧ firings step' state' ops = .ok fired' ∧
      List.Forall₂ SameUpToTies fired fired' := by
  induction ops generalizing state state' schedule with
  | nil => exact ⟨[], [], rfl, rfl, .nil⟩
  | cons op rest ih =>
      obtain ⟨next, fired, taken, after, due⟩ := keeps state schedule op start legal.1 allows.1
      obtain ⟨next', fired', taken', after', due'⟩ :=
        keeps' state' schedule op start' legal.1 allows'.1
      obtain ⟨later, later', ran, ran', same⟩ :=
        ih after after' legal.2 (allows.2 next fired taken) (allows'.2 next' fired' taken')
      refine ⟨fired :: later, fired' :: later', ?_, ?_, .cons (due.same due') same⟩
      · simp only [firings, taken, ran]
      · simp only [firings, taken', ran']

end Keeps

end Containers

end Schedules

end StudyRecord.Schedules
