import Mathlib.Logic.Basic

/-!
Fallible computations: which faults they may end with, and what holds of their results.
-/

namespace StudyRecord.Outcome

section Outcome

variable {Fault Value Other : Type} {allowed : Fault → Prop}

def Meets (allowed : Fault → Prop) (post : Value → Prop) : Except Fault Value → Prop
  | .ok value => post value
  | .error fault => allowed fault

theorem Meets.bind {middle : Value → Prop} {post : Other → Prop} {first : Except Fault Value}
    {next : Value → Except Fault Other} (here : Meets allowed middle first)
    (later : ∀ value, middle value → Meets allowed post (next value)) :
    Meets allowed post (first >>= next) := by
  cases first with
  | ok value => exact later value here
  | error fault => exact here

theorem Meets.imp {weaker : Fault → Prop} {post further : Value → Prop}
    {result : Except Fault Value} (meets : Meets allowed post result)
    (faults : ∀ fault, allowed fault → weaker fault) (values : ∀ value, post value → further value) :
    Meets weaker further result := by
  cases result with
  | ok value => exact values value meets
  | error fault => exact faults fault meets

theorem Meets.avoids {post : Value → Prop} {result : Except Fault Value} {fault : Fault}
    (meets : Meets allowed post result) (forbidden : ¬allowed fault) : result ≠ .error fault := by
  rintro rfl
  exact forbidden meets

theorem Meets.of_ok {post : Value → Prop} {result : Except Fault Value} {value : Value}
    (meets : Meets allowed post result) (returned : result = .ok value) : post value := by
  subst returned
  exact meets

def Agree (related : Value → Other → Prop) : Option Value → Except Fault Other → Prop
  | some value, .ok other => related value other
  | none, .error _ => True
  | some _, .error _ => False
  | none, .ok _ => False

theorem Agree.of_some {related : Value → Other → Prop} {first : Option Value}
    {first' : Except Fault Other} {value : Value} (here : Agree related first first')
    (returned : first = some value) : ∃ other, first' = .ok other ∧ related value other := by
  subst returned
  cases first' with
  | ok other => exact ⟨other, rfl, here⟩
  | error fault => exact here.elim

theorem Agree.imp {related looser : Value → Other → Prop} {first : Option Value}
    {first' : Except Fault Other} (here : Agree related first first')
    (looser' : ∀ value other, related value other → looser value other) :
    Agree looser first first' := by
  cases first with
  | none =>
      cases first' with
      | ok other => exact here.elim
      | error fault => trivial
  | some value =>
      cases first' with
      | ok other => exact looser' value other here
      | error fault => exact here.elim

theorem Agree.bind {Further Last : Type} {related : Value → Other → Prop}
    {related' : Further → Last → Prop} {first : Option Value} {first' : Except Fault Other}
    {next : Value → Option Further} {next' : Other → Except Fault Last}
    (here : Agree related first first')
    (later : ∀ value other, related value other → Agree related' (next value) (next' other)) :
    Agree related' (first >>= next) (first' >>= next') := by
  cases first with
  | none =>
      cases first' with
      | ok other => exact here.elim
      | error fault => trivial
  | some value =>
      cases first' with
      | ok other => exact later value other here
      | error fault => exact here.elim

end Outcome

end StudyRecord.Outcome
