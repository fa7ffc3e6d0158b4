import Mathlib.Data.List.Basic
import Mathlib.Logic.Function.Basic

/-!
Timers as what they are for: each one has a number of ticks left, and fires in
the tick that finds none left. An implementation is measured against this map.
-/

namespace StudyRecord.Countdown

section Countdown

variable {Timer : Type} [DecidableEq Timer]

abbrev Remaining (Timer : Type) := Timer → Option Nat

inductive Event (Timer : Type)
  | set (timer : Timer) (ticks : Nat)
  | drop (timer : Timer)
  | tick

def step (remaining : Remaining Timer) : Event Timer → Remaining Timer
  | .set timer ticks => Function.update remaining timer (some ticks)
  | .drop timer => Function.update remaining timer none
  | .tick => fun timer =>
      match remaining timer with
      | some (ticks + 1) => some ticks
      | _ => none

def run (remaining : Remaining Timer) (events : List (Event Timer)) : Remaining Timer :=
  events.foldl step remaining

def ticks (events : List (Event Timer)) : Nat :=
  events.countP fun event => match event with
    | .tick => true
    | _ => false

def Event.Spares (timer : Timer) : Event Timer → Prop
  | .set other _ => other ≠ timer
  | .drop other => other ≠ timer
  | .tick => True

/-- The ticks, counted on from `before`, in which the timer fires. -/
def firings (timer : Timer) (before : Nat) :
    Remaining Timer → List (Event Timer) → List Nat
  | _, [] => []
  | remaining, .tick :: rest =>
      (if remaining timer = some 0 then [before + 1] else []) ++
        firings timer (before + 1) (step remaining .tick) rest
  | remaining, event :: rest => firings timer before (step remaining event) rest

theorem step_spared {timer : Timer} {event : Event Timer} (spares : event.Spares timer)
    (other : event ≠ .tick) (remaining : Remaining Timer) :
    step remaining event timer = remaining timer := by
  cases event with
  | set changed ticks => exact Function.update_of_ne (Ne.symm spares) ..
  | drop changed => exact Function.update_of_ne (Ne.symm spares) ..
  | tick => contradiction

theorem firings_stopped (timer : Timer) (before : Nat) (remaining : Remaining Timer)
    (events : List (Event Timer)) (stopped : remaining timer = none)
    (spares : ∀ event ∈ events, event.Spares timer) :
    firings timer before remaining events = [] ∧ run remaining events timer = none := by
  induction events generalizing before remaining with
  | nil => exact ⟨rfl, stopped⟩
  | cons event rest ih =>
      have here := spares event (by simp)
      have later (event : Event Timer) (member : event ∈ rest) := spares event (by simp [member])
      by_cases tick : event = .tick
      · subst tick
        have still : step remaining .tick timer = none := by simp [step, stopped]
        simpa [firings, run, stopped] using ih (before + 1) _ still later
      · have still : step remaining event timer = none := by rw [step_spared here tick, stopped]
        have rest' := ih before _ still later
        cases event with
        | set => exact rest'
        | drop => exact rest'
        | tick => contradiction

theorem firings_running (timer : Timer) (before left : Nat) (remaining : Remaining Timer)
    (events : List (Event Timer)) (running : remaining timer = some left)
    (spares : ∀ event ∈ events, event.Spares timer) :
    firings timer before remaining events =
        (if ticks events ≤ left then [] else [before + left + 1]) ∧
      run remaining events timer =
        (if ticks events ≤ left then some (left - ticks events) else none) := by
  induction events generalizing before left remaining with
  | nil => simp [firings, ticks, run, running]
  | cons event rest ih =>
      have here := spares event (by simp)
      have later (event : Event Timer) (member : event ∈ rest) := spares event (by simp [member])
      by_cases tick : event = .tick
      · subst tick
        have count : ticks (.tick :: rest) = ticks rest + 1 := by simp [ticks]
        cases left with
        | zero =>
            have still : step remaining .tick timer = none := by simp [step, running]
            obtain ⟨silent, gone⟩ := firings_stopped timer (before + 1) _ rest still later
            have fired : ¬ticks (.tick :: rest) ≤ 0 := by omega
            rw [if_neg fired, if_neg fired]
            refine ⟨by simp [firings, running, silent], ?_⟩
            exact gone
        | succ left =>
            have still : step remaining .tick timer = some left := by simp [step, running]
            obtain ⟨fires, ends⟩ := ih (before + 1) left _ still later
            have same : ticks (.tick :: rest) ≤ left + 1 ↔ ticks rest ≤ left := by omega
            have notNow : ¬remaining timer = some 0 := by simp [running]
            constructor
            · simp only [firings, notNow, if_false, List.nil_append, fires, same]
              split
              · simp
              · simp
                omega
            · have unfolded : run remaining (.tick :: rest) = run (step remaining .tick) rest := rfl
              rw [unfolded, ends]
              by_cases inTime : ticks rest ≤ left
              · rw [if_pos inTime, if_pos (same.mpr inTime), count, Nat.add_sub_add_right]
              · rw [if_neg inTime, if_neg fun all => inTime (same.mp all)]
      · have still : step remaining event timer = some left := by rw [step_spared here tick, running]
        have rest' := ih before left _ still later
        cases event with
        | set => exact rest'
        | drop => exact rest'
        | tick => contradiction

theorem firings_append (timer : Timer) (before : Nat) (remaining : Remaining Timer)
    (early late : List (Event Timer)) :
    firings timer before remaining (early ++ late) =
      firings timer before remaining early ++
        firings timer (before + ticks early) (run remaining early) late := by
  induction early generalizing before remaining with
  | nil => simp [firings, ticks, run]
  | cons event rest ih =>
      cases event with
      | tick =>
          have count : ticks (.tick :: rest) = ticks rest + 1 := by simp [ticks]
          simp only [List.cons_append, firings, ih, List.append_assoc, count]
          rw [Nat.add_assoc, Nat.add_comm 1]
          rfl
      | set => exact ih before _
      | drop => exact ih before _

theorem firings_dropped (timer : Timer) (left : Nat) (remaining : Remaining Timer)
    (early late : List (Event Timer)) (running : remaining timer = some left)
    (inTime : ticks early ≤ left) (spares : ∀ event ∈ early ++ late, event.Spares timer) :
    firings timer 0 remaining (early ++ .drop timer :: late) = [] := by
  have first := firings_running timer 0 left remaining early running
    fun event member => spares event (List.mem_append_left _ member)
  have stopped : step (run remaining early) (.drop timer) timer = none := Function.update_self ..
  have second := firings_stopped timer (0 + ticks early) _ late stopped
    fun event member => spares event (List.mem_append_right _ member)
  rw [firings_append, first.1, if_pos inTime]
  exact second.1

end Countdown

end StudyRecord.Countdown
