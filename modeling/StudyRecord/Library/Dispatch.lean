import Mathlib.Data.List.Count
import Mathlib.Data.List.Nodup

/-!
A loop that handles the entries of a buffer, one in each pass: which positions of the buffer
it looks at, and what it leaves. Which position a pass looks at is a parameter, so that a
loop with the wrong index is a loop too.
-/

namespace StudyRecord.Dispatch

section Dispatch

variable {State Fault Entry : Type}

structure Progress (State Fault : Type) where
  looked : List Nat
  result : Except Fault State

variable (handle : Nat → Entry → State → Except Fault State) (buffer : Nat → Entry)
  (position : Nat → Nat)

def pass (progress : Progress State Fault) (j : Nat) : Progress State Fault :=
  match progress.result with
  | .error _ => progress
  | .ok state => ⟨progress.looked ++ [position j], handle j (buffer (position j)) state⟩

def loop (count : Nat) (state : State) : Progress State Fault :=
  (List.range count).foldl (pass handle buffer position) ⟨[], .ok state⟩

def fold (received : List Entry) (state : State) : Except Fault State :=
  received.zipIdx.foldlM (fun state entry => handle entry.2 entry.1 state) state

def EachOnce (count : Nat) (looked : List Nat) : Prop :=
  ∀ position, looked.count position = if position < count then 1 else 0

/-- The loop handles each received entry once and nothing else, and what can be seen of the
result is what handling the received entries in their order gives. -/
def HandlesEach {View : Type} (view : State → View) (count : Nat) (state : State) : Prop :=
  EachOnce count (loop handle buffer position count state).looked ∧
    (loop handle buffer position count state).result.map view =
      (fold handle ((List.range count).map buffer) state).map view

variable {handle buffer position}

theorem loop_succ (count : Nat) (state : State) :
    loop handle buffer position (count + 1) state =
      pass handle buffer position (loop handle buffer position count state) count := by
  simp only [loop, List.range_succ, List.foldl_append, List.foldl_cons, List.foldl_nil]

theorem loop_result (count : Nat) (state : State) :
    (loop handle buffer position count state).result =
      (List.range count).foldlM (fun state j => handle j (buffer (position j)) state) state := by
  induction count with
  | zero => rfl
  | succ count ih =>
      rw [loop_succ, List.range_succ, List.foldlM_append, ← ih, pass]
      cases reached : (loop handle buffer position count state).result with
      | error fault => rw [reached]; rfl
      | ok next => exact (bind_pure (handle count (buffer (position count)) next)).symm

variable (handle buffer position) in
theorem loop_looked (count : Nat) (state : State) :
    ∃ passes ≤ count, (1 ≤ count → 1 ≤ passes) ∧
      (loop handle buffer position count state).looked = (List.range passes).map position ∧
      ∀ final, (loop handle buffer position count state).result = .ok final →
        passes = count := by
  induction count with
  | zero => exact ⟨0, Nat.le_refl 0, fun positive => positive, rfl, fun _ _ => rfl⟩
  | succ count ih =>
      obtain ⟨passes, bound, started, looked, complete⟩ := ih
      rw [loop_succ, pass]
      cases reached : (loop handle buffer position count state).result with
      | error fault =>
          refine ⟨passes, by omega, fun _ => ?_, looked, fun final finished => ?_⟩
          · cases count with
            | zero => simp [loop] at reached
            | succ count => exact started (by omega)
          · rw [reached] at finished
            contradiction
      | ok next =>
          refine ⟨count + 1, Nat.le_refl _, fun _ => by omega, ?_, fun _ _ => rfl⟩
          rw [looked, complete next reached, List.range_succ, List.map_append]
          rfl

theorem loop_id_result (count : Nat) (state : State) :
    (loop handle buffer id count state).result =
      fold handle ((List.range count).map buffer) state := by
  have entries : ((List.range count).map buffer).zipIdx =
      (List.range count).map fun j => (buffer j, j) := by
    refine List.ext_getElem (by simp) fun j _ _ => by simp
  rw [loop_result, fold, entries, List.foldlM_map]
  rfl

theorem fold_ok (next : State → Entry → State) (received : List Entry) (state : State) :
    (fold (fun _ entry state => .ok (next state entry)) received state : Except Fault State) =
      .ok (received.foldl next state) := by
  have entries (k : Nat) : (received.zipIdx k).foldlM
      (fun state entry => (.ok (next state entry.1) : Except Fault State)) state =
      .ok (received.foldl next state) := by
    induction received generalizing k state with
    | nil => rfl
    | cons entry rest ih =>
        rw [List.zipIdx_cons, List.foldlM_cons]
        exact ih (next state entry) (k + 1)
  exact entries 0

theorem eachOnce_range (count : Nat) : EachOnce count (List.range count) := by
  intro position
  by_cases below : position < count
  · rw [if_pos below]
    exact List.nodup_iff_count_eq_one.mp List.nodup_range position (List.mem_range.mpr below)
  · rw [if_neg below]
    exact List.count_eq_zero_of_not_mem fun member => below (List.mem_range.mp member)

theorem loop_id_eachOnce (count : Nat) {state final : State}
    (finished : (loop handle buffer id count state).result = .ok final) :
    EachOnce count (loop handle buffer id count state).looked := by
  obtain ⟨passes, _, _, looked, complete⟩ :=
    loop_looked handle buffer id count state
  rw [looked, complete final finished, List.map_id]
  exact eachOnce_range count

theorem eachOnce_replicate_iff {count passes : Nat} (i : Nat) (positive : 1 ≤ count)
    (started : 1 ≤ passes) (bound : passes ≤ count) :
    EachOnce count (List.replicate passes i) ↔ i = 0 ∧ count = 1 := by
  constructor
  · intro each
    have first := each 0
    have last := each (count - 1)
    simp only [List.count_replicate, beq_iff_eq] at first last
    rw [if_pos (show 0 < count by omega)] at first
    rw [if_pos (show count - 1 < count by omega)] at last
    have here : i = 0 := by
      by_contra other
      rw [if_neg other] at first
      contradiction
    refine ⟨here, ?_⟩
    by_contra more
    rw [if_neg (show ¬i = count - 1 by omega)] at last
    contradiction
  · rintro ⟨rfl, rfl⟩
    obtain rfl : passes = 1 := by omega
    exact eachOnce_range 1

theorem loop_const_eachOnce_iff {count : Nat} (i : Nat) (positive : 1 ≤ count) (state : State) :
    EachOnce count (loop handle buffer (fun _ => i) count state).looked ↔ i = 0 ∧ count = 1 := by
  obtain ⟨passes, bound, started, looked, _⟩ :=
    loop_looked handle buffer (fun _ => i) count state
  rw [looked, List.map_const', List.length_range]
  exact eachOnce_replicate_iff i positive (started positive) bound

theorem handlesEach_const_iff {View : Type} {view : State → View} {count : Nat} (i : Nat)
    (positive : 1 ≤ count) (state : State) :
    HandlesEach handle buffer (fun _ => i) view count state ↔ i = 0 ∧ count = 1 := by
  constructor
  · rintro ⟨each, _⟩
    exact (loop_const_eachOnce_iff i positive state).mp each
  · rintro ⟨rfl, rfl⟩
    refine ⟨(loop_const_eachOnce_iff 0 positive state).mpr ⟨rfl, rfl⟩, ?_⟩
    -- the only pass looks at the position of the pass
    rw [loop_result, ← loop_id_result, loop_result]
    rfl

end Dispatch

end StudyRecord.Dispatch
