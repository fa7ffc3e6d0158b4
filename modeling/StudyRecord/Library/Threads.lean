import StudyRecord.Library.Runs
import Mathlib.Data.List.Basic

/-!
Threads that share a state and take turns. A turn names a thread and what the
world decides for its next micro-step; a run is any sequence of turns. The rules
are those of Owicki and Gries: a count over the threads changes only by the one
that moved, and what is said of another thread must survive the step.
-/

namespace StudyRecord.Threads

open Runs

/-- Why a turn has no effect: no such thread, a wait that has to go on, or a
step that the language leaves undefined. -/
inductive Stuck
  | absent
  | blocked
  | fault
  deriving DecidableEq

/-! Semaphores. -/

def semValueMax : Nat := 2147483647

def semWait (value : Nat) : Except Stuck Nat :=
  match value with
  | 0 => .error .blocked
  | value + 1 => .ok value

/-- At the largest value `sem_post` fails and leaves the semaphore as it is. -/
def semPost (value : Nat) : Nat :=
  if value < semValueMax then value + 1 else value

/-! Mutexes. -/

def mutexLock (locked : Bool) : Except Stuck Bool :=
  if locked then .error .blocked else .ok true

theorem mutexLock_ok {locked after : Bool} (taken : mutexLock locked = .ok after) :
    locked = false ∧ after = true := by
  cases locked with
  | true => contradiction
  | false => exact ⟨rfl, (Except.ok.inj taken).symm⟩

theorem semWait_ok {value after : Nat} (taken : semWait value = .ok after) :
    value = after + 1 := by
  cases value with
  | zero => contradiction
  | succ rest =>
      obtain rfl : rest = after := Except.ok.inj taken
      rfl

theorem semWait_cases (value : Nat) :
    semWait value = .error .blocked ∨ ∃ rest, semWait value = .ok rest := by
  cases value with
  | zero => exact .inl rfl
  | succ rest => exact .inr ⟨rest, rfl⟩

theorem semPost_of_lt {value : Nat} (room : value < semValueMax) : semPost value = value + 1 := by
  simp only [semPost, room, if_true]

structure System (Shared Thread : Type) where
  shared : Shared
  threads : List Thread
  deriving DecidableEq

section Steps

variable {Shared Thread Choice : Type}
  (micro : Shared → Thread → Choice → Except Stuck (Shared × Thread))

def step (system : System Shared Thread) (turn : Nat × Choice) :
    Except Stuck (System Shared Thread) :=
  match system.threads[turn.1]? with
  | none => .error .absent
  | some thread =>
      match micro system.shared thread turn.2 with
      | .error stuck => .error stuck
      | .ok (shared, thread) => .ok ⟨shared, system.threads.set turn.1 thread⟩

variable {micro}

theorem split_at {threads : List Thread} {index : Nat} {thread : Thread}
    (found : threads[index]? = some thread) :
    ∃ front back, threads = front ++ thread :: back ∧ front.length = index := by
  obtain ⟨inside, here⟩ := List.getElem?_eq_some_iff.mp found
  refine ⟨threads.take index, threads.drop (index + 1), ?_, ?_⟩
  · rw [← here, List.getElem_cons_drop, List.take_append_drop]
  · rw [List.length_take]
    omega

theorem step_cases {system next : System Shared Thread} {turn : Nat × Choice}
    (taken : step micro system turn = .ok next) :
    ∃ front thread back thread', system.threads = front ++ thread :: back ∧
      front.length = turn.1 ∧
      micro system.shared thread turn.2 = .ok (next.shared, thread') ∧
      next.threads = front ++ thread' :: back := by
  simp only [step] at taken
  cases found : system.threads[turn.1]? with
  | none =>
      rw [found] at taken
      contradiction
  | some thread =>
      simp only [found] at taken
      obtain ⟨front, back, split, place⟩ := split_at found
      cases moved : micro system.shared thread turn.2 with
      | error stuck =>
          rw [moved] at taken
          contradiction
      | ok result =>
          simp only [moved] at taken
          obtain rfl := Except.ok.inj taken
          refine ⟨front, thread, back, result.2, split, place, moved, ?_⟩
          simp [split, ← place]

theorem step_defined {system : System Shared Thread} {turn : Nat × Choice}
    (defined : ∀ front thread back, system.threads = front ++ thread :: back →
      micro system.shared thread turn.2 ≠ .error .fault) :
    step micro system turn ≠ .error .fault := by
  simp only [step]
  cases found : system.threads[turn.1]? with
  | none => simp
  | some thread =>
      obtain ⟨front, back, split, _⟩ := split_at found
      have here := defined front thread back split
      simp only
      cases moved : micro system.shared thread turn.2 with
      | error stuck =>
          rw [moved] at here
          simpa using here
      | ok result => simp

theorem step_of_split {shared shared' : Shared} (front back : List Thread)
    {thread thread' : Thread} {choice : Choice}
    (moved : micro shared thread choice = .ok (shared', thread')) :
    step micro ⟨shared, front ++ thread :: back⟩ (front.length, choice) =
      .ok ⟨shared', front ++ thread' :: back⟩ := by
  simp [step, moved]

theorem run_keeps {invariant : Shared → List Thread → Prop}
    (kept : ∀ shared front thread back choice shared' thread',
      invariant shared (front ++ thread :: back) →
      micro shared thread choice = .ok (shared', thread') →
      invariant shared' (front ++ thread' :: back))
    (turns : List (Nat × Choice)) {system final : System Shared Thread}
    (start : invariant system.shared system.threads)
    (reached : run (step micro) system turns = .ok final) :
    invariant final.shared final.threads := by
  have preserved (system : System Shared Thread) (turn : Nat × Choice)
      (next : System Shared Thread) (holds : invariant system.shared system.threads)
      (_ : ∃ next, step micro system turn = .ok next) (taken : step micro system turn = .ok next) :
      invariant next.shared next.threads := by
    obtain ⟨front, thread, back, thread', split, _, moved, split'⟩ := step_cases taken
    rw [split] at holds
    rw [split']
    exact kept system.shared front thread back turn.2 next.shared thread' holds moved
  exact run_invariant preserved turns start (along_of_reached turns reached) reached

end Steps

section Counting

variable {Thread : Type}

theorem countP_moved (place : Thread → Bool) (front back : List Thread) (thread thread' : Thread) :
    (front ++ thread' :: back).countP place + (place thread).toNat =
      (front ++ thread :: back).countP place + (place thread').toNat := by
  have value (here : Bool) : here.toNat = if here = true then 1 else 0 := by
    cases here <;> rfl
  simp only [List.countP_append, List.countP_cons, value]
  omega

theorem countP_pos_of_split {place : Thread → Bool} {front back : List Thread} {thread : Thread}
    (here : place thread = true) : 0 < (front ++ thread :: back).countP place :=
  List.countP_pos_iff.mpr ⟨thread, by simp, here⟩

theorem others_outside {place : Thread → Bool} {front back : List Thread} {thread : Thread}
    (alone : (front ++ thread :: back).countP place ≤ 1) (here : place thread = true) :
    ∀ other ∈ front ++ back, place other = false := by
  intro other member
  have count : (front ++ back).countP place = 0 := by
    simp only [List.countP_append, List.countP_cons, here, if_true] at alone ⊢
    omega
  simpa using List.countP_eq_zero.mp count other member

/-- What holds of every thread: the one that moved is as it should be in its new place, and
the step has not disturbed the others. -/
theorem forall_moved {before after : Thread → Prop} {front back : List Thread}
    {thread thread' : Thread} (every : ∀ other ∈ front ++ thread :: back, before other)
    (mine : after thread') (others : ∀ other ∈ front ++ back, before other → after other) :
    ∀ other ∈ front ++ thread' :: back, after other := by
  intro other member
  rcases List.mem_append.mp member with early | late
  · exact others other (List.mem_append_left _ early) (every other (List.mem_append_left _ early))
  · rcases List.mem_cons.mp late with rfl | behind
    · exact mine
    · exact others other (List.mem_append_right _ behind)
        (every other (List.mem_append_right _ (List.mem_cons_of_mem _ behind)))

end Counting

end StudyRecord.Threads
