import StudyRecord.Library.Threads

/-!
What the threads of a system note down while they run. The notes of all threads in one order,
the effects among them as a run of an object whose operations are atomic, and the notes of one
thread as its own history.
-/

namespace StudyRecord.Threads

open Runs

section Trace

variable {Shared Thread Choice Note : Type}
  (micro : Shared → Thread → Choice → Except Stuck (Shared × Thread))
  (observe : Shared → Thread → Choice → Option Note)

def noted (system : System Shared Thread) (turn : Nat × Choice) : List (Nat × Note) :=
  match system.threads[turn.1]? with
  | none => []
  | some thread => ((observe system.shared thread turn.2).map (Prod.mk turn.1)).toList

def trace (system : System Shared Thread) : List (Nat × Choice) → List (Nat × Note)
  | [] => []
  | turn :: rest =>
      noted observe system turn ++
        match step micro system turn with
        | .error _ => []
        | .ok next => trace next rest

def own (index : Nat) (notes : List (Nat × Note)) : List Note :=
  notes.filterMap fun note => if note.1 = index then some note.2 else none

def effects {Op : Type} (effect : Note → Option Op) (notes : List (Nat × Note)) : List Op :=
  notes.filterMap fun note => effect note.2

variable {micro observe}

theorem own_append (index : Nat) (first second : List (Nat × Note)) :
    own index (first ++ second) = own index first ++ own index second :=
  List.filterMap_append

theorem noted_of_split {system : System Shared Thread} {turn : Nat × Choice}
    {front back : List Thread} {thread : Thread}
    (split : system.threads = front ++ thread :: back) (place : front.length = turn.1) :
    noted observe system turn =
      ((observe system.shared thread turn.2).map (Prod.mk turn.1)).toList := by
  have found : system.threads[turn.1]? = some thread := by simp [split, ← place]
  simp only [noted, found]

theorem own_noted_self (index : Nat) (note : Option Note) :
    own index (note.map (Prod.mk index)).toList = note.toList := by
  cases note with
  | none => rfl
  | some note => simp [own]

theorem own_noted_other {index other : Nat} (different : other ≠ index) (note : Option Note) :
    own index (note.map (Prod.mk other)).toList = [] := by
  cases note with
  | none => rfl
  | some note => simp [own, different]

theorem effects_append {Op : Type} (effect : Note → Option Op) (first second : List (Nat × Note)) :
    effects effect (first ++ second) = effects effect first ++ effects effect second :=
  List.filterMap_append

theorem effects_noted {Op : Type} (effect : Note → Option Op) (index : Nat) (note : Option Note) :
    effects effect (note.map (Prod.mk index)).toList = (note.bind effect).toList := by
  cases note with
  | none => rfl
  | some note => cases here : effect note <;> simp [effects, here]

theorem getElem?_moved (front back : List Thread) (thread thread' : Thread) {index : Nat}
    (different : index ≠ front.length) :
    (front ++ thread :: back)[index]? = (front ++ thread' :: back)[index]? := by
  obtain earlier | later := Nat.lt_or_gt_of_ne different
  · rw [List.getElem?_append_left earlier, List.getElem?_append_left earlier]
  · obtain ⟨more, rfl⟩ := Nat.exists_eq_add_of_lt later
    rw [List.getElem?_append_right (by omega), List.getElem?_append_right (by omega),
      show front.length + more + 1 - front.length = more + 1 by omega, List.getElem?_cons_succ,
      List.getElem?_cons_succ]

theorem run_told {invariant : Shared → List Thread → Prop} {told : Thread → List Note → Prop}
    (kept : ∀ shared front thread back choice shared' thread',
      invariant shared (front ++ thread :: back) →
      micro shared thread choice = .ok (shared', thread') →
      invariant shared' (front ++ thread' :: back))
    (tells : ∀ shared thread choice shared' thread' notes, told thread notes →
      micro shared thread choice = .ok (shared', thread') →
      told thread' (notes ++ (observe shared thread choice).toList))
    (turns : List (Nat × Choice)) {system final : System Shared Thread}
    {before : Nat → List Note} (start : invariant system.shared system.threads)
    (early : ∀ index thread, system.threads[index]? = some thread → told thread (before index))
    (reached : run (step micro) system turns = .ok final) (index : Nat) (thread : Thread)
    (found : final.threads[index]? = some thread) :
    told thread (before index ++ own index (trace micro observe system turns)) := by
  induction turns generalizing system before with
  | nil =>
      obtain rfl : system = final := Except.ok.inj reached
      rw [trace, own, List.filterMap_nil, List.append_nil]
      exact early index thread found
  | cons turn rest ih =>
      simp only [run] at reached
      simp only [trace]
      cases taken : step micro system turn with
      | error stuck =>
          rw [taken] at reached
          contradiction
      | ok next =>
          rw [taken] at reached
          obtain ⟨front, mover, back, mover', split, place, moved, split'⟩ := step_cases taken
          rw [split] at start
          have later (other : Nat) (thread' : Thread) (here : next.threads[other]? = some thread') :
              told thread' (before other ++ own other (noted observe system turn)) := by
            rw [noted_of_split split place]
            by_cases same : other = turn.1
            · subst same
              obtain rfl : mover' = thread' := by simpa [split', ← place] using here
              have first := early turn.1 mover (by simp [split, ← place])
              rw [own_noted_self]
              exact tells _ _ _ _ _ _ first moved
            · rw [own_noted_other (Ne.symm same), List.append_nil]
              refine early other thread' ?_
              rw [split', getElem?_moved front back mover' mover (place ▸ same)] at here
              rw [split]
              exact here
          rw [own_append, ← List.append_assoc]
          refine ih ?_ later reached
          rw [split']
          exact kept _ _ _ _ _ _ _ start moved

/-- The effects among the notes, in their order, are a run of the object that the threads share,
if each micro-step has the effect that it notes. -/
theorem run_effects {invariant : Shared → List Thread → Prop} {Object Op Fault : Type}
    {atomic : Object → Op → Except Fault Object} {effect : Note → Option Op}
    {view : Shared → Object}
    (kept : ∀ shared front thread back choice shared' thread',
      invariant shared (front ++ thread :: back) →
      micro shared thread choice = .ok (shared', thread') →
      invariant shared' (front ++ thread' :: back))
    (simulates : ∀ shared front thread back choice shared' thread',
      invariant shared (front ++ thread :: back) →
      micro shared thread choice = .ok (shared', thread') →
      run atomic (view shared) ((observe shared thread choice).bind effect).toList =
        .ok (view shared'))
    (turns : List (Nat × Choice)) {system final : System Shared Thread}
    (start : invariant system.shared system.threads)
    (reached : run (step micro) system turns = .ok final) :
    run atomic (view system.shared) (effects effect (trace micro observe system turns)) =
      .ok (view final.shared) := by
  induction turns generalizing system with
  | nil =>
      obtain rfl : system = final := Except.ok.inj reached
      rfl
  | cons turn rest ih =>
      simp only [run] at reached
      simp only [trace]
      cases taken : step micro system turn with
      | error stuck =>
          rw [taken] at reached
          contradiction
      | ok next =>
          rw [taken] at reached
          obtain ⟨front, mover, back, mover', split, place, moved, split'⟩ := step_cases taken
          rw [split] at start
          have here : run atomic (view system.shared) (effects effect (noted observe system turn)) =
              .ok (view next.shared) := by
            rw [noted_of_split split place, effects_noted]
            exact simulates _ _ _ _ _ _ _ start moved
          rw [effects_append, run_append here]
          refine ih ?_ reached
          rw [split']
          exact kept _ _ _ _ _ _ _ start moved

end Trace

end StudyRecord.Threads
