import StudyRecord.Pool.Forgotten

/-!
The loop that chooses a child for a connection: it comes to a child that is left, if there
is one, and otherwise it goes around for ever.
-/

namespace StudyRecord.ProcessPool

open Runs Pool

def SomeChild (pool : Pool) : Prop := ∃ child < pool.processNumber, pool.pid child ≠ -1

/-- The loop ends with a child that is left if there is one, and otherwise the pool stops. -/
structure Selects (pool : Pool) : Prop where
  ends : ∃ fuel child, pool.allocateFrom fuel pool.subProcessCounter = some child ∧
    (pool.pid child ≠ -1 ↔ SomeChild pool)
  stops : ¬SomeChild pool → ∃ next, pool.parentListen = .ok next ∧ next.stop = true

def dispatches (pool : Pool) : Event → Prop
  | .parentListen => pool.batch.head? = some .listen
  | _ => False

theorem allocateFrom_none {pool : Pool} (nobody : ¬SomeChild pool) (fuel : Nat) {from' : Nat}
    (inside : from' < pool.processNumber) : pool.allocateFrom fuel from' = none := by
  cases found : pool.allocateFrom fuel from' with
  | none => rfl
  | some child =>
      obtain ⟨bound, live⟩ := allocateFrom_live inside found
      exact absurd ⟨child, bound, live⟩ nobody

theorem selects_iff {pool : Pool} (inside : pool.subProcessCounter < pool.processNumber) :
    Selects pool ↔ SomeChild pool := by
  constructor
  · intro selects
    obtain ⟨fuel, child, found, _⟩ := selects.ends
    obtain ⟨bound, live⟩ := allocateFrom_live inside found
    exact ⟨child, bound, live⟩
  · intro left
    have ⟨child, bound, live⟩ := left
    obtain ⟨chosen, found⟩ := allocate_finds inside bound live
    refine ⟨⟨pool.processNumber, chosen, found, ?_⟩, fun nobody => absurd left nobody⟩
    exact iff_of_true (allocate_live inside found).2 left

/-- Every choice of a run ends, and with the right child, exactly if a child is left
whenever the parent dispatches a connection. -/
theorem selects_along_iff (processNumber : Nat) (pid : Nat → Int) (some' : 0 < processNumber)
    (events : List Event) :
    Along step (fun pool event => dispatches pool event → Selects pool)
        (start processNumber pid) events ↔
      Along step (fun pool event => dispatches pool event → SomeChild pool)
        (start processNumber pid) events := by
  have same (pool : Pool) (event : Event) (accounted : Accounted pool) (_ : True) :
      (dispatches pool event → Selects pool) ↔ (dispatches pool event → SomeChild pool) :=
    imp_congr_right fun _ => selects_iff accounted.counter
  have preserved (pool : Pool) (event : Event) (next : Pool) (accounted : Accounted pool)
      (_ : True) (_ : dispatches pool event → SomeChild pool) (taken : step pool event = .ok next) :
      Accounted next :=
    (accounted.step taken).accounted
  refine along_congr same preserved events (accounted_start some' pid) ?_
  exact along_of_forall events _ fun _ _ _ => trivial

theorem selects_along_iff_one :
    Along step (fun pool event => dispatches pool event → Selects pool) (start 1 fun _ => 50)
        [.connect, .parentWait [.listen], .parentListen] ↔
      Along step (fun pool event => dispatches pool event → SomeChild pool) (start 1 fun _ => 50)
        [.connect, .parentWait [.listen], .parentListen] :=
  selects_along_iff 1 (fun _ => 50) (by decide) _

/-- The only child is reaped in the batch that also reports a connection. -/
theorem selection_spins :
    ∃ pool, run step (start 1 fun _ => 50)
        [.connect, .childExit 0, .parentWait [.signal, .listen], .parentSignal (some [50])] =
          .ok pool ∧
      dispatches pool .parentListen ∧
      (∀ fuel, pool.allocateFrom fuel pool.subProcessCounter = none) ∧
      pool.parentListen = .error .spins ∧ ¬Selects pool := by
  refine ⟨_, rfl, rfl, fun fuel => ?_, rfl, fun selects => ?_⟩
  · refine allocateFrom_none ?_ fuel (by decide)
    rintro ⟨child, bound, live⟩
    obtain rfl : child = 0 := Nat.lt_one_iff.mp bound
    exact live rfl
  · obtain ⟨child, bound, live⟩ := (selects_iff (by decide)).mp selects
    obtain rfl : child = 0 := Nat.lt_one_iff.mp bound
    exact live rfl

end StudyRecord.ProcessPool
