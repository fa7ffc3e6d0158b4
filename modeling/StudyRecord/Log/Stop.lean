import StudyRecord.Log.Order

/-!
Stopping the logger. A worker leaves when it finds the stop flag set and the queue
empty; a caller that has found the flag clear may still be on its way to the queue,
and what it stores after the last worker has gone stays there.
-/

namespace StudyRecord.Logger

open Machine Runs Threads

def AllLeft (threads : List Thread) : Prop :=
  ∀ thread ∈ threads, isWorker thread = true → thread = .worker .left

def inserting : Thread → Bool
  | .caller (.insert _) => true
  | _ => false

def Drained (log : Log) : Prop :=
  log.queue.removed = log.queue.stored ∧ ∀ entry ∈ log.queue.stored.zipIdx, entry ∈ log.file

def NothingBehind (system : System Log Thread) : Prop :=
  AllLeft system.threads → (∀ thread ∈ system.threads, inserting thread = false) →
    Drained system.shared

/-- The insert that finishes with this turn is not the last one after the workers have left. -/
def OnTime (system : System Log Thread) (turn : Nat × Choice) : Prop :=
  ∀ text, turn.2 = .go text → system.threads[turn.1]? = some (.caller (.insert .items)) →
    AllLeft system.threads → 2 ≤ system.threads.countP inserting

section Steps

theorem held_of_left {threads : List Thread} (left : AllLeft threads) :
    ∀ thread ∈ threads, held thread = none := by
  intro thread member
  cases here : held thread with
  | none => rfl
  | some entry =>
      rw [left thread member (isWorker_of_held here)] at here
      cases here

theorem Inv.drained {size : Int} {log : Log} {threads : List Thread} (inv : Inv size log threads)
    (left : AllLeft threads) (empty : log.queue.removed = log.queue.stored) : Drained log := by
  refine ⟨empty, ?_⟩
  rintro ⟨text, ticket⟩ member
  have here := List.mem_zipIdx_iff_getElem?.mp member
  obtain ⟨inside, _⟩ := List.getElem?_eq_some_iff.mp here
  have tickets := inv.tickets ticket
  have none : threads.countP (carries ticket) = 0 := by
    rw [List.countP_eq_zero]
    intro thread among
    simp [carries_of_none (held_of_left left thread among)]
  have taken : ticket < log.queue.removed.length := by
    rw [empty]
    exact inside
  simp only [none, taken, decide_true, Bool.toNat_true, Nat.add_zero] at tickets
  have written : ticket ∈ log.file.map Prod.snd := List.count_pos_iff.mp (by omega)
  obtain ⟨entry, found, rfl⟩ := List.mem_map.mp written
  have same := inv.file entry found
  obtain rfl : text = entry.1 := Option.some.inj (here.symm.trans same)
  exact found

theorem workerStep_left {log log' : Log} {place : Worker} {choice : Choice}
    (moved : workerStep log place choice = .ok (log', .left)) :
    log' = log ∧ BlockQueue.empty log.queue = true := by
  cases place <;> cases choice <;> simp only [workerStep, reduceCtorEq] at moved
  case testEmpty text =>
    split at moved
    · rename_i empty
      simp only [Except.ok.injEq, Prod.mk.injEq] at moved
      exact ⟨moved.1.symm, empty⟩
    · simp at moved
  case remove place text =>
    split at moved
    · simp at moved
    · rename_i placeAfter _
      cases placeAfter <;> simp at moved
  all_goals
    try split at moved
    all_goals simp at moved

theorem addItemStep_inserting {log log' : Log} {place place' : Caller} {choice : Choice}
    (moved : addItemStep log place choice = .ok (log', place'))
    (outside : inserting (.caller place') = false) :
    (inserting (.caller place) = false ∧ log'.queue = log.queue) ∨
    (place = .insert .items ∧ ∃ text, choice = .go text) := by
  cases place <;> cases choice <;> simp only [addItemStep, reduceCtorEq] at moved
  case insert place text =>
    split at moved
    · simp at moved
    · rename_i queue placeAfter taken
      simp only [Except.ok.injEq, Prod.mk.injEq] at moved
      obtain ⟨rfl, rfl⟩ := moved
      obtain ⟨_, last, _⟩ := BlockQueue.insertStep_cases taken
      cases placeAfter with
      | none => exact .inr ⟨by rw [last.mp rfl], text, rfl⟩
      | some placeAfter => cases outside
  case push item time =>
    simp only [Except.ok.injEq, Prod.mk.injEq] at moved
    obtain ⟨rfl, rfl⟩ := moved
    cases outside
  all_goals
    try split at moved
    all_goals simp only [Except.ok.injEq, Prod.mk.injEq, reduceCtorEq] at moved
    all_goals
      obtain ⟨rfl, rfl⟩ := moved
      exact .inl ⟨rfl, rfl⟩

theorem Inv.nothingBehind_step {size : Int} {system next : System Log Thread}
    {turn : Nat × Choice} (inv' : Inv size next.shared next.threads) (before : NothingBehind system)
    (onTime : OnTime system turn) (taken : Threads.step micro system turn = .ok next) :
    NothingBehind next := by
  intro left' quiet'
  refine inv'.drained left' ?_
  obtain ⟨front, thread, back, thread', split, place, moved, split'⟩ := step_cases taken
  rw [split'] at left' quiet'
  have same (other : isWorker thread = false) : AllLeft system.threads := by
    rw [split]
    refine forall_moved left' ?_ fun _ _ left => left
    intro worker
    rw [other] at worker
    contradiction
  have unchanged (other : isWorker thread = false) (outside : inserting thread = false)
      (queue : next.shared.queue = system.shared.queue) :
      next.shared.queue.removed = next.shared.queue.stored := by
    have quiet : ∀ thread ∈ system.threads, inserting thread = false := by
      rw [split]
      exact forall_moved quiet' outside fun _ _ quiet => quiet
    rw [queue]
    exact (before (same other) quiet).1
  rcases micro_cases moved with
    ⟨caller, caller', rfl, rfl, step⟩ | ⟨worker, worker', rfl, rfl, step⟩ | ⟨rfl, rfl, step⟩
  · rcases addItemStep_inserting step (quiet' _ (by simp)) with ⟨outside, queue⟩ | ⟨rfl, text, going⟩
    · exact unchanged rfl outside queue
    · -- this insert was not the only one
      have atTurn : system.threads[turn.1]? = some (.caller (.insert .items)) := by
        rw [split, ← place]
        simp
      have several := onTime text going atTurn (same rfl)
      rw [split] at several
      have count := countP_moved inserting front back (.caller (.insert .items)) (.caller caller')
      have none : (front ++ Thread.caller caller' :: back).countP inserting = 0 := by
        rw [List.countP_eq_zero]
        intro other member
        simp [quiet' other member]
      have atMost := Bool.toNat_le (inserting (.caller (.insert .items)))
      omega
  · -- a worker that has left has seen the queue empty and at rest
    obtain rfl : worker' = .left := by
      have gone := left' (.worker worker') (by simp) rfl
      cases gone
      rfl
    obtain ⟨still, empty⟩ := workerStep_left step
    rw [← still] at empty
    have full : (next.shared.queue.slots : Int) = next.shared.queue.maxSize :=
      of_decide_eq_true empty
    rw [inv'.queue.size] at full
    exact (inv'.queue.quiet (by omega)).1
  · exact unchanged rfl rfl (by rw [step])

theorem Inv.nothingBehind_broken {size : Int} {system : System Log Thread} {turn : Nat × Choice}
    (inv : Inv size system.shared system.threads) (late : ¬OnTime system turn) :
    ∃ next, Threads.step micro system turn = .ok next ∧ ¬NothingBehind next := by
  simp only [OnTime, not_forall] at late
  obtain ⟨text, going, atTurn, left, single⟩ := late
  obtain ⟨index, choice⟩ := turn
  simp only at going atTurn
  subst going
  obtain ⟨front, back, split, place⟩ := split_at atTurn
  subst place
  let queue := { system.shared.queue with items := semPost system.shared.queue.items }
  have moved : micro system.shared (.caller (.insert .items)) (.go text) =
      .ok ({ system.shared with queue }, .caller .idle) := rfl
  refine ⟨⟨{ system.shared with queue }, front ++ .caller .idle :: back⟩, ?_, fun behind => ?_⟩
  · have turn := step_of_split front back moved
    rw [← split] at turn
    exact turn
  · rw [split] at left single
    have left' : AllLeft (front ++ .caller .idle :: back) :=
      forall_moved left (fun worker => nomatch worker) fun _ _ left => left
    have quiet : ∀ thread ∈ front ++ Thread.caller .idle :: back, inserting thread = false := by
      intro thread member
      have count := countP_moved inserting front back (.caller (.insert .items)) (.caller .idle)
      have none : (front ++ Thread.caller .idle :: back).countP inserting = 0 := by
        simp only [inserting, Bool.toNat_true, Bool.toNat_false] at count
        omega
      simpa using List.countP_eq_zero.mp none thread member
    obtain ⟨empty, _⟩ := behind left' quiet
    -- what this insert has stored is still in the ring
    have content := inv.queue.content
    have some : 0 < (system.threads.map queuePlace).countP BlockQueue.filled :=
      List.countP_pos_iff.mpr ⟨.inserting .items, by simp [split, queuePlace], rfl⟩
    have lengths := congrArg List.length empty
    simp only [queue] at lengths
    omega

end Steps

/-- Nothing is left behind exactly in the runs in which no insert finishes, as the last one
in progress, after every worker has left. -/
theorem nothing_left_behind_iff (writeThreadCount blockQueueSize : Int) (valid : 0 ≤ blockQueueSize)
    (fits : blockQueueSize ≤ intMax) (others : List Thread)
    (fresh : ∀ thread ∈ others, Fresh thread) (turns : List (Nat × Choice)) :
    Always (step micro) NothingBehind
      (init true writeThreadCount blockQueueSize others) turns ↔
    Along (step micro) OnTime (init true writeThreadCount blockQueueSize others) turns := by
  have holds (system : System Log Thread) (both : Inv blockQueueSize system.shared system.threads ∧
      NothingBehind system) : NothingBehind system := both.2
  have start := init_inv writeThreadCount blockQueueSize fresh
  refine always_iff_along holds (fun system turn next both _ onTime taken => ?_)
    (fun system turn both _ late => both.1.nothingBehind_broken late) turns
    ⟨start, fun left _ => start.drained left rfl⟩ (along_of_forall turns _ fun _ _ _ => trivial)
  have inv' := inv_turn valid fits both.1 taken
  exact ⟨inv', inv'.nothingBehind_step both.2 onTime taken⟩

/-- The message passes the test of the flag, the logger is stopped, the workers leave, and
only then the message enters the queue. -/
def lateMessage : List (Nat × Choice) :=
  [(0, .log "m"), (0, .go "t"), (1, .go ""), (2, .go ""), (2, .go ""), (3, .go ""), (3, .go ""),
    (4, .go ""), (4, .go "")] ++ List.replicate 7 (0, .go "t")

theorem message_left_behind :
    ∃ final, run (step micro) (init true 3 300 [.caller .idle, .stopper false]) lateMessage =
        .ok final ∧
      final.threads = [.caller .idle, .stopper true, .worker .left, .worker .left, .worker .left] ∧
      final.shared.queue.stored = ["t m"] ∧ final.shared.queue.removed = [] ∧
      final.shared.file = [] ∧
      ¬Always (step micro) NothingBehind (init true 3 300 [.caller .idle, .stopper false])
        lateMessage := by
  have seen : (run (step micro) (init true 3 300 [.caller .idle, .stopper false])
      lateMessage).toOption.map (fun final => (final.threads, final.shared.queue.stored,
        final.shared.queue.removed, final.shared.file)) =
      some ([.caller .idle, .stopper true, .worker .left, .worker .left, .worker .left],
        ["t m"], [], []) := by decide +kernel
  cases reached : run (step micro) (init true 3 300 [.caller .idle, .stopper false])
      lateMessage with
  | error stuck => simp [reached, Except.toOption] at seen
  | ok final =>
      simp only [reached, Except.toOption, Option.map_some, Option.some.injEq, Prod.mk.injEq] at seen
      obtain ⟨threads, stored, removed, file⟩ := seen
      refine ⟨final, rfl, threads, stored, removed, file, fun always => ?_⟩
      have behind : NothingBehind final := always_final lateMessage always reached
      obtain ⟨empty, _⟩ := behind (by simp [threads, AllLeft, isWorker])
        (by simp [threads, inserting])
      rw [stored, removed] at empty
      contradiction

theorem nothing_left_behind_iff_late :
    Always (step micro) NothingBehind (init true 3 300 [.caller .idle, .stopper false])
      lateMessage ↔
    Along (step micro) OnTime (init true 3 300 [.caller .idle, .stopper false]) lateMessage :=
  nothing_left_behind_iff 3 300 (by decide) (by decide) [.caller .idle, .stopper false] (by decide)
    lateMessage

end StudyRecord.Logger
