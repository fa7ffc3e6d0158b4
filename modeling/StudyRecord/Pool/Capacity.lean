import StudyRecord.Pool.ExactlyOnce

/-!
The capacity of the work queue: both `append`s compare the size with `m_max_requests`
by `>`, so that a caller may still push onto a queue that is full.
-/

namespace StudyRecord.ThreadPool

open Machine Runs Threads

section Capacity

variable {T : Type}

/-- The queue is within its capacity, and a caller that is about to answer `false` is
there with a full queue. -/
def WithinCapacity (system : System (Pool T) (Thread T)) : Prop :=
  (system.shared.workqueue.length : Int) ≤ system.shared.maxRequests ∧
    (.caller .full ∈ system.threads →
      (system.shared.workqueue.length : Int) = system.shared.maxRequests)

def RoomToPush (system : System (Pool T) (Thread T)) (turn : Nat × Choice T) : Prop :=
  ∀ request, system.threads[turn.1]? = some (.caller (.push request)) →
    (system.shared.workqueue.length : Int) < system.shared.maxRequests

structure Bounded (pool : Pool T) (threads : List (Thread T)) : Prop where
  positive : 0 < pool.maxRequests
  fits : pool.maxRequests ≤ intMax
  lock : threads.countP holds = pool.queuelocker.toNat
  sound : ∀ thread ∈ threads, Sound pool thread
  size : (pool.workqueue.length : Int) ≤ pool.maxRequests
  admitted : ∀ thread ∈ threads, thread ≠ .caller .full

theorem Bounded.toSize {pool : Pool T} {threads : List (Thread T)} (bounded : Bounded pool threads) :
    (toSize pool.maxRequests : Int) = pool.maxRequests := by
  have positive := bounded.positive
  have fits := bounded.fits
  simp only [intMax] at fits
  exact toSize_of_fits (by omega) (by omega)

theorem Bounded.within {system : System (Pool T) (Thread T)}
    (bounded : Bounded system.shared system.threads) : WithinCapacity system :=
  ⟨bounded.size, fun full => absurd rfl (bounded.admitted _ full)⟩

theorem run_size {pool pool' : Pool T} {place place' : Worker T} {choice : Choice T}
    (moved : runStep pool place choice = .ok (pool', place')) :
    pool'.workqueue.length ≤ pool.workqueue.length := by
  cases place with
  | popFront request =>
      cases queue : pool.workqueue with
      | nil => simp [runStep, queue] at moved
      | cons first rest =>
          simp only [runStep, queue, Except.ok.injEq, Prod.mk.injEq] at moved
          obtain ⟨rfl, rfl⟩ := moved
          simp
  | wait =>
      cases choice <;> simp only [runStep] at moved
      case early =>
        simp only [Except.ok.injEq, Prod.mk.injEq] at moved
        obtain ⟨rfl, rfl⟩ := moved
        exact Nat.le_refl _
      all_goals
        split at moved
        · contradiction
        · simp only [Except.ok.injEq, Prod.mk.injEq] at moved
          obtain ⟨rfl, rfl⟩ := moved
          exact Nat.le_refl _
  | lock | front =>
      simp only [runStep] at moved
      split at moved
      · contradiction
      · simp only [Except.ok.injEq, Prod.mk.injEq] at moved
        obtain ⟨rfl, rfl⟩ := moved
        exact Nat.le_refl _
  | check request =>
      cases request <;> simp only [runStep, Except.ok.injEq, Prod.mk.injEq] at moved <;>
        obtain ⟨rfl, rfl⟩ := moved <;> exact Nat.le_refl _
  | left => simp [runStep] at moved
  | _ =>
      simp only [runStep, Except.ok.injEq, Prod.mk.injEq] at moved
      obtain ⟨rfl, rfl⟩ := moved
      exact Nat.le_refl _

variable [DecidableEq T]

theorem append_size {pool pool' : Pool T} {place place' : Caller T} {choice : Choice T}
    (moved : appendStep pool place choice = .ok (pool', place')) :
    (pool'.workqueue = pool.workqueue ∧
        (place' = .full → toSize pool.maxRequests < pool.workqueue.length)) ∨
      ∃ request, place = .push request ∧ pool'.workqueue = pool.workqueue ++ [request] ∧
        place' = .unlock := by
  cases place with
  | idle answer =>
      cases choice <;> simp only [appendStep, Except.ok.injEq, Prod.mk.injEq, reduceCtorEq] at moved
      all_goals
        obtain ⟨rfl, rfl⟩ := moved
        exact .inl ⟨rfl, by simp⟩
  | lock request =>
      simp only [appendStep] at moved
      split at moved
      · contradiction
      · simp only [Except.ok.injEq, Prod.mk.injEq] at moved
        obtain ⟨rfl, rfl⟩ := moved
        exact .inl ⟨rfl, by simp⟩
  | size request =>
      simp only [appendStep] at moved
      split at moved <;> rename_i compared <;>
        simp only [Except.ok.injEq, Prod.mk.injEq] at moved <;> obtain ⟨rfl, rfl⟩ := moved
      · exact .inl ⟨rfl, fun _ => compared⟩
      · exact .inl ⟨rfl, by simp⟩
  | push request =>
      simp only [appendStep, Except.ok.injEq, Prod.mk.injEq] at moved
      obtain ⟨rfl, rfl⟩ := moved
      exact .inr ⟨request, rfl, rfl, rfl⟩
  | _ =>
      simp only [appendStep, Except.ok.injEq, Prod.mk.injEq] at moved
      obtain ⟨rfl, rfl⟩ := moved
      exact .inl ⟨rfl, by simp⟩

theorem micro_size {pool pool' : Pool T} {thread thread' : Thread T} {choice : Choice T}
    (moved : micro pool thread choice = .ok (pool', thread')) :
    (pool'.workqueue.length ≤ pool.workqueue.length ∧
        (thread' = .caller .full → toSize pool.maxRequests < pool.workqueue.length)) ∨
      ∃ request, thread = .caller (.push request) ∧
        pool'.workqueue.length = pool.workqueue.length + 1 ∧ thread' ≠ .caller .full := by
  cases thread with
  | caller place =>
      simp only [micro] at moved
      split at moved
      · contradiction
      · rename_i result
        simp only [Except.ok.injEq, Prod.mk.injEq] at moved
        obtain ⟨rfl, rfl⟩ := moved
        rcases append_size result with ⟨same, full⟩ | ⟨request, rfl, pushed, rfl⟩
        · refine .inl ⟨by rw [same], fun here => full ?_⟩
          exact Thread.caller.inj here
        · refine .inr ⟨request, rfl, ?_, by simp⟩
          rw [pushed, List.length_append, List.length_singleton]
  | worker place =>
      simp only [micro] at moved
      split at moved
      · contradiction
      · rename_i result
        simp only [Except.ok.injEq, Prod.mk.injEq] at moved
        obtain ⟨rfl, rfl⟩ := moved
        exact .inl ⟨run_size result, by simp⟩

theorem Bounded.step {pool pool' : Pool T} {front back : List (Thread T)}
    {thread thread' : Thread T} {choice : Choice T}
    (bounded : Bounded pool (front ++ thread :: back))
    (room : ∀ request, thread = .caller (.push request) →
      (pool.workqueue.length : Int) < pool.maxRequests)
    (moved : micro pool thread choice = .ok (pool', thread')) :
    Bounded pool' (front ++ thread' :: back) := by
  have exactly := bounded.toSize
  have size := bounded.size
  have fits := bounded.fits
  have locked (here : holds thread = true) : pool.queuelocker = true := by
    have some : 0 < (front ++ thread :: back).countP holds := countP_pos_of_split here
    rw [bounded.lock] at some
    have atMost := Bool.toNat_le pool.queuelocker
    exact Bool.toNat_eq_one.mp (by omega)
  have short : pool.workqueue.length ≤ semValueMax := by
    simp only [intMax] at fits
    simp only [semValueMax]
    omega
  have effect := micro_effect (bounded.sound thread (by simp)) locked short moved
  have alone : (front ++ thread :: back).countP holds ≤ 1 := by
    rw [bounded.lock]
    exact Bool.toNat_le _
  constructor
  · rw [effect.maxRequests]
    exact bounded.positive
  · rw [effect.maxRequests]
    exact fits
  · have here := countP_moved holds front back thread thread'
    have lock := bounded.lock
    have balance := effect.lock
    omega
  · refine forall_moved bounded.sound effect.sound fun other member sound => ?_
    cases here : holds thread with
    | true => exact sound_of_outside (others_outside alone here other member)
    | false => exact sound.congr (effect.queue here) effect.maxRequests
  · rw [effect.maxRequests]
    rcases micro_size moved with ⟨shorter, _⟩ | ⟨request, pushing, longer, _⟩
    · omega
    · have free := room request pushing
      omega
  · refine forall_moved bounded.admitted ?_ fun other member admitted => admitted
    intro full
    rcases micro_size moved with ⟨_, above⟩ | ⟨request, _, _, other⟩
    · have excess := above full
      omega
    · exact other full

theorem construct_bounded {threadNumber maxRequests : Int} {callers : Nat} {states : T → Int}
    {start : System (Pool T) (Thread T)} (fits : maxRequests ≤ intMax)
    (constructed : construct threadNumber maxRequests callers states = some start) :
    Bounded start.shared start.threads := by
  obtain ⟨positive, inv⟩ := construct_inv constructed
  simp only [construct] at constructed
  split at constructed
  · contradiction
  · simp only [Option.some.injEq] at constructed
    subst constructed
    refine ⟨positive, fits, inv.lock, inv.sound, ?_, fun thread member => ?_⟩
    · simp only [List.length_nil]
      omega
    · simp only [List.mem_append, List.mem_replicate] at member
      rintro rfl
      simp at member

theorem push_overfills {system : System (Pool T) (Thread T)} {turn : Nat × Choice T}
    (bounded : Bounded system.shared system.threads) (tight : ¬RoomToPush system turn) :
    ∃ next, step micro system turn = .ok next ∧ ¬WithinCapacity next := by
  simp only [RoomToPush, not_forall] at tight
  obtain ⟨request, found, full⟩ := tight
  obtain ⟨front, back, split, place⟩ := split_at found
  refine ⟨⟨{ system.shared with
      workqueue := system.shared.workqueue ++ [request]
      accepted := system.shared.accepted ++ [request] },
    front ++ .caller .unlock :: back⟩, ?_, ?_⟩
  · have same : system = ⟨system.shared, front ++ .caller (.push request) :: back⟩ := by
      rw [← split]
    have here : turn = (front.length, turn.2) := by rw [place]
    rw [same, here]
    exact step_of_split front back rfl
  · rintro ⟨within, _⟩
    simp only [List.length_append, List.length_singleton] at within
    have size := bounded.size
    omega

/-- The queue stays within its capacity in exactly the runs in which every caller that has
passed the test pushes onto a queue that is not full. -/
theorem capacity_kept_iff (threadNumber maxRequests : Int) (callers : Nat) (states : T → Int)
    (fits : maxRequests ≤ intMax) (start : System (Pool T) (Thread T))
    (constructed : construct threadNumber maxRequests callers states = some start)
    (turns : List (Nat × Choice T)) :
    Always (step micro) WithinCapacity start turns ↔ Along (step micro) RoomToPush start turns := by
  have preserved (system : System (Pool T) (Thread T)) (turn : Nat × Choice T)
      (next : System (Pool T) (Thread T)) (bounded : Bounded system.shared system.threads)
      (_ : True) (room : RoomToPush system turn) (taken : step micro system turn = .ok next) :
      Bounded next.shared next.threads := by
    obtain ⟨front, thread, back, thread', split, place, moved, split'⟩ := step_cases taken
    rw [split] at bounded
    rw [split']
    refine bounded.step (fun request pushing => room request ?_) moved
    rw [split, ← place, pushing]
    simp
  have broken (system : System (Pool T) (Thread T)) (turn : Nat × Choice T)
      (bounded : Bounded system.shared system.threads) (_ : True) (tight : ¬RoomToPush system turn) :
      ∃ next, step micro system turn = .ok next ∧ ¬WithinCapacity next :=
    push_overfills bounded tight
  refine always_iff_along (fun system bounded => Bounded.within bounded) preserved broken turns
    (construct_bounded fits constructed) ?_
  exact along_of_forall turns start fun _ _ _ => trivial

/-- With a capacity of one entry, two callers push. -/
theorem capacity_exceeded :
    ∃ start final : System (Pool Nat) (Thread Nat),
      construct 1 1 2 (fun _ => 0) = some start ∧
      run (step micro) start [(0, .append (some 7)), (0, .go), (0, .go), (0, .go), (0, .go),
        (1, .append (some 8)), (1, .go), (1, .go), (1, .go)] = .ok final ∧
      final.shared.maxRequests = 1 ∧ final.shared.workqueue = [some 7, some 8] ∧
      ¬WithinCapacity final := by
  refine ⟨_, _, rfl, rfl, rfl, rfl, ?_⟩
  rintro ⟨within, _⟩
  exact absurd within (by decide)

theorem capacity_kept_iff_single :
    Always (step micro) WithinCapacity
        (⟨⟨1, [], false, 0, false, fun _ => 0, [], [], []⟩,
          [.caller (.idle none), .worker .loop]⟩ : System (Pool Nat) (Thread Nat))
        [(0, .append (some 7)), (0, .go), (0, .go), (0, .go)] ↔
      Along (step micro) RoomToPush
        (⟨⟨1, [], false, 0, false, fun _ => 0, [], [], []⟩,
          [.caller (.idle none), .worker .loop]⟩ : System (Pool Nat) (Thread Nat))
        [(0, .append (some 7)), (0, .go), (0, .go), (0, .go)] :=
  capacity_kept_iff 1 1 1 (fun _ => 0) (by decide) _ rfl _

end Capacity

end StudyRecord.ThreadPool
