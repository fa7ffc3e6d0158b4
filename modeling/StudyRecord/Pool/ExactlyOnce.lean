import StudyRecord.Pool.ThreadPool

/-!
Every interleaving of callers and workers: requests are popped in the order in
which they were accepted, each of them once, and a request that waits in the
queue has a post, a worker or a caller that will bring it to one.
-/

namespace StudyRecord.ThreadPool

open Machine Runs Threads

section Places

variable {T : Type}

def holds : Thread T → Bool
  | .caller (.size _) | .caller .full | .caller (.push _) | .caller .unlock => true
  | .worker .empty | .worker .skip | .worker .front | .worker (.popFront _)
  | .worker (.unlock _) => true
  | _ => false

def seeking : Thread T → Bool
  | .worker .lock | .worker .empty | .worker .front | .worker (.popFront _) => true
  | _ => false

def posting : Thread T → Bool
  | .caller .unlock | .caller .post => true
  | _ => false

def carries [DecidableEq T] (request : T) : Thread T → Bool
  | .worker (.unlock held) | .worker (.check held) => held = some request
  | .worker (.process held) => held = request
  | _ => false

def Sound (pool : Pool T) : Thread T → Prop
  | .caller (.push _) => pool.workqueue.length ≤ toSize pool.maxRequests
  | .worker .front => pool.workqueue ≠ []
  | .worker (.popFront request) => pool.workqueue.head? = some request
  | _ => True

theorem sound_of_outside {pool : Pool T} {thread : Thread T} (outside : holds thread = false) :
    Sound pool thread := by
  rcases thread with place | place <;> cases place <;> trivial

theorem Sound.congr {pool pool' : Pool T} {thread : Thread T} (sound : Sound pool thread)
    (queue : pool'.workqueue = pool.workqueue) (bound : pool'.maxRequests = pool.maxRequests) :
    Sound pool' thread := by
  rcases thread with place | place <;> cases place <;>
    first | trivial | (simp only [Sound, queue, bound] at sound ⊢; exact sound)

end Places

section Effects

variable {T : Type} [DecidableEq T]

structure Effect (pool : Pool T) (thread : Thread T) (pool' : Pool T) (thread' : Thread T) :
    Prop where
  maxRequests : pool'.maxRequests = pool.maxRequests
  stop : pool'.stop = pool.stop
  lock : pool'.queuelocker.toNat + (holds thread).toNat =
    pool.queuelocker.toNat + (holds thread').toNat
  queue : holds thread = false → pool'.workqueue = pool.workqueue
  sound : Sound pool' thread'
  order : pool.accepted = pool.popped ++ pool.workqueue →
    pool'.accepted = pool'.popped ++ pool'.workqueue
  size : pool.workqueue.length ≤ toSize pool.maxRequests + 1 →
    pool'.workqueue.length ≤ toSize pool.maxRequests + 1
  wake : pool'.workqueue.length ≤ pool'.queuestat ∨
    pool'.workqueue.length + pool.queuestat + (seeking thread).toNat + (posting thread).toNat ≤
      pool.workqueue.length + pool'.queuestat + (seeking thread').toNat + (posting thread').toNat
  work : ∀ request, pool'.processed.count request + (carries request thread').toNat +
      pool.popped.count (some request) =
    pool.processed.count request + (carries request thread).toNat +
      pool'.popped.count (some request)

theorem append_effect {pool pool' : Pool T} {place place' : Caller T} {choice : Choice T}
    (sound : Sound pool (.caller place))
    (locked : holds (.caller place) = true → pool.queuelocker = true)
    (short : pool.workqueue.length ≤ semValueMax)
    (moved : appendStep pool place choice = .ok (pool', place')) :
    Effect pool (.caller place) pool' (.caller place') := by
  cases place with
  | idle answer =>
      cases choice <;> simp only [appendStep, Except.ok.injEq, Prod.mk.injEq, reduceCtorEq] at moved
      all_goals
        obtain ⟨rfl, rfl⟩ := moved
        constructor <;> simp [holds, seeking, posting, carries, Sound]
  | setState request state =>
      simp only [appendStep, Except.ok.injEq, Prod.mk.injEq] at moved
      obtain ⟨rfl, rfl⟩ := moved
      constructor <;> simp [holds, seeking, posting, carries, Sound]
  | lock request =>
      cases taken : mutexLock pool.queuelocker with
      | error stuck => simp [appendStep, taken] at moved
      | ok value =>
          obtain ⟨free, rfl⟩ := mutexLock_ok taken
          simp only [appendStep, taken, Except.ok.injEq, Prod.mk.injEq] at moved
          obtain ⟨rfl, rfl⟩ := moved
          constructor <;> simp [holds, seeking, posting, carries, Sound, free]
  | size request =>
      simp only [appendStep] at moved
      split at moved <;> rename_i compared <;>
        simp only [Except.ok.injEq, Prod.mk.injEq] at moved <;> obtain ⟨rfl, rfl⟩ := moved
      · constructor <;> simp [holds, seeking, posting, carries, Sound]
      · constructor <;> simp [holds, seeking, posting, carries, Sound]
        omega
  | full =>
      simp only [appendStep, Except.ok.injEq, Prod.mk.injEq] at moved
      obtain ⟨rfl, rfl⟩ := moved
      constructor <;> simp [holds, seeking, posting, carries, Sound, locked rfl]
  | push request =>
      simp only [appendStep, Except.ok.injEq, Prod.mk.injEq] at moved
      obtain ⟨rfl, rfl⟩ := moved
      have room : pool.workqueue.length ≤ toSize pool.maxRequests := sound
      refine ⟨rfl, rfl, rfl, by simp [holds], trivial, fun order => ?_, fun _ => ?_, .inr ?_,
        fun _ => rfl⟩
      · rw [order, List.append_assoc]
      · rw [List.length_append, List.length_singleton]
        omega
      · simp only [seeking, posting, List.length_append, List.length_singleton, Bool.toNat_true,
          Bool.toNat_false]
        omega
  | unlock =>
      simp only [appendStep, Except.ok.injEq, Prod.mk.injEq] at moved
      obtain ⟨rfl, rfl⟩ := moved
      constructor <;> simp [holds, seeking, posting, carries, Sound, locked rfl]
  | post =>
      simp only [appendStep, Except.ok.injEq, Prod.mk.injEq] at moved
      obtain ⟨rfl, rfl⟩ := moved
      constructor <;> simp [holds, seeking, posting, carries, Sound, semPost]
      split <;> omega

theorem run_effect {pool pool' : Pool T} {place place' : Worker T} {choice : Choice T}
    (sound : Sound pool (.worker place))
    (locked : holds (.worker place) = true → pool.queuelocker = true)
    (moved : runStep pool place choice = .ok (pool', place')) :
    Effect pool (.worker place) pool' (.worker place') := by
  cases place with
  | loop =>
      simp only [runStep, Except.ok.injEq, Prod.mk.injEq] at moved
      obtain ⟨rfl, rfl⟩ := moved
      split <;> constructor <;> simp [holds, seeking, posting, carries, Sound]
  | wait =>
      have waited (value : Nat) (taken : semWait pool.queuestat = .ok value) :
          Effect pool (.worker .wait) { pool with queuestat := value } (.worker .lock) := by
        have before := semWait_ok taken
        constructor <;> simp [holds, seeking, posting, carries, Sound]
        omega
      cases choice with
      | early =>
          simp only [runStep, Except.ok.injEq, Prod.mk.injEq] at moved
          obtain ⟨rfl, rfl⟩ := moved
          constructor <;> simp [holds, seeking, posting, carries, Sound]
      | _ =>
          cases taken : semWait pool.queuestat with
          | error stuck => simp [runStep, taken] at moved
          | ok value =>
              simp only [runStep, taken, Except.ok.injEq, Prod.mk.injEq] at moved
              obtain ⟨rfl, rfl⟩ := moved
              exact waited value taken
  | lock =>
      cases taken : mutexLock pool.queuelocker with
      | error stuck => simp [runStep, taken] at moved
      | ok value =>
          obtain ⟨free, rfl⟩ := mutexLock_ok taken
          simp only [runStep, taken, Except.ok.injEq, Prod.mk.injEq] at moved
          obtain ⟨rfl, rfl⟩ := moved
          constructor <;> simp [holds, seeking, posting, carries, Sound, free]
  | empty =>
      simp only [runStep, Except.ok.injEq, Prod.mk.injEq] at moved
      obtain ⟨rfl, rfl⟩ := moved
      cases queue : pool.workqueue with
      | nil => constructor <;> simp [holds, seeking, posting, carries, Sound, queue]
      | cons request rest => constructor <;> simp [holds, seeking, posting, carries, Sound, queue]
  | skip =>
      simp only [runStep, Except.ok.injEq, Prod.mk.injEq] at moved
      obtain ⟨rfl, rfl⟩ := moved
      constructor <;> simp [holds, seeking, posting, carries, Sound, locked rfl]
  | front =>
      cases first : pool.workqueue.head? with
      | none => simp [runStep, first] at moved
      | some request =>
          simp only [runStep, first, Except.ok.injEq, Prod.mk.injEq] at moved
          obtain ⟨rfl, rfl⟩ := moved
          constructor <;> simp [holds, seeking, posting, carries, Sound, first]
  | popFront request =>
      cases queue : pool.workqueue with
      | nil => simp [runStep, queue] at moved
      | cons first rest =>
          have same : first = request := by simpa [Sound, queue] using sound
          subst same
          simp only [runStep, queue, Except.ok.injEq, Prod.mk.injEq] at moved
          obtain ⟨rfl, rfl⟩ := moved
          refine ⟨rfl, rfl, rfl, by simp [holds], trivial, fun order => ?_, fun size => ?_, .inr ?_,
            fun other => ?_⟩
          · rw [order, queue]
            simp
          · rw [queue, List.length_cons] at size
            simp only
            omega
          · simp only [seeking, posting, queue, List.length_cons, Bool.toNat_true, Bool.toNat_false]
            omega
          · rw [List.count_append, List.count_singleton]
            by_cases same : first = some other
            · simp only [carries, same, beq_self_eq_true, if_true, decide_true, Bool.toNat_true,
                Bool.toNat_false]
              omega
            · simp only [carries, same, beq_iff_eq, if_false, decide_false, Bool.toNat_false]
              omega
  | unlock request =>
      simp only [runStep, Except.ok.injEq, Prod.mk.injEq] at moved
      obtain ⟨rfl, rfl⟩ := moved
      constructor <;> simp [holds, seeking, posting, carries, Sound, locked rfl]
  | check request =>
      cases request <;> simp only [runStep, Except.ok.injEq, Prod.mk.injEq] at moved <;>
        obtain ⟨rfl, rfl⟩ := moved <;> constructor <;>
          simp [holds, seeking, posting, carries, Sound]
  | process request =>
      simp only [runStep, Except.ok.injEq, Prod.mk.injEq] at moved
      obtain ⟨rfl, rfl⟩ := moved
      refine ⟨rfl, rfl, rfl, fun _ => rfl, trivial, id, id, .inr (Nat.le_refl _), fun other => ?_⟩
      rw [List.count_append, List.count_singleton]
      by_cases same : request = other
      · simp only [carries, same, beq_self_eq_true, if_true, decide_true, Bool.toNat_true,
          Bool.toNat_false]
      · simp only [carries, same, beq_iff_eq, if_false, decide_false, Bool.toNat_false]
  | left => simp [runStep] at moved

theorem micro_effect {pool pool' : Pool T} {thread thread' : Thread T} {choice : Choice T}
    (sound : Sound pool thread) (locked : holds thread = true → pool.queuelocker = true)
    (short : pool.workqueue.length ≤ semValueMax)
    (moved : micro pool thread choice = .ok (pool', thread')) :
    Effect pool thread pool' thread' := by
  cases thread with
  | caller place =>
      simp only [micro] at moved
      split at moved
      · contradiction
      · rename_i result
        simp only [Except.ok.injEq, Prod.mk.injEq] at moved
        obtain ⟨rfl, rfl⟩ := moved
        exact append_effect sound locked short result
  | worker place =>
      simp only [micro] at moved
      split at moved
      · contradiction
      · rename_i result
        simp only [Except.ok.injEq, Prod.mk.injEq] at moved
        obtain ⟨rfl, rfl⟩ := moved
        exact run_effect sound locked result

end Effects

section Runs

variable {T : Type} [DecidableEq T]

structure Inv (maxRequests : Int) (pool : Pool T) (threads : List (Thread T)) : Prop where
  bound : pool.maxRequests = maxRequests
  running : pool.stop = false
  lock : threads.countP holds = pool.queuelocker.toNat
  sound : ∀ thread ∈ threads, Sound pool thread
  order : pool.accepted = pool.popped ++ pool.workqueue
  size : pool.workqueue.length ≤ toSize pool.maxRequests + 1
  wake : pool.workqueue.length ≤
    pool.queuestat + threads.countP seeking + threads.countP posting
  work : ∀ request, pool.popped.count (some request) =
    pool.processed.count request + threads.countP (carries request)

theorem Inv.step {maxRequests : Int} {pool pool' : Pool T} {front back : List (Thread T)}
    {thread thread' : Thread T} {choice : Choice T}
    (inv : Inv maxRequests pool (front ++ thread :: back))
    (below : toSize maxRequests < semValueMax)
    (moved : micro pool thread choice = .ok (pool', thread')) :
    Inv maxRequests pool' (front ++ thread' :: back) := by
  have locked (here : holds thread = true) : pool.queuelocker = true := by
    have some : 0 < (front ++ thread :: back).countP holds := countP_pos_of_split here
    rw [inv.lock] at some
    have atMost := Bool.toNat_le pool.queuelocker
    exact Bool.toNat_eq_one.mp (by omega)
  have short : pool.workqueue.length ≤ semValueMax := by
    have size := inv.size
    rw [inv.bound] at size
    omega
  have effect := micro_effect (inv.sound thread (by simp)) locked short moved
  have alone : (front ++ thread :: back).countP holds ≤ 1 := by
    rw [inv.lock]
    exact Bool.toNat_le _
  have count (place : Thread T → Bool) := countP_moved place front back thread thread'
  constructor
  · exact effect.maxRequests.trans inv.bound
  · exact effect.stop.trans inv.running
  · have here := count holds
    have lock := inv.lock
    have balance := effect.lock
    omega
  · refine forall_moved inv.sound effect.sound fun other member sound => ?_
    -- only the thread with the lock changes the queue
    cases here : holds thread with
    | true => exact sound_of_outside (others_outside alone here other member)
    | false => exact sound.congr (effect.queue here) effect.maxRequests
  · exact effect.order inv.order
  · rw [effect.maxRequests]
    exact effect.size inv.size
  · have seekers := count seeking
    have posters := count posting
    have wake := inv.wake
    rcases effect.wake with enough | balance <;> omega
  · intro request
    have here := count (carries request)
    have work := inv.work request
    have balance := effect.work request
    omega

theorem construct_inv {threadNumber maxRequests : Int} {callers : Nat} {states : T → Int}
    {start : System (Pool T) (Thread T)}
    (constructed : construct threadNumber maxRequests callers states = some start) :
    0 < maxRequests ∧ Inv maxRequests start.shared start.threads := by
  simp only [construct] at constructed
  split at constructed
  · contradiction
  · rename_i valid
    simp only [Option.some.injEq] at constructed
    subst constructed
    refine ⟨by omega, rfl, rfl, ?_, ?_, rfl, by simp, by simp, ?_⟩
    · simp [holds, List.countP_replicate]
    · intro thread member
      rcases List.mem_append.mp member with caller | worker
      · rw [List.eq_of_mem_replicate caller]
        trivial
      · rw [List.eq_of_mem_replicate worker]
        trivial
    · simp [carries, List.countP_replicate]

theorem run_inv {threadNumber maxRequests : Int} {callers : Nat} {states : T → Int}
    {start final : System (Pool T) (Thread T)} {turns : List (Nat × Choice T)}
    (constructed : construct threadNumber maxRequests callers states = some start)
    (below : maxRequests < semValueMax) (reached : run (step micro) start turns = .ok final) :
    Inv maxRequests final.shared final.threads := by
  obtain ⟨positive, inv⟩ := construct_inv constructed
  have fits : (toSize maxRequests : Int) = maxRequests :=
    toSize_of_fits (by omega) (by simp only [semValueMax] at below; omega)
  have small : toSize maxRequests < semValueMax := by omega
  exact run_keeps (fun _ _ _ _ _ _ _ inv moved => inv.step small moved) turns inv reached

end Runs

end StudyRecord.ThreadPool
