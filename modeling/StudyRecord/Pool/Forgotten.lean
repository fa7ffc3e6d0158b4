import StudyRecord.Pool.ProcessPool
import Mathlib.Algebra.Order.BigOperators.Group.Finset

/-!
Which clients the process pool forgets. Each client in the queue has a report or a request
under way for it or has been forgotten, and none is forgotten exactly if every arrival
is reported by itself.
-/

namespace StudyRecord.ProcessPool

open Runs Pool

def owed (pool : Pool) (child : Nat) : Nat :=
  if pool.running child then
    (pool.pipeReady child).toNat + (pool.reported child).toNat
  else
    0

def total (pool : Pool) : Nat := ∑ child ∈ Finset.range pool.processNumber, owed pool child

/-- Each client in the queue is stood for by one report of the socket, by one report of
a pipe, or has been forgotten. -/
structure Accounted (pool : Pool) : Prop where
  balance : pool.queue =
    pool.ready.toNat + pool.batch.count .listen + total pool + pool.forgotten
  counter : pool.subProcessCounter < pool.processNumber

theorem total_changed {pool next : Pool} {child : Nat} (inside : child < pool.processNumber)
    (size : next.processNumber = pool.processNumber)
    (same : ∀ other, other ≠ child → owed next other = owed pool other) :
    total next + owed pool child = total pool + owed next child := by
  have member := Finset.mem_range.mpr inside
  rw [total, total, size, ← Finset.add_sum_erase _ (owed next) member,
    ← Finset.add_sum_erase _ (owed pool) member]
  have rest : ∑ k ∈ (Finset.range pool.processNumber).erase child, owed next k =
      ∑ k ∈ (Finset.range pool.processNumber).erase child, owed pool k :=
    Finset.sum_congr rfl fun k among => same k (Finset.ne_of_mem_erase among)
  omega

theorem allocateFrom_live {pool : Pool} {fuel from' child : Nat}
    (inside : from' < pool.processNumber) (found : pool.allocateFrom fuel from' = some child) :
    child < pool.processNumber ∧ pool.pid child ≠ -1 := by
  induction fuel generalizing from' with
  | zero => simp [allocateFrom] at found
  | succ fuel ih =>
      have next : (from' + 1) % pool.processNumber < pool.processNumber :=
        Nat.mod_lt _ (by omega)
      by_cases live : pool.pid from' ≠ -1
      · simp only [allocateFrom, if_pos live] at found
        obtain rfl := Option.some.inj found
        exact ⟨inside, live⟩
      · simp only [allocateFrom, if_neg live, if_pos next.ne] at found
        exact ih next found

theorem allocate_live {pool : Pool} (inside : pool.subProcessCounter < pool.processNumber)
    {child : Nat} (found : pool.allocate = some child) :
    child < pool.processNumber ∧ pool.pid child ≠ -1 :=
  allocateFrom_live inside found

theorem allocateFrom_finds {pool : Pool} {from' fuel : Nat} (ahead : Nat)
    (inside : from' < pool.processNumber)
    (live : pool.pid ((from' + ahead) % pool.processNumber) ≠ -1) (enough : ahead < fuel) :
    ∃ child, pool.allocateFrom fuel from' = some child := by
  induction ahead generalizing from' fuel with
  | zero =>
      obtain ⟨fuel, rfl⟩ : ∃ less, fuel = less + 1 := ⟨fuel - 1, by omega⟩
      rw [Nat.add_zero, Nat.mod_eq_of_lt inside] at live
      exact ⟨from', by simp only [allocateFrom, if_pos live]⟩
  | succ ahead ih =>
      obtain ⟨fuel, rfl⟩ : ∃ less, fuel = less + 1 := ⟨fuel - 1, by omega⟩
      have next : (from' + 1) % pool.processNumber < pool.processNumber :=
        Nat.mod_lt _ (by omega)
      by_cases here : pool.pid from' ≠ -1
      · exact ⟨from', by simp only [allocateFrom, if_pos here]⟩
      · have live' : pool.pid (((from' + 1) % pool.processNumber + ahead) % pool.processNumber) ≠
            -1 := by
          rwa [Nat.mod_add_mod, Nat.add_assoc, Nat.add_comm 1]
        obtain ⟨child, found⟩ := ih next live' (show ahead < fuel by omega)
        exact ⟨child, by simpa only [allocateFrom, if_neg here, if_pos next.ne] using found⟩

theorem allocate_finds {pool : Pool} (inside : pool.subProcessCounter < pool.processNumber)
    {child : Nat} (bound : child < pool.processNumber) (live : pool.pid child ≠ -1) :
    ∃ found, pool.allocate = some found := by
  by_cases behind : pool.subProcessCounter ≤ child
  · refine allocateFrom_finds (child - pool.subProcessCounter) inside ?_ (by omega)
    rwa [Nat.add_sub_cancel' behind, Nat.mod_eq_of_lt bound]
  · refine allocateFrom_finds (child + pool.processNumber - pool.subProcessCounter) inside ?_
      (by omega)
    have around : pool.subProcessCounter + (child + pool.processNumber - pool.subProcessCounter) =
        child + pool.processNumber := by
      omega
    rwa [around, Nat.add_mod_right, Nat.mod_eq_of_lt bound]

structure Kept (pool next : Pool) (event : Event) : Prop where
  accounted : Accounted next
  more : pool.forgotten ≤ next.forgotten
  same : next.forgotten = pool.forgotten ↔ ReportedAlone pool event

theorem Accounted.connect {pool : Pool} (accounted : Accounted pool) :
    Kept pool pool.connect .connect := by
  have balance := accounted.balance
  refine ⟨⟨?_, accounted.counter⟩, ?_, ?_⟩
  · change pool.queue + 1 = 1 + pool.batch.count .listen + total pool +
      (pool.forgotten + pool.ready.toNat)
    omega
  · exact Nat.le_add_right ..
  · simp only [Pool.connect, ReportedAlone]
    cases pool.ready <;> simp

theorem Accounted.parentWait {pool next : Pool} {batch : List Report}
    (accounted : Accounted pool) (taken : pool.parentWait batch = .ok next) :
    Kept pool next (.parentWait batch) := by
  simp only [Pool.parentWait] at taken
  split at taken
  case isFalse => contradiction
  case isTrue possible =>
    obtain ⟨empty, _, nodup, ready⟩ := possible
    obtain rfl := Except.ok.inj taken
    have balance := accounted.balance
    rw [empty, List.count_nil] at balance
    refine ⟨⟨?_, accounted.counter⟩, le_refl _, iff_of_true rfl trivial⟩
    change pool.queue = (if .listen ∈ batch then false else pool.ready).toNat +
      batch.count .listen + total pool + pool.forgotten
    by_cases among : .listen ∈ batch
    · rw [ready among, Bool.toNat_true] at balance
      rw [if_pos among, List.count_eq_one_of_mem nodup among, Bool.toNat_false]
      omega
    · rw [if_neg among, List.count_eq_zero.mpr among]
      exact balance

theorem send_spec {pool : Pool} {child : Nat} (inside : child < pool.processNumber) :
    total (pool.send child) + (pool.send child).forgotten = total pool + pool.forgotten + 1 ∧
      ((pool.send child).forgotten = pool.forgotten ↔
        pool.running child = true ∧ pool.pipeReady child = false) := by
  by_cases running : pool.running child = true
  · have sent : pool.send child = { pool with
        pipe := Function.update pool.pipe child (pool.pipe child + 1)
        pipeReady := Function.update pool.pipeReady child true
        forgotten := pool.forgotten + (pool.pipeReady child).toNat } := if_pos running
    have same (other : Nat) (different : other ≠ child) :
        owed (pool.send child) other = owed pool other := by
      simp only [sent, owed, Function.update_of_ne different]
    have sum := total_changed inside (by rw [sent]) same
    have before : owed pool child = (pool.pipeReady child).toNat + (pool.reported child).toNat :=
      if_pos running
    have after : owed (pool.send child) child = 1 + (pool.reported child).toNat := by
      simp only [sent, owed, if_pos running, Function.update_self, Bool.toNat_true]
    have count : (pool.send child).forgotten = pool.forgotten + (pool.pipeReady child).toNat := by
      rw [sent]
    constructor
    · omega
    · rw [count]
      cases pool.pipeReady child <;> simp [running]
  · have lost : pool.send child = { pool with forgotten := pool.forgotten + 1 } := if_neg running
    constructor
    · rw [lost]
      exact (Nat.add_assoc ..).symm
    · rw [lost]
      simp [running]

theorem send_frame (pool : Pool) (child : Nat) :
    (pool.send child).pid = pool.pid ∧ (pool.send child).processNumber = pool.processNumber ∧
      (pool.send child).subProcessCounter = pool.subProcessCounter ∧
      (pool.send child).stop = pool.stop ∧ (pool.send child).batch = pool.batch ∧
      (pool.send child).queue = pool.queue ∧ (pool.send child).ready = pool.ready ∧
      pool.forgotten ≤ (pool.send child).forgotten := by
  rw [send]
  split <;> simp

/-- The report is handled and the counter moves on, whoever was chosen. -/
def Pool.handled (pool : Pool) (rest : List Report) : Pool :=
  { pool with
    batch := rest
    subProcessCounter := (pool.subProcessCounter + 1) % pool.processNumber }

theorem parentListen_sends {pool next : Pool}
    (inside : pool.subProcessCounter < pool.processNumber)
    (taken : pool.parentListen = .ok next) :
    ∃ rest child, pool.batch = .listen :: rest ∧ pool.allocate = some child ∧
      child < pool.processNumber ∧ pool.pid child ≠ -1 ∧ next = (pool.handled rest).send child := by
  simp only [Pool.parentListen] at taken
  split at taken
  case h_2 => contradiction
  case h_1 rest batch =>
    cases found : pool.allocate with
    | none =>
        rw [found] at taken
        contradiction
    | some child =>
        obtain ⟨bound, live⟩ := allocate_live inside found
        simp only [found, if_neg live, Except.ok.injEq] at taken
        exact ⟨rest, child, batch, rfl, bound, live, taken.symm⟩

theorem Accounted.parentListen {pool next : Pool} (accounted : Accounted pool)
    (taken : pool.parentListen = .ok next) : Kept pool next .parentListen := by
  obtain ⟨balance, counter⟩ := accounted
  obtain ⟨rest, child, batch, found, inside, _, rfl⟩ := parentListen_sends counter taken
  obtain ⟨spec, alone⟩ := send_spec (show child < (pool.handled rest).processNumber from inside)
  have sum : total ((pool.handled rest).send child) + ((pool.handled rest).send child).forgotten =
      total pool + pool.forgotten + 1 := spec
  obtain ⟨_, size, counter', _, left, queue, ready, more⟩ := send_frame (pool.handled rest) child
  rw [batch, List.count_cons_self] at balance
  refine ⟨⟨?_, ?_⟩, more, alone.trans ?_⟩
  · rw [queue, ready, left]
    simp only [Pool.handled] at sum ⊢
    omega
  · rw [counter', size]
    exact Nat.mod_lt _ (Nat.zero_lt_of_lt counter)
  · simp [ReportedAlone, found, Pool.handled]

theorem Accounted.parentSignal {pool next : Pool} {chld : Option (List Int)}
    (accounted : Accounted pool) (taken : pool.parentSignal chld = .ok next) :
    Kept pool next (.parentSignal chld) := by
  obtain ⟨balance, counter⟩ := accounted
  simp only [Pool.parentSignal] at taken
  split at taken
  case h_1 rest batch =>
    obtain rfl := Except.ok.inj taken
    rw [batch, List.count_cons_of_ne (by decide)] at balance
    exact ⟨⟨balance, counter⟩, le_refl _, iff_of_true rfl trivial⟩
  case h_2 rest pids batch =>
    split at taken
    case isFalse => contradiction
    case isTrue =>
      obtain rfl := Except.ok.inj taken
      rw [batch, List.count_cons_of_ne (by decide)] at balance
      exact ⟨⟨balance, counter⟩, le_refl _, iff_of_true rfl trivial⟩
  case h_3 => contradiction

theorem Accounted.childWait {pool next : Pool} {child : Nat} (accounted : Accounted pool)
    (taken : pool.childWait child = .ok next) : Kept pool next (.childWait child) := by
  obtain ⟨balance, counter⟩ := accounted
  simp only [Pool.childWait] at taken
  split at taken
  case isFalse => contradiction
  case isTrue possible =>
    obtain ⟨inside, running, idle, ready⟩ := possible
    have made := Except.ok.inj taken
    have others (other : Nat) (different : other ≠ child) : owed next other = owed pool other := by
      simp only [← made, owed, Function.update_of_ne different]
    have before : owed pool child = 1 := by simp [owed, running, idle, ready]
    have after : owed next child = 1 := by simp [← made, owed, running]
    have sum := total_changed inside (by rw [← made]) others
    have same : total next = total pool := by omega
    rw [← same] at balance
    rw [← made] at balance ⊢
    exact ⟨⟨balance, counter⟩, le_refl _, iff_of_true rfl trivial⟩

theorem Accounted.childPipe {pool next : Pool} {child : Nat} (accounted : Accounted pool)
    (taken : pool.childPipe child = .ok next) : Kept pool next (.childPipe child) := by
  obtain ⟨balance, counter⟩ := accounted
  simp only [Pool.childPipe] at taken
  split at taken
  case isFalse => contradiction
  case isTrue possible =>
    obtain ⟨inside, running, report⟩ := possible
    have before : owed pool child = (pool.pipeReady child).toNat + 1 := by
      simp [owed, running, report]
    have among : owed pool child ≤ total pool :=
      Finset.single_le_sum (fun _ _ => Nat.zero_le _) (Finset.mem_range.mpr inside)
    -- the report stands for a client, so `accept` finds one
    obtain ⟨queue, waits⟩ : ∃ queue, pool.queue = queue + 1 := ⟨pool.queue - 1, by omega⟩
    simp only [waits] at taken
    have made := Except.ok.inj taken
    have others (other : Nat) (different : other ≠ child) : owed next other = owed pool other := by
      simp only [← made, owed, Function.update_of_ne different]
    have after : owed next child = (pool.pipeReady child).toNat := by
      simp [← made, owed, running]
    have sum := total_changed inside (by rw [← made]) others
    have less : total pool = total next + 1 := by omega
    rw [less, waits] at balance
    have balance' : queue = pool.ready.toNat + pool.batch.count .listen + total next +
        pool.forgotten := by
      omega
    rw [← made] at balance' ⊢
    exact ⟨⟨balance', counter⟩, le_refl _, iff_of_true rfl trivial⟩

theorem Accounted.childExit {pool next : Pool} {child : Nat} (accounted : Accounted pool)
    (taken : pool.childExit child = .ok next) : Kept pool next (.childExit child) := by
  obtain ⟨balance, counter⟩ := accounted
  simp only [Pool.childExit] at taken
  split at taken
  case isFalse => contradiction
  case isTrue possible =>
    obtain ⟨inside, running⟩ := possible
    have made := Except.ok.inj taken
    have others (other : Nat) (different : other ≠ child) : owed next other = owed pool other := by
      simp only [← made, owed, Function.update_of_ne different]
    have before : owed pool child = (pool.pipeReady child).toNat + (pool.reported child).toNat :=
      if_pos running
    have after : owed next child = 0 := by simp [← made, owed]
    have sum := total_changed inside (by rw [← made]) others
    have balance' : pool.queue = pool.ready.toNat + pool.batch.count .listen + total next +
        (pool.forgotten + (pool.pipeReady child).toNat + (pool.reported child).toNat) := by
      omega
    rw [← made] at balance' ⊢
    refine ⟨⟨balance', counter⟩, ?_, ?_⟩
    · change pool.forgotten ≤ pool.forgotten + _ + _
      omega
    · change pool.forgotten + (pool.pipeReady child).toNat + (pool.reported child).toNat =
        pool.forgotten ↔ pool.pipeReady child = false ∧ pool.reported child = false
      rw [Nat.add_assoc, Nat.add_eq_left]
      cases pool.pipeReady child <;> cases pool.reported child <;> decide

theorem Accounted.step {pool next : Pool} {event : Event} (accounted : Accounted pool)
    (taken : ProcessPool.step pool event = .ok next) : Kept pool next event := by
  cases event with
  | connect =>
      obtain rfl : pool.connect = next := Except.ok.inj taken
      exact accounted.connect
  | parentWait batch => exact accounted.parentWait taken
  | parentListen => exact accounted.parentListen taken
  | parentSignal chld => exact accounted.parentSignal taken
  | childWait child => exact accounted.childWait taken
  | childPipe child => exact accounted.childPipe taken
  | childExit child => exact accounted.childExit taken

theorem Accounted.run {pool final : Pool} (events : List Event) (accounted : Accounted pool)
    (reached : Runs.run ProcessPool.step pool events = .ok final) :
    Accounted final ∧ pool.forgotten ≤ final.forgotten ∧
      (final.forgotten = pool.forgotten ↔ Along ProcessPool.step ReportedAlone pool events) := by
  induction events generalizing pool with
  | nil =>
      obtain rfl : pool = final := Except.ok.inj reached
      exact ⟨accounted, le_refl _, iff_of_true rfl trivial⟩
  | cons event rest ih =>
      simp only [Runs.run] at reached
      cases taken : ProcessPool.step pool event with
      | error fault =>
          rw [taken] at reached
          contradiction
      | ok next =>
          rw [taken] at reached
          have kept := accounted.step taken
          obtain ⟨accounted', more, same⟩ := ih kept.accounted reached
          refine ⟨accounted', kept.more.trans more, ?_⟩
          constructor
          · intro still
            have first : next.forgotten = pool.forgotten := by
              have := kept.more
              omega
            refine ⟨kept.same.mp first, fun other taken' => ?_⟩
            obtain rfl : next = other := Except.ok.inj (taken.symm.trans taken')
            exact same.mp (by omega)
          · rintro ⟨here, later⟩
            exact (same.mpr (later next taken)).trans (kept.same.mpr here)

theorem Accounted.quiet {pool : Pool} (accounted : Accounted pool) (quiet : Quiet pool) :
    pool.queue = pool.forgotten := by
  have none' : total pool = 0 := by
    refine Finset.sum_eq_zero fun child member => ?_
    by_cases running : pool.running child = true
    · obtain ⟨reported, ready⟩ := quiet.children child (Finset.mem_range.mp member) running
      simp [owed, running, reported, ready]
    · exact if_neg running
  rw [accounted.balance, quiet.parent.1, quiet.parent.2, none']
  simp

theorem accounted_start {processNumber : Nat} (some' : 0 < processNumber) (pid : Nat → Int) :
    Accounted (start processNumber pid) := by
  refine ⟨?_, some'⟩
  have none' : total (start processNumber pid) = 0 :=
    Finset.sum_eq_zero fun child _ => by simp [owed, start]
  rw [none']
  rfl

/-- In a state where everybody waits no client is left exactly if in the run that led to
it every arrival was reported by itself. -/
theorem quiet_queue_empty_iff (processNumber : Nat) (pid : Nat → Int) (events : List Event)
    (final : Pool) (some' : 0 < processNumber)
    (reached : run step (start processNumber pid) events = .ok final) (quiet : Quiet final) :
    final.queue = 0 ↔ Along step ReportedAlone (start processNumber pid) events := by
  obtain ⟨accounted, _, same⟩ := (accounted_start some' pid).run events reached
  rw [accounted.quiet quiet, ← same]
  rfl

theorem quiet_queue_empty_iff_one :
    ∃ final, run step (start 1 fun _ => 50)
        [.connect, .parentWait [.listen], .parentListen, .childWait 0, .childPipe 0] = .ok final ∧
      (final.queue = 0 ↔ Along step ReportedAlone (start 1 fun _ => 50)
        [.connect, .parentWait [.listen], .parentListen, .childWait 0, .childPipe 0]) :=
  ⟨_, rfl, quiet_queue_empty_iff 1 (fun _ => 50) _ _ (by decide) rfl
    ⟨⟨rfl, rfl⟩, by decide⟩⟩

/-- Two clients connect before the parent waits: one report, one request, one accept. -/
theorem second_client_forgotten :
    ∃ final, run step (start 1 fun _ => 50)
        [.connect, .connect, .parentWait [.listen], .parentListen, .childWait 0, .childPipe 0] =
          .ok final ∧ Quiet final ∧ (final.running 0 = true ∧ final.pid 0 ≠ -1) ∧
      final.queue ≠ 0 :=
  ⟨_, rfl, ⟨⟨rfl, rfl⟩, by decide⟩, by decide, by decide⟩

end StudyRecord.ProcessPool
