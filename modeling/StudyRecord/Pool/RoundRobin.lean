import StudyRecord.Pool.Selection
import StudyRecord.Library.RoundRobin

/-!
How many connections each child gets. The counter moves on by one child for each
connection, whether or not the child it stood at was the one chosen.
-/

namespace StudyRecord.ProcessPool

open Runs Pool RoundRobin

def Live (pool : Pool) (child : Nat) : Prop := child < pool.processNumber ∧ pool.pid child ≠ -1

def SameChildren (pool final : Pool) : Prop :=
  ∀ child < pool.processNumber, final.pid child = -1 ↔ pool.pid child = -1

def isDispatch : Event → Bool
  | .parentListen => true
  | _ => false

def sentTo (child : Nat) (pool : Pool) : List Event → Nat
  | [] => 0
  | event :: rest =>
      match step pool event with
      | .error _ => 0
      | .ok next =>
          (isDispatch event && pool.allocate == some child).toNat + sentTo child next rest

/-- All children are left, or one, or two opposite ones of four with the counter at one
of them. -/
def EvenlyLeft (pool : Pool) : Prop :=
  (∀ child < pool.processNumber, pool.pid child ≠ -1) ∨
    (∀ first < pool.processNumber, ∀ second < pool.processNumber, pool.pid first ≠ -1 →
      pool.pid second ≠ -1 → first = second) ∨
    pool.processNumber = 4 ∧ pool.pid pool.subProcessCounter ≠ -1 ∧
      pool.pid ((pool.subProcessCounter + 1) % 4) = -1 ∧
      pool.pid ((pool.subProcessCounter + 2) % 4) ≠ -1 ∧
      pool.pid ((pool.subProcessCounter + 3) % 4) = -1

def circle (pool : Pool) (left : SomeChild pool) : TurnCircle where
  size := pool.processNumber
  alive := fun child => decide (child < pool.processNumber ∧ pool.pid child ≠ -1)
  left := by
    obtain ⟨child, inside, live⟩ := left
    exact ⟨child, inside, decide_eq_true ⟨inside, live⟩⟩

theorem circle_alive {pool : Pool} (left : SomeChild pool) {child : Nat}
    (inside : child < pool.processNumber) :
    (circle pool left).alive child = true ↔ pool.pid child ≠ -1 := by
  simp only [circle, decide_eq_true_eq, inside, true_and]

theorem circle_congr {pool next : Pool} (left : SomeChild pool) (left' : SomeChild next)
    (size : next.processNumber = pool.processNumber) (same : SameChildren pool next) :
    circle next left' = circle pool left := by
  have alive : (circle next left').alive = (circle pool left).alive := by
    funext child
    simp only [circle, size, ne_eq, decide_eq_decide]
    refine and_congr_right fun inside => not_congr (same child inside)
  simp only [circle, TurnCircle.mk.injEq]
  exact ⟨size, alive⟩

theorem evenlyLeft_iff {pool : Pool} (left : SomeChild pool)
    (inside : pool.subProcessCounter < pool.processNumber) :
    EvenlyLeft pool ↔ TurnCircle.Balanced (circle pool left) pool.subProcessCounter := by
  have alive {child : Nat} (bound : child < pool.processNumber) := circle_alive left bound
  have live (position : Nat) : (circle pool left).Live position ↔
      pool.pid (position % pool.processNumber) ≠ -1 :=
    alive (Nat.mod_lt position (show 0 < pool.processNumber by omega))
  refine or_congr ?_ (or_congr ?_ ?_)
  · exact forall₂_congr fun child bound => (alive bound).symm
  · refine forall₂_congr fun first bound => forall₂_congr fun second bound' => ?_
    rw [alive bound, alive bound']
  · constructor
    · rintro ⟨four, here, gap, second, last⟩
      refine ⟨four, ?_, ?_, ?_, ?_⟩ <;> rw [live, four]
      · rwa [Nat.mod_eq_of_lt (by omega)]
      · exact not_not_intro gap
      · exact second
      · exact not_not_intro last
    · rintro ⟨four, here, gap, second, last⟩
      have four : pool.processNumber = 4 := four
      rw [live, four] at here gap second last
      rw [Nat.mod_eq_of_lt (by omega)] at here
      exact ⟨four, here, not_not.mp gap, second, not_not.mp last⟩

theorem allocateFrom_chosen {pool : Pool} (left : SomeChild pool) {fuel from' child : Nat}
    (inside : from' < pool.processNumber) (found : pool.allocateFrom fuel from' = some child) :
    child = (circle pool left).chosen from' := by
  induction fuel generalizing from' with
  | zero => simp [allocateFrom] at found
  | succ fuel ih =>
      have next : (from' + 1) % pool.processNumber < pool.processNumber :=
        Nat.mod_lt _ (by omega)
      have live : (circle pool left).Live from' ↔ pool.pid from' ≠ -1 := by
        rw [TurnCircle.Live, show from' % (circle pool left).size = from' from Nat.mod_eq_of_lt inside]
        exact circle_alive left inside
      by_cases here : pool.pid from' ≠ -1
      · simp only [allocateFrom, if_pos here] at found
        obtain rfl := Option.some.inj found
        rw [TurnCircle.chosen, TurnCircle.next_of_live (live.mpr here)]
        exact (Nat.mod_eq_of_lt inside).symm
      · simp only [allocateFrom, if_neg here, if_pos next.ne] at found
        have dead : (circle pool left).next from' ≠ from' := fun same =>
          here (live.mp (same ▸ TurnCircle.next_live _ from'))
        have behind := (circle pool left).le_next from'
        rw [ih next found]
        refine ((circle pool left).chosen_mod (from' + 1)).trans ?_
        rw [TurnCircle.chosen, TurnCircle.chosen, TurnCircle.next_within (Nat.le_succ _) (by omega)]

theorem allocate_chosen {pool : Pool} (left : SomeChild pool)
    (inside : pool.subProcessCounter < pool.processNumber) :
    pool.allocate = some ((circle pool left).chosen pool.subProcessCounter) := by
  obtain ⟨child, bound, live⟩ := left
  obtain ⟨chosen, found⟩ := allocate_finds inside bound live
  rw [found, allocateFrom_chosen ⟨child, bound, live⟩ inside found]

/-! One step, and what a run keeps. -/

theorem parentListen_ok {pool next : Pool}
    (inside : pool.subProcessCounter < pool.processNumber)
    (taken : pool.parentListen = .ok next) :
    SomeChild pool ∧ ∃ rest, pool.batch = .listen :: rest ∧ next.batch = rest ∧
      next.pid = pool.pid ∧ next.processNumber = pool.processNumber ∧ next.stop = pool.stop ∧
      next.subProcessCounter = (pool.subProcessCounter + 1) % pool.processNumber := by
  obtain ⟨rest, child, batch, _, bound, live, rfl⟩ := parentListen_sends inside taken
  obtain ⟨pid, size, counter, stop, left, _⟩ := send_frame (pool.handled rest) child
  exact ⟨⟨child, bound, live⟩, rest, batch, left, pid, size, stop, counter⟩

structure Fading (pool next : Pool) : Prop where
  size : next.processNumber = pool.processNumber
  pid : ∀ child, next.pid child = pool.pid child ∨ next.pid child = -1
  stop : (pool.stop = true → ¬SomeChild pool) → next.stop = true → ¬SomeChild next

theorem Fading.of_same {pool next : Pool} (size : next.processNumber = pool.processNumber)
    (pid : next.pid = pool.pid) (stop : next.stop = pool.stop) : Fading pool next := by
  refine ⟨size, fun child => .inl (by rw [pid]), fun before => ?_⟩
  rw [stop]
  simpa only [SomeChild, size, pid] using before

theorem step_fading {pool next : Pool} {event : Event}
    (inside : pool.subProcessCounter < pool.processNumber) (taken : step pool event = .ok next) :
    Fading pool next ∧
      (isDispatch event = false → next.subProcessCounter = pool.subProcessCounter) := by
  cases event with
  | connect =>
      obtain rfl : pool.connect = next := Except.ok.inj taken
      exact ⟨.of_same rfl rfl rfl, fun _ => rfl⟩
  | parentListen =>
      obtain ⟨_, rest, _, _, pid, size, stop, _⟩ := parentListen_ok inside taken
      exact ⟨.of_same size pid stop, nofun⟩
  | parentSignal chld =>
      simp only [step, Pool.parentSignal] at taken
      split at taken
      case h_1 =>
        obtain rfl := Except.ok.inj taken
        exact ⟨.of_same rfl rfl rfl, fun _ => rfl⟩
      case h_2 rest pids batch =>
        split at taken
        case isFalse => contradiction
        case isTrue =>
          obtain rfl := Except.ok.inj taken
          refine ⟨⟨rfl, fun child => ?_, fun _ stop => ?_⟩, fun _ => rfl⟩
          · simp only
            split
            · exact .inr rfl
            · exact .inl rfl
          · rintro ⟨child, bound, live⟩
            exact live (of_decide_eq_true stop child bound)
      case h_3 => contradiction
  | parentWait batch =>
      simp only [step, Pool.parentWait] at taken
      split at taken
      case isFalse => contradiction
      case isTrue =>
        obtain rfl := Except.ok.inj taken
        exact ⟨.of_same rfl rfl rfl, fun _ => rfl⟩
  | childWait child =>
      simp only [step, Pool.childWait] at taken
      split at taken
      case isFalse => contradiction
      case isTrue =>
        obtain rfl := Except.ok.inj taken
        exact ⟨.of_same rfl rfl rfl, fun _ => rfl⟩
  | childPipe child =>
      simp only [step, Pool.childPipe] at taken
      split at taken
      case isFalse => contradiction
      case isTrue =>
        split at taken <;> obtain rfl := Except.ok.inj taken <;>
          exact ⟨.of_same rfl rfl rfl, fun _ => rfl⟩
  | childExit child =>
      simp only [step, Pool.childExit] at taken
      split at taken
      case isFalse => contradiction
      case isTrue =>
        obtain rfl := Except.ok.inj taken
        exact ⟨.of_same rfl rfl rfl, fun _ => rfl⟩

theorem Fading.run {pool final : Pool} (events : List Event) (accounted : Accounted pool)
    (reached : Runs.run step pool events = .ok final) : Fading pool final := by
  induction events generalizing pool with
  | nil =>
      obtain rfl : pool = final := Except.ok.inj reached
      exact .of_same rfl rfl rfl
  | cons event rest ih =>
      simp only [Runs.run] at reached
      cases taken : step pool event with
      | error fault =>
          rw [taken] at reached
          contradiction
      | ok next =>
          rw [taken] at reached
          have first := (step_fading accounted.counter taken).1
          have later := ih (accounted.step taken).accounted reached
          refine ⟨later.size.trans first.size, fun child => ?_, fun before => ?_⟩
          · rcases later.pid child with same | gone
            · rw [same]
              exact first.pid child
            · exact .inr gone
          · exact later.stop (first.stop before)

theorem SameChildren.between {pool next final : Pool} (first : Fading pool next)
    (later : Fading next final) (same : SameChildren pool final) :
    SameChildren pool next ∧ SameChildren next final := by
  have along (child : Nat) (inside : child < pool.processNumber) :
      (next.pid child = -1 ↔ pool.pid child = -1) ∧
        (final.pid child = -1 ↔ next.pid child = -1) := by
    have ends := same child inside
    rcases later.pid child with kept | gone
    · rw [kept] at ends
      exact ⟨ends, by rw [kept]⟩
    · have before : pool.pid child = -1 := ends.mp gone
      have between : next.pid child = -1 := (first.pid child).elim (fun kept => kept.trans before) id
      exact ⟨iff_of_true between before, iff_of_true gone between⟩
  exact ⟨fun child inside => (along child inside).1,
    fun child inside => (along child (first.size ▸ inside)).2⟩

theorem SameChildren.left {pool next : Pool} (same : SameChildren pool next)
    (size : next.processNumber = pool.processNumber) (left : SomeChild pool) : SomeChild next := by
  obtain ⟨child, inside, live⟩ := left
  exact ⟨child, size ▸ inside, mt (same child inside).mp live⟩

theorem sentTo_eq (child : Nat) {pool final : Pool} (events : List Event)
    (accounted : Accounted pool) (left : SomeChild pool) (same : SameChildren pool final)
    (reached : run step pool events = .ok final) :
    sentTo child pool events =
      (circle pool left).taken child pool.subProcessCounter (events.countP isDispatch) := by
  induction events generalizing pool with
  | nil => rfl
  | cons event rest ih =>
      simp only [run] at reached
      cases taken : step pool event with
      | error fault =>
          rw [taken] at reached
          contradiction
      | ok next =>
          rw [taken] at reached
          have accounted' := (accounted.step taken).accounted
          obtain ⟨first, quiet⟩ := step_fading accounted.counter taken
          obtain ⟨here, later⟩ := same.between first (Fading.run rest accounted' reached)
          have left' := here.left first.size left
          have rest' := ih accounted' left' later reached
          rw [circle_congr left left' first.size here] at rest'
          simp only [sentTo, taken, rest']
          cases dispatch : isDispatch event with
          | false =>
              rw [List.countP_cons_of_neg (by simp [dispatch]), quiet dispatch, Bool.false_and]
              exact Nat.zero_add _
          | true =>
              obtain rfl : event = .parentListen := by
                cases event <;> first | rfl | contradiction
              obtain ⟨_, _, _, _, _, _, _, counter⟩ := parentListen_ok accounted.counter taken
              rw [List.countP_cons_of_pos dispatch, TurnCircle.taken_succ, counter,
                allocate_chosen left accounted.counter]
              congr 1
              · by_cases chosen : (circle pool left).chosen pool.subProcessCounter = child <;>
                  simp [chosen]
              · exact TurnCircle.taken_mod _ child (pool.subProcessCounter + 1) _

theorem dispatch_ok {pool : Pool} {rest : List Report} (accounted : Accounted pool)
    (left : SomeChild pool) (batch : pool.batch = .listen :: rest) :
    ∃ next, step pool .parentListen = .ok next := by
  have found := allocate_chosen left accounted.counter
  obtain ⟨_, live⟩ := allocate_live accounted.counter found
  simp only [step, Pool.parentListen, batch, found, if_neg live]
  exact ⟨_, rfl⟩

theorem exists_dispatch {pool : Pool} (accounted : Accounted pool) (left : SomeChild pool)
    (going : pool.stop = false) :
    ∃ events next, run step pool events = .ok next ∧ next.pid = pool.pid ∧
      next.processNumber = pool.processNumber ∧ next.stop = false ∧ Accounted next ∧
      events.countP isDispatch = 1 := by
  obtain ⟨batch, here⟩ : ∃ batch, pool.batch = batch := ⟨_, rfl⟩
  induction batch generalizing pool with
  | nil =>
      let waiting : Pool := { pool.connect with batch := [.listen], ready := false }
      have waits : step pool.connect (.parentWait [.listen]) = .ok waiting := by
        have possible : pool.connect.batch = [] ∧ pool.connect.stop = false ∧
            [Report.listen].Nodup ∧ (.listen ∈ [Report.listen] → pool.connect.ready = true) :=
          ⟨here, going, List.nodup_singleton _, fun _ => rfl⟩
        exact (if_pos possible).trans rfl
      have accounted' : Accounted waiting :=
        (accounted.connect.accounted.step waits).accounted
      obtain ⟨next, taken⟩ := dispatch_ok accounted' left rfl
      obtain ⟨_, _, _, _, pid, size, stop, _⟩ := parentListen_ok accounted'.counter taken
      refine ⟨[.connect, .parentWait [.listen], .parentListen], next, ?_, pid, size,
        stop.trans going, (accounted'.step taken).accounted, rfl⟩
      rw [run_cons_of_ok rfl, run_cons_of_ok waits, run_cons_of_ok taken]
      rfl
  | cons report rest ih =>
      cases report with
      | listen =>
          obtain ⟨next, taken⟩ := dispatch_ok accounted left here
          obtain ⟨_, _, _, _, pid, size, stop, _⟩ := parentListen_ok accounted.counter taken
          refine ⟨[.parentListen], next, ?_, pid, size, stop.trans going,
            (accounted.step taken).accounted, rfl⟩
          rw [run_cons_of_ok taken]
          rfl
      | signal =>
          have taken : step pool (.parentSignal none) = .ok { pool with batch := rest } := by
            simp only [step, Pool.parentSignal, here]
          obtain ⟨events, next, reached, pid, size, stop, accounted', count⟩ :=
            ih (accounted.step taken).accounted left going rfl
          refine ⟨.parentSignal none :: events, next, ?_, pid, size, stop, accounted', count⟩
          rw [run_cons_of_ok taken]
          exact reached

theorem exists_dispatches (count : Nat) {pool : Pool} (accounted : Accounted pool)
    (left : SomeChild pool) (going : pool.stop = false) :
    ∃ events final, run step pool events = .ok final ∧ final.pid = pool.pid ∧
      events.countP isDispatch = count := by
  induction count generalizing pool with
  | zero => exact ⟨[], pool, rfl, rfl, rfl⟩
  | succ count ih =>
      obtain ⟨events, next, reached, pid, size, stop, accounted', one⟩ :=
        exists_dispatch accounted left going
      have left' : SomeChild next := by
        rw [SomeChild, pid, size]
        exact left
      obtain ⟨later, final, reached', pid', count'⟩ := ih accounted' left' stop
      refine ⟨events ++ later, final, ?_, pid'.trans pid, ?_⟩
      · rw [run_append reached]
        exact reached'
      · rw [List.countP_append, one, count', Nat.add_comm]

/-- From a state that the pool comes to, with a child left, any two of the children that
are left get the same number of connections but for one, as long as they stay the same,
exactly if they are left evenly. -/
theorem fair_iff_evenlyLeft (processNumber : Nat) (pid : Nat → Int) (some' : 0 < processNumber)
    (before : List Event) (pool : Pool)
    (came : run step (start processNumber pid) before = .ok pool) (left : SomeChild pool) :
    (∀ events final, run step pool events = .ok final → SameChildren pool final →
      ∀ first second, Live pool first → Live pool second →
        sentTo first pool events ≤ sentTo second pool events + 1) ↔ EvenlyLeft pool := by
  obtain ⟨accounted, _⟩ := (accounted_start some' pid).run before came
  have fading := Fading.run before (accounted_start some' pid) came
  have going : pool.stop = false := by
    refine Bool.eq_false_iff.mpr fun stop => ?_
    exact fading.stop nofun stop left
  have live {child : Nat} (inside : child < pool.processNumber) := circle_alive left inside
  rw [evenlyLeft_iff left accounted.counter, ← TurnCircle.fair_iff]
  constructor
  · intro fair turns first second inside inside' alive alive'
    obtain ⟨events, final, reached, pid', count⟩ := exists_dispatches turns accounted left going
    have same : SameChildren pool final := fun child _ => by rw [pid']
    have here := fair events final reached same first second ⟨inside, (live inside).mp alive⟩
      ⟨inside', (live inside').mp alive'⟩
    rwa [sentTo_eq first events accounted left same reached,
      sentTo_eq second events accounted left same reached, count] at here
  · intro fair events final reached same first second alive alive'
    rw [sentTo_eq first events accounted left same reached,
      sentTo_eq second events accounted left same reached]
    exact fair _ first second alive.1 alive'.1 ((live alive.1).mpr alive.2)
      ((live alive'.1).mpr alive'.2)

def twoExits : List Event :=
  [.childExit 1, .childExit 3, .parentWait [.signal], .parentSignal (some [51, 53])]

theorem fair_iff_evenlyLeft_opposite :
    ∃ pool, run step (start 4 fun k => 50 + k) twoExits = .ok pool ∧
      ∀ events final, run step pool events = .ok final → SameChildren pool final →
        ∀ first second, Live pool first → Live pool second →
          sentTo first pool events ≤ sentTo second pool events + 1 := by
  refine ⟨_, rfl, ?_⟩
  refine (fair_iff_evenlyLeft 4 (fun k => 50 + k) (by decide) twoExits _ rfl
    ⟨0, by decide, by decide⟩).mpr ?_
  exact .inr (.inr ⟨rfl, by decide, by decide, by decide, by decide⟩)

def oneConnection : List Event := [.connect, .parentWait [.listen], .parentListen]

/-- The second of three children has died: the third takes its place at the second turn as
well as its own, and after two rounds it is two connections ahead. -/
theorem third_child_gets_two :
    ∃ pool final, run step (start 3 fun k => 50 + k)
        [.childExit 1, .parentWait [.signal], .parentSignal (some [51])] = .ok pool ∧
      run step pool (List.replicate 6 oneConnection).flatten = .ok final ∧
      SameChildren pool final ∧ Live pool 0 ∧ Live pool 2 ∧
      sentTo 0 pool (List.replicate 6 oneConnection).flatten = 2 ∧
      sentTo 2 pool (List.replicate 6 oneConnection).flatten = 4 := by
  refine ⟨_, _, rfl, rfl, fun child _ => Iff.rfl, ⟨by decide, by decide⟩, ⟨by decide, by decide⟩,
    rfl, rfl⟩

end StudyRecord.ProcessPool
