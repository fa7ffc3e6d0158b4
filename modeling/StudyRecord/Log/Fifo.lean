import StudyRecord.Library.Ring
import StudyRecord.Log.BlockQueue

/-!
The queue is a bounded FIFO under every interleaving of its callers. Three
equations count the threads at each place: who has the mutex, who has a filled
cell in hand, who has a free one. With them the two counters are exact and a cell
is used again only after its value was read.
-/

namespace StudyRecord.BlockQueue

open Machine Runs Threads

section Places

variable {T : Type}

def holds : Thread T → Bool
  | .inserting (.store _) | .inserting .unlock => true
  | .removing .take | .removing (.unlock _ _) => true
  | _ => false

/-- The thread has taken a slot for a free cell, or has emptied one and not posted the slot. -/
def reserved : Thread T → Bool
  | .inserting (.mutex _) | .inserting (.store _) => true
  | .removing (.unlock _ _) | .removing (.slots _ _) => true
  | _ => false

/-- The thread has filled a cell and not posted the item, or has taken an item that is
still in its cell. -/
def filled : Thread T → Bool
  | .inserting .unlock | .inserting .items => true
  | .removing .mutex | .removing .take => true
  | _ => false

def between : Thread T → Bool
  | .inserting (.slots _) => false
  | .inserting _ => true
  | .removing .items => false
  | .removing _ => true
  | .idle => false

theorem between_eq (thread : Thread T) : between thread = (filled thread || reserved thread) := by
  rcases thread with _ | place | place
  · rfl
  · cases place <;> rfl
  · cases place <;> rfl

structure Exact (queue : Queue T) : Prop where
  rear : queue.rear = queue.stored.length
  front : queue.front = queue.removed.length
  ring : Ring.Holds queue.buf 1 queue.removed.length queue.stored
  fifo : queue.removed <+: queue.stored

structure Effect (queue : Queue T) (thread : Thread T) (queue' : Queue T) (thread' : Thread T) :
    Prop where
  maxSize : queue'.maxSize = queue.maxSize
  cells : queue'.buf.length = queue.buf.length
  lock : queue'.mutex + (holds thread').toNat = queue.mutex + (holds thread).toNat
  content : queue'.stored.length + queue.removed.length + queue.items + (filled thread).toNat =
    queue.stored.length + queue'.removed.length + queue'.items + (filled thread').toNat
  room : queue'.slots + (reserved thread').toNat + queue'.stored.length + queue.removed.length =
    queue.slots + (reserved thread).toNat + queue.stored.length + queue'.removed.length
  exact : Exact queue'

end Places

section Effects

variable {T : Type}

theorem cell_eq {queue : Queue T} (position : Nat) (nonempty : 0 < queue.buf.length)
    (cells : (queue.buf.length : Int) = queue.maxSize) :
    ∃ item, queue.buf[Ring.slot queue.buf 1 position]? = some item ∧
      cell queue (position + 1) = .ok (Ring.slot queue.buf 1 position, item) := by
  have inside := Ring.slot_lt nonempty 1 position
  have here := List.getElem?_eq_getElem inside
  have index : ((position : Int) + 1).tmod queue.maxSize = (Ring.slot queue.buf 1 position : Nat) := by
    rw [Int.tmod_eq_emod_of_nonneg (by omega), ← cells, Ring.slot]
    norm_cast
  refine ⟨_, here, ?_⟩
  simp only [cell, index, Int.toNat_natCast, here]
  rw [if_neg (by omega)]

structure Mine (queue : Queue T) (thread : Thread T) : Prop where
  locked : holds thread = true → queue.mutex = 0
  item : filled thread = true →
    queue.items < semValueMax ∧ queue.removed.length < queue.stored.length
  slot : reserved thread = true →
    queue.slots < semValueMax ∧ queue.stored.length < queue.removed.length + queue.buf.length

theorem increment_ok {counter after : Int} (taken : increment counter = .ok after) :
    after = counter + 1 ∧ counter < intMax := by
  simp only [increment] at taken
  split at taken
  · rename_i below
    exact ⟨(Except.ok.inj taken).symm, below⟩
  · simp at taken

theorem insert_effect {queue queue' : Queue T} {place : Insert T} {place' : Option (Insert T)}
    (exact : Exact queue) (cells : (queue.buf.length : Int) = queue.maxSize)
    (mine : Mine queue (.inserting place))
    (moved : insertStep queue place = .ok (queue', place')) :
    Effect queue (.inserting place) queue' (place'.elim .idle .inserting) := by
  cases place with
  | slots item =>
      cases taken : semWait queue.slots with
      | error stuck => simp [insertStep, taken] at moved
      | ok slots =>
          have before := semWait_ok taken
          simp only [insertStep, taken, Except.ok.injEq, Prod.mk.injEq] at moved
          obtain ⟨rfl, rfl⟩ := moved
          refine ⟨rfl, rfl, rfl, rfl, ?_, exact.1, exact.2, exact.3, exact.4⟩
          simp only [reserved, Option.elim, Bool.toNat_true, Bool.toNat_false]
          omega
  | mutex item =>
      cases taken : semWait queue.mutex with
      | error stuck => simp [insertStep, taken] at moved
      | ok mutex =>
          have before := semWait_ok taken
          simp only [insertStep, taken, Except.ok.injEq, Prod.mk.injEq] at moved
          obtain ⟨rfl, rfl⟩ := moved
          refine ⟨rfl, rfl, ?_, rfl, rfl, exact.1, exact.2, exact.3, exact.4⟩
          simp only [holds, Option.elim, Bool.toNat_true, Bool.toNat_false]
          omega
  | store item =>
      have room := (mine.slot rfl).2
      have behind := exact.fifo.length_le
      have nonempty : 0 < queue.buf.length := by omega
      obtain ⟨old, _, found⟩ := cell_eq queue.stored.length nonempty cells
      rw [← exact.rear] at found
      cases counted : increment queue.rear with
      | error stuck => simp [insertStep, counted] at moved
      | ok rear =>
          obtain ⟨rfl, _⟩ := increment_ok counted
          simp only [insertStep, counted, found, Except.ok.injEq, Prod.mk.injEq] at moved
          obtain ⟨rfl, rfl⟩ := moved
          constructor
          · rfl
          · exact List.length_set
          · rfl
          · simp only [filled, Option.elim, Bool.toNat_true, Bool.toNat_false, List.length_append,
              List.length_singleton]
            omega
          · simp only [reserved, Option.elim, Bool.toNat_true, Bool.toNat_false,
              List.length_append, List.length_singleton]
            omega
          · refine ⟨?_, exact.front, exact.ring.push room nonempty item,
              exact.fifo.trans (List.prefix_append _ _)⟩
            simp [exact.rear]
  | unlock =>
      have free := mine.locked rfl
      simp only [insertStep, Except.ok.injEq, Prod.mk.injEq] at moved
      obtain ⟨rfl, rfl⟩ := moved
      refine ⟨rfl, rfl, ?_, rfl, rfl, exact.1, exact.2, exact.3, exact.4⟩
      simp [holds, free, semPost_of_lt (show 0 < semValueMax by decide)]
  | items =>
      have below := (mine.item rfl).1
      simp only [insertStep, Except.ok.injEq, Prod.mk.injEq] at moved
      obtain ⟨rfl, rfl⟩ := moved
      refine ⟨rfl, rfl, rfl, ?_, rfl, exact.1, exact.2, exact.3, exact.4⟩
      simp only [filled, Option.elim, semPost_of_lt below, Bool.toNat_true, Bool.toNat_false]
      omega

theorem remove_effect {queue queue' : Queue T} {place : Remove T}
    {place' : Remove T ⊕ Nat × T} {left : T} (exact : Exact queue)
    (cells : (queue.buf.length : Int) = queue.maxSize) (mine : Mine queue (.removing place))
    (room : queue.stored.length ≤ queue.removed.length + queue.buf.length)
    (moved : removeStep queue place left = .ok (queue', place')) :
    Effect queue (.removing place) queue' (place'.elim .removing fun _ => .idle) := by
  cases place with
  | items =>
      cases taken : semWait queue.items with
      | error stuck => simp [removeStep, taken] at moved
      | ok items =>
          have before := semWait_ok taken
          simp only [removeStep, taken, Except.ok.injEq, Prod.mk.injEq] at moved
          obtain ⟨rfl, rfl⟩ := moved
          refine ⟨rfl, rfl, rfl, ?_, rfl, exact.1, exact.2, exact.3, exact.4⟩
          simp only [filled, Sum.elim_inl, Bool.toNat_true, Bool.toNat_false]
          omega
  | mutex =>
      cases taken : semWait queue.mutex with
      | error stuck => simp [removeStep, taken] at moved
      | ok mutex =>
          have before := semWait_ok taken
          simp only [removeStep, taken, Except.ok.injEq, Prod.mk.injEq] at moved
          obtain ⟨rfl, rfl⟩ := moved
          refine ⟨rfl, rfl, ?_, rfl, rfl, exact.1, exact.2, exact.3, exact.4⟩
          simp only [holds, Sum.elim_inl, Bool.toNat_true, Bool.toNat_false]
          omega
  | take =>
      have behind := (mine.item rfl).2
      have nonempty : 0 < queue.buf.length := by omega
      obtain ⟨item, here, found⟩ := cell_eq queue.removed.length nonempty cells
      rw [← exact.front] at found
      cases counted : increment queue.front with
      | error stuck => simp [removeStep, counted] at moved
      | ok front =>
          obtain ⟨rfl, _⟩ := increment_ok counted
          simp only [removeStep, counted, found, Except.ok.injEq, Prod.mk.injEq] at moved
          obtain ⟨rfl, rfl⟩ := moved
          -- the cell holds the first value that was not read yet
          have first : queue.stored[queue.removed.length]? = some item := by
            have value := List.getElem?_eq_getElem behind
            rw [value, ← here]
            exact (exact.ring _ _ (Nat.le_refl _) value).symm
          constructor
          · rfl
          · exact List.length_set
          · rfl
          · simp only [filled, Sum.elim_inl, Bool.toNat_true, Bool.toNat_false, List.length_append,
              List.length_singleton]
            omega
          · simp only [reserved, Sum.elim_inl, Bool.toNat_true, Bool.toNat_false,
              List.length_append, List.length_singleton]
            omega
          · refine ⟨exact.rear, by simp [exact.front], ?_, ?_⟩
            · have popped := exact.ring.pop room left
              simpa using popped
            · obtain ⟨rest, whole⟩ := exact.fifo
              rw [← whole, List.getElem?_append_right (Nat.le_refl _), Nat.sub_self] at first
              cases rest with
              | nil => simp at first
              | cons value rest =>
                  obtain rfl : value = item := by simpa using first
                  exact ⟨rest, by rw [← whole]; simp⟩
  | unlock ticket item =>
      have free := mine.locked rfl
      simp only [removeStep, Except.ok.injEq, Prod.mk.injEq] at moved
      obtain ⟨rfl, rfl⟩ := moved
      refine ⟨rfl, rfl, ?_, rfl, rfl, exact.1, exact.2, exact.3, exact.4⟩
      simp [holds, free, semPost_of_lt (show 0 < semValueMax by decide)]
  | slots ticket item =>
      have below := (mine.slot rfl).1
      simp only [removeStep, Except.ok.injEq, Prod.mk.injEq] at moved
      obtain ⟨rfl, rfl⟩ := moved
      refine ⟨rfl, rfl, rfl, rfl, ?_, exact.1, exact.2, exact.3, exact.4⟩
      simp only [reserved, Sum.elim_inr, semPost_of_lt below, Bool.toNat_true, Bool.toNat_false]

theorem micro_cases {queue queue' : Queue T} {thread thread' : Thread T} {choice : Choice T}
    (moved : micro queue thread choice = .ok (queue', thread')) :
    (thread = .idle ∧ queue' = queue ∧
      ((∃ item, thread' = .inserting (.slots item)) ∨ thread' = .removing .items)) ∨
    (∃ place place', thread = .inserting place ∧ insertStep queue place = .ok (queue', place') ∧
      thread' = place'.elim .idle .inserting) ∨
    (∃ place place' left, thread = .removing place ∧
      removeStep queue place left = .ok (queue', place') ∧
      thread' = place'.elim .removing fun _ => .idle) := by
  cases thread with
  | idle =>
      cases choice <;> simp only [micro, Except.ok.injEq, Prod.mk.injEq, reduceCtorEq] at moved
      all_goals
        obtain ⟨rfl, rfl⟩ := moved
        exact .inl ⟨rfl, rfl, by simp⟩
  | inserting place =>
      cases choice <;> simp only [micro, reduceCtorEq] at moved
      cases taken : insertStep queue place with
      | error stuck => simp [taken] at moved
      | ok result =>
          obtain ⟨after, place'⟩ := result
          refine .inr (.inl ⟨place, place', rfl, ?_⟩)
          cases place' <;> simp only [taken, Except.ok.injEq, Prod.mk.injEq] at moved <;>
            obtain ⟨rfl, rfl⟩ := moved <;> exact ⟨taken, rfl⟩
  | removing place =>
      cases choice <;> simp only [micro, reduceCtorEq] at moved
      rename_i left
      cases taken : removeStep queue place left with
      | error stuck => simp [taken] at moved
      | ok result =>
          obtain ⟨after, place'⟩ := result
          refine .inr (.inr ⟨place, place', left, rfl, ?_⟩)
          cases place' <;> simp only [taken, Except.ok.injEq, Prod.mk.injEq] at moved <;>
            obtain ⟨rfl, rfl⟩ := moved <;> exact ⟨taken, rfl⟩

theorem micro_effect {queue queue' : Queue T} {thread thread' : Thread T} {choice : Choice T}
    (exact : Exact queue) (cells : (queue.buf.length : Int) = queue.maxSize)
    (mine : Mine queue thread)
    (room : queue.stored.length ≤ queue.removed.length + queue.buf.length)
    (moved : micro queue thread choice = .ok (queue', thread')) :
    Effect queue thread queue' thread' := by
  rcases micro_cases moved with
    ⟨rfl, rfl, ⟨_, rfl⟩ | rfl⟩ | ⟨_, _, rfl, taken, rfl⟩ | ⟨_, _, _, rfl, taken, rfl⟩
  · exact ⟨rfl, rfl, rfl, rfl, rfl, exact⟩
  · exact ⟨rfl, rfl, rfl, rfl, rfl, exact⟩
  · exact insert_effect exact cells mine taken
  · exact remove_effect exact cells mine room taken

end Effects

section Runs

variable {T : Type}

structure Inv (maxSize : Int) (queue : Queue T) (threads : List (Thread T)) : Prop where
  size : queue.maxSize = maxSize
  cells : queue.buf.length = maxSize.toNat
  lock : queue.mutex + threads.countP holds = 1
  content : queue.stored.length = queue.removed.length + queue.items + threads.countP filled
  room : queue.slots + threads.countP reserved + queue.stored.length =
    queue.removed.length + maxSize.toNat
  exact : Exact queue

theorem Inv.step {maxSize : Int} {queue queue' : Queue T} {front back : List (Thread T)}
    {thread thread' : Thread T} {choice : Choice T} (nonneg : 0 ≤ maxSize)
    (fits : maxSize ≤ intMax) (inv : Inv maxSize queue (front ++ thread :: back))
    (moved : micro queue thread choice = .ok (queue', thread')) :
    Inv maxSize queue' (front ++ thread' :: back) := by
  have count (place : Thread T → Bool) := countP_moved place front back thread thread'
  have some (place : Thread T → Bool) (here : place thread = true) :
      0 < (front ++ thread :: back).countP place := countP_pos_of_split here
  have limit : maxSize.toNat ≤ semValueMax := by
    simp only [intMax] at fits
    simp only [semValueMax]
    omega
  have lock := inv.lock
  have content := inv.content
  have room := inv.room
  have mine : Mine queue thread := by
    constructor
    · intro here
      have present := some holds here
      omega
    · intro here
      have present := some filled here
      omega
    · intro here
      have present := some reserved here
      rw [inv.cells]
      omega
  have effect := micro_effect inv.exact (by rw [inv.cells, inv.size]; omega) mine (by rw [inv.cells]; omega) moved
  constructor
  · exact effect.maxSize.trans inv.size
  · exact effect.cells.trans inv.cells
  · have here := count holds
    have balance := effect.lock
    omega
  · have here := count filled
    have balance := effect.content
    omega
  · have here := count reserved
    have balance := effect.room
    omega
  · exact effect.exact

theorem init_inv {maxSize : Int} (cell : T) {threads : List (Thread T)}
    (idle : ∀ thread ∈ threads, thread = .idle) : Inv maxSize (init maxSize cell) threads := by
  have none (place : Thread T → Bool) (outside : place .idle = false) :
      threads.countP place = 0 := by
    rw [List.countP_eq_zero]
    intro thread member
    rw [idle thread member, outside]
    exact Bool.false_ne_true
  refine ⟨rfl, by simp [init], ?_, ?_, ?_, rfl, rfl, .nil _ _, List.prefix_rfl⟩
  · rw [none holds rfl]
    rfl
  · rw [none filled rfl]
    rfl
  · rw [none reserved rfl]
    simp [init]

theorem run_inv {maxSize : Int} {cell : T} {threads : List (Thread T)}
    {final : System (Queue T) (Thread T)} {turns : List (Nat × Choice T)} (nonneg : 0 ≤ maxSize)
    (fits : maxSize ≤ intMax) (idle : ∀ thread ∈ threads, thread = .idle)
    (reached : run (step micro) ⟨init maxSize cell, threads⟩ turns = .ok final) :
    Inv maxSize final.shared final.threads :=
  run_keeps (fun _ _ _ _ _ _ _ inv moved => inv.step nonneg fits moved) turns
    (init_inv cell idle) reached

theorem insert_defined {queue : Queue T} (place : Insert T) (exact : Exact queue)
    (cells : (queue.buf.length : Int) = queue.maxSize) (nonempty : 0 < queue.buf.length)
    (below : (queue.stored.length : Int) < intMax) : insertStep queue place ≠ .error .fault := by
  cases place with
  | slots item =>
      obtain blocked | ⟨rest, waited⟩ := semWait_cases queue.slots
      · simp [insertStep, blocked]
      · simp [insertStep, waited]
  | mutex item =>
      obtain blocked | ⟨rest, waited⟩ := semWait_cases queue.mutex
      · simp [insertStep, blocked]
      · simp [insertStep, waited]
  | store item =>
      obtain ⟨_, _, found⟩ := cell_eq queue.stored.length nonempty cells
      rw [← exact.rear] at found below
      simp [insertStep, increment, below, found]
  | unlock => simp [insertStep]
  | items => simp [insertStep]

theorem remove_defined {queue : Queue T} (place : Remove T) (left : T) (exact : Exact queue)
    (cells : (queue.buf.length : Int) = queue.maxSize) (nonempty : 0 < queue.buf.length)
    (below : (queue.removed.length : Int) < intMax) :
    removeStep queue place left ≠ .error .fault := by
  cases place with
  | items =>
      obtain blocked | ⟨rest, waited⟩ := semWait_cases queue.items
      · simp [removeStep, blocked]
      · simp [removeStep, waited]
  | mutex =>
      obtain blocked | ⟨rest, waited⟩ := semWait_cases queue.mutex
      · simp [removeStep, blocked]
      · simp [removeStep, waited]
  | take =>
      obtain ⟨_, _, found⟩ := cell_eq queue.removed.length nonempty cells
      rw [← exact.front] at found below
      simp [removeStep, increment, below, found]
  | unlock ticket item => simp [removeStep]
  | slots ticket item => simp [removeStep]

theorem Inv.defined {maxSize : Int} {queue : Queue T} {threads : List (Thread T)}
    (positive : 1 ≤ maxSize) (inv : Inv maxSize queue threads)
    (below : (queue.stored.length : Int) < intMax) (thread : Thread T) (choice : Choice T) :
    micro queue thread choice ≠ .error .fault := by
  have cells : (queue.buf.length : Int) = queue.maxSize := by
    rw [inv.cells, inv.size]
    omega
  have nonempty : 0 < queue.buf.length := by
    rw [inv.cells]
    omega
  have fewer := inv.exact.fifo.length_le
  rcases thread with _ | place | place
  · cases choice <;> simp [micro]
  · cases choice <;> simp only [micro, ne_eq, Except.error.injEq, reduceCtorEq, not_false_eq_true]
    have defined := insert_defined place inv.exact cells nonempty below
    cases taken : insertStep queue place with
    | error stuck =>
        rw [taken] at defined
        simpa using defined
    | ok result => rcases result with ⟨next, _ | left⟩ <;> simp
  · cases choice <;> simp only [micro, ne_eq, Except.error.injEq, reduceCtorEq, not_false_eq_true]
    rename_i left
    have defined := remove_defined place left inv.exact cells nonempty (by omega)
    cases taken : removeStep queue place left with
    | error stuck =>
        rw [taken] at defined
        simpa using defined
    | ok result => rcases result with ⟨next, place | done⟩ <;> simp

theorem Inv.quiet {maxSize : Int} {queue : Queue T} {threads : List (Thread T)}
    (inv : Inv maxSize queue threads) (full : queue.slots = maxSize.toNat) :
    queue.removed = queue.stored ∧ ∀ thread ∈ threads, between thread = false := by
  have content := inv.content
  have room := inv.room
  refine ⟨inv.exact.fifo.eq_of_length (by omega), fun thread member => ?_⟩
  have noneFilled : threads.countP filled = 0 := by omega
  have noneReserved : threads.countP reserved = 0 := by omega
  have notFilled := List.countP_eq_zero.mp noneFilled thread member
  have notReserved := List.countP_eq_zero.mp noneReserved thread member
  rw [between_eq]
  simp [notFilled, notReserved]

end Runs

end StudyRecord.BlockQueue
