import StudyRecord.Log.Logger
import Mathlib.Data.List.Range

/-!
The order of the messages in the file. Each message that left the queue is in the
file or in the hands of one worker; the file follows the queue as long as no worker
overtakes another between its removal and its write.
-/

namespace StudyRecord.Logger

open Machine Runs Threads

/-- The file holds the first messages of the queue, in the order of the queue. -/
def InOrder (log : Log) : Prop := log.file <+: log.queue.stored.zipIdx

instance (log : Log) : Decidable (InOrder log) := inferInstanceAs (Decidable (_ <+: _))

/-- A worker that writes has the message that was taken first of all that are not written. -/
def InTurn (system : System Log Thread) (turn : Nat × Choice) : Prop :=
  ∀ text ticket info, turn.2 = .go text →
    system.threads[turn.1]? = some (.worker (.write ticket info)) →
    ∀ other ∈ system.threads, ∀ entry ∈ held other, ticket ≤ entry.1

def carries (ticket : Nat) (thread : Thread) : Bool := (held thread).map Prod.fst = some ticket

structure Inv (size : Int) (log : Log) (threads : List Thread) : Prop where
  mode : log.asyncMode = true
  route : ∀ thread ∈ threads, ∀ found, route thread = some found → found = true
  queue : BlockQueue.Inv size log.queue (threads.map queuePlace)
  texts : ∀ thread ∈ threads, ∀ entry ∈ held thread, log.queue.stored[entry.1]? = some entry.2
  file : ∀ entry ∈ log.file, log.queue.stored[entry.2]? = some entry.1
  tickets : ∀ ticket, (decide (ticket < log.queue.removed.length)).toNat =
    (log.file.map Prod.snd).count ticket + threads.countP (carries ticket)

section Steps

theorem carries_of_none {ticket : Nat} {thread : Thread} (none : held thread = none) :
    carries ticket thread = false := by
  simp [carries, none]

theorem carries_congr {ticket : Nat} {thread thread' : Thread} (same : held thread' = held thread) :
    carries ticket thread' = carries ticket thread := by
  simp only [carries, same]

theorem carries_eq {ticket : Nat} {thread : Thread} (entry : Nat × String)
    (here : held thread = some entry) : carries ticket thread = decide (entry.1 = ticket) := by
  simp [carries, here]

theorem Inv.tickets_step {size : Int} {log log' : Log} {front back : List Thread}
    {thread thread' : Thread} (inv : Inv size log (front ++ thread :: back))
    (move : Move log thread log' thread') (indirect : Logger.route thread ≠ some false) (ticket : Nat) :
    (decide (ticket < log'.queue.removed.length)).toNat =
      (log'.file.map Prod.snd).count ticket + (front ++ thread' :: back).countP (carries ticket) := by
  have count := countP_moved (carries ticket) front back thread thread'
  have tickets := inv.tickets ticket
  cases move with
  | still stored removed file logged kept hand =>
      rw [carries_congr hand] at count
      rw [removed, file]
      omega
  | push line stored removed file logged found none kept hand =>
      rw [carries_congr hand] at count
      rw [removed, file]
      omega
  | store line stored removed file logged kept none hand =>
      rw [carries_congr hand] at count
      rw [removed, file]
      omega
  | take info stored removed file logged kept none hand =>
      rw [carries_of_none none, carries_eq _ hand] at count
      rw [removed, file, List.length_append, List.length_singleton]
      -- the message that was just taken is the one new ticket
      rcases Nat.lt_trichotomy ticket log.queue.removed.length with less | same | more
      · have other : log.queue.removed.length ≠ ticket := by omega
        have still : ticket < log.queue.removed.length + 1 := by omega
        simp only [less, other, still, decide_true, decide_false, Bool.toNat_true,
          Bool.toNat_false] at count tickets ⊢
        omega
      · subst same
        have new : ¬log.queue.removed.length < log.queue.removed.length := by omega
        simp only [new, Nat.lt_succ_self, decide_true, decide_false, Bool.toNat_true,
          Bool.toNat_false] at count tickets ⊢
        omega
      · have other : log.queue.removed.length ≠ ticket := by omega
        have before : ¬ticket < log.queue.removed.length := by omega
        have after : ¬ticket < log.queue.removed.length + 1 := by omega
        simp only [before, other, after, decide_false, Bool.toNat_false] at count tickets ⊢
        omega
  | write written info place stored removed file logged kept none =>
      subst place
      rw [carries_of_none none, carries_eq (written, info) rfl] at count
      rw [removed, file, List.map_append, List.map_singleton, List.count_append,
        List.count_singleton]
      by_cases same : written = ticket
      · subst same
        simp only [beq_self_eq_true, if_true, decide_true, Bool.toNat_true, Bool.toNat_false]
          at count ⊢
        omega
      · simp only [same, beq_iff_eq, if_false, decide_false, Bool.toNat_false] at count ⊢
        omega
  | writeNow line found => exact absurd found indirect

theorem Move.stored_prefix {log log' : Log} {thread thread' : Thread}
    (move : Move log thread log' thread') : log.queue.stored <+: log'.queue.stored := by
  cases move with
  | store line stored =>
      rw [stored]
      exact List.prefix_append _ _
  | still stored | push _ stored | take _ stored | write _ _ _ stored | writeNow _ _ stored =>
      simp [stored]

theorem Inv.step {size : Int} {log log' : Log} {front back : List Thread}
    {thread thread' : Thread} {choice : Choice} (valid : 0 ≤ size) (fits : size ≤ intMax)
    (inv : Inv size log (front ++ thread :: back))
    (moved : micro log thread choice = .ok (log', thread')) :
    Inv size log' (front ++ thread' :: back) := by
  obtain ⟨move, kept⟩ := micro_move moved
  have indirect : Logger.route thread ≠ some false := by
    intro found
    cases inv.route thread (by simp) false found
  have grows := move.stored_prefix
  have later {ticket : Nat} {info : String} (here : log.queue.stored[ticket]? = some info) :
      log'.queue.stored[ticket]? = some info := by
    obtain ⟨rest, whole⟩ := grows
    obtain ⟨inside, _⟩ := List.getElem?_eq_some_iff.mp here
    rw [← whole, List.getElem?_append_left inside]
    exact here
  have queue' : BlockQueue.Inv size log'.queue ((front ++ thread' :: back).map queuePlace) := by
    have queue := inv.queue
    simp only [List.map_append, List.map_cons] at queue ⊢
    rcases micro_queue moved with ⟨sameQueue, samePlace⟩ | ⟨choice', moved'⟩
    · rw [sameQueue, samePlace]
      exact queue
    · exact queue.step valid fits moved'
  constructor
  · exact kept.mode.trans inv.mode
  · refine forall_moved inv.route ?_ fun _ _ found => found
    intro found here
    rcases kept.route found here with rfl | before
    · exact inv.mode
    · exact inv.route thread (by simp) found before
  · exact queue'
  · refine forall_moved inv.texts ?_ fun _ _ texts entry here => later (texts entry here)
    intro entry here
    have same (hand : held thread' = held thread) : log'.queue.stored[entry.1]? = some entry.2 := by
      rw [hand] at here
      exact later (inv.texts thread (by simp) entry here)
    cases move with
    | still _ _ _ _ _ hand => exact same hand
    | push _ _ _ _ _ _ _ _ hand => exact same hand
    | store _ _ _ _ _ _ _ hand => exact same hand
    | writeNow _ _ _ _ _ _ _ hand => exact same hand
    | write _ _ _ _ _ _ _ _ none => simp [none] at here
    | take info _ removed _ _ _ _ hand =>
        obtain rfl : (log.queue.removed.length, info) = entry := by simpa [hand] using here
        -- the queue is first in, first out
        obtain ⟨rest, whole⟩ := queue'.exact.fifo
        rw [← whole, removed]
        simp
  · intro entry member
    have before (same : log'.file = log.file) : log'.queue.stored[entry.2]? = some entry.1 := by
      rw [same] at member
      exact later (inv.file entry member)
    cases move with
    | still _ _ file => exact before file
    | push _ _ _ file => exact before file
    | store _ _ _ file => exact before file
    | take _ _ _ file => exact before file
    | writeNow _ found => exact absurd found indirect
    | write ticket info place _ _ file =>
        rw [file] at member
        rcases List.mem_append.mp member with old | new
        · exact later (inv.file entry old)
        · obtain rfl := List.mem_singleton.mp new
          subst place
          exact later (inv.texts (.worker (.write ticket info)) (by simp) (ticket, info) rfl)
  · exact inv.tickets_step move indirect

theorem init_inv (writeThreadCount size : Int) {others : List Thread}
    (fresh : ∀ thread ∈ others, Fresh thread) :
    Inv size (init true writeThreadCount size others).shared
      (init true writeThreadCount size others).threads := by
  have idle : ∀ thread ∈ (init true writeThreadCount size others).threads,
      queuePlace thread = .idle ∧ Logger.route thread = none ∧ held thread = none := by
    intro thread member
    rcases List.mem_append.mp member with other | worker
    · rcases fresh thread other with rfl | rfl <;> exact ⟨rfl, rfl, rfl⟩
    · rw [List.eq_of_mem_replicate worker]
      exact ⟨rfl, rfl, rfl⟩
  refine ⟨rfl, ?_, ?_, ?_, ?_, ?_⟩
  · intro thread member found here
    rw [(idle thread member).2.1] at here
    cases here
  · apply BlockQueue.init_inv
    intro place member
    obtain ⟨thread, here, rfl⟩ := List.mem_map.mp member
    exact (idle thread here).1
  · intro thread member entry here
    rw [(idle thread member).2.2] at here
    cases here
  · simp [init]
  · intro ticket
    have none : (init true writeThreadCount size others).threads.countP (carries ticket) = 0 := by
      rw [List.countP_eq_zero]
      intro thread member
      simp [carries_of_none (idle thread member).2.2]
    rw [none]
    rfl

end Steps

section Order

theorem inOrder_append_iff {log : Log} (inOrder : InOrder log) (info : String) (ticket : Nat) :
    log.file ++ [(info, ticket)] <+: log.queue.stored.zipIdx ↔
      ticket = log.file.length ∧ log.queue.stored[ticket]? = some info := by
  obtain ⟨rest, whole⟩ := inOrder
  have next : log.queue.stored.zipIdx[log.file.length]? = rest.head? := by
    rw [← whole, List.getElem?_append_right (Nat.le_refl _), Nat.sub_self, List.head?_eq_getElem?]
  rw [List.getElem?_zipIdx, Nat.zero_add] at next
  rw [← whole, List.prefix_append_right_inj]
  constructor
  · rintro ⟨more, rfl⟩
    obtain ⟨value, here, same⟩ := Option.map_eq_some_iff.mp next
    obtain ⟨rfl, rfl⟩ := Prod.mk.inj same
    exact ⟨rfl, here⟩
  · rintro ⟨rfl, here⟩
    rw [here, Option.map_some] at next
    cases rest with
    | nil => cases next
    | cons entry more =>
        obtain rfl : (info, log.file.length) = entry := Option.some.inj next
        exact ⟨more, rfl⟩

theorem file_tickets {log : Log} (inOrder : InOrder log) :
    log.file.map Prod.snd = List.range log.file.length := by
  have tickets : log.file.map Prod.snd <+: List.range log.queue.stored.length := by
    have mapped := inOrder.map Prod.snd
    rwa [List.zipIdx_map_snd, ← List.range_eq_range'] at mapped
  have bound : log.file.length ≤ log.queue.stored.length := by
    simpa using tickets.length_le
  rw [List.prefix_iff_eq_take.mp tickets, List.take_range, List.length_map, Nat.min_eq_left bound]

theorem Inv.first_held {size : Int} {log : Log} {threads : List Thread}
    (inv : Inv size log threads) (inOrder : InOrder log) {thread : Thread}
    (member : thread ∈ threads) {entry : Nat × String} (here : held thread = some entry) :
    log.file.length ≤ entry.1 ∧
      ∃ other ∈ threads, ∃ entry ∈ held other, entry.1 = log.file.length := by
  have tickets (ticket : Nat) := inv.tickets ticket
  simp only [file_tickets inOrder, List.count_range] at tickets
  have carried : 0 < threads.countP (carries entry.1) :=
    List.countP_pos_iff.mpr ⟨thread, member, by simp [carries, here]⟩
  have atLeast : log.file.length ≤ entry.1 := by
    have here := tickets entry.1
    have atMost := Bool.toNat_le (decide (entry.1 < log.queue.removed.length))
    split at here <;> omega
  refine ⟨atLeast, ?_⟩
  have taken : entry.1 < log.queue.removed.length := by
    by_contra late
    have here := tickets entry.1
    simp only [late, decide_false, Bool.toNat_false] at here
    omega
  have next := tickets log.file.length
  have inside : log.file.length < log.queue.removed.length := by omega
  simp only [inside, decide_true, Bool.toNat_true, Nat.lt_irrefl, if_false] at next
  obtain ⟨other, among, carrying⟩ := List.countP_pos_iff.mp 
    (show 0 < threads.countP (carries log.file.length) by omega)
  simp only [carries, decide_eq_true_eq, Option.map_eq_some_iff] at carrying
  obtain ⟨first, holding, same⟩ := carrying
  exact ⟨other, among, first, holding, same⟩

theorem Inv.order_step {size : Int} {system next : System Log Thread} {turn : Nat × Choice}
    (inv : Inv size system.shared system.threads) (inOrder : InOrder system.shared)
    (inTurn : InTurn system turn) (taken : Threads.step micro system turn = .ok next) :
    InOrder next.shared := by
  obtain ⟨front, thread, back, thread', split, place, moved, _⟩ := step_cases taken
  obtain ⟨move, _⟩ := micro_move moved
  have before (file : next.shared.file = system.shared.file) : InOrder next.shared := by
    obtain ⟨more, grown⟩ := move.stored_prefix
    rw [InOrder, file, ← grown, List.zipIdx_append]
    exact inOrder.trans (List.prefix_append _ _)
  cases move with
  | still _ _ file => exact before file
  | push _ _ _ file => exact before file
  | store _ _ _ file => exact before file
  | take _ _ _ file => exact before file
  | writeNow _ found =>
      cases inv.route thread (by simp [split]) false found
  | write ticket info here stored _ file =>
      subst here
      have member : Thread.worker (.write ticket info) ∈ system.threads := by simp [split]
      obtain ⟨atLeast, other, among, entry, holding, same⟩ := inv.first_held inOrder member rfl
      have atTurn : system.threads[turn.1]? = some (.worker (.write ticket info)) := by
        rw [split, ← place]
        simp
      have going : ∃ text, turn.2 = .go text := by
        cases choice : turn.2 with
        | go text => exact ⟨text, rfl⟩
        | log item => simp [choice, micro, workerStep] at moved
      obtain ⟨text, going⟩ := going
      have atMost := inTurn text ticket info going atTurn other among entry holding
      have text := inv.texts _ member (ticket, info) rfl
      rw [InOrder, file, stored]
      exact (inOrder_append_iff inOrder info ticket).mpr ⟨by omega, text⟩

theorem Inv.order_broken {size : Int} {system : System Log Thread} {turn : Nat × Choice}
    (inv : Inv size system.shared system.threads) (inOrder : InOrder system.shared)
    (missed : ¬InTurn system turn) :
    ∃ next, Threads.step micro system turn = .ok next ∧ ¬InOrder next.shared := by
  simp only [InTurn, not_forall] at missed
  obtain ⟨text, ticket, info, going, atTurn, other, among, entry, holding, earlier⟩ := missed
  obtain ⟨index, choice⟩ := turn
  simp only at going atTurn
  subst going
  refine ⟨⟨{ system.shared with file := system.shared.file ++ [(info, ticket)] },
    system.threads.set index (.worker .unlock)⟩, by simp [Threads.step, atTurn, micro, workerStep], ?_⟩
  intro inOrder'
  obtain ⟨same, _⟩ := (inOrder_append_iff inOrder info ticket).mp inOrder'
  obtain ⟨atLeast, _⟩ := inv.first_held inOrder among holding
  omega

theorem inTurn_of_one {system : System Log Thread} (one : system.threads.countP isWorker ≤ 1)
    (turn : Nat × Choice) : InTurn system turn := by
  intro text ticket info _ atTurn other among entry holding
  obtain ⟨front, back, split⟩ := List.append_of_mem (List.mem_of_getElem? atTurn)
  rw [split] at one among
  have outside := others_outside one rfl other
  have inside := isWorker_of_held holding
  have same : other = .worker (.write ticket info) := by
    rcases List.mem_append.mp among with early | late
    · rw [outside (List.mem_append_left _ early)] at inside
      contradiction
    · rcases List.mem_cons.mp late with rfl | behind
      · rfl
      · rw [outside (List.mem_append_right _ behind)] at inside
        contradiction
  subst same
  obtain rfl : (ticket, info) = entry := Option.some.inj holding
  exact Nat.le_refl _

theorem kinds_step {system next : System Log Thread} {turn : Nat × Choice}
    (taken : step micro system turn = .ok next) :
    next.threads.countP isWorker = system.threads.countP isWorker ∧
      next.threads.countP isCaller = system.threads.countP isCaller := by
  obtain ⟨front, thread, back, thread', split, _, moved, split'⟩ := step_cases taken
  obtain ⟨_, kept⟩ := micro_move moved
  rw [split, split']
  simp only [List.countP_append, List.countP_cons, kept.worker, kept.caller, and_self]

theorem workers_of_fresh {others : List Thread} (fresh : ∀ thread ∈ others, Fresh thread)
    (writeThreadCount size : Int) :
    (init true writeThreadCount size others).threads.countP isWorker =
      writeThreadCount.toNat := by
  have none : others.countP isWorker = 0 := by
    rw [List.countP_eq_zero]
    intro thread member
    rcases fresh thread member with rfl | rfl <;> simp [isWorker]
  simp [init, none, isWorker, List.countP_replicate]

end Order

section OneCaller

def Feeds (log : Log) (threads : List Thread) : Prop :=
  log.logged = log.queue.stored ++ threads.filterMap pending

theorem feeds_step {log log' : Log} {front back : List Thread} {thread thread' : Thread}
    (one : (front ++ thread :: back).countP isCaller ≤ 1)
    (indirect : route thread ≠ some false) (move : Move log thread log' thread')
    (kept : Kept log thread log' thread') (feeds : Feeds log (front ++ thread :: back)) :
    Feeds log' (front ++ thread' :: back) := by
  -- beside a caller there is no other thread with a line
  have alone (here : isCaller thread = true) :
      front.filterMap pending = [] ∧ back.filterMap pending = [] := by
    have outside := others_outside one here
    have none (other : Thread) (member : other ∈ front ++ back) : pending other = none := by
      cases line : pending other with
      | none => rfl
      | some text =>
          have inside := isCaller_of_pending line
          rw [outside other member] at inside
          contradiction
    constructor
    · exact List.filterMap_eq_nil_iff.mpr fun other member =>
        none other (List.mem_append_left _ member)
    · exact List.filterMap_eq_nil_iff.mpr fun other member =>
        none other (List.mem_append_right _ member)
  simp only [Feeds, List.filterMap_append, List.filterMap_cons] at feeds ⊢
  cases move with
  | still stored _ _ logged same => rw [stored, logged, same, feeds]
  | take _ stored _ _ logged same => rw [stored, logged, same, feeds]
  | write _ _ _ stored _ _ logged same => rw [stored, logged, same, feeds]
  | writeNow _ found => exact absurd found indirect
  | push line stored _ _ logged _ none some =>
      have here : isCaller thread = true := by
        rw [← kept.caller]
        exact isCaller_of_pending some
      obtain ⟨noneBefore, noneBehind⟩ := alone here
      rw [stored, logged, some, feeds, none, noneBefore, noneBehind]
      simp
  | store line stored _ _ logged some none =>
      obtain ⟨noneBefore, noneBehind⟩ := alone (isCaller_of_pending some)
      rw [stored, logged, none, feeds, some, noneBefore, noneBehind]
      simp

def AtRest (system : System Log Thread) : Prop :=
  system.shared.queue.removed = system.shared.queue.stored ∧
    ∀ thread ∈ system.threads, pending thread = none ∧ held thread = none

theorem file_of_feeds {size : Int} {system : System Log Thread}
    (inv : Inv size system.shared system.threads) (inOrder : InOrder system.shared)
    (feeds : Feeds system.shared system.threads) :
    system.shared.file.map Prod.fst <+: system.shared.logged ∧
      (AtRest system → system.shared.file.map Prod.fst = system.shared.logged) := by
  have texts : system.shared.file.map Prod.fst <+: system.shared.queue.stored := by
    have mapped := inOrder.map Prod.fst
    rwa [List.zipIdx_map_fst] at mapped
  rw [Feeds] at feeds
  refine ⟨?_, ?_⟩
  · rw [feeds]
    exact texts.trans (List.prefix_append _ _)
  · rintro ⟨drained, idle⟩
    have nothing : system.threads.filterMap pending = [] :=
      List.filterMap_eq_nil_iff.mpr fun thread member => (idle thread member).1
    rw [feeds, nothing, List.append_nil]
    apply texts.eq_of_length_le
    rw [List.length_map]
    by_contra short
    have next := inv.tickets system.shared.file.length
    have inside : system.shared.file.length < system.shared.queue.removed.length := by
      rw [drained]
      omega
    have none : system.threads.countP (carries system.shared.file.length) = 0 := by
      rw [List.countP_eq_zero]
      intro thread member
      simp [carries_of_none (idle thread member).2]
    rw [file_tickets inOrder, List.count_range, none] at next
    simp [inside] at next

structure SyncInv (log : Log) (threads : List Thread) : Prop where
  mode : log.asyncMode = false
  workers : ∀ thread ∈ threads, isWorker thread = false
  route : ∀ thread ∈ threads, ∀ found, route thread = some found → found = false
  file : log.file.map Prod.fst = log.logged

theorem SyncInv.step {log log' : Log} {front back : List Thread} {thread thread' : Thread}
    {choice : Choice} (inv : SyncInv log (front ++ thread :: back))
    (moved : micro log thread choice = .ok (log', thread')) :
    SyncInv log' (front ++ thread' :: back) := by
  obtain ⟨move, kept⟩ := micro_move moved
  have noWorker := inv.workers thread (by simp)
  constructor
  · exact kept.mode.trans inv.mode
  · exact forall_moved inv.workers (kept.worker.trans noWorker) fun _ _ same => same
  · refine forall_moved inv.route ?_ fun _ _ found => found
    intro found here
    rcases kept.route found here with rfl | before
    · exact inv.mode
    · exact inv.route thread (by simp) found before
  · have file := inv.file
    cases move with
    | still _ _ same logged => rw [same, logged, file]
    | store _ _ _ same logged => rw [same, logged, file]
    | take _ _ _ same logged => rw [same, logged, file]
    | push _ _ _ _ _ found => cases inv.route thread (by simp) true found
    | write _ _ place =>
        subst place
        cases noWorker
    | writeNow line found _ _ same logged => simp [same, logged, file]

theorem inv_turn {size : Int} (valid : 0 ≤ size) (fits : size ≤ intMax)
    {system next : System Log Thread} {turn : Nat × Choice}
    (inv : Inv size system.shared system.threads) (taken : step micro system turn = .ok next) :
    Inv size next.shared next.threads := by
  obtain ⟨front, thread, back, thread', split, _, moved, split'⟩ := step_cases taken
  rw [split] at inv
  rw [split']
  exact inv.step valid fits moved

structure OneCaller (size : Int) (system : System Log Thread) : Prop where
  inv : Inv size system.shared system.threads
  order : InOrder system.shared
  callers : system.threads.countP isCaller ≤ 1
  feeds : Feeds system.shared system.threads

theorem OneCaller.step {size : Int} (valid : 0 ≤ size) (fits : size ≤ intMax)
    {system next : System Log Thread} {turn : Nat × Choice} (one : OneCaller size system)
    (inTurn : InTurn system turn) (taken : Threads.step micro system turn = .ok next) :
    OneCaller size next := by
  refine ⟨inv_turn valid fits one.inv taken, one.inv.order_step one.order inTurn taken, ?_, ?_⟩
  · rw [(kinds_step taken).2]
    exact one.callers
  · obtain ⟨front, thread, back, thread', split, _, moved, split'⟩ := step_cases taken
    obtain ⟨move, kept⟩ := micro_move moved
    have indirect : route thread ≠ some false := by
      intro found
      cases one.inv.route thread (by simp [split]) false found
    have callers := one.callers
    have feeds := one.feeds
    rw [split] at callers feeds
    rw [split']
    exact feeds_step callers indirect move kept feeds

theorem init_oneCaller (writeThreadCount size : Int) {others : List Thread}
    (fresh : ∀ thread ∈ others, Fresh thread) (one : others.countP isCaller ≤ 1) :
    OneCaller size (init true writeThreadCount size others) := by
  refine ⟨init_inv writeThreadCount size fresh, List.nil_prefix, ?_, ?_⟩
  · have none : (List.replicate (if true then writeThreadCount.toNat else 0)
        (Thread.worker .testStop)).countP isCaller = 0 := by
      simp [List.countP_replicate, isCaller]
    rw [init, List.countP_append, none]
    exact one
  · have nothing : (init true writeThreadCount size others).threads.filterMap pending = [] := by
      apply List.filterMap_eq_nil_iff.mpr
      intro thread member
      rcases List.mem_append.mp member with other | worker
      · rcases fresh thread other with rfl | rfl <;> rfl
      · rw [List.eq_of_mem_replicate worker]
        rfl
    rw [Feeds, nothing]
    rfl

theorem init_syncInv (writeThreadCount size : Int) {others : List Thread}
    (fresh : ∀ thread ∈ others, Fresh thread) :
    SyncInv (init false writeThreadCount size others).shared
      (init false writeThreadCount size others).threads := by
  have only : (init false writeThreadCount size others).threads = others := by
    simp [init]
  rw [only]
  refine ⟨rfl, ?_, ?_, rfl⟩
  · intro thread member
    rcases fresh thread member with rfl | rfl <;> rfl
  · intro thread member found here
    rcases fresh thread member with rfl | rfl <;> cases here

end OneCaller

/-- The file follows the queue exactly in the runs in which no worker overtakes another;
with one worker these are all runs. For a single logging thread it is then the file that
synchronous mode writes: the lines in the order of the calls. -/
theorem file_in_order_iff (writeThreadCount blockQueueSize : Int) (valid : 0 ≤ blockQueueSize)
    (fits : blockQueueSize ≤ intMax) (others : List Thread)
    (fresh : ∀ thread ∈ others, Fresh thread) :
    (∀ turns,
      Always (step micro) (fun system => InOrder system.shared)
        (init true writeThreadCount blockQueueSize others) turns ↔
      Along (step micro) InTurn (init true writeThreadCount blockQueueSize others) turns) ∧
    (writeThreadCount = 1 → ∀ turns,
      Along (step micro) InTurn (init true writeThreadCount blockQueueSize others) turns) ∧
    (∀ turns final,
      run (step micro) (init true writeThreadCount blockQueueSize others) turns = .ok final →
      Along (step micro) InTurn (init true writeThreadCount blockQueueSize others) turns →
      others.countP isCaller ≤ 1 →
      final.shared.file.map Prod.fst <+: final.shared.logged ∧
        (AtRest final → final.shared.file.map Prod.fst = final.shared.logged)) ∧
    (∀ turns final,
      run (step micro) (init false writeThreadCount blockQueueSize others) turns = .ok final →
      final.shared.file.map Prod.fst = final.shared.logged) := by
  have start := init_inv writeThreadCount blockQueueSize fresh
  refine ⟨fun turns => ?_, fun one turns => ?_, fun turns final reached inTurn one => ?_,
    fun turns final reached => ?_⟩
  · have holds (system : System Log Thread) (both : Inv blockQueueSize system.shared system.threads ∧
        InOrder system.shared) : InOrder system.shared := both.2
    refine always_iff_along holds (fun system turn next both _ inTurn taken => ?_)
      (fun system turn both _ missed => ?_) turns ⟨start, List.nil_prefix⟩
      (along_of_forall turns _ fun _ _ _ => trivial)
    · exact ⟨inv_turn valid fits both.1 taken, both.1.order_step both.2 inTurn taken⟩
    · exact both.1.order_broken both.2 missed
  · have stays (system : System Log Thread) (turn : Nat × Choice) (next : System Log Thread)
        (workers : system.threads.countP isWorker ≤ 1)
        (taken : step micro system turn = .ok next) : next.threads.countP isWorker ≤ 1 := by
      rw [(kinds_step taken).1]
      exact workers
    refine along_of_invariant stays (fun _ turn workers => inTurn_of_one workers turn) turns ?_
    rw [workers_of_fresh fresh, one]
    decide
  · have stays (system : System Log Thread) (turn : Nat × Choice) (next : System Log Thread)
        (before : OneCaller blockQueueSize system) (inTurn : InTurn system turn)
        (taken : step micro system turn = .ok next) : OneCaller blockQueueSize next :=
      before.step valid fits inTurn taken
    have last := run_invariant stays turns (init_oneCaller _ _ fresh one) inTurn reached
    exact file_of_feeds last.inv last.order last.feeds
  · exact (run_keeps (fun _ _ _ _ _ _ _ inv moved => SyncInv.step inv moved) turns
      (init_syncInv _ _ fresh) reached).file

def overtaking : List (Nat × Choice) :=
  (0, .log "0") :: List.replicate 8 (0, .go "t") ++ List.replicate 6 (1, .go "t") ++
    (0, .log "1") :: List.replicate 8 (0, .go "t") ++ List.replicate 9 (2, .go "t") ++
    List.replicate 3 (1, .go "t")

theorem file_out_of_order :
    ∃ final, run (step micro) (init true 3 300 [.caller .idle]) overtaking = .ok final ∧
      final.shared.queue.stored = ["t 0", "t 1"] ∧ final.shared.logged = ["t 0", "t 1"] ∧
      final.shared.file = [("t 1", 1), ("t 0", 0)] ∧
      ¬Always (step micro) (fun system => InOrder system.shared)
        (init true 3 300 [.caller .idle]) overtaking := by
  have seen : (run (step micro) (init true 3 300 [.caller .idle]) overtaking).toOption.map
      (fun final => (final.shared.queue.stored, final.shared.logged, final.shared.file)) =
      some (["t 0", "t 1"], ["t 0", "t 1"], [("t 1", 1), ("t 0", 0)]) := by decide +kernel
  cases reached : run (step micro) (init true 3 300 [.caller .idle]) overtaking with
  | error stuck => simp [reached, Except.toOption] at seen
  | ok final =>
      simp only [reached, Except.toOption, Option.map_some, Option.some.injEq, Prod.mk.injEq] at seen
      obtain ⟨stored, logged, file⟩ := seen
      refine ⟨final, rfl, stored, logged, file, fun always => ?_⟩
      have inOrder := always_final overtaking always reached
      rw [InOrder, stored, file] at inOrder
      exact absurd inOrder (by decide)

theorem file_in_order_iff_overtaking :
    Always (step micro) (fun system => InOrder system.shared)
      (init true 3 300 [.caller .idle]) overtaking ↔
    Along (step micro) InTurn (init true 3 300 [.caller .idle]) overtaking :=
  (file_in_order_iff 3 300 (by decide) (by decide) [.caller .idle] (by decide)).1 overtaking

end StudyRecord.Logger
