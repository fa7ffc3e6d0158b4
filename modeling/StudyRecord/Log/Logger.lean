import StudyRecord.Log.Fifo

/-!
The logger of `log/logger.cpp`: threads that call `addItem`, workers that take
messages from the queue and write them to the file, and threads that call `stop`.
-/

namespace StudyRecord.Logger

open Machine Runs Threads

structure Log where
  queue : BlockQueue.Queue String
  stopLogger : Bool
  asyncMode : Bool
  lock : Bool
  /-- the texts written to `ofs`, each with the number of its message -/
  file : List (String × Nat)
  /-- the lines that `addItem` has made, in this order -/
  logged : List String
  deriving DecidableEq

inductive Caller
  | idle
  | testStop (item : String)
  | testMode (item : String)
  | push (item : String)
  | insert (place : BlockQueue.Insert String)
  | lock (item : String)
  | write (item : String)
  | unlock
  deriving DecidableEq

inductive Worker
  | testStop
  | testEmpty
  | remove (place : BlockQueue.Remove String)
  | lock (ticket : Nat) (info : String)
  | write (ticket : Nat) (info : String)
  | unlock
  | left
  deriving DecidableEq

inductive Thread
  | caller (place : Caller)
  | worker (place : Worker)
  | stopper (called : Bool)
  deriving DecidableEq

/-- What the world decides: the next message of an idle caller; or the text that the
step needs, which is the time of day where a line is made, and for a move out of the
queue what it leaves behind. -/
inductive Choice
  | log (item : String)
  | go (text : String)

def addItemStep (log : Log) (place : Caller) (choice : Choice) : Except Stuck (Log × Caller) :=
  match place, choice with
  | .idle, .log item => .ok (log, .testStop item)
  | .testStop item, .go _ => .ok (log, if log.stopLogger then .idle else .testMode item)
  | .testMode item, .go _ => .ok (log, if log.asyncMode then .push item else .lock item)
  | .push item, .go time =>
      let line := time ++ " " ++ item
      .ok ({ log with logged := log.logged ++ [line] }, .insert (.slots line))
  | .insert place, .go _ =>
      match BlockQueue.insertStep log.queue place with
      | .error stuck => .error stuck
      | .ok (queue, place) => .ok ({ log with queue }, place.elim .idle .insert)
  | .lock item, .go _ =>
      match mutexLock log.lock with
      | .error stuck => .error stuck
      | .ok lock => .ok ({ log with lock }, .write item)
  | .write item, .go time =>
      let line := time ++ " " ++ item
      .ok ({ log with
        logged := log.logged ++ [line]
        file := log.file ++ [(line, log.logged.length)] }, .unlock)
  | .unlock, .go _ => .ok ({ log with lock := false }, .idle)
  | _, _ => .error .blocked

def workerStep (log : Log) (place : Worker) (choice : Choice) : Except Stuck (Log × Worker) :=
  match place, choice with
  | .testStop, .go _ => .ok (log, if log.stopLogger then .testEmpty else .remove .items)
  | .testEmpty, .go _ => .ok (log, if BlockQueue.empty log.queue then .left else .remove .items)
  | .remove place, .go moved =>
      match BlockQueue.removeStep log.queue place moved with
      | .error stuck => .error stuck
      | .ok (queue, place) =>
          .ok ({ log with queue }, place.elim .remove fun taken => .lock taken.1 taken.2)
  | .lock ticket info, .go _ =>
      match mutexLock log.lock with
      | .error stuck => .error stuck
      | .ok lock => .ok ({ log with lock }, .write ticket info)
  | .write ticket info, .go _ =>
      .ok ({ log with file := log.file ++ [(info, ticket)] }, .unlock)
  | .unlock, .go _ => .ok ({ log with lock := false }, .testStop)
  | _, _ => .error .blocked

def micro (log : Log) (thread : Thread) (choice : Choice) : Except Stuck (Log × Thread) :=
  match thread with
  | .caller place =>
      match addItemStep log place choice with
      | .error stuck => .error stuck
      | .ok (log, place) => .ok (log, .caller place)
  | .worker place =>
      match workerStep log place choice with
      | .error stuck => .error stuck
      | .ok (log, place) => .ok (log, .worker place)
  | .stopper false => .ok ({ log with stopLogger := true }, .stopper true)
  | .stopper true => .error .blocked

/-- `Logger::init` of a logger that is not stopped, beside the other threads. In synchronous
mode there are no workers, and no step uses the queue. -/
def init (asyncMode : Bool) (writeThreadCount blockQueueSize : Int) (others : List Thread) :
    System Log Thread where
  shared := {
    queue := BlockQueue.init blockQueueSize ""
    stopLogger := false
    asyncMode
    lock := false
    file := []
    logged := [] }
  threads := others ++
    List.replicate (if asyncMode then writeThreadCount.toNat else 0) (.worker .testStop)

def Fresh (thread : Thread) : Prop := thread = .caller .idle ∨ thread = .stopper false

instance (thread : Thread) : Decidable (Fresh thread) :=
  inferInstanceAs (Decidable (_ ∨ _))

section Moves

theorem micro_cases {log log' : Log} {thread thread' : Thread} {choice : Choice}
    (moved : micro log thread choice = .ok (log', thread')) :
    (∃ place place', thread = .caller place ∧ thread' = .caller place' ∧
      addItemStep log place choice = .ok (log', place')) ∨
    (∃ place place', thread = .worker place ∧ thread' = .worker place' ∧
      workerStep log place choice = .ok (log', place')) ∨
    (thread = .stopper false ∧ thread' = .stopper true ∧
      log' = { log with stopLogger := true }) := by
  cases thread with
  | caller place =>
      cases taken : addItemStep log place choice with
      | error stuck => simp [micro, taken] at moved
      | ok result =>
          simp only [micro, taken, Except.ok.injEq, Prod.mk.injEq] at moved
          obtain ⟨rfl, rfl⟩ := moved
          exact .inl ⟨place, result.2, rfl, rfl, taken⟩
  | worker place =>
      cases taken : workerStep log place choice with
      | error stuck => simp [micro, taken] at moved
      | ok result =>
          simp only [micro, taken, Except.ok.injEq, Prod.mk.injEq] at moved
          obtain ⟨rfl, rfl⟩ := moved
          exact .inr (.inl ⟨place, result.2, rfl, rfl, taken⟩)
  | stopper called =>
      cases called with
      | true => simp [micro] at moved
      | false =>
          simp only [micro, Except.ok.injEq, Prod.mk.injEq] at moved
          obtain ⟨rfl, rfl⟩ := moved
          exact .inr (.inr ⟨rfl, rfl, rfl⟩)

def queuePlace : Thread → BlockQueue.Thread String
  | .caller (.insert place) => .inserting place
  | .worker (.remove place) => .removing place
  | _ => .idle

def pending : Thread → Option String
  | .caller (.insert place) => place.pending
  | _ => none

def held : Thread → Option (Nat × String)
  | .worker (.remove place) => place.held
  | .worker (.lock ticket info) | .worker (.write ticket info) => some (ticket, info)
  | _ => none

def route : Thread → Option Bool
  | .caller (.push _) | .caller (.insert _) => some true
  | .caller (.lock _) | .caller (.write _) | .caller .unlock => some false
  | _ => none

def isCaller : Thread → Bool
  | .caller _ => true
  | _ => false

def isWorker : Thread → Bool
  | .worker _ => true
  | _ => false

theorem isCaller_of_pending {thread : Thread} {line : String} (here : pending thread = some line) :
    isCaller thread = true := by
  rcases thread with place | place | called
  · rfl
  · cases here
  · cases here

theorem isWorker_of_held {thread : Thread} {entry : Nat × String} (here : held thread = some entry) :
    isWorker thread = true := by
  rcases thread with place | place | called
  · cases here
  · rfl
  · cases here

inductive Move (log : Log) (thread : Thread) (log' : Log) (thread' : Thread) : Prop
  | still (stored : log'.queue.stored = log.queue.stored)
      (removed : log'.queue.removed = log.queue.removed) (file : log'.file = log.file)
      (logged : log'.logged = log.logged) (kept : pending thread' = pending thread)
      (hand : held thread' = held thread)
  | push (line : String) (stored : log'.queue.stored = log.queue.stored)
      (removed : log'.queue.removed = log.queue.removed) (file : log'.file = log.file)
      (logged : log'.logged = log.logged ++ [line]) (found : route thread = some true)
      (none : pending thread = none) (kept : pending thread' = some line)
      (hand : held thread' = held thread)
  | store (line : String) (stored : log'.queue.stored = log.queue.stored ++ [line])
      (removed : log'.queue.removed = log.queue.removed) (file : log'.file = log.file)
      (logged : log'.logged = log.logged) (kept : pending thread = some line)
      (none : pending thread' = none) (hand : held thread' = held thread)
  | take (info : String) (stored : log'.queue.stored = log.queue.stored)
      (removed : log'.queue.removed = log.queue.removed ++ [info]) (file : log'.file = log.file)
      (logged : log'.logged = log.logged) (kept : pending thread' = pending thread)
      (none : held thread = none) (hand : held thread' = some (log.queue.removed.length, info))
  | write (ticket : Nat) (info : String) (place : thread = .worker (.write ticket info))
      (stored : log'.queue.stored = log.queue.stored)
      (removed : log'.queue.removed = log.queue.removed)
      (file : log'.file = log.file ++ [(info, ticket)]) (logged : log'.logged = log.logged)
      (kept : pending thread' = pending thread) (none : held thread' = none)
  | writeNow (line : String) (found : route thread = some false)
      (stored : log'.queue.stored = log.queue.stored)
      (removed : log'.queue.removed = log.queue.removed)
      (file : log'.file = log.file ++ [(line, log.logged.length)])
      (logged : log'.logged = log.logged ++ [line]) (kept : pending thread' = pending thread)
      (hand : held thread' = held thread)

structure Kept (log : Log) (thread : Thread) (log' : Log) (thread' : Thread) : Prop where
  mode : log'.asyncMode = log.asyncMode
  caller : isCaller thread' = isCaller thread
  worker : isWorker thread' = isWorker thread
  route : ∀ found, route thread' = some found → found = log.asyncMode ∨ route thread = some found

theorem addItemStep_move {log log' : Log} {place place' : Caller} {choice : Choice}
    (moved : addItemStep log place choice = .ok (log', place')) :
    Move log (.caller place) log' (.caller place') ∧
      Kept log (.caller place) log' (.caller place') := by
  cases place <;> cases choice <;> simp only [addItemStep, reduceCtorEq] at moved
  case idle item =>
    simp only [Except.ok.injEq, Prod.mk.injEq] at moved
    obtain ⟨rfl, rfl⟩ := moved
    exact ⟨.still rfl rfl rfl rfl rfl rfl, rfl, rfl, rfl, by simp [route]⟩
  case testStop item text =>
    simp only [Except.ok.injEq, Prod.mk.injEq] at moved
    obtain ⟨rfl, rfl⟩ := moved
    split <;> exact ⟨.still rfl rfl rfl rfl rfl rfl, rfl, rfl, rfl, by simp [route]⟩
  case testMode item text =>
    simp only [Except.ok.injEq, Prod.mk.injEq] at moved
    obtain ⟨rfl, rfl⟩ := moved
    split
    · rename_i mode
      exact ⟨.still rfl rfl rfl rfl rfl rfl, rfl, rfl, rfl, by simp [route, mode]⟩
    · rename_i mode
      exact ⟨.still rfl rfl rfl rfl rfl rfl, rfl, rfl, rfl, by simp [route, mode]⟩
  case push item time =>
    simp only [Except.ok.injEq, Prod.mk.injEq] at moved
    obtain ⟨rfl, rfl⟩ := moved
    exact ⟨.push _ rfl rfl rfl rfl rfl rfl rfl rfl, rfl, rfl, rfl, fun _ here => .inr here⟩
  case insert place text =>
    split at moved
    · simp at moved
    · rename_i queue placeAfter taken
      simp only [Except.ok.injEq, Prod.mk.injEq] at moved
      obtain ⟨rfl, rfl⟩ := moved
      obtain ⟨removed, _, values⟩ := BlockQueue.insertStep_cases taken
      have after : pending (.caller (placeAfter.elim .idle .insert)) =
          placeAfter.bind BlockQueue.Insert.pending := by
        cases placeAfter <;> rfl
      have hand : held (.caller (placeAfter.elim .idle .insert)) = none := by
        cases placeAfter <;> rfl
      refine ⟨?_, rfl, rfl, rfl, ?_⟩
      · rcases values with ⟨line, before, none, stored⟩ | ⟨same, stored⟩
        · exact .store line stored removed rfl rfl before (after.trans none) hand
        · exact .still stored removed rfl rfl (after.trans same) hand
      · cases placeAfter <;> simp [route]
  case lock item text =>
    split at moved
    · simp at moved
    · simp only [Except.ok.injEq, Prod.mk.injEq] at moved
      obtain ⟨rfl, rfl⟩ := moved
      exact ⟨.still rfl rfl rfl rfl rfl rfl, rfl, rfl, rfl, fun _ here => .inr here⟩
  case write item time =>
    simp only [Except.ok.injEq, Prod.mk.injEq] at moved
    obtain ⟨rfl, rfl⟩ := moved
    exact ⟨.writeNow _ rfl rfl rfl rfl rfl rfl rfl, rfl, rfl, rfl, fun _ here => .inr here⟩
  case unlock text =>
    simp only [Except.ok.injEq, Prod.mk.injEq] at moved
    obtain ⟨rfl, rfl⟩ := moved
    exact ⟨.still rfl rfl rfl rfl rfl rfl, rfl, rfl, rfl, by simp [route]⟩

theorem workerStep_move {log log' : Log} {place place' : Worker} {choice : Choice}
    (moved : workerStep log place choice = .ok (log', place')) :
    Move log (.worker place) log' (.worker place') ∧
      Kept log (.worker place) log' (.worker place') := by
  cases place <;> cases choice <;> simp only [workerStep, reduceCtorEq] at moved
  case remove place text =>
    split at moved
    · simp at moved
    · rename_i queue placeAfter taken
      simp only [Except.ok.injEq, Prod.mk.injEq] at moved
      obtain ⟨rfl, rfl⟩ := moved
      obtain ⟨stored, values⟩ := BlockQueue.removeStep_cases taken
      have after : held (.worker (placeAfter.elim .remove fun taken => .lock taken.1 taken.2)) =
          placeAfter.elim BlockQueue.Remove.held some := by
        cases placeAfter <;> rfl
      refine ⟨?_, rfl, rfl, rfl, by simp [route]⟩
      rcases values with ⟨info, none, hand, removed⟩ | ⟨same, removed⟩
      · exact .take info stored removed rfl rfl rfl none (after.trans hand)
      · exact .still stored removed rfl rfl rfl (after.trans same)
  case lock ticket info text =>
    split at moved
    · simp at moved
    · simp only [Except.ok.injEq, Prod.mk.injEq] at moved
      obtain ⟨rfl, rfl⟩ := moved
      exact ⟨.still rfl rfl rfl rfl rfl rfl, rfl, rfl, rfl, by simp [route]⟩
  case write ticket info text =>
    simp only [Except.ok.injEq, Prod.mk.injEq] at moved
    obtain ⟨rfl, rfl⟩ := moved
    exact ⟨.write ticket info rfl rfl rfl rfl rfl rfl rfl, rfl, rfl, rfl, by simp [route]⟩
  all_goals
    simp only [Except.ok.injEq, Prod.mk.injEq] at moved
    obtain ⟨rfl, rfl⟩ := moved
    try split
    all_goals exact ⟨.still rfl rfl rfl rfl rfl rfl, rfl, rfl, rfl, by simp [route]⟩

theorem micro_move {log log' : Log} {thread thread' : Thread} {choice : Choice}
    (moved : micro log thread choice = .ok (log', thread')) :
    Move log thread log' thread' ∧ Kept log thread log' thread' := by
  rcases micro_cases moved with
    ⟨place, place', rfl, rfl, taken⟩ | ⟨place, place', rfl, rfl, taken⟩ | ⟨rfl, rfl, rfl⟩
  · exact addItemStep_move taken
  · exact workerStep_move taken
  · exact ⟨.still rfl rfl rfl rfl rfl rfl, rfl, rfl, rfl, by simp [route]⟩

theorem addItemStep_queue {log log' : Log} {place place' : Caller} {choice : Choice}
    (moved : addItemStep log place choice = .ok (log', place')) :
    (log'.queue = log.queue ∧ queuePlace (.caller place') = queuePlace (.caller place)) ∨
    ∃ choice', BlockQueue.micro log.queue (queuePlace (.caller place)) choice' =
      .ok (log'.queue, queuePlace (.caller place')) := by
  cases place <;> cases choice <;> simp only [addItemStep, reduceCtorEq] at moved
  case push item time =>
    simp only [Except.ok.injEq, Prod.mk.injEq] at moved
    obtain ⟨rfl, rfl⟩ := moved
    exact .inr ⟨.insert _, rfl⟩
  case insert place text =>
    split at moved
    · simp at moved
    · rename_i queue placeAfter inserted
      simp only [Except.ok.injEq, Prod.mk.injEq] at moved
      obtain ⟨rfl, rfl⟩ := moved
      refine .inr ⟨.go text, ?_⟩
      cases placeAfter <;> simp [BlockQueue.micro, queuePlace, inserted]
  all_goals
    try split at moved
    all_goals simp only [Except.ok.injEq, Prod.mk.injEq, reduceCtorEq] at moved
    all_goals
      obtain ⟨rfl, rfl⟩ := moved
      try split
      all_goals exact .inl ⟨rfl, rfl⟩

theorem workerStep_queue {log log' : Log} {place place' : Worker} {choice : Choice}
    (moved : workerStep log place choice = .ok (log', place')) :
    (log'.queue = log.queue ∧ queuePlace (.worker place') = queuePlace (.worker place)) ∨
    ∃ choice', BlockQueue.micro log.queue (queuePlace (.worker place)) choice' =
      .ok (log'.queue, queuePlace (.worker place')) := by
  cases place <;> cases choice <;> simp only [workerStep, reduceCtorEq] at moved
  case remove place text =>
    split at moved
    · simp at moved
    · rename_i queue placeAfter removed
      simp only [Except.ok.injEq, Prod.mk.injEq] at moved
      obtain ⟨rfl, rfl⟩ := moved
      refine .inr ⟨.go text, ?_⟩
      cases placeAfter <;> simp [BlockQueue.micro, queuePlace, removed]
  case testStop text =>
    simp only [Except.ok.injEq, Prod.mk.injEq] at moved
    obtain ⟨rfl, rfl⟩ := moved
    split
    · exact .inl ⟨rfl, rfl⟩
    · exact .inr ⟨.remove, rfl⟩
  case testEmpty text =>
    simp only [Except.ok.injEq, Prod.mk.injEq] at moved
    obtain ⟨rfl, rfl⟩ := moved
    split
    · exact .inl ⟨rfl, rfl⟩
    · exact .inr ⟨.remove, rfl⟩
  all_goals
    try split at moved
    all_goals simp only [Except.ok.injEq, Prod.mk.injEq, reduceCtorEq] at moved
    all_goals
      obtain ⟨rfl, rfl⟩ := moved
      exact .inl ⟨rfl, rfl⟩

theorem micro_queue {log log' : Log} {thread thread' : Thread} {choice : Choice}
    (moved : micro log thread choice = .ok (log', thread')) :
    (log'.queue = log.queue ∧ queuePlace thread' = queuePlace thread) ∨
    ∃ choice', BlockQueue.micro log.queue (queuePlace thread) choice' =
      .ok (log'.queue, queuePlace thread') := by
  rcases micro_cases moved with
    ⟨place, place', rfl, rfl, taken⟩ | ⟨place, place', rfl, rfl, taken⟩ | ⟨rfl, rfl, rfl⟩
  · exact addItemStep_queue taken
  · exact workerStep_queue taken
  · exact .inl ⟨rfl, rfl⟩

end Moves

end StudyRecord.Logger
