import StudyRecord.Library.Trace
import StudyRecord.Pool.ExactlyOnce

/-!
The work queue as its callers and workers see it: under every interleaving, each `append` and
each pop takes effect at one moment between its call and its return, as an operation of a
bounded queue.
-/

namespace StudyRecord.ThreadPool

open Machine Runs Threads

inductive Op (T : Type)
  | append (request : Option T) (answer : Bool)
  | take (request : Option T)

inductive Note (T : Type)
  | called (request : Option T)
  | appended (request : Option T) (answer : Bool)
  | returned (answer : Bool)
  | took (request : Option T)
  | ran (request : T)
  deriving DecidableEq

def Note.effect {T : Type} : Note T → Option (Op T)
  | .appended request answer => some (.append request answer)
  | .took request => some (.take request)
  | .called _ | .returned _ | .ran _ => none

/-- A queue that answers each operation at once. -/
def atomic {T : Type} [DecidableEq T] (capacity : Nat) (queue : List (Option T)) :
    Op T → Except Unit (List (Option T))
  | .append request true =>
      if queue.length ≤ capacity then .ok (queue ++ [request]) else .error ()
  | .append _ false => if queue.length ≤ capacity then .error () else .ok queue
  | .take request => if queue.head? = some request then .ok queue.tail else .error ()

section Places

variable {T : Type}

def observe (pool : Pool T) (thread : Thread T) (choice : Choice T) : Option (Note T) :=
  match thread with
  | .caller (.idle _) =>
      match choice with
      | .append request => some (.called request)
      | .appendState request _ => some (.called (some request))
      | .go | .early => none
  | .caller (.size request) =>
      if pool.workqueue.length > toSize pool.maxRequests then some (.appended request false)
      else none
  | .caller (.push request) => some (.appended request true)
  | .caller .full => some (.returned false)
  | .caller .post => some (.returned true)
  | .caller (.setState ..) | .caller (.lock _) | .caller .unlock => none
  | .worker (.popFront request) => some (.took request)
  | .worker (.process request) => some (.ran request)
  | .worker _ => none

def call (request : Option T) (answer : Bool) : List (Note T) :=
  [.called request, .appended request answer, .returned answer]

def service : Option T → List (Note T)
  | none => [.took none]
  | some request => [.took (some request), .ran request]

def Underway : Caller T → List (Note T) → Prop
  | .idle _, notes => notes = []
  | .setState request _, notes => notes = [.called (some request)]
  | .lock request, notes | .size request, notes | .push request, notes =>
      notes = [.called request]
  | .full, notes => ∃ request, notes = [.called request, .appended request false]
  | .unlock, notes | .post, notes => ∃ request, notes = [.called request, .appended request true]

def InHand : Worker T → List (Note T) → Prop
  | .unlock request, notes | .check request, notes => notes = [.took request]
  | .process request, notes => notes = [.took (some request)]
  | .loop, notes | .wait, notes | .lock, notes | .empty, notes | .skip, notes | .front, notes
  | .popFront _, notes | .left, notes => notes = []

def Told : Thread T → List (Note T) → Prop
  | .caller place, notes =>
      ∃ calls : List (Option T × Bool), ∃ rest,
        notes = calls.flatMap (fun done => call done.1 done.2) ++ rest ∧ Underway place rest
  | .worker place, notes =>
      ∃ served : List (Option T), ∃ rest,
        notes = served.flatMap service ++ rest ∧ InHand place rest

theorem worker_told {pool pool' : Pool T} {place place' : Worker T} {choice : Choice T}
    {notes : List (Note T)} (told : Told (.worker place) notes)
    (moved : runStep pool place choice = .ok (pool', place')) :
    Told (.worker place') (notes ++ (observe pool (.worker place) choice).toList) := by
  obtain ⟨served, rest, rfl, inHand⟩ := told
  cases place with
  | loop =>
      simp only [runStep, Except.ok.injEq, Prod.mk.injEq] at moved
      obtain ⟨rfl, rfl⟩ := moved
      refine ⟨served, rest, by simp [observe], ?_⟩
      split <;> exact inHand
  | wait =>
      simp only [runStep] at moved
      refine ⟨served, rest, by simp [observe], ?_⟩
      split at moved
      · simp only [Except.ok.injEq, Prod.mk.injEq] at moved
        obtain ⟨rfl, rfl⟩ := moved
        exact inHand
      · split at moved
        · contradiction
        · simp only [Except.ok.injEq, Prod.mk.injEq] at moved
          obtain ⟨rfl, rfl⟩ := moved
          exact inHand
  | lock =>
      simp only [runStep] at moved
      split at moved
      · contradiction
      · simp only [Except.ok.injEq, Prod.mk.injEq] at moved
        obtain ⟨rfl, rfl⟩ := moved
        exact ⟨served, rest, by simp [observe], inHand⟩
  | empty =>
      simp only [runStep, Except.ok.injEq, Prod.mk.injEq] at moved
      obtain ⟨rfl, rfl⟩ := moved
      refine ⟨served, rest, by simp [observe], ?_⟩
      split <;> exact inHand
  | skip =>
      simp only [runStep, Except.ok.injEq, Prod.mk.injEq] at moved
      obtain ⟨rfl, rfl⟩ := moved
      exact ⟨served, rest, by simp [observe], inHand⟩
  | front =>
      simp only [runStep] at moved
      split at moved
      · contradiction
      · simp only [Except.ok.injEq, Prod.mk.injEq] at moved
        obtain ⟨rfl, rfl⟩ := moved
        exact ⟨served, rest, by simp [observe], inHand⟩
  | popFront request =>
      obtain rfl : rest = [] := inHand
      simp only [runStep] at moved
      split at moved
      · contradiction
      · simp only [Except.ok.injEq, Prod.mk.injEq] at moved
        obtain ⟨rfl, rfl⟩ := moved
        exact ⟨served, [.took request], by simp [observe], rfl⟩
  | unlock request =>
      simp only [runStep, Except.ok.injEq, Prod.mk.injEq] at moved
      obtain ⟨rfl, rfl⟩ := moved
      exact ⟨served, rest, by simp [observe], inHand⟩
  | check request =>
      obtain rfl : rest = [.took request] := inHand
      cases request with
      | none =>
          simp only [runStep, Except.ok.injEq, Prod.mk.injEq] at moved
          obtain ⟨rfl, rfl⟩ := moved
          exact ⟨served ++ [none], [], by simp [observe, service], rfl⟩
      | some request =>
          simp only [runStep, Except.ok.injEq, Prod.mk.injEq] at moved
          obtain ⟨rfl, rfl⟩ := moved
          exact ⟨served, [.took (some request)], by simp [observe], rfl⟩
  | process request =>
      obtain rfl : rest = [.took (some request)] := inHand
      simp only [runStep, Except.ok.injEq, Prod.mk.injEq] at moved
      obtain ⟨rfl, rfl⟩ := moved
      exact ⟨served ++ [some request], [], by simp [observe, service], rfl⟩
  | left => simp [runStep] at moved

theorem runStep_queue {pool pool' : Pool T} {place place' : Worker T} {choice : Choice T}
    (moved : runStep pool place choice = .ok (pool', place')) :
    (∃ request, place = .popFront request ∧ pool'.workqueue = pool.workqueue.tail) ∨
      (observe pool (.worker place) choice).bind Note.effect = none ∧
        pool'.workqueue = pool.workqueue := by
  cases place with
  | popFront request =>
      left
      simp only [runStep] at moved
      split at moved
      · contradiction
      · rename_i head rest shape
        simp only [Except.ok.injEq, Prod.mk.injEq] at moved
        obtain ⟨rfl, rfl⟩ := moved
        exact ⟨request, rfl, by rw [shape, List.tail_cons]⟩
  | wait =>
      right
      simp only [runStep] at moved
      split at moved
      · simp only [Except.ok.injEq, Prod.mk.injEq] at moved
        obtain ⟨rfl, rfl⟩ := moved
        exact ⟨rfl, rfl⟩
      · split at moved
        · contradiction
        · simp only [Except.ok.injEq, Prod.mk.injEq] at moved
          obtain ⟨rfl, rfl⟩ := moved
          exact ⟨rfl, rfl⟩
  | lock =>
      right
      simp only [runStep] at moved
      split at moved
      · contradiction
      · simp only [Except.ok.injEq, Prod.mk.injEq] at moved
        obtain ⟨rfl, rfl⟩ := moved
        exact ⟨rfl, rfl⟩
  | front =>
      right
      simp only [runStep] at moved
      split at moved
      · contradiction
      · simp only [Except.ok.injEq, Prod.mk.injEq] at moved
        obtain ⟨rfl, rfl⟩ := moved
        exact ⟨rfl, rfl⟩
  | check request =>
      right
      cases request with
      | none =>
          simp only [runStep, Except.ok.injEq, Prod.mk.injEq] at moved
          obtain ⟨rfl, rfl⟩ := moved
          exact ⟨rfl, rfl⟩
      | some request =>
          simp only [runStep, Except.ok.injEq, Prod.mk.injEq] at moved
          obtain ⟨rfl, rfl⟩ := moved
          exact ⟨rfl, rfl⟩
  | left => simp [runStep] at moved
  | loop | empty | skip | unlock | process =>
      right
      simp only [runStep, Except.ok.injEq, Prod.mk.injEq] at moved
      obtain ⟨rfl, rfl⟩ := moved
      exact ⟨rfl, rfl⟩

theorem construct_queue {threadNumber maxRequests : Int} {callers : Nat} {states : T → Int}
    {start : System (Pool T) (Thread T)}
    (constructed : construct threadNumber maxRequests callers states = some start) :
    start.shared.workqueue = [] := by
  simp only [construct] at constructed
  split at constructed
  · contradiction
  · obtain rfl := Option.some.inj constructed
    rfl

theorem construct_told {threadNumber maxRequests : Int} {callers : Nat} {states : T → Int}
    {start : System (Pool T) (Thread T)}
    (constructed : construct threadNumber maxRequests callers states = some start) (index : Nat)
    (thread : Thread T) (found : start.threads[index]? = some thread) : Told thread [] := by
  simp only [construct] at constructed
  split at constructed
  · contradiction
  · obtain rfl := Option.some.inj constructed
    obtain caller | worker := List.mem_append.mp (List.mem_of_getElem? found)
    · rw [List.eq_of_mem_replicate caller]
      exact ⟨[], [], rfl, rfl⟩
    · rw [List.eq_of_mem_replicate worker]
      exact ⟨[], [], rfl, rfl⟩

end Places

section Effects

variable {T : Type} [DecidableEq T]

theorem caller_told {pool pool' : Pool T} {place place' : Caller T} {choice : Choice T}
    {notes : List (Note T)} (told : Told (.caller place) notes)
    (moved : appendStep pool place choice = .ok (pool', place')) :
    Told (.caller place') (notes ++ (observe pool (.caller place) choice).toList) := by
  obtain ⟨calls, rest, rfl, underway⟩ := told
  cases place with
  | idle answer =>
      obtain rfl : rest = [] := underway
      cases choice with
      | go => simp [appendStep] at moved
      | early => simp [appendStep] at moved
      | append request =>
          simp only [appendStep, Except.ok.injEq, Prod.mk.injEq] at moved
          obtain ⟨rfl, rfl⟩ := moved
          exact ⟨calls, [.called request], by simp [observe], rfl⟩
      | appendState request state =>
          simp only [appendStep, Except.ok.injEq, Prod.mk.injEq] at moved
          obtain ⟨rfl, rfl⟩ := moved
          exact ⟨calls, [.called (some request)], by simp [observe], rfl⟩
  | setState request state =>
      simp only [appendStep, Except.ok.injEq, Prod.mk.injEq] at moved
      obtain ⟨rfl, rfl⟩ := moved
      exact ⟨calls, rest, by simp [observe], underway⟩
  | lock request =>
      simp only [appendStep] at moved
      split at moved
      · contradiction
      · simp only [Except.ok.injEq, Prod.mk.injEq] at moved
        obtain ⟨rfl, rfl⟩ := moved
        exact ⟨calls, rest, by simp [observe], underway⟩
  | size request =>
      obtain rfl : rest = [.called request] := underway
      simp only [appendStep] at moved
      split at moved
      · rename_i full
        simp only [Except.ok.injEq, Prod.mk.injEq] at moved
        obtain ⟨rfl, rfl⟩ := moved
        exact ⟨calls, [.called request, .appended request false], by simp [observe, full],
          request, rfl⟩
      · rename_i room
        simp only [Except.ok.injEq, Prod.mk.injEq] at moved
        obtain ⟨rfl, rfl⟩ := moved
        exact ⟨calls, [.called request], by simp [observe, room], rfl⟩
  | full =>
      obtain ⟨request, rfl⟩ := underway
      simp only [appendStep, Except.ok.injEq, Prod.mk.injEq] at moved
      obtain ⟨rfl, rfl⟩ := moved
      exact ⟨calls ++ [(request, false)], [], by simp [observe, call], rfl⟩
  | push request =>
      obtain rfl : rest = [.called request] := underway
      simp only [appendStep, Except.ok.injEq, Prod.mk.injEq] at moved
      obtain ⟨rfl, rfl⟩ := moved
      exact ⟨calls, [.called request, .appended request true], by simp [observe], request, rfl⟩
  | unlock =>
      simp only [appendStep, Except.ok.injEq, Prod.mk.injEq] at moved
      obtain ⟨rfl, rfl⟩ := moved
      exact ⟨calls, rest, by simp [observe], underway⟩
  | post =>
      obtain ⟨request, rfl⟩ := underway
      simp only [appendStep, Except.ok.injEq, Prod.mk.injEq] at moved
      obtain ⟨rfl, rfl⟩ := moved
      exact ⟨calls ++ [(request, true)], [], by simp [observe, call], rfl⟩

theorem micro_told (pool : Pool T) (thread : Thread T) (choice : Choice T) (pool' : Pool T)
    (thread' : Thread T) (notes : List (Note T)) (told : Told thread notes)
    (moved : micro pool thread choice = .ok (pool', thread')) :
    Told thread' (notes ++ (observe pool thread choice).toList) := by
  cases thread with
  | caller place =>
      simp only [micro] at moved
      split at moved
      · contradiction
      · rename_i result
        simp only [Except.ok.injEq, Prod.mk.injEq] at moved
        obtain ⟨rfl, rfl⟩ := moved
        exact caller_told told result
  | worker place =>
      simp only [micro] at moved
      split at moved
      · contradiction
      · rename_i result
        simp only [Except.ok.injEq, Prod.mk.injEq] at moved
        obtain ⟨rfl, rfl⟩ := moved
        exact worker_told told result

theorem append_atomic {pool pool' : Pool T} {place place' : Caller T} {choice : Choice T}
    (sound : Sound pool (.caller place))
    (moved : appendStep pool place choice = .ok (pool', place')) :
    run (atomic (toSize pool.maxRequests)) pool.workqueue
      ((observe pool (.caller place) choice).bind Note.effect).toList = .ok pool'.workqueue := by
  cases place with
  | idle answer =>
      cases choice with
      | go => simp [appendStep] at moved
      | early => simp [appendStep] at moved
      | append request =>
          simp only [appendStep, Except.ok.injEq, Prod.mk.injEq] at moved
          obtain ⟨rfl, rfl⟩ := moved
          rfl
      | appendState request state =>
          simp only [appendStep, Except.ok.injEq, Prod.mk.injEq] at moved
          obtain ⟨rfl, rfl⟩ := moved
          rfl
  | setState request state =>
      simp only [appendStep, Except.ok.injEq, Prod.mk.injEq] at moved
      obtain ⟨rfl, rfl⟩ := moved
      rfl
  | lock request =>
      simp only [appendStep] at moved
      split at moved
      · contradiction
      · simp only [Except.ok.injEq, Prod.mk.injEq] at moved
        obtain ⟨rfl, rfl⟩ := moved
        rfl
  | size request =>
      simp only [appendStep] at moved
      split at moved
      · rename_i full
        simp only [Except.ok.injEq, Prod.mk.injEq] at moved
        obtain ⟨rfl, rfl⟩ := moved
        simp only [observe, full, if_true, Option.bind_some, Note.effect, Option.toList_some, run,
          atomic, Nat.not_le.mpr full, if_false]
      · rename_i room
        simp only [Except.ok.injEq, Prod.mk.injEq] at moved
        obtain ⟨rfl, rfl⟩ := moved
        simp only [observe, room, if_false]
        rfl
  | full =>
      simp only [appendStep, Except.ok.injEq, Prod.mk.injEq] at moved
      obtain ⟨rfl, rfl⟩ := moved
      rfl
  | push request =>
      -- the caller has had the lock since it looked at the size
      have room : pool.workqueue.length ≤ toSize pool.maxRequests := sound
      simp only [appendStep, Except.ok.injEq, Prod.mk.injEq] at moved
      obtain ⟨rfl, rfl⟩ := moved
      simp only [observe, Option.bind_some, Note.effect, Option.toList_some, run, atomic, room,
        if_true]
  | unlock =>
      simp only [appendStep, Except.ok.injEq, Prod.mk.injEq] at moved
      obtain ⟨rfl, rfl⟩ := moved
      rfl
  | post =>
      simp only [appendStep, Except.ok.injEq, Prod.mk.injEq] at moved
      obtain ⟨rfl, rfl⟩ := moved
      rfl

theorem micro_atomic {pool pool' : Pool T} {thread thread' : Thread T} {choice : Choice T}
    (sound : Sound pool thread) (moved : micro pool thread choice = .ok (pool', thread')) :
    run (atomic (toSize pool.maxRequests)) pool.workqueue
      ((observe pool thread choice).bind Note.effect).toList = .ok pool'.workqueue := by
  cases thread with
  | caller place =>
      simp only [micro] at moved
      split at moved
      · contradiction
      · rename_i result
        simp only [Except.ok.injEq, Prod.mk.injEq] at moved
        obtain ⟨rfl, rfl⟩ := moved
        exact append_atomic sound result
  | worker place =>
      simp only [micro] at moved
      split at moved
      · contradiction
      · rename_i result
        simp only [Except.ok.injEq, Prod.mk.injEq] at moved
        obtain ⟨rfl, rfl⟩ := moved
        obtain ⟨request, rfl, popped⟩ | ⟨none', same⟩ := runStep_queue result
        · have head : pool.workqueue.head? = some request := sound
          simp only [observe, Option.bind_some, Note.effect, Option.toList_some, run, atomic, head,
            if_true, popped]
        · rw [none', same]
          rfl

end Effects

section Runs

variable {T : Type} [DecidableEq T]

/-- The thread pool is linearizable if `max_requests` is below `SEM_VALUE_MAX`, so that no post
fails: in every interleaving, the moments at which the calls of `append` and the pops take effect
are, in their order, a run of a queue that answers at once and has the same content, and in each
thread's own history a call is followed by its one effect and then by its return with the answer
of this effect, and a pop by the processing of what it popped. -/
theorem linearizable (threadNumber maxRequests : Int) (callers : Nat) (states : T → Int)
    (start : System (Pool T) (Thread T))
    (constructed : construct threadNumber maxRequests callers states = some start)
    (below : maxRequests < semValueMax) (turns : List (Nat × Choice T))
    (final : System (Pool T) (Thread T)) (reached : run (step micro) start turns = .ok final) :
    run (atomic (toSize maxRequests)) []
        (effects Note.effect (trace micro observe start turns)) = .ok final.shared.workqueue ∧
      ∀ index thread, final.threads[index]? = some thread →
        Told thread (own index (trace micro observe start turns)) := by
  obtain ⟨positive, inv⟩ := construct_inv constructed
  have fits : (toSize maxRequests : Int) = maxRequests :=
    toSize_of_fits (by omega) (by simp only [semValueMax] at below; omega)
  have small : toSize maxRequests < semValueMax := by omega
  have kept (pool : Pool T) (front : List (Thread T)) (thread : Thread T)
      (back : List (Thread T)) (choice : Choice T) (pool' : Pool T) (thread' : Thread T)
      (inv : Inv maxRequests pool (front ++ thread :: back))
      (moved : micro pool thread choice = .ok (pool', thread')) :
      Inv maxRequests pool' (front ++ thread' :: back) :=
    inv.step small moved
  constructor
  · have empty : start.shared.workqueue = [] := construct_queue constructed
    rw [← empty]
    refine run_effects kept ?_ turns inv reached
    intro pool front thread back choice pool' thread' inv moved
    rw [← inv.bound]
    exact micro_atomic (inv.sound thread (by simp)) moved
  · intro index thread found
    exact run_told kept micro_told turns inv (construct_told constructed) reached index thread found

theorem linearizable_early :
    ∃ final, run (step micro)
        ⟨⟨10000, [], false, 0, false, fun _ => 0, [], [], []⟩,
          [.caller (.idle none), .worker (T := Nat) .loop]⟩
        [(0, .append (some 7)), (0, .go), (0, .go), (0, .go), (0, .go), (1, .go), (1, .early),
          (1, .go), (1, .go), (1, .go), (1, .go)] = .ok final ∧
      final.threads[0]? = some (.caller .post) ∧ final.shared.workqueue = [] ∧
      ∃ calls : List (Option Nat × Bool), ∃ request,
        [Note.called (some 7), .appended (some 7) true] =
          calls.flatMap (fun done => call done.1 done.2) ++
            [.called request, .appended request true] := by
  obtain ⟨final, reached, place, queue⟩ : ∃ final, run (step micro)
      ⟨⟨10000, [], false, 0, false, fun _ => 0, [], [], []⟩,
        [.caller (.idle none), .worker (T := Nat) .loop]⟩
      [(0, .append (some 7)), (0, .go), (0, .go), (0, .go), (0, .go), (1, .go), (1, .early),
        (1, .go), (1, .go), (1, .go), (1, .go)] = .ok final ∧
      final.threads[0]? = some (.caller .post) ∧ final.shared.workqueue = [] := ⟨_, rfl, rfl, rfl⟩
  obtain ⟨calls, rest, history, request, rfl⟩ :=
    (linearizable 1 10000 1 (fun _ => 0) _ rfl (by decide) _ final reached).2 0 _ place
  exact ⟨final, reached, place, queue, calls, request, history⟩

end Runs

end StudyRecord.ThreadPool
