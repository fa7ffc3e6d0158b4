import StudyRecord.Http.Conversation
import StudyRecord.Server.Slots
import StudyRecord.Server.StrayStore

/-!
What each client hears. The bytes that the server sends to one client depend on this client
alone, and for a client that sends written requests they are the answers to them, whatever the
event loop and the workers do for the others in between.
-/

namespace StudyRecord.Server.WebServer

open Http Timer Runs

def delivers (memory : Nat → Int → UInt8) (slot : Nat) (s : WebServer) : Step → List UInt8
  | .accept _ => []
  | .error _ => []
  | .close _ => []
  | .readable _ _ => []
  | .writable sockfd results =>
      if sockfd = slot ∧ s.actorMode ≠ 0 then (s.users slot).wire memory [results] else []
  | .tick => []
  | .work _ _ writevs =>
      match s.workQueue with
      | [] => []
      | request :: _ =>
          if request.slot = slot ∧ s.connActorMode = 0 ∧ (s.users slot).taskState = 1 then
            (s.users slot).wire memory [writevs]
          else []

def delivered (memory : Nat → Int → UInt8) (slot : Nat) (s : WebServer) (steps : List Step) :
    List UInt8 :=
  emitted step (delivers memory slot) s steps

/-! One slot among the others. -/

theorem emitted_unless (memory : Nat → Int → UInt8) (s : Slot) (p : Prop) [Decidable p]
    {ops : List Slot.Op} (quiet : ∀ op ∈ ops, op.isWrite = false) :
    [] = emitted Slot.step (Slot.sends memory) s (if p then ops else []) := by
  refine (HttpConn.emitted_quiet memory s fun op member => ?_).symm
  split at member
  · exact quiet op member
  · contradiction

theorem delivers_ops (memory : Nat → Int → UInt8) {s : WebServer} (proactor : s.actorMode = 1)
    (slot : Nat) (live : List Mapping) (event : Step) :
    s.delivers memory slot event =
      emitted Slot.step (Slot.sends memory) ⟨s.users slot, live⟩ (s.stepOps slot event) := by
  cases event with
  | accept clientfd => exact emitted_unless memory _ _ (by simp [Slot.Op.isWrite])
  | error sockfd => exact emitted_unless memory _ _ (by simp [Slot.Op.isWrite])
  | close sockfd => exact emitted_unless memory _ _ (by simp [Slot.Op.isWrite])
  | readable sockfd results => exact emitted_unless memory _ _ (by simp [Slot.Op.isWrite])
  | writable sockfd results =>
      have writes : s.actorMode ≠ 0 := by
        rw [proactor]
        decide
      simp only [delivers, stepOps, writes, ne_eq, not_false_eq_true, and_true]
      split
      · exact (HttpConn.emitted_write memory ⟨s.users slot, live⟩ results).symm
      · rfl
  | tick => exact emitted_unless memory _ _ (by simp [Slot.Op.isWrite])
  | work fs recvs writevs =>
      simp only [delivers, stepOps]
      cases s.workQueue with
      | nil => rfl
      | cons request rest =>
          by_cases here : request.slot = slot
          · simp only [here, true_and, if_true, processOps]
            by_cases reactor : s.connActorMode = 0
            · by_cases writes : (s.users slot).taskState = 1
              · simp only [reactor, writes, and_self, if_true]
                exact (HttpConn.emitted_write memory ⟨s.users slot, live⟩ writevs).symm
              · simp only [reactor, writes, and_false, if_true, if_false]
                exact (HttpConn.emitted_quiet memory _ (by simp [Slot.Op.isWrite])).symm
            · simp only [reactor, false_and, if_false]
              exact (HttpConn.emitted_quiet memory _ (by simp [Slot.Op.isWrite])).symm
          · simp only [here, false_and, if_false]
            rfl

theorem runOps_emitted (slot : Nat) (steps : List Step) (s : WebServer) :
    s.runOps slot steps = emitted step (fun s event => s.stepOps slot event) s steps := by
  induction steps generalizing s with
  | nil => rfl
  | cons event rest ih =>
      simp only [runOps, emitted]
      cases s.step event with
      | error fault => rfl
      | ok next => exact congrArg (s.stepOps slot event ++ ·) (ih next)

structure Proactor (s : WebServer) : Prop where
  registry : s.Registry
  mode : s.actorMode = 1

theorem step_proactor (s : WebServer) (event : Step) (next : WebServer) (proactor : s.Proactor)
    (legal : event.Legal s) (taken : s.step event = .ok next) : next.Proactor := by
  obtain ⟨registry, moves⟩ := (step_moves proactor.registry event legal).2 next taken
  exact ⟨registry, moves.actorMode.trans proactor.mode⟩

def Shows (slot : Nat) (s : WebServer) (part : Slot) : Prop := part.conn = s.users slot

theorem delivered_alone (memory : Nat → Int → UInt8) (slot : Nat) (live : List Mapping)
    (steps : List Step) {s final : WebServer} (proactor : s.Proactor)
    (legal : AlongSteps Step.Legal s steps) (reached : s.runSteps steps = .ok final) :
    s.delivered memory slot steps =
      emitted Slot.step (Slot.sends memory) ⟨s.users slot, live⟩ (s.runOps slot steps) := by
  rw [runOps_emitted]
  have shows' : Shows slot s ⟨s.users slot, live⟩ := rfl
  refine emitted_projected step_proactor ?_ ?_ steps proactor legal shows' reached
  · rintro s event next ⟨conn, live⟩ proactor legal rfl taken
    obtain ⟨after, moved⟩ := step_performs proactor.registry proactor.mode legal taken slot live
    exact ⟨⟨next.users slot, after⟩, moved, rfl⟩
  · rintro s event ⟨conn, live⟩ proactor legal rfl
    exact delivers_ops memory proactor.mode slot live event

/-! The server with the stores of `parse_content` carried out. -/

def deliveredStored (heap : HttpConn.Heap) (memory : Nat → Int → UInt8) (slot : Nat) (s : WebServer)
    (steps : List Step) : List UInt8 :=
  emitted (stepStored heap) (delivers memory slot) s steps

def opsStored (heap : HttpConn.Heap) (s : WebServer) (slot : Nat) (steps : List Step) : List Slot.Op :=
  emitted (stepStored heap) (fun s event => s.stepOps slot event) s steps

section Stored

variable (heap : HttpConn.Heap) {s : WebServer} (registry : s.Registry) (steps : List Step)
  (legal : AlongStored heap Step.Legal s steps) (inRange : AlongStored heap Step.InRange s steps)

include registry legal inRange

theorem emittedStored_eq {Output : Type} (emit : WebServer → Step → List Output) :
    emitted (stepStored heap) emit s steps = emitted step emit s steps :=
  emitted_agrees (fun _ _ registry allowed => stepStored_eq heap registry allowed.2)
    (fun _ _ _ registry allowed taken => step_registry registry allowed.1 taken) emit steps
    registry (legal.and steps inRange)

end Stored

/-- In every run of the server in which every look at a body stays in range, a client whose part
in it is to be accepted and then to send written requests, one after the answer to the other, is
sent a beginning of the answers, and all of them if it is served to the end. Others may come, go
and be served in between in any way, and the client itself may go or be timed out at any point. -/
theorem conversation_answered (heap : HttpConn.Heap) (memory : Nat → Int → UInt8)
    (users : Nat → HttpConn) (setReactorMode : Bool) (early later : List Step)
    (middle final : WebServer)
    (legal : AlongStored heap Step.Legal (init users setReactorMode) early)
    (inRange : AlongStored heap Step.InRange (init users setReactorMode) early)
    (reached : runStored heap (init users setReactorMode) early = .ok middle)
    (legal' : AlongStored heap Step.Legal middle later)
    (inRange' : AlongStored heap Step.InRange middle later)
    (reached' : runStored heap middle later = .ok final)
    (slot timer : Nat) (exchanges : List HttpConn.Exchange)
    (wellFormed : ∀ exchange ∈ exchanges, exchange.turn.WellFormed)
    (served : (Slot.accepted (middle.users slot) slot timer).conn.Served exchanges)
    (said ended : List Slot.Op)
    (ops : opsStored heap middle slot later = .accept slot timer :: (said ++ ended))
    (part : said <+: HttpConn.conversation memory exchanges)
    (gone : ∀ op ∈ ended, op = .close ∨ op = .expire) :
    deliveredStored heap memory slot middle later <+:
        HttpConn.answers memory (exchanges.map HttpConn.Exchange.turn) ∧
      (said = HttpConn.conversation memory exchanges →
        deliveredStored heap memory slot middle later =
          HttpConn.answers memory (exchanges.map HttpConn.Exchange.turn)) := by
  have start := init_registry users setReactorMode
  have legalEarly := (alongStored_iff heap start early legal inRange _).mp legal
  rw [runStored_eq heap start early legal inRange] at reached
  have proactor : middle.Proactor := run_invariant step_proactor early ⟨start, rfl⟩ legalEarly reached
  have registry := proactor.registry
  have legalLater := (alongStored_iff heap registry later legal' inRange' _).mp legal'
  rw [runStored_eq heap registry later legal' inRange'] at reached'
  rw [opsStored, emittedStored_eq heap registry later legal' inRange', ← runOps_emitted] at ops
  have same : deliveredStored heap memory slot middle later = middle.delivered memory slot later :=
    emittedStored_eq heap registry later legal' inRange' _
  rw [same]
  have quiet (op : Slot.Op) (member : op ∈ ended) : op.isWrite = false := by
    rcases gone op member with rfl | rfl <;> rfl
  have heard : middle.delivered memory slot later =
      emitted Slot.step (Slot.sends memory) (Slot.accepted (middle.users slot) slot timer) said := by
    rw [delivered_alone memory slot [] later proactor legalLater reached', ops]
    have accepted : Slot.step ⟨middle.users slot, []⟩ (.accept slot timer) =
      .ok (Slot.accepted (middle.users slot) slot timer) := rfl
    rw [emitted_cons_of_ok _ accepted]
    exact emitted_append_nothing said ended _ fun op member s =>
      Slot.sends_quiet memory (quiet op member) s
  have whole := HttpConn.conversation_sent memory exchanges
    { middle.users slot with sockfd := slot, timer := some timer } [] wellFormed served
  obtain ⟨rest, whole'⟩ := part
  constructor
  · rw [heard, ← whole, ← whole']
    exact emitted_extends said rest _
  · rintro rfl
    exact heard.trans whole

def splitExchange : HttpConn.Exchange where
  request := HttpConn.lastRequest
  early := [([HttpConn.lastRequest.render.take 3], HttpConn.shortFile)]
  round := [HttpConn.lastRequest.render.drop 3]
  fs := HttpConn.shortFile
  calls := [[.sent 113]]

def twoClients : List Step :=
  [.accept (some 7), .readable 7 [.data (HttpConn.lastRequest.render.take 3)], .accept (some 8),
    .work HttpConn.shortFile [] [], .readable 7 [.data (HttpConn.lastRequest.render.drop 3)],
    .readable 8 [.error], .work HttpConn.shortFile [] [], .writable 7 [.sent 113]]

set_option maxRecDepth 20000 in
theorem conversation_answered_split :
    deliveredStored denseHeap (fun _ _ => 65) 7 (init (fun _ => HttpConn.zeroed) false) twoClients =
      HttpConn.answers (fun _ _ => 65) [splitExchange.turn] := by
  have completes : (runStored denseHeap (init (fun _ => HttpConn.zeroed) false) twoClients).isOk =
      true := by decide +kernel
  cases reached : runStored denseHeap (init (fun _ => HttpConn.zeroed) false) twoClients with
  | error fault =>
      rw [reached] at completes
      contradiction
  | ok final =>
      refine (conversation_answered denseHeap (fun _ _ => 65) (fun _ => HttpConn.zeroed) false []
        twoClients _ _ trivial trivial rfl (by decide +kernel) (by decide +kernel) reached 7 0
        [splitExchange] (fun exchange member => ?_) (by decide +kernel) _ [] rfl List.prefix_rfl
        (by simp)).2 rfl
      rw [List.mem_singleton.mp member]
      exact ⟨by decide, by decide, by decide, by decide, by decide, by decide +kernel⟩

end StudyRecord.Server.WebServer
