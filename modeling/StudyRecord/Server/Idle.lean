import StudyRecord.Server.StrayStore

/-!
How long a connection can stay idle. The timer of a connection counts down with the
ticks; an event moves it three slots on from where it is, and not from the position
of the wheel, so a timer that is renewed too often is late.
-/

namespace StudyRecord.Server.WebServer

open Http Timer

def untilClosed (s : WebServer) (slot : Nat) : Option Nat :=
  (s.users slot).timer.bind s.tw.remaining

def Step.after (slot : Nat) (left : Option Nat) : Step → Option Nat
  | .accept clientfd => if clientfd = some slot then some 3 else left
  | .readable sockfd _ =>
      if sockfd = slot then left.map fun left => (left + 3) % wheelSlots else left
  | .writable sockfd _ =>
      if sockfd = slot then left.map fun left => (left + 3) % wheelSlots else left
  | .tick =>
      match left with
      | some (left + 1) => some left
      | _ => none
  | _ => left

def Unturned (s : WebServer) : Prop :=
  ∀ timer data, s.tw.dataOf timer = some data → data.rotation = 0

theorem Quiet.unturned {s next : WebServer} (quiet : Quiet s next) (unturned : s.Unturned) :
    next.Unturned :=
  fun timer data live => unturned timer data (quiet.data timer data live)

theorem Renews.unturned {slot : Nat} {s next : WebServer} (renews : Renews slot s next)
    (registry : s.Registry) (known : 0 < s.accepted slot) (unturned : s.Unturned) :
    next.Unturned := by
  intro timer data live
  by_cases own : (s.users slot).timer = some timer
  · obtain ⟨_, before, wasLive, _⟩ := registry.live known own
    rw [renews.own timer before own wasLive, Option.some.injEq] at live
    rw [← live]
    simp only [unturned timer before wasLive]
    decide
  · rw [renews.others timer own] at live
    exact unturned timer data live

theorem Moves.unturned {s next : WebServer} {event : Step} (moves : Moves s next event)
    (registry : s.Registry) (legal : event.Legal s) (unturned : s.Unturned) : next.Unturned := by
  cases moves with
  | nothing same => exact same ▸ unturned
  | opened closed opens =>
      intro timer data live
      rw [opens.timers] at live
      by_cases new : timer = s.tw.fresh
      · rw [new, Function.update_self, Option.some.injEq] at live
        rw [← live]
      · rw [Function.update_of_ne new] at live
        exact unturned timer data live
  | erred quiet => exact quiet.unturned unturned
  | closed quiet => exact quiet.unturned unturned
  | worked quiet => exact quiet.unturned unturned
  | @read sockfd _ _ renews _ quiet =>
      have still := report_still s sockfd
      have known := (registry.known sockfd legal).2
      rw [← still.accepted] at known
      have before : (s.report sockfd).Unturned := still.quiet.unturned unturned
      exact quiet.unturned (renews.unturned (still.registry registry) known before)
  | @written sockfd _ _ renews _ quiet =>
      have still := report_still s sockfd
      have known := (registry.known sockfd legal).2
      rw [← still.accepted] at known
      have before : (s.report sockfd).Unturned := still.quiet.unturned unturned
      exact quiet.unturned (renews.unturned (still.registry registry) known before)
  | ticked ticks =>
      intro timer data live
      rw [ticks.timers, Option.bind_eq_some_iff] at live
      obtain ⟨before, wasLive, after⟩ := live
      have none := unturned timer before wasLive
      split at after
      · simp only [TimeWheel.visit, none] at after
        contradiction
      · rw [Option.some.injEq] at after
        rw [← after, none]

theorem Registry.untilClosed {s : WebServer} (registry : s.Registry) {slot : Nat}
    (isOpen : s.IsOpen slot) :
    ∃ timer data, (s.users slot).timer = some timer ∧ s.tw.dataOf timer = some data ∧
      s.untilClosed slot = some (TimeWheel.ticksLeft s.tw.curSlot data) := by
  obtain ⟨timer, has, user⟩ := registry.owns slot isOpen
  rw [TimeWheel.userDataOf, Option.map_eq_some_iff] at user
  obtain ⟨data, live, _⟩ := user
  refine ⟨timer, data, has, live, ?_⟩
  rw [WebServer.untilClosed, has, Option.bind_some, TimeWheel.remaining, live]
  rfl

theorem untilClosed_congr {s next : WebServer} {slot timer : Nat} {data : TwTimer Nat}
    (had : (s.users slot).timer = some timer) (has : (next.users slot).timer = some timer)
    (wasLive : s.tw.dataOf timer = some data) (live : next.tw.dataOf timer = some data)
    (curSlot : next.tw.curSlot = s.tw.curSlot) : next.untilClosed slot = s.untilClosed slot := by
  rw [untilClosed, untilClosed, had, has, Option.bind_some, Option.bind_some, TimeWheel.remaining,
    TimeWheel.remaining, wasLive, live, curSlot]

theorem Quiet.untilClosed {s next : WebServer} (quiet : Quiet s next) (registry : next.Registry)
    {slot : Nat} (isOpen : next.IsOpen slot) : next.untilClosed slot = s.untilClosed slot := by
  obtain ⟨timer, data, has, live, _⟩ := registry.untilClosed isOpen
  have had := (quiet.timer slot isOpen).symm.trans has
  exact untilClosed_congr had has (quiet.data timer data live) live quiet.curSlot

theorem Opens.untilClosed {clientfd slot : Nat} {s next : WebServer} (opens : Opens clientfd s next)
    (registry : s.Registry) (isOpen : next.IsOpen slot) :
    next.untilClosed slot = if clientfd = slot then some 3 else s.untilClosed slot := by
  have bound := registry.wheel.bounds.1
  split
  · rename_i same
    have live : next.tw.dataOf s.tw.fresh = some ⟨0, (s.tw.curSlot + 3) % wheelSlots, some clientfd⟩ := by
      rw [opens.timers, Function.update_self]
    rw [← same, WebServer.untilClosed, opens.conn, Option.bind_some, TimeWheel.remaining, live,
      opens.curSlot]
    simp only [Option.map_some, TimeWheel.ticksLeft, wheelSlots, Option.some.injEq] at bound ⊢
    omega
  · rename_i different
    have other : slot ≠ clientfd := fun same => different same.symm
    have wasOpen := ((opens.isOpen slot).mp isOpen).resolve_left other
    obtain ⟨timer, data, had, wasLive, _⟩ := registry.untilClosed wasOpen
    have old : timer ≠ s.tw.fresh := by
      rintro rfl
      rw [opens.unused] at wasLive
      contradiction
    refine untilClosed_congr had ?_ wasLive ?_ opens.curSlot
    · rw [opens.users slot other, had]
    · rw [opens.timers, Function.update_of_ne old, wasLive]

theorem Renews.untilClosed {sockfd slot : Nat} {s next : WebServer} (renews : Renews sockfd s next)
    (registry : s.Registry) (known : 0 < s.accepted sockfd) (unturned : s.Unturned)
    (isOpen : s.IsOpen slot) :
    next.untilClosed slot =
      if sockfd = slot then (s.untilClosed slot).map fun left => (left + 3) % wheelSlots
      else s.untilClosed slot := by
  obtain ⟨bound, slots⟩ := registry.wheel.bounds
  obtain ⟨timer, data, had, wasLive, left⟩ := registry.untilClosed isOpen
  have has : (next.users slot).timer = some timer := (renews.kept.timer slot).trans had
  split
  · rename_i same
    have own := renews.own timer data (same ▸ had) wasLive
    have inSlot := slots timer data wasLive
    have none := unturned timer data wasLive
    rw [left, WebServer.untilClosed, has, Option.bind_some, TimeWheel.remaining, own, renews.curSlot]
    simp only [Option.map_some, TimeWheel.ticksLeft, none, wheelSlots, Option.some.injEq] at bound inSlot ⊢
    have zero : (Machine.toInt 0).toNat = 0 := by decide
    rw [zero]
    omega
  · rename_i different
    have spared : (s.users sockfd).timer ≠ some timer := by
      exact fun same => different (registry.owner known (registry.known slot isOpen).2 same had)
    exact untilClosed_congr had has wasLive ((renews.others timer spared).trans wasLive) renews.curSlot

theorem Ticks.untilClosed {slots : List Nat} {slot : Nat} {s next : WebServer}
    (ticks : Ticks slots s next) (registry : s.Registry) (isOpen : next.IsOpen slot) :
    ∃ left, s.untilClosed slot = some (left + 1) ∧ next.untilClosed slot = some left := by
  obtain ⟨bound, inSlots⟩ := registry.wheel.bounds
  obtain ⟨wasOpen, spared⟩ := (ticks.closes.isOpen slot).mp isOpen
  obtain ⟨timer, data, had, wasLive, before⟩ := registry.untilClosed wasOpen
  have users : next.users slot = s.users slot := by rw [ticks.closes.users, if_neg spared]
  have counts := TimeWheel.ticksLeft_tick data bound (inSlots timer data wasLive)
  rw [before, WebServer.untilClosed, users, had, Option.bind_some, TimeWheel.remaining, ticks.timers,
    wasLive, Option.bind_some, ticks.curSlot, counts]
  cases counted : TimeWheel.ticksLeft s.tw.curSlot data with
  | zero =>
      -- a timer that is due closes its connection
      refine absurd ((ticks.due slot).mpr ⟨wasOpen, timer, data, had, wasLive, ?_⟩) spared
      have inSlot := inSlots timer data wasLive
      simp only [TimeWheel.ticksLeft, wheelSlots] at counted bound inSlot
      omega
  | succ left => exact ⟨left, rfl, rfl⟩

theorem Moves.isOpen {s next : WebServer} {event : Step} (moves : Moves s next event) {slot : Nat}
    (isOpen : next.IsOpen slot) :
    event = .accept (some slot) ∧ next.accepted slot = s.accepted slot + 1 ∨
      event ≠ .accept (some slot) ∧ s.IsOpen slot ∧ next.accepted slot = s.accepted slot := by
  rcases moves.accepted slot with new | ⟨noAccept, old⟩
  · exact Or.inl new
  · refine Or.inr ⟨noAccept, ?_, old⟩
    cases moves with
    | nothing same => exact same ▸ isOpen
    | @opened clientfd _ opens =>
        refine ((opens.isOpen slot).mp isOpen).resolve_left fun same => noAccept ?_
        rw [same]
    | erred quiet => exact quiet.isOpen slot isOpen
    | closed quiet => exact quiet.isOpen slot isOpen
    | worked quiet => exact quiet.isOpen slot isOpen
    | @read sockfd _ _ renews _ quiet =>
        have kept := (report_still s sockfd).toKept.trans renews.kept
        exact (kept.isOpen slot).mp (quiet.isOpen slot isOpen)
    | @written sockfd _ _ renews _ quiet =>
        have kept := (report_still s sockfd).toKept.trans renews.kept
        exact (kept.isOpen slot).mp (quiet.isOpen slot isOpen)
    | ticked ticks => exact ((ticks.closes.isOpen slot).mp isOpen).1

theorem renewed_untilClosed {s renewed next : WebServer} {sockfd slot : Nat} (registry : s.Registry)
    (unturned : s.Unturned) (legal : s.IsOpen sockfd) (after : next.Registry)
    (renews : Renews sockfd (s.report sockfd) renewed) (quiet : Quiet renewed next)
    (isOpen : next.IsOpen slot) :
    next.untilClosed slot =
      if sockfd = slot then (s.untilClosed slot).map fun left => (left + 3) % wheelSlots
      else s.untilClosed slot := by
  have still := report_still s sockfd
  have registry' := still.registry registry
  have known := (registry'.known sockfd ((still.isOpen sockfd).mpr legal)).2
  have isOpen' := (renews.kept.isOpen slot).mp (quiet.isOpen slot isOpen)
  rw [quiet.untilClosed after isOpen,
    renews.untilClosed registry' known (still.quiet.unturned unturned) isOpen',
    still.quiet.untilClosed registry' isOpen']

theorem Moves.untilClosed {s next : WebServer} {event : Step} (moves : Moves s next event)
    (registry : s.Registry) (unturned : s.Unturned) (legal : event.Legal s) (after : next.Registry)
    {slot : Nat} (isOpen : next.IsOpen slot) :
    next.untilClosed slot = event.after slot (s.untilClosed slot) := by
  cases moves with
  | nothing same =>
      rw [same]
      simp [Step.after]
  | opened closed opens =>
      rw [opens.untilClosed registry isOpen]
      simp [Step.after]
  | erred quiet => exact quiet.untilClosed after isOpen
  | closed quiet => exact quiet.untilClosed after isOpen
  | worked quiet => exact quiet.untilClosed after isOpen
  | read renews _ quiet => exact renewed_untilClosed registry unturned legal after renews quiet isOpen
  | written renews _ quiet =>
      exact renewed_untilClosed registry unturned legal after renews quiet isOpen
  | ticked ticks =>
      obtain ⟨left, before, now⟩ := ticks.untilClosed registry isOpen
      rw [now, before]
      rfl

/-! Idle connections. -/

/-- A step that is no event on the connection that a slot has had as its `number`-th. -/
def Step.Spares (slot number : Nat) (s : WebServer) : Step → Prop
  | .readable sockfd _ => sockfd = slot → s.accepted slot ≠ number
  | .writable sockfd _ => sockfd = slot → s.accepted slot ≠ number
  | _ => True

def tickCount (steps : List Step) : Nat :=
  steps.countP fun event => match event with
    | .tick => true
    | _ => false

/-- Four ticks without an event on the connection that a slot has now leave it closed, as long as
every look at a body stays in range. -/
def Reaped (take : WebServer → Step → Except Fault WebServer) (slot : Nat) (s : WebServer) : Prop :=
  s.IsOpen slot → ∀ later, Runs.Along take Step.Legal s later → Runs.Along take Step.InRange s later →
    Runs.Along take (Step.Spares slot (s.accepted slot)) s later → 4 ≤ tickCount later →
      ∀ final, Runs.run take s later = .ok final →
        ¬(final.IsOpen slot ∧ final.accepted slot = s.accepted slot)

theorem reapedStored_iff (heap : HttpConn.Heap) {s : WebServer} (registry : s.Registry) (slot : Nat) :
    Reaped (stepStored heap) slot s ↔ Reaped step slot s := by
  constructor
  · intro reaped isOpen later legal inRange spares enough final reached
    have allowed := (allowedStored_iff heap registry later).mpr ⟨legal, inRange⟩
    refine reaped isOpen later allowed.1 allowed.2 ?_ enough final ?_
    · exact (alongStored_iff heap registry later allowed.1 allowed.2 _).mpr spares
    · exact (runStored_eq heap registry later allowed.1 allowed.2).trans reached
  · intro reaped isOpen later legal inRange spares enough final reached
    have allowed := (allowedStored_iff heap registry later).mp ⟨legal, inRange⟩
    refine reaped isOpen later allowed.1 allowed.2 ?_ enough final ?_
    · exact (alongStored_iff heap registry later legal inRange _).mp spares
    · exact (runStored_eq heap registry later legal inRange).symm.trans reached

/-- An event renews a timer that is due in the next tick, or at least 57 ticks later, or
its connection is closed. -/
def Step.OnTime (slot : Nat) (s : WebServer) : Step → Prop
  | .readable sockfd results => sockfd = slot →
      (∀ left ∈ s.untilClosed slot, left = 0 ∨ 57 ≤ left) ∨
        ((s.users slot).read results).2 = false
  | .writable sockfd results => sockfd = slot →
      (∀ left ∈ s.untilClosed slot, left = 0 ∨ 57 ≤ left) ∨
        ((s.users slot).write results).2.result = false
  | _ => True

instance (slot : Nat) (s : WebServer) : (event : Step) → Decidable (event.OnTime slot s)
  | .readable _ _ => inferInstanceAs (Decidable (_ → (∀ left ∈ s.untilClosed slot, _) ∨ _))
  | .writable _ _ => inferInstanceAs (Decidable (_ → (∀ left ∈ s.untilClosed slot, _) ∨ _))
  | .accept _ => inferInstanceAs (Decidable True)
  | .error _ => inferInstanceAs (Decidable True)
  | .close _ => inferInstanceAs (Decidable True)
  | .tick => inferInstanceAs (Decidable True)
  | .work _ _ _ => inferInstanceAs (Decidable True)

structure Waits (slot number left : Nat) (s : WebServer) : Prop where
  registry : s.Registry
  unturned : s.Unturned
  accepted : number ≤ s.accepted slot
  soon : s.IsOpen slot → s.accepted slot = number → ∀ ticks ∈ s.untilClosed slot, ticks < left

theorem Moves.accepted_le {s next : WebServer} {event : Step} (moves : Moves s next event)
    (slot : Nat) : s.accepted slot ≤ next.accepted slot := by
  rcases moves.accepted slot with ⟨_, new⟩ | ⟨_, old⟩ <;> omega

theorem after_tick {slot ticks : Nat} {left : Option Nat} (has : Step.after slot left .tick = some ticks) :
    left = some (ticks + 1) := by
  cases left with
  | none => simp [Step.after] at has
  | some more =>
      cases more with
      | zero => simp [Step.after] at has
      | succ fewer =>
          have same : fewer = ticks := by simpa [Step.after] using has
          rw [same]

theorem Waits.step {slot number left : Nat} {s next : WebServer} {event : Step}
    (waits : Waits slot number left s) (legal : event.Legal s) (spares : event.Spares slot number s)
    (taken : s.step event = .ok next) :
    Waits slot number (left - tickCount [event]) next := by
  obtain ⟨registry, moves⟩ := (step_moves waits.registry event legal).2 next taken
  refine ⟨registry, moves.unturned waits.registry legal waits.unturned,
    Nat.le_trans waits.accepted (moves.accepted_le slot), ?_⟩
  intro isOpen same ticks has
  have counts := moves.untilClosed waits.registry waits.unturned legal registry isOpen
  rcases moves.isOpen isOpen with ⟨_, new⟩ | ⟨noAccept, wasOpen, old⟩
  · have before := waits.accepted
    omega
  · have soon := waits.soon wasOpen (old.symm.trans same)
    rw [counts] at has
    cases event with
    | accept clientfd =>
        have other : ¬clientfd = some slot := fun same => noAccept (congrArg Step.accept same)
        simp only [Step.after, other, if_false] at has
        simpa [tickCount] using soon ticks has
    | error => simpa [tickCount] using soon ticks has
    | close => simpa [tickCount] using soon ticks has
    | work => simpa [tickCount] using soon ticks has
    | readable sockfd results =>
        have other : ¬sockfd = slot := fun here => spares here (old.symm.trans same)
        simp only [Step.after, other, if_false] at has
        simpa [tickCount] using soon ticks has
    | writable sockfd results =>
        have other : ¬sockfd = slot := fun here => spares here (old.symm.trans same)
        simp only [Step.after, other, if_false] at has
        simpa [tickCount] using soon ticks has
    | tick =>
        have nearer := soon (ticks + 1) (after_tick has)
        have one : tickCount [Step.tick] = 1 := rfl
        omega

theorem tickCount_cons (event : Step) (rest : List Step) :
    tickCount (event :: rest) = tickCount [event] + tickCount rest := by
  simp only [tickCount, List.countP_cons, List.countP_nil]
  omega

theorem Waits.run {slot number left : Nat} (later : List Step) {s final : WebServer}
    (waits : Waits slot number left s) (legal : AlongSteps Step.Legal s later)
    (spares : AlongSteps (Step.Spares slot number) s later)
    (reached : runSteps s later = .ok final) :
    Waits slot number (left - tickCount later) final := by
  induction later generalizing s left with
  | nil =>
      obtain rfl : s = final := Except.ok.inj reached
      exact waits
  | cons event rest ih =>
      simp only [Runs.run] at reached
      cases taken : s.step event with
      | error fault =>
          rw [taken] at reached
          contradiction
      | ok next =>
          rw [taken] at reached
          have after := ih (waits.step legal.1 spares.1 taken) (legal.2 next taken)
            (spares.2 next taken) reached
          rw [tickCount_cons, ← Nat.sub_sub]
          exact after

structure Prompt (slot : Nat) (s : WebServer) : Prop where
  registry : s.Registry
  unturned : s.Unturned
  actorMode : s.actorMode = 1
  soon : s.IsOpen slot → ∀ ticks ∈ s.untilClosed slot, ticks ≤ 3

theorem Prompt.reaped {slot : Nat} {s : WebServer} (prompt : Prompt slot s) :
    Reaped WebServer.step slot s := by
  intro isOpen later legal _ spares enough final reached
  have waits : Waits slot (s.accepted slot) 4 s :=
    ⟨prompt.registry, prompt.unturned, Nat.le_refl _,
      fun _ _ ticks has => Nat.lt_succ_of_le (prompt.soon isOpen ticks has)⟩
  have after := waits.run later legal spares reached
  rintro ⟨stillOpen, same⟩
  obtain ⟨_, _, _, _, has⟩ := after.registry.untilClosed stillOpen
  have none := after.soon stillOpen same _ has
  omega

/-! Events on the connection itself. -/

theorem closeConn_isOpen {s next : WebServer} (registry : s.Registry) {slot : Nat}
    (isOpen : s.IsOpen slot) (taken : s.closeConn slot = .ok next) : ¬next.IsOpen slot := by
  obtain ⟨closed, made, _, closes, _⟩ := closeConn_open registry isOpen
  obtain rfl : closed = next := Except.ok.inj (made.symm.trans taken)
  exact fun still => ((closes.isOpen slot).mp still).2 (List.mem_singleton_self slot)

theorem dealRead_isOpen {s next : WebServer} (registry : s.Registry) (proactor : s.actorMode = 1)
    {sockfd : Nat} (isOpen : s.IsOpen sockfd) {results : List HttpConn.Recv}
    (taken : (s.report sockfd).dealRead sockfd results = .ok next) :
    next.IsOpen sockfd ↔ ((s.users sockfd).read results).2 = true := by
  obtain ⟨renewed, updated, renews, registry', known⟩ := timerUpdate_reported registry isOpen
  obtain ⟨users, sameMode, sameOpen⟩ := renews.reported
  have mode : ¬renewed.actorMode = 0 := by
    rw [sameMode, proactor]
    decide
  have read := readConn_still renewed sockfd results
  have isOpen' := (read.isOpen sockfd).mpr ((sameOpen sockfd).mpr isOpen)
  simp only [dealRead, updated, ok_bind, mode, if_false] at taken
  rw [← users]
  change next.IsOpen sockfd ↔ (renewed.readConn sockfd results).2 = true
  cases outcome : (renewed.readConn sockfd results).2 with
  | true =>
      simp only [outcome, if_true] at taken
      have known' : 0 < (renewed.readConn sockfd results).1.accepted sockfd := known
      exact iff_of_true (((append_still known' taken).isOpen sockfd).mpr isOpen') rfl
  | false =>
      simp only [outcome, Bool.false_eq_true, if_false] at taken
      exact iff_of_false (closeConn_isOpen (read.registry registry') isOpen' taken) (by simp)

theorem dealWrite_isOpen {s next : WebServer} (registry : s.Registry) (proactor : s.actorMode = 1)
    {sockfd : Nat} (isOpen : s.IsOpen sockfd) {results : List Writev}
    (taken : (s.report sockfd).dealWrite sockfd results = .ok next) :
    next.IsOpen sockfd ↔ ((s.users sockfd).write results).2.result = true := by
  obtain ⟨renewed, updated, renews, registry', _⟩ := timerUpdate_reported registry isOpen
  obtain ⟨users, sameMode, sameOpen⟩ := renews.reported
  have mode : ¬renewed.actorMode = 0 := by
    rw [sameMode, proactor]
    decide
  have written := writeConn_still renewed sockfd results
  have isOpen' := (written.isOpen sockfd).mpr ((sameOpen sockfd).mpr isOpen)
  have result : (renewed.writeConn sockfd results).2 =
      ((renewed.users sockfd).write results).2.result := by
    simp only [writeConn]
    split <;> rfl
  simp only [dealWrite, updated, ok_bind, mode, if_false, closeUnless] at taken
  rw [← users, ← result]
  cases outcome : (renewed.writeConn sockfd results).2 with
  | true =>
      simp only [outcome, if_true, Except.ok.injEq] at taken
      exact iff_of_true (taken ▸ isOpen') rfl
  | false =>
      simp only [outcome, Bool.false_eq_true, if_false] at taken
      exact iff_of_false (closeConn_isOpen (written.registry registry') isOpen' taken) (by simp)

theorem Prompt.step {slot : Nat} {s next : WebServer} {event : Step} (prompt : Prompt slot s)
    (legal : event.Legal s) (onTime : event.OnTime slot s) (taken : s.step event = .ok next) :
    Prompt slot next := by
  obtain ⟨registry, moves⟩ := (step_moves prompt.registry event legal).2 next taken
  refine ⟨registry, moves.unturned prompt.registry legal prompt.unturned,
    moves.actorMode.trans prompt.actorMode, ?_⟩
  intro isOpen ticks has
  have counts := moves.untilClosed prompt.registry prompt.unturned legal registry isOpen
  rw [counts] at has
  -- a renewal that is on time puts the end three ticks away
  have renewal (wasOpen : s.IsOpen slot) (due : ∀ left ∈ s.untilClosed slot, left = 0 ∨ 57 ≤ left)
      (has : ticks ∈ (s.untilClosed slot).map fun left => (left + 3) % wheelSlots) : ticks ≤ 3 := by
    obtain ⟨left, before, same⟩ := Option.map_eq_some_iff.mp has
    have soon := prompt.soon wasOpen left before
    have now := due left before
    simp only [wheelSlots] at same
    omega
  rcases moves.isOpen isOpen with ⟨isAccept, _⟩ | ⟨noAccept, wasOpen, _⟩
  · subst isAccept
    have three : 3 = ticks := by simpa [Step.after] using has
    omega
  · have soon := prompt.soon wasOpen
    cases event with
    | accept clientfd =>
        have other : ¬clientfd = some slot := fun same => noAccept (congrArg Step.accept same)
        simp only [Step.after, other, if_false] at has
        exact soon ticks has
    | error => exact soon ticks has
    | close => exact soon ticks has
    | work => exact soon ticks has
    | readable sockfd results =>
        by_cases here : sockfd = slot
        · subst here
          simp only [Step.after, if_true] at has
          rcases onTime rfl with due | failed
          · exact renewal wasOpen due has
          · have read := (dealRead_isOpen prompt.registry prompt.actorMode legal taken).mp isOpen
            rw [failed] at read
            contradiction
        · simp only [Step.after, here, if_false] at has
          exact soon ticks has
    | writable sockfd results =>
        by_cases here : sockfd = slot
        · subst here
          simp only [Step.after, if_true] at has
          rcases onTime rfl with due | failed
          · exact renewal wasOpen due has
          · have written := (dealWrite_isOpen prompt.registry prompt.actorMode legal taken).mp isOpen
            rw [failed] at written
            contradiction
        · simp only [Step.after, here, if_false] at has
          exact soon ticks has
    | tick =>
        have most := soon (ticks + 1) (after_tick has)
        omega

/-! An event that is not on time. -/

theorem ticks_keep {slot : Nat} (count left : Nat) {s : WebServer} (registry : s.Registry)
    (isOpen : s.IsOpen slot) (counted : s.untilClosed slot = some left) (fewer : count ≤ left) :
    ∃ final, runSteps s (List.replicate count .tick) = .ok final ∧ final.IsOpen slot ∧
      final.accepted = s.accepted := by
  induction count generalizing left s with
  | zero => exact ⟨s, rfl, isOpen, rfl⟩
  | succ count ih =>
      obtain ⟨next, slots, ticked, ticks⟩ := tick_spec registry
      have spared : slot ∉ slots := by
        intro member
        obtain ⟨_, timer, data, has, live, here, stopped⟩ := (ticks.due slot).mp member
        have bound := registry.wheel.bounds.1
        rw [untilClosed, has, Option.bind_some, TimeWheel.remaining, live, Option.map_some,
          Option.some.injEq] at counted
        simp only [TimeWheel.ticksLeft, here, wheelSlots] at counted bound
        omega
      have stillOpen := (ticks.closes.isOpen slot).mpr ⟨isOpen, spared⟩
      obtain ⟨less, before, now⟩ := ticks.untilClosed registry stillOpen
      have same : left = less + 1 := Option.some.inj (counted.symm.trans before)
      obtain ⟨final, reached, open', accepted⟩ := ih less ticks.registry stillOpen now (by omega)
      refine ⟨final, ?_, open', accepted.trans ticks.closes.accepted⟩
      simp only [List.replicate_succ, Runs.run, step, ticked]
      exact reached

theorem unreaped {slot left : Nat} {s : WebServer} (registry : s.Registry) (isOpen : s.IsOpen slot)
    (counted : s.untilClosed slot = some left) (late : 4 ≤ left) : ¬Reaped step slot s := by
  intro reaped
  obtain ⟨final, reached, stillOpen, accepted⟩ := ticks_keep 4 left registry isOpen counted late
  have idle (allowed : WebServer → Step → Prop) (met : ∀ s, allowed s .tick) :
      AlongSteps allowed s (List.replicate 4 .tick) := by
    refine Runs.along_of_forall _ s fun event member s => ?_
    rw [List.eq_of_mem_replicate member]
    exact met s
  exact reaped isOpen (List.replicate 4 .tick) (idle _ fun _ => trivial) (idle _ fun _ => trivial)
    (idle _ fun _ => trivial) (by decide) final reached ⟨stillOpen, by rw [accepted]⟩

theorem Prompt.late {slot : Nat} {s next : WebServer} (prompt : Prompt slot s)
    (wasOpen : s.IsOpen slot) (registry : next.Registry) (isOpen : next.IsOpen slot)
    (renewed : next.untilClosed slot =
      (s.untilClosed slot).map fun left => (left + 3) % wheelSlots)
    (late : ¬∀ left ∈ s.untilClosed slot, left = 0 ∨ 57 ≤ left) : ¬Reaped WebServer.step slot next := by
  simp only [Classical.not_forall] at late
  obtain ⟨left, before, notDue⟩ := late
  have soon := prompt.soon wasOpen left before
  rw [Option.mem_def] at before
  rw [before, Option.map_some] at renewed
  refine unreaped registry isOpen renewed ?_
  simp only [wheelSlots]
  omega

theorem Prompt.step_late {slot : Nat} {s next : WebServer} {event : Step} (prompt : Prompt slot s)
    (legal : event.Legal s) (late : ¬event.OnTime slot s) (taken : s.step event = .ok next) :
    ¬Reaped WebServer.step slot next := by
  obtain ⟨registry, moves⟩ := (step_moves prompt.registry event legal).2 next taken
  cases event with
  | readable sockfd results =>
      simp only [Step.OnTime, Classical.not_imp, not_or] at late
      obtain ⟨here, notDue, succeeded⟩ := late
      subst here
      rw [Bool.not_eq_false] at succeeded
      have isOpen := (dealRead_isOpen prompt.registry prompt.actorMode legal taken).mpr succeeded
      have counts := moves.untilClosed prompt.registry prompt.unturned legal registry isOpen
      simp only [Step.after, if_true] at counts
      exact prompt.late legal registry isOpen counts notDue
  | writable sockfd results =>
      simp only [Step.OnTime, Classical.not_imp, not_or] at late
      obtain ⟨here, notDue, succeeded⟩ := late
      subst here
      rw [Bool.not_eq_false] at succeeded
      have isOpen := (dealWrite_isOpen prompt.registry prompt.actorMode legal taken).mpr succeeded
      have counts := moves.untilClosed prompt.registry prompt.unturned legal registry isOpen
      simp only [Step.after, if_true] at counts
      exact prompt.late legal registry isOpen counts notDue
  | accept => exact absurd trivial late
  | error => exact absurd trivial late
  | close => exact absurd trivial late
  | tick => exact absurd trivial late
  | work => exact absurd trivial late

/-! Whole runs. -/

theorem init_prompt (users : Nat → HttpConn) (setReactorMode : Bool) (slot : Nat) :
    Prompt slot (init users setReactorMode) := by
  refine ⟨init_registry users setReactorMode, ?_, rfl, fun isOpen => absurd rfl isOpen⟩
  intro timer data live
  contradiction

theorem runSteps_reaped {users : Nat → HttpConn} {setReactorMode : Bool} (steps : List Step)
    (slot : Nat) (legal : AlongSteps Step.Legal (init users setReactorMode) steps)
    {final : WebServer} (reached : runSteps (init users setReactorMode) steps = .ok final) :
    Runs.Always step (Reaped step slot) (init users setReactorMode) steps ↔
      AlongSteps (Step.OnTime slot) (init users setReactorMode) steps := by
  have completes := Runs.along_of_reached steps reached
  refine Runs.always_iff_along (fun s prompt => Prompt.reaped prompt) ?_ ?_ steps
    (init_prompt users setReactorMode slot) (legal.and steps completes)
  · intro s event next prompt allowed onTime taken
    exact prompt.step allowed.1 onTime taken
  · intro s event prompt allowed late
    obtain ⟨next, taken⟩ := allowed.2
    exact ⟨next, taken, prompt.step_late allowed.1 late taken⟩

/-- In a run of the server in which every look at a body stays in range, four idle ticks close
the connection of a slot from every state on, exactly when every event on that slot is on time. -/
theorem runStored_reaped_iff (heap : HttpConn.Heap) (users : Nat → HttpConn) (setReactorMode : Bool)
    (steps : List Step) (slot : Nat)
    (legal : AlongStored heap Step.Legal (init users setReactorMode) steps)
    (inRange : AlongStored heap Step.InRange (init users setReactorMode) steps) (final : WebServer)
    (reached : runStored heap (init users setReactorMode) steps = .ok final) :
    Runs.Always (stepStored heap) (Reaped (stepStored heap) slot) (init users setReactorMode) steps ↔
      AlongStored heap (Step.OnTime slot) (init users setReactorMode) steps := by
  have start := init_registry users setReactorMode
  have same := alongStored_iff heap start steps legal inRange
  have agree (s : WebServer) (registry : s.Registry) := reapedStored_iff heap registry slot
  rw [runStored_eq heap start steps legal inRange] at reached
  rw [alwaysStored_iff heap start steps legal inRange agree, same]
  exact runSteps_reaped steps slot ((same Step.Legal).mp legal) reached

theorem runStored_reaped_iff_lastTick :
    Runs.Always (stepStored denseHeap) (Reaped (stepStored denseHeap) 7)
      (init (fun _ => HttpConn.zeroed) false)
      [.accept (some 7), .tick, .tick, .tick, .readable 7 [.data (CString.bytes "GET ")],
        .work ⟨fun _ => none, fun _ _ => 0⟩ [] [], .tick] :=
  (runStored_reaped_iff denseHeap (fun _ => HttpConn.zeroed) false
    [.accept (some 7), .tick, .tick, .tick, .readable 7 [.data (CString.bytes "GET ")],
      .work ⟨fun _ => none, fun _ _ => 0⟩ [] [], .tick] 7 (by decide +kernel) (by decide +kernel)
    _ rfl).mpr (by decide +kernel)

/-- A client that writes at once is six ticks away from its end. -/
theorem early_event_unreaped :
    ∃ s, AlongStored denseHeap Step.Legal (init (fun _ => HttpConn.zeroed) false)
        [.accept (some 7), .readable 7 [.data (CString.bytes "GET ")],
          .work ⟨fun _ => none, fun _ _ => 0⟩ [] []] ∧
      runStored denseHeap (init (fun _ => HttpConn.zeroed) false)
        [.accept (some 7), .readable 7 [.data (CString.bytes "GET ")],
          .work ⟨fun _ => none, fun _ _ => 0⟩ [] []] = .ok s ∧
      ¬Reaped (stepStored denseHeap) 7 s := by
  refine ⟨_, by decide +kernel, rfl, ?_⟩
  intro reaped
  refine reaped (by decide +kernel) [.tick, .tick, .tick, .tick] (by decide +kernel)
    (by decide +kernel) ?_ (by decide) _ rfl (by decide +kernel)
  exact Runs.along_of_forall _ _ fun event member _ => by
    simp only [List.mem_cons, List.not_mem_nil, or_false, or_self] at member
    rw [member]
    trivial

end StudyRecord.Server.WebServer
