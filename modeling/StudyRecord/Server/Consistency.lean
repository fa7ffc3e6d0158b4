import StudyRecord.Server.Registry

/-!
Every step of the server keeps its connections and timers one to one. What a worker
or the event loop does with one connection may close it, and moves no timer.
-/

namespace StudyRecord.Server.WebServer

open Http Timer

/-! The functions of a connection, which leave its socket and its timer alone. -/

theorem read_owner (c : HttpConn) (results : List HttpConn.Recv) :
    SameOwner c (c.read results).1 := by
  obtain ⟨arrived, same, _⟩ := HttpConn.read_receive c results
  refine ⟨?_, ?_, (HttpConn.Call.read results).run_bounded c⟩
  · rw [same]
    rfl
  · rw [same]
    rfl

theorem write_owner (c : HttpConn) (results : List Writev) :
    SameOwner c (c.write results).1 := by
  obtain ⟨sent, frame, ends⟩ := HttpConn.write_frame c results
  have sockfd : sent.sockfd = c.sockfd := by rw [frame]
  have timer : sent.timer = c.timer := by rw [frame]
  refine ⟨?_, ?_, (HttpConn.Call.write results).run_bounded c⟩
  · rcases ends with stays | fresh
    · rw [stays, sockfd]
    · rw [fresh]
      exact sockfd
  · rcases ends with stays | fresh
    · rw [stays, timer]
    · rw [fresh]
      exact timer

theorem processRead_owner (c : HttpConn) (fs : FileSystem) (bounded : c.Bounded) :
    SameOwner c (c.processRead fs).1 := by
  obtain ⟨scanned, read, request⟩ := HttpConn.processRead_frame c fs bounded.ordered
  exact ⟨by rw [request, read], by rw [request, read], (HttpConn.Call.processRead fs).run_bounded c⟩

theorem processWrite_owner (c : HttpConn) (ret : HttpCode) :
    SameOwner c (c.processWrite ret).1 := by
  have frame := HttpConn.processWrite_frame c ret
  exact ⟨by rw [frame], by rw [frame], (HttpConn.Call.processWrite ret).run_bounded c⟩

/-! What is done with one connection. -/

structure Quiet (s next : WebServer) : Prop where
  isOpen : ∀ slot, next.IsOpen slot → s.IsOpen slot
  timer : ∀ slot, next.IsOpen slot → (next.users slot).timer = (s.users slot).timer
  data : ∀ timer data, next.tw.dataOf timer = some data → s.tw.dataOf timer = some data
  curSlot : next.tw.curSlot = s.tw.curSlot
  accepted : next.accepted = s.accepted
  actorMode : next.actorMode = s.actorMode

theorem Quiet.trans {first second third : WebServer} (early : Quiet first second)
    (late : Quiet second third) : Quiet first third :=
  ⟨fun slot isOpen => early.isOpen slot (late.isOpen slot isOpen),
    fun slot isOpen => (late.timer slot isOpen).trans (early.timer slot (late.isOpen slot isOpen)),
    fun timer data live => early.data timer data (late.data timer data live),
    late.curSlot.trans early.curSlot, late.accepted.trans early.accepted,
    late.actorMode.trans early.actorMode⟩

theorem Still.quiet {s next : WebServer} (still : Still s next) : Quiet s next := by
  refine ⟨fun slot => (still.isOpen slot).mp, fun slot _ => still.timer slot, ?_, ?_, still.accepted,
    still.actorMode⟩
  · intro timer data live
    rw [still.tw] at live
    exact live
  · rw [still.tw]

def Orderly (s : WebServer) (result : Except Fault WebServer) : Prop :=
  result ≠ .error .freedTimer ∧ ∀ next, result = .ok next → next.Registry ∧ Quiet s next

theorem orderly_ok {s next : WebServer} (registry : next.Registry) (quiet : Quiet s next) :
    Orderly s (.ok next) := by
  refine ⟨by simp, fun other same => ?_⟩
  exact Except.ok.inj same ▸ ⟨registry, quiet⟩

theorem Still.orderly {s next : WebServer} (still : Still s next) (registry : s.Registry) :
    Orderly s (.ok next) :=
  orderly_ok (still.registry registry) still.quiet

theorem Still.then {s next : WebServer} (still : Still s next) {result : Except Fault WebServer}
    (orderly : Orderly next result) : Orderly s result := by
  refine ⟨orderly.1, fun final same => ?_⟩
  obtain ⟨registry, quiet⟩ := orderly.2 final same
  exact ⟨registry, still.quiet.trans quiet⟩

theorem Orderly.bind {s : WebServer} {first : Except Fault WebServer}
    {rest : WebServer → Except Fault WebServer} (orderly : Orderly s first)
    (later : ∀ middle, middle.Registry → middle.accepted = s.accepted →
      Orderly middle (rest middle)) : Orderly s (first >>= rest) := by
  cases made : first with
  | error fault =>
      rw [made] at orderly
      exact ⟨orderly.1, fun _ same => nomatch same⟩
  | ok middle =>
      obtain ⟨registry, quiet⟩ := orderly.2 middle made
      obtain ⟨noFault, after⟩ := later middle registry quiet.accepted
      refine ⟨noFault, fun next same => ?_⟩
      obtain ⟨registry', quiet'⟩ := after next same
      exact ⟨registry', quiet.trans quiet'⟩

theorem readConn_still (s : WebServer) (slot : Nat) (results : List HttpConn.Recv) :
    Still s (s.readConn slot results).1 :=
  setConn_still s (read_owner (s.users slot) results)

theorem writeConn_still (s : WebServer) (slot : Nat) (results : List Writev) :
    Still s (s.writeConn slot results).1 := by
  have still := setConn_still s (write_owner (s.users slot) results)
  simp only [writeConn]
  split
  · exact still
  · exact still.trans (modfd_still _ _ _)

theorem Closes.quiet {slot : Nat} {s next : WebServer} (closes : Closes [slot] s next)
    (frees : Frees slot s next) : Quiet s next := by
  refine ⟨fun other isOpen => ((closes.isOpen other).mp isOpen).1, ?_, ?_, frees.curSlot,
    closes.accepted, closes.actorMode⟩
  · intro other isOpen
    rw [closes.users, if_neg ((closes.isOpen other).mp isOpen).2]
  · intro timer data live
    by_cases own : (s.users slot).timer = some timer
    · rw [frees.own timer own] at live
      contradiction
    · rw [frees.others timer own] at live
      exact live

theorem closeConn_orderly {s : WebServer} (registry : s.Registry) {slot : Nat}
    (known : 0 < s.accepted slot) : Orderly s (s.closeConn slot) := by
  by_cases isOpen : s.IsOpen slot
  · obtain ⟨next, closed, registry', closes, frees⟩ := closeConn_open registry isOpen
    rw [closed]
    exact orderly_ok registry' (closes.quiet frees)
  · rw [closeConn_closed registry known isOpen]
    exact (Still.refl s).orderly registry

theorem closeUnless_orderly {s : WebServer} (registry : s.Registry) {slot : Nat}
    (known : 0 < s.accepted slot) (ok : Bool) : Orderly s (s.closeUnless slot ok) := by
  simp only [closeUnless]
  split
  · exact (Still.refl s).orderly registry
  · exact closeConn_orderly registry known

theorem append_orderly {s : WebServer} (registry : s.Registry) {slot : Nat}
    (known : 0 < s.accepted slot) : Orderly s (s.append slot) := by
  cases appended : s.append slot with
  | error fault =>
      refine ⟨?_, fun _ same => nomatch same⟩
      simp only [append] at appended
      split at appended
      · rw [← appended]
        simp
      · contradiction
  | ok next => exact (append_still known appended).orderly registry

theorem appendTask_orderly {s : WebServer} (registry : s.Registry) {slot : Nat}
    (known : 0 < s.accepted slot) (state : Int) : Orderly s (s.appendTask slot state) := by
  have still : Still s (s.setConn slot { s.users slot with taskState := state }) :=
    setConn_still s ⟨rfl, rfl, fun bounded => bounded.kept rfl rfl rfl rfl⟩
  exact still.then (append_orderly (still.registry registry) known)

theorem respond_orderly {s : WebServer} (registry : s.Registry) {slot : Nat}
    (known : 0 < s.accepted slot) (fs : FileSystem) : Orderly s (s.respond slot fs) := by
  have owner := processRead_owner (s.users slot) fs (registry.bounded slot known)
  simp only [respond, reply]
  split
  · exact ⟨by simp, fun _ same => nomatch same⟩
  · rename_i c ret parsed
    rw [parsed] at owner
    split
    · exact ((setConn_still s owner).trans (modfd_still _ _ _)).orderly registry
    · have still := setConn_still s (owner.trans (processWrite_owner c ret))
      have known' : 0 < (s.setConn slot (c.processWrite ret).1).accepted slot := known
      refine still.then ((closeUnless_orderly (still.registry registry) known' _).bind ?_)
      intro middle registry' _
      exact (modfd_still middle _ _).orderly registry'

theorem process_orderly {s : WebServer} (registry : s.Registry) {slot : Nat}
    (known : 0 < s.accepted slot) (fs : FileSystem) (recvs : List HttpConn.Recv)
    (writevs : List Writev) : Orderly s (s.process slot fs recvs writevs) := by
  simp only [process]
  split
  · split
    · have still := writeConn_still s slot writevs
      exact still.then (closeUnless_orderly (still.registry registry) (still.accepted ▸ known) _)
    · have still := readConn_still s slot recvs
      refine still.then
        ((closeUnless_orderly (still.registry registry) (still.accepted ▸ known) _).bind ?_)
      intro middle registry' accepted
      refine respond_orderly registry' ?_ fs
      rw [accepted, still.accepted]
      exact known
  · exact respond_orderly registry known fs

theorem work_orderly {s : WebServer} (registry : s.Registry) (fs : FileSystem)
    (recvs : List HttpConn.Recv) (writevs : List Writev) : Orderly s (s.work fs recvs writevs) := by
  simp only [work]
  split
  · exact (Still.refl s).orderly registry
  · rename_i request rest queue
    have still := pop_still queue
    have known := registry.queued request (by simp [queue])
    exact still.then (process_orderly (still.registry registry) known fs recvs writevs)

/-! The steps. -/

theorem report_users (s : WebServer) (fd : Nat) : (s.report fd).users = s.users := by
  simp only [report]
  split <;> rfl

theorem dealErr_orderly {s : WebServer} (registry : s.Registry) {sockfd : Nat}
    (isOpen : s.IsOpen sockfd) : Orderly s ((s.report sockfd).dealErr sockfd) := by
  have still := report_still s sockfd
  refine still.then (closeConn_orderly (still.registry registry) ?_)
  rw [still.accepted]
  exact (registry.known sockfd isOpen).2

theorem timerUpdate_reported {s : WebServer} (registry : s.Registry) {sockfd : Nat}
    (isOpen : s.IsOpen sockfd) :
    ∃ renewed, (s.report sockfd).timerUpdate sockfd = .ok renewed ∧
      Renews sockfd (s.report sockfd) renewed ∧ renewed.Registry ∧ 0 < renewed.accepted sockfd := by
  have still := report_still s sockfd
  have known : 0 < (s.report sockfd).accepted sockfd := by
    rw [still.accepted]
    exact (registry.known sockfd isOpen).2
  obtain ⟨renewed, updated, renews⟩ := timerUpdate_renews (still.registry registry) known
  refine ⟨renewed, updated, renews, renews.kept.registry (still.registry registry), ?_⟩
  rw [renews.kept.accepted]
  exact known

theorem Renews.reported {s renewed : WebServer} {sockfd : Nat}
    (renews : Renews sockfd (s.report sockfd) renewed) :
    renewed.users = s.users ∧ renewed.actorMode = s.actorMode ∧
      ∀ slot, renewed.IsOpen slot ↔ s.IsOpen slot := by
  have still := report_still s sockfd
  refine ⟨?_, ?_, (still.toKept.trans renews.kept).isOpen⟩
  · rw [renews.same]
    exact report_users s sockfd
  · rw [renews.same]
    exact still.actorMode

theorem dealRead_orderly {s : WebServer} (registry : s.Registry) {sockfd : Nat}
    (isOpen : s.IsOpen sockfd) (results : List HttpConn.Recv) :
    ∃ renewed, Renews sockfd (s.report sockfd) renewed ∧ renewed.Registry ∧
      Orderly renewed ((s.report sockfd).dealRead sockfd results) := by
  obtain ⟨renewed, updated, renews, registry', known⟩ := timerUpdate_reported registry isOpen
  refine ⟨renewed, renews, registry', ?_⟩
  have read := readConn_still renewed sockfd results
  have known' : 0 < (renewed.readConn sockfd results).1.accepted sockfd := known
  simp only [dealRead, updated, ok_bind]
  split
  · exact appendTask_orderly registry' known 0
  · refine read.then ?_
    split
    · exact append_orderly (read.registry registry') known'
    · exact closeConn_orderly (read.registry registry') known'

theorem dealWrite_orderly {s : WebServer} (registry : s.Registry) {sockfd : Nat}
    (isOpen : s.IsOpen sockfd) (results : List Writev) :
    ∃ renewed, Renews sockfd (s.report sockfd) renewed ∧ renewed.Registry ∧
      Orderly renewed ((s.report sockfd).dealWrite sockfd results) := by
  obtain ⟨renewed, updated, renews, registry', known⟩ := timerUpdate_reported registry isOpen
  refine ⟨renewed, renews, registry', ?_⟩
  have written := writeConn_still renewed sockfd results
  simp only [dealWrite, updated, ok_bind]
  split
  · exact appendTask_orderly registry' known 1
  · refine written.then (closeUnless_orderly (written.registry registry') ?_ _)
    rw [written.accepted]
    exact known

inductive Moves (s next : WebServer) : Step → Prop
  | nothing (same : next = s) : Moves s next (.accept none)
  | opened {clientfd : Nat} (closed : ¬s.IsOpen clientfd) (opens : Opens clientfd s next) :
      Moves s next (.accept (some clientfd))
  | erred {sockfd : Nat} (quiet : Quiet s next) : Moves s next (.error sockfd)
  | closed {sockfd : Nat} (quiet : Quiet s next) : Moves s next (.close sockfd)
  | read {sockfd : Nat} {results : List HttpConn.Recv} {renewed : WebServer}
      (renews : Renews sockfd (s.report sockfd) renewed) (registry : renewed.Registry)
      (quiet : Quiet renewed next) : Moves s next (.readable sockfd results)
  | written {sockfd : Nat} {results : List Writev} {renewed : WebServer}
      (renews : Renews sockfd (s.report sockfd) renewed) (registry : renewed.Registry)
      (quiet : Quiet renewed next) : Moves s next (.writable sockfd results)
  | ticked {slots : List Nat} (ticks : Ticks slots s next) : Moves s next .tick
  | worked {fs : FileSystem} {recvs : List HttpConn.Recv} {writevs : List Writev}
      (quiet : Quiet s next) : Moves s next (.work fs recvs writevs)

theorem Moves.actorMode {s next : WebServer} {event : Step} (moves : Moves s next event) :
    next.actorMode = s.actorMode := by
  cases moves with
  | nothing same => rw [same]
  | opened _ opens => exact opens.actorMode
  | erred quiet => exact quiet.actorMode
  | closed quiet => exact quiet.actorMode
  | worked quiet => exact quiet.actorMode
  | @read sockfd _ _ renews _ quiet =>
      rw [quiet.actorMode, renews.same]
      exact (report_still s sockfd).actorMode
  | @written sockfd _ _ renews _ quiet =>
      rw [quiet.actorMode, renews.same]
      exact (report_still s sockfd).actorMode
  | ticked ticks => exact ticks.closes.actorMode

theorem Moves.accepted {s next : WebServer} {event : Step} (moves : Moves s next event)
    (slot : Nat) :
    event = .accept (some slot) ∧ next.accepted slot = s.accepted slot + 1 ∨
      event ≠ .accept (some slot) ∧ next.accepted slot = s.accepted slot := by
  cases moves with
  | nothing same => exact Or.inr ⟨by simp, by rw [same]⟩
  | @opened clientfd _ opens =>
      by_cases same : slot = clientfd
      · subst same
        exact Or.inl ⟨rfl, by rw [opens.accepted, Function.update_self]⟩
      · refine Or.inr ⟨?_, by rw [opens.accepted, Function.update_of_ne same]⟩
        simpa using fun other : clientfd = slot => same other.symm
  | erred quiet => exact Or.inr ⟨by simp, by rw [quiet.accepted]⟩
  | closed quiet => exact Or.inr ⟨by simp, by rw [quiet.accepted]⟩
  | worked quiet => exact Or.inr ⟨by simp, by rw [quiet.accepted]⟩
  | @read sockfd _ _ renews _ quiet =>
      have kept := (report_still s sockfd).toKept.trans renews.kept
      exact Or.inr ⟨by simp, by rw [quiet.accepted, kept.accepted]⟩
  | @written sockfd _ _ renews _ quiet =>
      have kept := (report_still s sockfd).toKept.trans renews.kept
      exact Or.inr ⟨by simp, by rw [quiet.accepted, kept.accepted]⟩
  | ticked ticks => exact Or.inr ⟨by simp, by rw [ticks.closes.accepted]⟩

theorem step_moves {s : WebServer} (registry : s.Registry) (event : Step) (legal : event.Legal s) :
    s.step event ≠ .error .freedTimer ∧
      ∀ next, s.step event = .ok next → next.Registry ∧ Moves s next event := by
  cases event with
  | accept clientfd =>
      cases clientfd with
      | none =>
          refine ⟨by simp [step, dealConnection], fun next taken => ?_⟩
          obtain rfl : s = next := Except.ok.inj taken
          exact ⟨registry, .nothing rfl⟩
      | some clientfd =>
          obtain ⟨next, made, opens, valid, count⟩ := dealConnection_opens registry legal.1 legal.2
          have registry' := opens.registry registry legal.1 legal.2 valid count
          rw [step, made]
          refine ⟨by simp, fun other taken => ?_⟩
          exact Except.ok.inj taken ▸ ⟨registry', .opened legal.1 opens⟩
  | error sockfd =>
      obtain ⟨noFault, after⟩ := dealErr_orderly registry legal
      exact ⟨noFault, fun next taken => ⟨(after next taken).1, .erred (after next taken).2⟩⟩
  | close sockfd =>
      obtain ⟨noFault, after⟩ := dealErr_orderly registry legal
      exact ⟨noFault, fun next taken => ⟨(after next taken).1, .closed (after next taken).2⟩⟩
  | readable sockfd results =>
      obtain ⟨renewed, renews, registry', noFault, after⟩ := dealRead_orderly registry legal results
      exact ⟨noFault, fun next taken =>
        ⟨(after next taken).1, .read renews registry' (after next taken).2⟩⟩
  | writable sockfd results =>
      obtain ⟨renewed, renews, registry', noFault, after⟩ := dealWrite_orderly registry legal results
      exact ⟨noFault, fun next taken =>
        ⟨(after next taken).1, .written renews registry' (after next taken).2⟩⟩
  | tick =>
      obtain ⟨next, slots, ticked, ticks⟩ := tick_spec registry
      rw [step, ticked]
      refine ⟨by simp, fun other taken => ?_⟩
      exact Except.ok.inj taken ▸ ⟨ticks.registry, .ticked ticks⟩
  | work fs recvs writevs =>
      obtain ⟨noFault, after⟩ := work_orderly registry fs recvs writevs
      exact ⟨noFault, fun next taken => ⟨(after next taken).1, .worked (after next taken).2⟩⟩

/-! Whole runs. -/

theorem init_registry (users : Nat → HttpConn) (setReactorMode : Bool) :
    (init users setReactorMode).Registry := by
  have closed (slot : Nat) : ¬(init users setReactorMode).IsOpen slot := fun isOpen => isOpen rfl
  refine ⟨TimeWheel.empty_valid, ?_, ?_, ?_, ?_, ?_, ?_, ?_, ?_⟩
  · intro slot isOpen
    exact absurd isOpen (closed slot)
  · intro slot isOpen
    exact absurd isOpen (closed slot)
  · intro slot isOpen
    exact absurd isOpen (closed slot)
  · intro timer user live
    contradiction
  · intro slot known
    contradiction
  · have none : (init users setReactorMode).openSlots = ∅ :=
      Finset.filter_eq_empty_iff.mpr fun slot _ => closed slot
    rw [none]
    rfl
  · intro entry member
    contradiction
  · intro slot known
    contradiction

theorem step_registry {s next : WebServer} {event : Step} (registry : s.Registry)
    (legal : event.Legal s) (taken : s.step event = .ok next) : next.Registry :=
  ((step_moves registry event legal).2 next taken).1

structure Consistent (s : WebServer) : Prop where
  count : s.userCount = s.openSlots.card
  counted : ∀ slot, slot ∈ s.openSlots ↔ s.IsOpen slot
  openTimer : ∀ slot, s.IsOpen slot → ∃ timer, (s.users slot).timer = some timer ∧
    s.tw.Listed timer ∧ s.tw.userDataOf timer = some (some slot)
  timerOpen : ∀ timer, s.tw.Listed timer → ∃! slot, s.IsOpen slot ∧
    (s.users slot).timer = some timer ∧ s.tw.userDataOf timer = some (some slot)
  closedTimer : ∀ slot, 0 < s.accepted slot → ¬s.IsOpen slot → (s.users slot).timer = none

theorem Registry.consistent {s : WebServer} (registry : s.Registry) : s.Consistent := by
  have listed (timer : Nat) : s.tw.Listed timer ↔ (s.tw.userDataOf timer).isSome := by
    rw [registry.wheel.listed_iff, TimeWheel.userDataOf, Option.isSome_map]
  refine ⟨registry.count, ?_, ?_, ?_, ?_⟩
  · intro slot
    simp only [openSlots, Finset.mem_filter, Finset.mem_range, and_iff_right_iff_imp]
    exact fun isOpen => (registry.known slot isOpen).1
  · intro slot isOpen
    obtain ⟨timer, has, user⟩ := registry.owns slot isOpen
    refine ⟨timer, has, ?_, user⟩
    rw [listed, user]
    rfl
  · intro timer member
    rw [listed, Option.isSome_iff_exists] at member
    obtain ⟨user, live⟩ := member
    obtain ⟨slot, same, isOpen, has⟩ := registry.owned timer user live
    refine ⟨slot, ⟨isOpen, has, same ▸ live⟩, ?_⟩
    rintro other ⟨_, _, live'⟩
    rw [live, same] at live'
    exact (Option.some.inj (Option.some.inj live')).symm
  · intro slot known closed
    exact (registry.released slot known closed).2

end StudyRecord.Server.WebServer
