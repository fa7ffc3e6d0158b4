import Mathlib.Data.Finset.Card
import Mathlib.Data.Finset.Range
import Mathlib.Data.List.Nodup
import StudyRecord.Http.Bounds
import StudyRecord.Server.WebServer
import StudyRecord.Timer.Firing

/-!
Connections and their timers. Every open connection has one timer in the wheel, and
every timer in the wheel belongs to one open connection.
-/

namespace StudyRecord.Server.WebServer

open Http Timer

def openSlots (s : WebServer) : Finset Nat :=
  (Finset.range maxFd).filter fun slot => s.IsOpen slot

structure Registry (s : WebServer) : Prop where
  wheel : s.tw.Valid
  known : ∀ slot, s.IsOpen slot → slot < maxFd ∧ 0 < s.accepted slot
  sockfd : ∀ slot, s.IsOpen slot → (s.users slot).sockfd = slot
  owns : ∀ slot, s.IsOpen slot →
    ∃ timer, (s.users slot).timer = some timer ∧ s.tw.userDataOf timer = some (some slot)
  owned : ∀ timer user, s.tw.userDataOf timer = some user →
    ∃ slot, user = some slot ∧ s.IsOpen slot ∧ (s.users slot).timer = some timer
  released : ∀ slot, 0 < s.accepted slot → ¬s.IsOpen slot →
    (s.users slot).sockfd = -1 ∧ (s.users slot).timer = none
  count : s.userCount = s.openSlots.card
  queued : ∀ entry ∈ s.workQueue, 0 < s.accepted entry.slot
  bounded : ∀ slot, 0 < s.accepted slot → (s.users slot).Bounded

structure Kept (s next : WebServer) : Prop where
  wheel : s.tw.Valid → next.tw.Valid
  isOpen : ∀ slot, next.IsOpen slot ↔ s.IsOpen slot
  sockfd : ∀ slot, (next.users slot).sockfd = (s.users slot).sockfd
  timer : ∀ slot, (next.users slot).timer = (s.users slot).timer
  bounded : ∀ slot, (s.users slot).Bounded → (next.users slot).Bounded
  userData : ∀ timer, next.tw.userDataOf timer = s.tw.userDataOf timer
  count : next.userCount = s.userCount
  accepted : next.accepted = s.accepted
  queued : ∀ entry ∈ next.workQueue, entry ∈ s.workQueue ∨ 0 < s.accepted entry.slot

theorem Kept.refl (s : WebServer) : Kept s s :=
  ⟨id, fun _ => Iff.rfl, fun _ => rfl, fun _ => rfl, fun _ => id, fun _ => rfl, rfl, rfl,
    fun _ member => Or.inl member⟩

theorem Kept.trans {first second third : WebServer} (early : Kept first second)
    (late : Kept second third) : Kept first third := by
  refine ⟨late.wheel ∘ early.wheel, fun slot => (late.isOpen slot).trans (early.isOpen slot),
    fun slot => (late.sockfd slot).trans (early.sockfd slot),
    fun slot => (late.timer slot).trans (early.timer slot),
    fun slot bounded => late.bounded slot (early.bounded slot bounded),
    fun timer => (late.userData timer).trans (early.userData timer),
    late.count.trans early.count, late.accepted.trans early.accepted, ?_⟩
  intro entry member
  rcases late.queued entry member with before | known
  · exact early.queued entry before
  · rw [early.accepted] at known
    exact Or.inr known

theorem Kept.registry {s next : WebServer} (kept : Kept s next) (registry : s.Registry) :
    next.Registry := by
  refine ⟨kept.wheel registry.wheel, ?_, ?_, ?_, ?_, ?_, ?_, ?_, ?_⟩
  · intro slot isOpen
    rw [kept.accepted]
    exact registry.known slot ((kept.isOpen slot).mp isOpen)
  · intro slot isOpen
    rw [kept.sockfd]
    exact registry.sockfd slot ((kept.isOpen slot).mp isOpen)
  · intro slot isOpen
    rw [kept.timer]
    obtain ⟨timer, has, user⟩ := registry.owns slot ((kept.isOpen slot).mp isOpen)
    exact ⟨timer, has, (kept.userData timer).trans user⟩
  · intro timer user live
    rw [kept.userData] at live
    obtain ⟨slot, same, isOpen, has⟩ := registry.owned timer user live
    exact ⟨slot, same, (kept.isOpen slot).mpr isOpen, (kept.timer slot).trans has⟩
  · intro slot known closed
    rw [kept.accepted] at known
    rw [kept.isOpen] at closed
    rw [kept.sockfd, kept.timer]
    exact registry.released slot known closed
  · have same : next.openSlots = s.openSlots := by
      apply Finset.filter_congr
      intro slot _
      exact kept.isOpen slot
    rw [kept.count, same, registry.count]
  · intro entry member
    rw [kept.accepted]
    rcases kept.queued entry member with before | known
    · exact registry.queued entry before
    · exact known
  · intro slot known
    rw [kept.accepted] at known
    exact kept.bounded slot (registry.bounded slot known)

structure Still (s next : WebServer) : Prop extends Kept s next where
  tw : next.tw = s.tw
  actorMode : next.actorMode = s.actorMode

theorem Still.refl (s : WebServer) : Still s s := ⟨.refl s, rfl, rfl⟩

theorem Still.trans {first second third : WebServer} (early : Still first second)
    (late : Still second third) : Still first third :=
  ⟨early.toKept.trans late.toKept, late.tw.trans early.tw, late.actorMode.trans early.actorMode⟩

/-! Changes of one connection record, of a descriptor, of the queue and of a timer. -/

structure SameOwner (before after : HttpConn) : Prop where
  sockfd : after.sockfd = before.sockfd
  timer : after.timer = before.timer
  bounded : before.Bounded → after.Bounded

theorem SameOwner.trans {first second third : HttpConn} (early : SameOwner first second)
    (late : SameOwner second third) : SameOwner first third :=
  ⟨late.sockfd.trans early.sockfd, late.timer.trans early.timer, late.bounded ∘ early.bounded⟩

theorem setConn_still (s : WebServer) {slot : Nat} {c : HttpConn}
    (same : SameOwner (s.users slot) c) : Still s (s.setConn slot c) := by
  have users (other : Nat) : SameOwner (s.users other) ((s.setConn slot c).users other) := by
    by_cases here : other = slot
    · subst here
      simpa only [setConn, Function.update_self] using same
    · simp only [setConn, Function.update_of_ne here]
      exact ⟨rfl, rfl, id⟩
  refine ⟨⟨id, fun _ => Iff.rfl, fun other => (users other).sockfd, fun other => (users other).timer,
    fun other => (users other).bounded, fun _ => rfl, rfl, rfl, ?_⟩, rfl, rfl⟩
  exact fun _ member => Or.inl member

theorem setEpoll_still (s : WebServer) {fd : Nat} {descriptor : Descriptor}
    (wasOpen : s.epoll fd ≠ .closed) (staysOpen : descriptor ≠ .closed) :
    Still s (s.setEpoll fd descriptor) := by
  refine ⟨⟨id, ?_, fun _ => rfl, fun _ => rfl, fun _ => id, fun _ => rfl, rfl, rfl, ?_⟩, rfl, rfl⟩
  · intro slot
    by_cases here : slot = fd
    · subst here
      simp [IsOpen, setEpoll, wasOpen, staysOpen]
    · simp [IsOpen, setEpoll, Function.update_of_ne here]
  · exact fun _ member => Or.inl member

theorem modfd_still (s : WebServer) (fd : Int) (ev : Interest) : Still s (s.modfd fd ev) := by
  simp only [modfd]
  split
  · exact .refl s
  · rename_i registered
    exact setEpoll_still s (fun closed => registered (Or.inr closed)) (by simp)

theorem report_still (s : WebServer) (fd : Nat) : Still s (s.report fd) := by
  simp only [report]
  split
  · rename_i armed
    exact setEpoll_still s (by simp [armed]) (by simp)
  · exact .refl s

theorem append_eq {s next : WebServer} {slot : Nat} (appended : s.append slot = .ok next) :
    next = { s with workQueue := s.workQueue ++ [⟨slot, s.accepted slot⟩] } := by
  simp only [append] at appended
  split at appended
  · contradiction
  · exact (Except.ok.inj appended).symm

theorem append_still {s next : WebServer} {slot : Nat} (known : 0 < s.accepted slot)
    (appended : s.append slot = .ok next) : Still s next := by
  rw [append_eq appended]
  refine ⟨⟨id, fun _ => Iff.rfl, fun _ => rfl, fun _ => rfl, fun _ => id, fun _ => rfl, rfl, rfl, ?_⟩,
    rfl, rfl⟩
  intro entry member
  rcases List.mem_append.mp member with before | new
  · exact Or.inl before
  · rw [List.mem_singleton.mp new]
    exact Or.inr known

theorem pop_still {s : WebServer} {request : Entry} {rest : List Entry}
    (queue : s.workQueue = request :: rest) : Still s { s with workQueue := rest } := by
  refine ⟨⟨id, fun _ => Iff.rfl, fun _ => rfl, fun _ => rfl, fun _ => id, fun _ => rfl, rfl, rfl, ?_⟩,
    rfl, rfl⟩
  intro entry member
  rw [queue]
  exact Or.inl (List.mem_cons_of_mem request member)

theorem Registry.live {s : WebServer} (registry : s.Registry) {slot timer : Nat}
    (known : 0 < s.accepted slot) (has : (s.users slot).timer = some timer) :
    s.IsOpen slot ∧ ∃ data, s.tw.dataOf timer = some data ∧ data.userData = some slot := by
  have isOpen : s.IsOpen slot := by
    by_contra closed
    rw [(registry.released slot known closed).2] at has
    contradiction
  obtain ⟨owner, has', user⟩ := registry.owns slot isOpen
  rw [has, Option.some.injEq] at has'
  rw [← has', TimeWheel.userDataOf, Option.map_eq_some_iff] at user
  exact ⟨isOpen, user⟩

theorem Registry.owner {s : WebServer} (registry : s.Registry) {slot other timer : Nat}
    (known : 0 < s.accepted slot) (known' : 0 < s.accepted other)
    (has : (s.users slot).timer = some timer) (has' : (s.users other).timer = some timer) :
    slot = other := by
  obtain ⟨_, data, live, user⟩ := registry.live known has
  obtain ⟨_, data', live', user'⟩ := registry.live known' has'
  rw [live, Option.some.injEq] at live'
  subst live'
  rw [user, Option.some.injEq] at user'
  exact user'

theorem userDataOf_update {before after : TimeWheel Nat} {timer : Nat}
    {data : Option (TwTimer Nat)}
    (payload : after.dataOf = Function.update before.dataOf timer data) :
    after.userDataOf = Function.update before.userDataOf timer (data.map TwTimer.userData) := by
  funext other
  by_cases same : other = timer
  · rw [TimeWheel.userDataOf, payload, same, Function.update_self, Function.update_self]
  · rw [TimeWheel.userDataOf, payload, Function.update_of_ne same, Function.update_of_ne same]
    rfl

structure Renews (slot : Nat) (s next : WebServer) : Prop where
  kept : Kept s next
  same : next = { s with tw := next.tw }
  curSlot : next.tw.curSlot = s.tw.curSlot
  others : ∀ timer, (s.users slot).timer ≠ some timer → next.tw.dataOf timer = s.tw.dataOf timer
  own : ∀ timer data, (s.users slot).timer = some timer → s.tw.dataOf timer = some data →
    next.tw.dataOf timer = some
      { data with
        rotation := Machine.toInt data.rotation
        timeSlot := (data.timeSlot + 3) % wheelSlots }

theorem timerUpdate_renews {s : WebServer} (registry : s.Registry) {slot : Nat}
    (known : 0 < s.accepted slot) : ∃ next, s.timerUpdate slot = .ok next ∧ Renews slot s next := by
  cases has : (s.users slot).timer with
  | none =>
      refine ⟨s, by simp [timerUpdate, has], .refl s, rfl, rfl, fun _ _ => rfl, ?_⟩
      intro timer data same
      rw [has] at same
      contradiction
  | some timer =>
      obtain ⟨_, data, live, user⟩ := registry.live known has
      obtain ⟨tw, made, valid, payload, cur, _⟩ :=
        TimeWheel.adjustTimer_spec registry.wheel live (3 * timeSlot) (by decide)
      have kept : Kept s { s with tw := tw } := by
        refine ⟨fun _ => valid, fun _ => Iff.rfl, fun _ => rfl, fun _ => rfl, fun _ => id, ?_, rfl, rfl,
          fun _ member => Or.inl member⟩
        intro other
        rw [userDataOf_update payload]
        by_cases same : other = timer
        · rw [same, Function.update_self, TimeWheel.userDataOf, live]
          rfl
        · rw [Function.update_of_ne same]
      refine ⟨{ s with tw := tw }, by simp [timerUpdate, has, made], kept, rfl, cur, ?_, ?_⟩
      · intro other different
        have apart : other ≠ timer := by
          rintro rfl
          exact different has
        exact (congrFun payload other).trans (Function.update_of_ne apart ..)
      · intro timer' data' has' live'
        rw [has, Option.some.injEq] at has'
        subst has'
        rw [live, Option.some.injEq] at live'
        subst live'
        have new := (congrFun payload timer).trans (Function.update_self ..)
        have zero : ((TimeWheel.ticksOf (3 * timeSlot) / wheelSlots : Nat) : Int) = 0 := by decide
        have three : TimeWheel.ticksOf (3 * timeSlot) % wheelSlots = 3 := by decide
        rw [zero, three, Int.add_zero] at new
        exact new

/-! Closing connections. -/

def closedConn (c : HttpConn) : HttpConn := { c with sockfd := -1, timer := none }

structure Closes (slots : List Nat) (s next : WebServer) : Prop where
  epoll : ∀ slot, next.epoll slot = if slot ∈ slots then .closed else s.epoll slot
  users : ∀ slot, next.users slot = if slot ∈ slots then closedConn (s.users slot) else s.users slot
  workQueue : next.workQueue = s.workQueue
  accepted : next.accepted = s.accepted
  actorMode : next.actorMode = s.actorMode
  connActorMode : next.connActorMode = s.connActorMode

theorem Closes.isOpen {slots : List Nat} {s next : WebServer} (closes : Closes slots s next)
    (slot : Nat) : next.IsOpen slot ↔ s.IsOpen slot ∧ slot ∉ slots := by
  rw [IsOpen, closes.epoll]
  split
  · rename_i member
    simp [member]
  · rename_i other
    simp [IsOpen, other]

theorem Closes.openSlots {slots : List Nat} {s next : WebServer} (closes : Closes slots s next) :
    next.openSlots = s.openSlots \ slots.toFinset := by
  ext slot
  simp only [WebServer.openSlots, Finset.mem_filter, Finset.mem_range, Finset.mem_sdiff,
    List.mem_toFinset, closes.isOpen slot]
  tauto

theorem Closes.registry {slots : List Nat} {s next : WebServer} (closes : Closes slots s next)
    (registry : s.Registry) (nodup : slots.Nodup) (wereOpen : ∀ slot ∈ slots, s.IsOpen slot)
    (count : next.userCount = s.userCount - slots.length) (valid : next.tw.Valid)
    (gone : ∀ slot ∈ slots, ∀ timer, (s.users slot).timer = some timer →
      next.tw.userDataOf timer = none)
    (kept : ∀ timer, (∀ slot ∈ slots, (s.users slot).timer ≠ some timer) →
      next.tw.userDataOf timer = s.tw.userDataOf timer) : next.Registry := by
  refine ⟨valid, ?_, ?_, ?_, ?_, ?_, ?_, ?_, ?_⟩
  · intro slot isOpen
    rw [closes.accepted]
    exact registry.known slot ((closes.isOpen slot).mp isOpen).1
  · intro slot isOpen
    obtain ⟨wasOpen, other⟩ := (closes.isOpen slot).mp isOpen
    rw [closes.users, if_neg other]
    exact registry.sockfd slot wasOpen
  · intro slot isOpen
    obtain ⟨wasOpen, other⟩ := (closes.isOpen slot).mp isOpen
    obtain ⟨timer, has, user⟩ := registry.owns slot wasOpen
    rw [closes.users, if_neg other]
    refine ⟨timer, has, ?_⟩
    rw [kept timer, user]
    -- a timer has one owner, so the slots that are closed do not have it
    intro closed member same
    obtain ⟨owner, same', user'⟩ := registry.owns closed (wereOpen closed member)
    rw [same, Option.some.injEq] at same'
    rw [← same', user, Option.some.injEq, Option.some.injEq] at user'
    exact other (user' ▸ member)
  · intro timer user live
    have wasLive : s.tw.userDataOf timer = some user ∧
        ∀ slot ∈ slots, (s.users slot).timer ≠ some timer := by
      have spared : ∀ slot ∈ slots, (s.users slot).timer ≠ some timer := by
        intro slot member has
        rw [gone slot member timer has] at live
        contradiction
      exact ⟨(kept timer spared).symm.trans live, spared⟩
    obtain ⟨slot, same, wasOpen, has⟩ := registry.owned timer user wasLive.1
    have other : slot ∉ slots := fun member => wasLive.2 slot member has
    refine ⟨slot, same, (closes.isOpen slot).mpr ⟨wasOpen, other⟩, ?_⟩
    rw [closes.users, if_neg other]
    exact has
  · intro slot known closed
    rw [closes.accepted] at known
    rw [closes.users]
    split
    · exact ⟨rfl, rfl⟩
    · rename_i other
      refine registry.released slot known fun isOpen => closed ?_
      exact (closes.isOpen slot).mpr ⟨isOpen, other⟩
  · have inside : slots.toFinset ⊆ s.openSlots := by
      intro slot member
      have wasOpen := wereOpen slot (List.mem_toFinset.mp member)
      simp only [WebServer.openSlots, Finset.mem_filter, Finset.mem_range]
      exact ⟨(registry.known slot wasOpen).1, wasOpen⟩
    have size : slots.toFinset.card = slots.length := List.toFinset_card_of_nodup nodup
    have most := Finset.card_le_card inside
    rw [count, registry.count, closes.openSlots, Finset.card_sdiff_of_subset inside]
    omega
  · intro entry member
    rw [closes.workQueue] at member
    rw [closes.accepted]
    exact registry.queued entry member
  · intro slot known
    rw [closes.accepted] at known
    have bounded := registry.bounded slot known
    rw [closes.users]
    split
    · exact bounded.kept rfl rfl rfl rfl
    · exact bounded

theorem timerFunc_open {s : WebServer} (registry : s.Registry) {slot : Nat}
    (isOpen : s.IsOpen slot) :
    s.timerFunc slot =
      { s with
        users := Function.update s.users slot { s.users slot with sockfd := -1 }
        epoll := Function.update s.epoll slot .closed
        userCount := s.userCount - 1 } := by
  have sockfd := registry.sockfd slot isOpen
  have different : (slot : Int) ≠ -1 := by omega
  have notNegative : ¬(slot : Int) < 0 := by omega
  simp only [timerFunc, sockfd, different, ne_eq, not_false_eq_true, if_true, removefd, notNegative,
    if_false, Int.toNat_natCast]
  rfl

theorem timerFunc_closed {s : WebServer} (registry : s.Registry) {slot : Nat}
    (known : 0 < s.accepted slot) (closed : ¬s.IsOpen slot) : s.timerFunc slot = s := by
  simp [timerFunc, (registry.released slot known closed).1]

theorem closeConn_closed {s : WebServer} (registry : s.Registry) {slot : Nat}
    (known : 0 < s.accepted slot) (closed : ¬s.IsOpen slot) : s.closeConn slot = .ok s := by
  simp [closeConn, timerFunc_closed registry known closed, (registry.released slot known closed).2]

structure Frees (slot : Nat) (s next : WebServer) : Prop where
  curSlot : next.tw.curSlot = s.tw.curSlot
  own : ∀ timer, (s.users slot).timer = some timer → next.tw.dataOf timer = none
  others : ∀ timer, (s.users slot).timer ≠ some timer → next.tw.dataOf timer = s.tw.dataOf timer

theorem closeConn_open {s : WebServer} (registry : s.Registry) {slot : Nat}
    (isOpen : s.IsOpen slot) :
    ∃ next, s.closeConn slot = .ok next ∧ next.Registry ∧ Closes [slot] s next ∧
      Frees slot s next := by
  obtain ⟨timer, has, user⟩ := registry.owns slot isOpen
  have found := user
  rw [TimeWheel.userDataOf, Option.map_eq_some_iff] at found
  obtain ⟨data, live, _⟩ := found
  obtain ⟨tw, made, valid, payload, cur, _⟩ := TimeWheel.delTimer_spec registry.wheel live
  have userData := userDataOf_update payload
  let next : WebServer :=
    { s with
      users := Function.update s.users slot (closedConn (s.users slot))
      epoll := Function.update s.epoll slot .closed
      userCount := s.userCount - 1
      tw := tw }
  have closes : Closes [slot] s next := by
    refine ⟨?_, ?_, rfl, rfl, rfl, rfl⟩
    · intro other
      simp only [next, List.mem_singleton]
      exact Function.update_apply ..
    · intro other
      simp only [next, List.mem_singleton, Function.update_apply]
      split
      · rename_i same
        rw [same]
      · rfl
  refine ⟨next, ?_, ?_, closes, cur, ?_, ?_⟩
  · simp only [closeConn, timerFunc_open registry isOpen, Function.update_self, has, made]
    simp [setConn, next, closedConn]
  · refine closes.registry registry (List.nodup_singleton slot) (by simpa using isOpen) (by simp [next])
      valid ?_ ?_
    · intro other member timer' has'
      rw [List.mem_singleton.mp member, has, Option.some.injEq] at has'
      rw [← has', userData, Function.update_self]
      rfl
    · intro timer' spared
      have different : timer' ≠ timer := by
        rintro rfl
        exact spared slot (by simp) has
      rw [userData, Function.update_of_ne different]
  · intro timer' has'
    rw [has, Option.some.injEq] at has'
    rw [← has']
    exact (congrFun payload timer).trans (Function.update_self ..)
  · intro timer' spared
    have different : timer' ≠ timer := by
      rintro rfl
      exact spared has
    exact (congrFun payload timer').trans (Function.update_of_ne different ..)

/-! The tick. -/

theorem Closes.nil (s : WebServer) : Closes [] s s :=
  ⟨by simp, by simp, rfl, rfl, rfl, rfl⟩

theorem Closes.cons {slot : Nat} {rest : List Nat} {s middle next : WebServer}
    (early : Closes [slot] s middle) (late : Closes rest middle next) :
    Closes (slot :: rest) s next := by
  refine ⟨?_, ?_, late.workQueue.trans early.workQueue, late.accepted.trans early.accepted,
    late.actorMode.trans early.actorMode, late.connActorMode.trans early.connActorMode⟩
  · intro other
    rw [late.epoll, early.epoll]
    by_cases first : other = slot
    · simp [first]
    · simp [first]
  · intro other
    rw [late.users, early.users]
    by_cases first : other = slot
    · simp [first, closedConn]
    · simp [first]

theorem timerCbFunc_closes {s : WebServer} {slot : Nat} (sockfd : (s.users slot).sockfd = slot) :
    ∃ next, s.timerCbFunc (some slot) = .ok next ∧ Closes [slot] s next ∧
      next.userCount = s.userCount - 1 ∧ next.tw = s.tw := by
  have different : (slot : Int) ≠ -1 := by omega
  have notNegative : ¬(slot : Int) < 0 := by omega
  refine ⟨{ s with
      users := Function.update s.users slot (closedConn (s.users slot))
      epoll := Function.update s.epoll slot .closed
      userCount := s.userCount - 1 }, ?_, ⟨?_, ?_, rfl, rfl, rfl, rfl⟩, rfl, rfl⟩
  · simp [timerCbFunc, timerFunc, sockfd, different, removefd, notNegative, setConn, setEpoll,
      closedConn]
  · intro other
    simp only [List.mem_singleton]
    exact Function.update_apply ..
  · intro other
    simp only [List.mem_singleton, Function.update_apply]
    split
    · rename_i same
      rw [same]
    · rfl

theorem callbacks_close (fired : List (Nat × Option Nat)) (slots : List Nat) {s : WebServer}
    (owners : fired.map Prod.snd = slots.map some) (nodup : slots.Nodup)
    (sockfd : ∀ slot ∈ slots, (s.users slot).sockfd = slot) :
    ∃ next, fired.foldlM (fun (s : WebServer) timer => s.timerCbFunc timer.2) s = .ok next ∧
      Closes slots s next ∧ next.userCount = s.userCount - slots.length ∧ next.tw = s.tw := by
  induction slots generalizing fired s with
  | nil =>
      obtain rfl : fired = [] := by simpa using owners
      exact ⟨s, rfl, .nil s, by simp, rfl⟩
  | cons slot rest ih =>
      cases fired with
      | nil => simp at owners
      | cons timer fired =>
          simp only [List.map_cons, List.cons.injEq] at owners
          obtain ⟨absent, nodup⟩ := List.nodup_cons.mp nodup
          obtain ⟨middle, called, closes, count, wheel⟩ :=
            timerCbFunc_closes (sockfd slot (by simp))
          have later : ∀ other ∈ rest, (middle.users other).sockfd = other := by
            intro other member
            have different : other ≠ slot := fun same => absent (same ▸ member)
            rw [closes.users, if_neg (by simpa using different)]
            exact sockfd other (by simp [member])
          obtain ⟨next, folded, closes', count', wheel'⟩ := ih fired owners.2 nodup later
          refine ⟨next, ?_, closes.cons closes', ?_, wheel'.trans wheel⟩
          · rw [List.foldlM_cons, owners.1, called]
            exact folded
          · rw [count', count, List.length_cons]
            omega

def IsDue (s : WebServer) (slot : Nat) : Prop :=
  ∃ timer data, (s.users slot).timer = some timer ∧ s.tw.dataOf timer = some data ∧
    data.timeSlot = s.tw.curSlot ∧ ¬data.rotation > 0

theorem isDue_iff {s : WebServer} {slot timer : Nat} {data : TwTimer Nat}
    (has : (s.users slot).timer = some timer) (live : s.tw.dataOf timer = some data) :
    s.IsDue slot ↔ data.timeSlot = s.tw.curSlot ∧ ¬data.rotation > 0 := by
  constructor
  · rintro ⟨timer', data', has', live', due⟩
    rw [has, Option.some.injEq] at has'
    subst has'
    rw [live, Option.some.injEq] at live'
    subst live'
    exact due
  · exact fun due => ⟨timer, data, has, live, due⟩

instance (s : WebServer) (slot : Nat) : Decidable (s.IsDue slot) :=
  match has : (s.users slot).timer with
  | none => .isFalse fun ⟨_, _, has', _⟩ => nomatch has.symm.trans has'
  | some timer =>
      match live : s.tw.dataOf timer with
      | none => .isFalse fun ⟨timer', data, has', live', _⟩ => by
          rw [has, Option.some.injEq] at has'
          rw [← has', live] at live'
          contradiction
      | some _ => decidable_of_iff _ (isDue_iff has live).symm

structure Ticks (slots : List Nat) (s next : WebServer) : Prop where
  registry : next.Registry
  closes : Closes slots s next
  due : ∀ slot, slot ∈ slots ↔ s.IsOpen slot ∧ s.IsDue slot
  curSlot : next.tw.curSlot = (s.tw.curSlot + 1) % wheelSlots
  timers : ∀ timer, next.tw.dataOf timer = (s.tw.dataOf timer).bind fun data =>
    if data.timeSlot = s.tw.curSlot then TimeWheel.visit data else some data

theorem Registry.fired_slots {s : WebServer} (registry : s.Registry)
    {fired : List (Nat × Option Nat)} (nodup : (fired.map Prod.fst).Nodup)
    (calls : ∀ timer user, (timer, user) ∈ fired ↔ ∃ data, s.tw.dataOf timer = some data ∧
      data.timeSlot = s.tw.curSlot ∧ ¬data.rotation > 0 ∧ data.userData = user) :
    ∃ slots : List Nat, fired.map Prod.snd = slots.map some ∧ slots.Nodup ∧
      ∀ slot, slot ∈ slots ↔ s.IsOpen slot ∧ s.IsDue slot := by
  have owner (timer : Nat) (user : Option Nat) (member : (timer, user) ∈ fired) :
      ∃ slot, user = some slot ∧ s.IsOpen slot ∧ (s.users slot).timer = some timer := by
    obtain ⟨data, live, _, _, same⟩ := (calls timer user).mp member
    exact registry.owned timer user (by rw [TimeWheel.userDataOf, live, Option.map_some, same])
  refine ⟨fired.map fun timer => timer.2.getD 0, ?_, ?_, fun slot => ⟨?_, ?_⟩⟩
  · rw [List.map_map]
    apply List.map_congr_left
    rintro ⟨timer, user⟩ member
    obtain ⟨slot, same, _⟩ := owner timer user member
    simp [same]
  · apply List.Nodup.map_on _ nodup.of_map
    rintro ⟨timer, user⟩ member ⟨timer', user'⟩ member' same
    obtain ⟨slot, isUser, _, has⟩ := owner timer user member
    obtain ⟨slot', isUser', _, has'⟩ := owner timer' user' member'
    obtain rfl : slot = slot' := by simpa [isUser, isUser'] using same
    rw [has, Option.some.injEq] at has'
    rw [has', isUser, isUser']
  · intro member
    obtain ⟨⟨timer, user⟩, isFired, same⟩ := List.mem_map.mp member
    obtain ⟨slot', isUser, isOpen, has⟩ := owner timer user isFired
    obtain rfl : slot' = slot := by simpa [isUser] using same
    obtain ⟨data, live, here, stopped, _⟩ := (calls timer user).mp isFired
    exact ⟨isOpen, timer, data, has, live, here, stopped⟩
  · rintro ⟨isOpen, timer, data, has, live, here, stopped⟩
    obtain ⟨_, data', live', user⟩ := registry.live (registry.known slot isOpen).2 has
    rw [live, Option.some.injEq] at live'
    have member := (calls timer (some slot)).mpr ⟨data, live, here, stopped, live' ▸ user⟩
    exact List.mem_map.mpr ⟨_, member, rfl⟩

theorem tick_spec {s : WebServer} (registry : s.Registry) :
    ∃ next slots, s.tick = .ok next ∧ Ticks slots s next := by
  obtain ⟨tw, fired, made, valid, cur, _, nodup, calls, payload⟩ := TimeWheel.tick_spec registry.wheel
  obtain ⟨slots, owners, distinct, due⟩ := registry.fired_slots nodup calls
  obtain ⟨next, folded, closes, count, wheel⟩ :=
    callbacks_close fired slots (s := { s with tw := tw }) owners distinct
      fun slot member => registry.sockfd slot ((due slot).mp member).1
  have closes : Closes slots s next :=
    ⟨closes.epoll, closes.users, closes.workQueue, closes.accepted, closes.actorMode,
      closes.connActorMode⟩
  have timers (timer : Nat) : next.tw.dataOf timer = (s.tw.dataOf timer).bind fun data =>
      if data.timeSlot = s.tw.curSlot then TimeWheel.visit data else some data := by
    rw [wheel]
    exact payload timer
  refine ⟨next, slots, ?_, ?_, closes, due, ?_, timers⟩
  · simp only [tick, made]
    exact folded
  · refine closes.registry registry distinct (fun slot member => ((due slot).mp member).1) count
      (wheel ▸ valid) ?_ ?_
    · intro slot member timer has
      obtain ⟨_, timer', data, has', live, here, stopped⟩ := (due slot).mp member
      rw [has, Option.some.injEq] at has'
      rw [TimeWheel.userDataOf, timers, has', live, Option.bind_some, if_pos here,
        TimeWheel.visit, if_neg stopped]
      rfl
    · intro timer spared
      rw [TimeWheel.userDataOf, TimeWheel.userDataOf, timers]
      cases live : s.tw.dataOf timer with
      | none => rfl
      | some data =>
          rw [Option.bind_some]
          split
          · rename_i here
            by_cases more : data.rotation > 0
            · rw [TimeWheel.visit, if_pos more]
              rfl
            · obtain ⟨slot, _, isOpen, has⟩ := registry.owned timer data.userData
                (by rw [TimeWheel.userDataOf, live, Option.map_some])
              exact absurd has (spared slot ((due slot).mpr ⟨isOpen, timer, data, has, live, here, more⟩))
          · rfl
  · rw [wheel]
    exact cur

/-! New connections. -/

structure Opens (clientfd : Nat) (s next : WebServer) : Prop where
  users : ∀ slot, slot ≠ clientfd → next.users slot = s.users slot
  conn : next.users clientfd =
    { HttpConn.init { s.users clientfd with sockfd := clientfd } with timer := some s.tw.fresh }
  epoll : next.epoll = Function.update s.epoll clientfd (.armed .epollIn)
  accepted : next.accepted = Function.update s.accepted clientfd (s.accepted clientfd + 1)
  workQueue : next.workQueue = s.workQueue
  actorMode : next.actorMode = s.actorMode
  connActorMode : next.connActorMode = s.connActorMode
  curSlot : next.tw.curSlot = s.tw.curSlot
  unused : s.tw.dataOf s.tw.fresh = none
  timers : next.tw.dataOf = Function.update s.tw.dataOf s.tw.fresh
    (some ⟨0, (s.tw.curSlot + 3) % wheelSlots, some clientfd⟩)

theorem Registry.openSlots_lt {s : WebServer} {slot : Nat} (closed : ¬s.IsOpen slot)
    (bound : slot < maxFd) : s.openSlots.card < maxFd := by
  have smaller : s.openSlots ⊂ Finset.range maxFd := by
    refine (Finset.ssubset_iff_of_subset (Finset.filter_subset _ _)).mpr ⟨slot, ?_, ?_⟩
    · simpa using bound
    · simp [closed]
  simpa using Finset.card_lt_card smaller

theorem dealConnection_opens {s : WebServer} (registry : s.Registry) {clientfd : Nat}
    (closed : ¬s.IsOpen clientfd) (bound : clientfd < maxFd) :
    ∃ next, s.dealConnection (some clientfd) = .ok next ∧ Opens clientfd s next ∧
      next.tw.Valid ∧ next.userCount = s.userCount + 1 := by
  have room : ¬s.userCount ≥ maxFd := by
    have fewer := Registry.openSlots_lt closed bound
    rw [registry.count]
    omega
  obtain ⟨added, made, valid, unused, payload, cur, _⟩ :=
    TimeWheel.addTimer_spec registry.wheel (3 * timeSlot) (by decide)
  have live : added.dataOf s.tw.fresh =
      some ⟨0, (s.tw.curSlot + 3) % wheelSlots, none⟩ := by
    rw [payload, Function.update_self]
    rfl
  obtain ⟨tw, assigned, valid', payload', cur', _⟩ := TimeWheel.setUserData_spec valid live clientfd
  refine ⟨({ s.initConn clientfd with tw := tw }).setConn clientfd
      { (s.initConn clientfd).users clientfd with timer := some s.tw.fresh },
    ?_, ⟨?_, ?_, rfl, rfl, rfl, rfl, rfl, cur'.trans cur, unused, ?_⟩, valid', rfl⟩
  · have wheel : (s.initConn clientfd).tw = s.tw := rfl
    simp only [dealConnection, room, if_false, wheel, made, assigned]
  · intro slot different
    simp only [setConn, initConn, addfd, setEpoll, Function.update_of_ne different]
  · simp only [setConn, initConn, addfd, setEpoll, Function.update_self]
  · have same : (({ s.initConn clientfd with tw := tw } : WebServer).setConn clientfd
        { (s.initConn clientfd).users clientfd with timer := some s.tw.fresh }).tw = tw := rfl
    rw [same, payload', payload]
    simp only [Function.update_idem]

theorem Opens.isOpen {clientfd : Nat} {s next : WebServer} (opens : Opens clientfd s next)
    (slot : Nat) : next.IsOpen slot ↔ slot = clientfd ∨ s.IsOpen slot := by
  rw [IsOpen, opens.epoll]
  by_cases same : slot = clientfd
  · simp [same]
  · simp [same, IsOpen]

theorem Opens.openSlots {clientfd : Nat} {s next : WebServer} (opens : Opens clientfd s next)
    (bound : clientfd < maxFd) : next.openSlots = insert clientfd s.openSlots := by
  ext slot
  simp only [WebServer.openSlots, Finset.mem_filter, Finset.mem_range, Finset.mem_insert,
    opens.isOpen slot]
  constructor
  · rintro ⟨bound', same | isOpen⟩
    · exact Or.inl same
    · exact Or.inr ⟨bound', isOpen⟩
  · rintro (same | ⟨bound', isOpen⟩)
    · exact ⟨same ▸ bound, Or.inl same⟩
    · exact ⟨bound', Or.inr isOpen⟩

theorem Opens.timer_owner {clientfd : Nat} {s next : WebServer} (opens : Opens clientfd s next)
    (registry : s.Registry) (closed : ¬s.IsOpen clientfd) (timer : Nat) (user : Option Nat)
    (live : next.tw.userDataOf timer = some user) :
    ∃ slot, user = some slot ∧ next.IsOpen slot ∧ (next.users slot).timer = some timer := by
  rw [userDataOf_update opens.timers] at live
  by_cases new : timer = s.tw.fresh
  · rw [new, Function.update_self] at live
    refine ⟨clientfd, ?_, (opens.isOpen clientfd).mpr (Or.inl rfl), ?_⟩
    · exact (Option.some.inj live).symm
    · rw [opens.conn, new]
  · rw [Function.update_of_ne new] at live
    obtain ⟨slot, same, isOpen, has⟩ := registry.owned timer user live
    have different : slot ≠ clientfd := by
      rintro rfl
      exact closed isOpen
    refine ⟨slot, same, (opens.isOpen slot).mpr (Or.inr isOpen), ?_⟩
    rw [opens.users slot different, has]

theorem Opens.conn_timer {clientfd : Nat} {s next : WebServer} (opens : Opens clientfd s next)
    (registry : s.Registry) (slot : Nat) (isOpen : next.IsOpen slot) :
    ∃ timer, (next.users slot).timer = some timer ∧
      next.tw.userDataOf timer = some (some slot) := by
  have userData := userDataOf_update opens.timers
  by_cases same : slot = clientfd
  · refine ⟨s.tw.fresh, by rw [same, opens.conn], ?_⟩
    rw [userData, Function.update_self, same]
    rfl
  · have wasOpen := ((opens.isOpen slot).mp isOpen).resolve_left same
    obtain ⟨timer, has, user⟩ := registry.owns slot wasOpen
    refine ⟨timer, by rw [opens.users slot same, has], ?_⟩
    have different : timer ≠ s.tw.fresh := by
      rintro rfl
      rw [TimeWheel.userDataOf, opens.unused] at user
      contradiction
    rw [userData, Function.update_of_ne different, user]

theorem Opens.registry {clientfd : Nat} {s next : WebServer} (opens : Opens clientfd s next)
    (registry : s.Registry) (closed : ¬s.IsOpen clientfd) (bound : clientfd < maxFd)
    (valid : next.tw.Valid) (count : next.userCount = s.userCount + 1) : next.Registry := by
  have accepts (slot : Nat) : s.accepted slot ≤ next.accepted slot := by
    rw [opens.accepted, Function.update_apply]
    split
    · rename_i same
      rw [same]
      omega
    · exact Nat.le_refl _
  have known (slot : Nat) (different : slot ≠ clientfd) (had : 0 < next.accepted slot) :
      0 < s.accepted slot := by
    rw [opens.accepted, Function.update_of_ne different] at had
    exact had
  have before (slot : Nat) (different : slot ≠ clientfd) (isOpen : next.IsOpen slot) :
      s.IsOpen slot := ((opens.isOpen slot).mp isOpen).resolve_left different
  refine ⟨valid, ?_, ?_, opens.conn_timer registry, opens.timer_owner registry closed, ?_, ?_, ?_, ?_⟩
  · intro slot isOpen
    by_cases same : slot = clientfd
    · rw [same, opens.accepted, Function.update_self]
      exact ⟨bound, Nat.succ_pos _⟩
    · obtain ⟨bound', known'⟩ := registry.known slot (before slot same isOpen)
      exact ⟨bound', Nat.lt_of_lt_of_le known' (accepts slot)⟩
  · intro slot isOpen
    by_cases same : slot = clientfd
    · rw [same, opens.conn]
      rfl
    · rw [opens.users slot same]
      exact registry.sockfd slot (before slot same isOpen)
  · intro slot had stays
    have different : slot ≠ clientfd := by
      rintro rfl
      exact stays ((opens.isOpen slot).mpr (Or.inl rfl))
    rw [opens.users slot different]
    refine registry.released slot (known slot different had) fun isOpen => stays ?_
    exact (opens.isOpen slot).mpr (Or.inr isOpen)
  · have new : clientfd ∉ s.openSlots := by simp [WebServer.openSlots, closed]
    rw [count, registry.count, opens.openSlots bound, Finset.card_insert_of_notMem new]
    omega
  · intro entry member
    rw [opens.workQueue] at member
    exact Nat.lt_of_lt_of_le (registry.queued entry member) (accepts entry.slot)
  · intro slot had
    by_cases same : slot = clientfd
    · rw [same, opens.conn]
      exact (HttpConn.init_bounded _).kept rfl rfl rfl rfl
    · rw [opens.users slot same]
      exact registry.bounded slot (known slot same had)

end StudyRecord.Server.WebServer
