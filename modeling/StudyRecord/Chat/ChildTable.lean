import StudyRecord.Chat.ShmServer
import Mathlib.Data.List.Nodup
import Mathlib.Data.List.Range

/-!
The parent's table of children. The number of entries is right in every run; which
children they are, and at which index, is right as long as children are reaped in the
reverse order of their start.
-/

namespace StudyRecord.ShmServer

open Runs

structure Counted (server : Server) : Prop where
  count : server.userCount = server.children.length
  pids : (server.children.map Child.pid).Nodup
  index : ∀ child ∈ server.children, child.pid < processLimit ∧ child.idx < userLimit ∧
    child.idx = child.others ∧ server.subProcess child.pid = child.idx

theorem counted_init (users : Nat → ClientData) (shareMem : Nat → UInt8) :
    Counted (Server.init users shareMem) :=
  ⟨rfl, List.nodup_nil, by simp [Server.init]⟩

def started (server : Server) (client : Accepted) (pid : Nat) : Server :=
  let idx := server.userCount
  let entry := { server.users idx with
    address := client.address, length := client.length, connfd := client.connfd,
    pipefd := client.pipefd, pid := pid }
  { server with
    users := Function.update server.users idx entry
    subProcess := Function.update server.subProcess pid idx
    userCount := idx + 1
    watched := server.watched ++ [client.pipefd.1]
    children := server.children ++ [⟨pid, idx, true, server.children.length⟩] }

def removed (server : Server) (child : Child) : Server :=
  { server with
    subProcess := Function.update server.subProcess child.pid (-1)
    children := server.children.filter fun other => other.pid ≠ child.pid
    watched := server.watched.erase (server.users child.idx).pipefd.1
    users := Function.update server.users child.idx (server.users (server.userCount - 1))
    userCount := server.userCount - 1 }

theorem accept_cases {server : Server} {client : Accepted}
    (legal : Legal server (.accept client)) :
    (∃ users, server.accept client = .ok { server with users } ∧
      (∀ i < server.userCount, users i = server.users i) ∧
      (client.fork = none ∨ userLimit ≤ server.userCount)) ∨
    ∃ pid, client.fork = some pid ∧ server.userCount < userLimit ∧ pid < processLimit ∧
      (∀ child ∈ server.children, child.pid ≠ pid) ∧
      server.accept client = .ok (started server client pid) := by
  by_cases full : server.userCount ≥ userLimit
  · exact .inl ⟨server.users, if_pos full, fun _ _ => rfl, .inr full⟩
  · cases forked : client.fork with
    | none =>
        refine .inl ⟨Function.update server.users server.userCount
          { server.users server.userCount with
            address := client.address, length := client.length, connfd := client.connfd,
            pipefd := client.pipefd }, ?_, ?_, .inl rfl⟩
        · rw [Server.accept, if_neg full]
          simp only [forked]
        · exact fun i inside => Function.update_of_ne (by omega) ..
    | some pid =>
        obtain ⟨below, fresh⟩ := legal pid forked
        refine .inr ⟨pid, rfl, not_le.mp full, below, fresh, ?_⟩
        rw [Server.accept, if_neg full]
        simp only [forked, if_pos below]
        rfl

theorem filter_pid {earlier later : List Child} {child : Child}
    (pids : ((earlier ++ child :: later).map Child.pid).Nodup) :
    (earlier ++ child :: later).filter (fun other => other.pid ≠ child.pid) =
      earlier ++ later := by
  rw [List.map_append, List.map_cons, List.nodup_middle, List.nodup_cons, List.mem_append,
    not_or] at pids
  obtain ⟨⟨before, after⟩, _⟩ := pids
  have apart (list : List Child) (outside : child.pid ∉ list.map Child.pid) :
      list.filter (fun other => other.pid ≠ child.pid) = list := by
    refine List.filter_eq_self.mpr fun other member => ?_
    refine decide_eq_true fun same => outside ?_
    exact List.mem_map.mpr ⟨other, member, same⟩
  rw [List.filter_append, apart earlier before, List.filter_cons_of_neg (by simp),
    apart later after]

theorem Counted.split {server : Server} (counted : Counted server) {child : Child}
    (member : child ∈ server.children) :
    ∃ earlier later, server.children = earlier ++ child :: later ∧
      (removed server child).children = earlier ++ later := by
  obtain ⟨earlier, later, split⟩ := List.append_of_mem member
  have pids := counted.pids
  rw [split] at pids
  refine ⟨earlier, later, split, ?_⟩
  rw [← filter_pid pids, ← split]
  rfl

theorem reap_spec {server : Server} (counted : Counted server) {child : Child}
    (member : child ∈ server.children) : server.reap child.pid = .ok (removed server child) := by
  obtain ⟨below, small, _, index⟩ := counted.index child member
  obtain ⟨earlier, later, split, _⟩ := counted.split member
  have nonempty : server.userCount = earlier.length + later.length + 1 := by
    rw [counted.count, split]
    simp
    omega
  have inRange : ¬((child.idx : Int) < 0 ∨ (child.idx : Int) > userLimit) := by omega
  simp only [Server.reap, if_pos below, index, if_neg inRange, nonempty, removed,
    Int.toNat_natCast, Nat.add_sub_cancel]

def Event.Spares : Event → Prop
  | .accept _ | .reap _ => False
  | .receive _ _ | .exit _ | .reaped | .terminated | .broadcast _ _ => True

def Child.revived (child : Child) : Child := { child with alive := true }

structure Spared (server next : Server) : Prop where
  users : next.users = server.users
  subProcess : next.subProcess = server.subProcess
  userCount : next.userCount = server.userCount
  children : next.children.map Child.revived = server.children.map Child.revived
  living : ∀ child ∈ next.children, child.alive = true → child ∈ server.children

theorem Event.Spares.step {event : Event} (spares : event.Spares) (server : Server) :
    ∃ next, ShmServer.step server event = .ok next ∧ Spared server next := by
  cases event with
  | accept client => contradiction
  | reap pid => contradiction
  | receive pid data =>
      simp only [ShmServer.step]
      split
      · exact ⟨server, rfl, rfl, rfl, rfl, rfl, fun _ member _ => member⟩
      · exact ⟨_, rfl, rfl, rfl, rfl, rfl, fun _ member _ => member⟩
  | exit pid =>
      refine ⟨_, rfl, rfl, rfl, rfl, ?_, ?_⟩
      · rw [List.map_map]
        refine List.map_congr_left fun child _ => ?_
        simp only [Function.comp_apply]
        split <;> rfl
      · intro child member living
        obtain ⟨before, among, rfl⟩ := List.mem_map.mp member
        by_cases here : before.pid = pid
        · simp [here] at living
        · simpa [here] using among
  | reaped =>
      refine ⟨_, rfl, ?_⟩
      simp only [Server.reaped]
      split <;> exact ⟨rfl, rfl, rfl, rfl, fun _ member _ => member⟩
  | terminated =>
      refine ⟨_, rfl, ?_⟩
      simp only [Server.terminated]
      split <;> exact ⟨rfl, rfl, rfl, rfl, fun _ member _ => member⟩
  | broadcast sockfd child =>
      exact ⟨_, rfl, rfl, rfl, rfl, rfl, fun _ member _ => member⟩

theorem Spared.map {server next : Server} (spared : Spared server next) {A : Type}
    (field : Child → A) (same : ∀ child : Child, field child.revived = field child) :
    next.children.map field = server.children.map field := by
  have mapped := congrArg (List.map field) spared.children
  have same' : field ∘ Child.revived = field := funext same
  rwa [List.map_map, List.map_map, same'] at mapped

theorem Spared.counted {server next : Server} (spared : Spared server next)
    (counted : Counted server) : Counted next := by
  refine ⟨?_, ?_, ?_⟩
  · have length := congrArg List.length spared.children
    simp only [List.length_map] at length
    rw [spared.userCount, counted.count, length]
  · rw [spared.map Child.pid fun _ => rfl]
    exact counted.pids
  · intro child member
    have among : child.revived ∈ server.children.map Child.revived := by
      rw [← spared.children]
      exact List.mem_map.mpr ⟨child, member, rfl⟩
    obtain ⟨before, member', same⟩ := List.mem_map.mp among
    have index := counted.index before member'
    obtain ⟨pid, idx, others⟩ : before.pid = child.pid ∧ before.idx = child.idx ∧
        before.others = child.others := by
      simpa [Child.revived] using same
    rw [pid, idx, others] at index
    rw [spared.subProcess]
    exact index

theorem Counted.started {server : Server} (counted : Counted server) {client : Accepted}
    {pid : Nat} (room : server.userCount < userLimit) (below : pid < processLimit)
    (fresh : ∀ child ∈ server.children, child.pid ≠ pid) :
    Counted (started server client pid) := by
  refine ⟨?_, ?_, ?_⟩
  · simp [ShmServer.started, counted.count]
  · simp only [ShmServer.started, List.map_append, List.map_cons, List.map_nil]
    refine List.nodup_append.mpr ⟨counted.pids, List.nodup_singleton pid, ?_⟩
    rintro one among other single rfl
    obtain ⟨child, member, same⟩ := List.mem_map.mp among
    exact fresh child member (same.trans (List.mem_singleton.mp single))
  · intro child member
    simp only [ShmServer.started, List.mem_append, List.mem_singleton] at member
    rcases member with member | rfl
    · obtain ⟨below', small, start, index⟩ := counted.index child member
      refine ⟨below', small, start, ?_⟩
      exact (Function.update_of_ne (fresh child member) ..).trans index
    · exact ⟨below, room, counted.count, Function.update_self ..⟩

theorem Counted.removed {server : Server} (counted : Counted server) {child : Child}
    (member : child ∈ server.children) : Counted (removed server child) := by
  obtain ⟨earlier, later, split, left⟩ := counted.split member
  refine ⟨?_, ?_, ?_⟩
  · rw [left]
    simp only [ShmServer.removed, counted.count, split, List.length_append, List.length_cons]
    omega
  · rw [left]
    have pids := counted.pids
    rw [split, List.map_append, List.map_cons, List.nodup_middle, List.nodup_cons] at pids
    rw [List.map_append]
    exact pids.2
  · intro other among
    obtain ⟨among, different⟩ := List.mem_filter.mp among
    obtain ⟨below, small, start, index⟩ := counted.index other among
    refine ⟨below, small, start, ?_⟩
    exact (Function.update_of_ne (of_decide_eq_true different) ..).trans index

theorem Counted.step_cases {server : Server} (counted : Counted server) {event : Event}
    (legal : Legal server event) :
    (∃ next, step server event = .ok next ∧ event.Spares ∧ Spared server next) ∨
    (∃ client users, event = .accept client ∧ step server event = .ok { server with users } ∧
      (∀ i < server.userCount, users i = server.users i) ∧
      (client.fork = none ∨ userLimit ≤ server.userCount)) ∨
    (∃ client pid, event = .accept client ∧ client.fork = some pid ∧
      server.userCount < userLimit ∧ step server event = .ok (ShmServer.started server client pid) ∧
      Counted (ShmServer.started server client pid)) ∨
    ∃ child ∈ server.children, event = .reap child.pid ∧
      step server event = .ok (ShmServer.removed server child) ∧
      Counted (ShmServer.removed server child) := by
  by_cases spares : event.Spares
  · obtain ⟨next, made, spared⟩ := spares.step server
    exact .inl ⟨next, made, spares, spared⟩
  · cases event with
    | accept client =>
        rcases accept_cases legal with ⟨users, made, kept, why⟩ | ⟨pid, forked, room, below, fresh, made⟩
        · exact .inr (.inl ⟨client, users, rfl, made, kept, why⟩)
        · exact .inr (.inr (.inl ⟨client, pid, rfl, forked, room, made,
            counted.started room below fresh⟩))
    | reap pid =>
        obtain ⟨child, member, rfl, _⟩ := legal
        exact .inr (.inr (.inr ⟨child, member, rfl, reap_spec counted member,
          counted.removed member⟩))
    | receive pid data => exact absurd trivial spares
    | exit pid => exact absurd trivial spares
    | reaped => exact absurd trivial spares
    | terminated => exact absurd trivial spares
    | broadcast sockfd child => exact absurd trivial spares

/-- The entries that count are the children that are not reaped, each one once, and the
process number of each leads to its index. -/
structure Listed (server : Server) : Prop where
  entries : ((List.range server.userCount).map fun i => (server.users i).pid).Perm
    (server.children.map Child.pid)
  once : (server.children.map Child.pid).Nodup
  index : ∀ i < server.userCount, server.subProcess (server.users i).pid = i

structure InOrder (server : Server) : Prop extends Counted server where
  entries : ((List.range server.userCount).map fun i => (server.users i).pid) =
    server.children.map Child.pid
  positions : server.children.map Child.idx = List.range server.userCount

def LastStarted (server : Server) : Event → Prop
  | .reap pid => ∃ child ∈ server.children.getLast?, child.pid = pid
  | _ => True

theorem InOrder.entry {server : Server} (inOrder : InOrder server) {i : Nat}
    (inside : i < server.userCount) :
    ∃ child, server.children[i]? = some child ∧ child.pid = (server.users i).pid ∧
      child.idx = i := by
  have bound : i < server.children.length := inOrder.count ▸ inside
  have pid := congrArg (fun list => list[i]?) inOrder.entries
  have idx := congrArg (fun list => list[i]?) inOrder.positions
  simp only [List.getElem?_map, List.getElem?_range inside, List.getElem?_eq_getElem bound,
    Option.map_some, Option.some.injEq] at pid idx
  exact ⟨server.children[i], List.getElem?_eq_getElem bound, pid.symm, idx⟩

theorem InOrder.listed {server : Server} (inOrder : InOrder server) : Listed server := by
  refine ⟨inOrder.entries ▸ .refl _, inOrder.pids, fun i inside => ?_⟩
  obtain ⟨child, found, pid, idx⟩ := inOrder.entry inside
  rw [← pid, (inOrder.index child (List.mem_of_getElem? found)).2.2.2, idx]

theorem InOrder.started {server : Server} (inOrder : InOrder server) {client : Accepted}
    {pid : Nat} (counted : Counted (started server client pid)) :
    InOrder (started server client pid) := by
  refine ⟨counted, ?_, ?_⟩
  · simp only [ShmServer.started, List.range_succ, List.map_append, List.map_cons, List.map_nil,
      Function.update_self, ← inOrder.entries]
    congr 1
    refine List.map_congr_left fun i member => ?_
    have inside := List.mem_range.mp member
    rw [Function.update_of_ne (by omega)]
  · simp only [ShmServer.started, List.map_append, List.map_cons, List.map_nil,
      inOrder.positions, List.range_succ]

theorem InOrder.removed {server : Server} (inOrder : InOrder server) {earlier : List Child}
    {child : Child} (split : server.children = earlier ++ [child]) :
    InOrder (removed server child) := by
  have member : child ∈ server.children := by simp [split]
  have pids := inOrder.pids
  rw [split] at pids
  have left : (ShmServer.removed server child).children = earlier := by
    simp only [ShmServer.removed, split]
    rw [filter_pid pids, List.append_nil]
  have count : server.userCount = earlier.length + 1 := by simp [inOrder.count, split]
  have entries := inOrder.entries
  have positions := inOrder.positions
  simp only [split, count, List.range_succ, List.map_append, List.map_cons, List.map_nil] at entries positions
  have last : child.idx = earlier.length := by simpa using (List.append_inj_right' positions rfl)
  refine ⟨inOrder.toCounted.removed member, ?_, ?_⟩
  · rw [left, ← List.append_inj_left' entries rfl]
    simp only [ShmServer.removed, count, Nat.add_sub_cancel, last]
    rw [Function.update_eq_self]
  · rw [left, List.append_inj_left' positions rfl]
    simp only [ShmServer.removed, count, Nat.add_sub_cancel]

theorem InOrder.step {server next : Server} {event : Event} (inOrder : InOrder server)
    (legal : Legal server event) (last : LastStarted server event)
    (taken : ShmServer.step server event = .ok next) : InOrder next := by
  rcases inOrder.toCounted.step_cases legal with
    ⟨other, made, _, spared⟩ | ⟨client, users, rfl, made, kept, _⟩ |
    ⟨client, pid, rfl, _, _, made, counted⟩ | ⟨child, member, rfl, made, _⟩
  · obtain rfl : other = next := Except.ok.inj (made.symm.trans taken)
    refine ⟨spared.counted inOrder.toCounted, ?_, ?_⟩
    · rw [spared.users, spared.userCount, spared.map Child.pid fun _ => rfl]
      exact inOrder.entries
    · rw [spared.userCount, spared.map Child.idx fun _ => rfl]
      exact inOrder.positions
  · obtain rfl : { server with users } = next := Except.ok.inj (made.symm.trans taken)
    refine ⟨⟨inOrder.count, inOrder.pids, inOrder.index⟩, ?_, inOrder.positions⟩
    rw [← inOrder.entries]
    refine List.map_congr_left fun i inside => ?_
    change (users i).pid = _
    rw [kept i (List.mem_range.mp inside)]
  · obtain rfl : ShmServer.started server client pid = next := Except.ok.inj (made.symm.trans taken)
    exact inOrder.started counted
  · obtain rfl : ShmServer.removed server child = next := Except.ok.inj (made.symm.trans taken)
    obtain ⟨newest, found, same⟩ := last
    obtain ⟨earlier, split⟩ := List.getLast?_eq_some_iff.mp found
    have newest' : newest ∈ server.children := by simp [split]
    obtain rfl := List.inj_on_of_nodup_map inOrder.pids newest' member same
    exact inOrder.removed split

theorem InOrder.stale {server : Server} (inOrder : InOrder server) {child : Child}
    (member : child ∈ server.children) (missed : ¬LastStarted server (.reap child.pid)) :
    ¬Listed (ShmServer.removed server child) := by
  intro listed
  have nonempty := List.length_pos_of_mem member
  obtain ⟨moved, found, pid, idx⟩ :=
    inOrder.entry (i := server.userCount - 1) (by rw [inOrder.count]; omega)
  have newest : moved ∈ server.children.getLast? := by
    rw [List.getLast?_eq_getElem?, ← inOrder.count]
    exact found
  have different : moved.pid ≠ child.pid := fun same => missed ⟨moved, newest, same⟩
  have among := List.mem_of_getElem? found
  have index := (inOrder.index moved among).2.2.2
  have inside : child.idx < server.userCount := by
    have position : child.idx ∈ server.children.map Child.idx := List.mem_map.mpr ⟨child, member, rfl⟩
    rw [inOrder.positions] at position
    exact List.mem_range.mp position
  have notLast : child.idx ≠ server.userCount - 1 := by
    intro same
    have positions : (server.children.map Child.idx).Nodup :=
      inOrder.positions ▸ List.nodup_range
    obtain rfl := List.inj_on_of_nodup_map positions member among (same.trans idx.symm)
    exact different rfl
  have wrong := listed.index child.idx (show child.idx < server.userCount - 1 by omega)
  simp only [ShmServer.removed, Function.update_self, ← pid, Function.update_of_ne different,
    index, idx] at wrong
  omega

theorem inOrder_init (users : Nat → ClientData) (shareMem : Nat → UInt8) :
    InOrder (Server.init users shareMem) :=
  ⟨counted_init users shareMem, rfl, rfl⟩

/-- The table is right in all states of a run exactly if children are reaped in the reverse
order of their start. -/
theorem always_listed_iff (users : Nat → ClientData) (shareMem : Nat → UInt8)
    (events : List Event) (legal : Along step Legal (.init users shareMem) events) :
    Always step Listed (.init users shareMem) events ↔
      Along step LastStarted (.init users shareMem) events := by
  refine always_iff_along (fun _ inOrder => inOrder.listed)
    (fun _ _ _ inOrder legal last taken => inOrder.step legal last taken)
    ?_ events (inOrder_init users shareMem) legal
  intro server event inOrder legal missed
  cases event with
  | reap pid =>
      obtain ⟨child, member, rfl, _⟩ := legal
      exact ⟨_, reap_spec inOrder.toCounted member, inOrder.stale member missed⟩
  | accept client => exact absurd trivial missed
  | receive pid data => exact absurd trivial missed
  | exit pid => exact absurd trivial missed
  | reaped => exact absurd trivial missed
  | terminated => exact absurd trivial missed
  | broadcast sockfd child => exact absurd trivial missed

def blank : Server := .init (fun _ => ⟨0, 0, 0, 0, (0, 0)⟩) fun _ => 0

def join (connfd pid : Nat) : Event := .accept ⟨0, 16, connfd, (connfd + 20, connfd + 21), some pid⟩

theorem always_listed_iff_two :
    Always step Listed blank [join 7 100, join 8 101, .exit 101, .reap 101, .reaped] ↔
      Along step LastStarted blank [join 7 100, join 8 101, .exit 101, .reap 101, .reaped] :=
  always_listed_iff _ _ _ (by decide)

/-- The first of two clients leaves: its place goes to the other one, whose process number
still leads to the old place. -/
theorem first_leaves_stale :
    ∃ final, Along step Legal blank [join 7 100, join 8 101, .exit 100, .reap 100] ∧
      run step blank [join 7 100, join 8 101, .exit 100, .reap 100] = .ok final ∧
      ¬Listed final := by
  refine ⟨_, by decide, rfl, fun listed => ?_⟩
  have wrong := listed.index 0 (by decide)
  revert wrong
  decide

end StudyRecord.ShmServer
