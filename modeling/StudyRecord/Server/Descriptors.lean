import Mathlib.Order.Interval.Finset.Nat
import StudyRecord.Server.Consistency

/-!
The descriptors of the process. `accept` returns the lowest one that is not in use,
and the server takes it as the index into the table of connections.
-/

namespace StudyRecord.Server

/-- The descriptors that are open from `init` on: the standard streams, `epoll_fd`,
`listen_fd` and the two ends of `sig_pipe`. -/
structure Standing where
  epollFd : Nat
  listenFd : Nat
  sigPipe : Nat × Nat
  distinct : [0, 1, 2, epollFd, listenFd, sigPipe.1, sigPipe.2].Nodup

def Standing.fds (standing : Standing) : Finset Nat :=
  {0, 1, 2, standing.epollFd, standing.listenFd, standing.sigPipe.1, standing.sigPipe.2}

/-- A step of the server, and the descriptors that do not belong to a client when it
is taken: the standing ones, the files that workers have open, the log and so on. -/
structure Event where
  others : Finset Nat
  step : WebServer.Step

/-- The kernel hands out the lowest descriptor that is not in use, however many there
are already. -/
structure LowestUnused (s : WebServer) (others : Finset Nat) (fd : Nat) : Prop where
  closed : ¬s.IsOpen fd
  unused : fd ∉ others
  least : ∀ lower < fd, s.IsOpen lower ∨ lower ∈ others

def Event.Legal (standing : Standing) (s : WebServer) (event : Event) : Prop :=
  standing.fds ⊆ event.others ∧ (∀ fd ∈ event.others, ¬s.IsOpen fd) ∧
    match event.step with
    | .accept (some clientfd) => LowestUnused s event.others clientfd
    | step => step.Legal s

def Event.Indexes (s : WebServer) (event : Event) (clientfd : Nat) : Prop :=
  event.step = .accept (some clientfd) ∧ s.userCount < maxFd

def Event.InTable (s : WebServer) (event : Event) : Prop :=
  ∀ clientfd, event.Indexes s clientfd → clientfd < maxFd

/-- The clients and the other descriptors below the size of the table leave one of
these to the new client. -/
def Event.LeavesRoom (s : WebServer) (event : Event) : Prop :=
  (∃ clientfd, event.Indexes s clientfd) →
    s.userCount + (event.others.filter (· < maxFd)).card < maxFd

def takeEvent (s : WebServer) (event : Event) : Except Fault WebServer := s.step event.step

abbrev AlongEvents (allowed : WebServer → Event → Prop) (s : WebServer) (events : List Event) :
    Prop :=
  Runs.Along takeEvent allowed s events

theorem lowest_lt_iff {used : Finset Nat} {lowest bound : Nat} (unused : lowest ∉ used)
    (least : ∀ lower < lowest, lower ∈ used) :
    lowest < bound ↔ (used.filter (· < bound)).card < bound := by
  have below : used.filter (· < bound) ⊆ Finset.range bound := by
    intro fd member
    exact Finset.mem_range.mpr (Finset.mem_filter.mp member).2
  constructor
  · intro inside
    have fewer : used.filter (· < bound) ⊂ Finset.range bound := by
      refine (Finset.ssubset_iff_of_subset below).mpr ⟨lowest, ?_, ?_⟩
      · exact Finset.mem_range.mpr inside
      · exact fun member => unused (Finset.mem_filter.mp member).1
    simpa using Finset.card_lt_card fewer
  · intro fewer
    by_contra outside
    -- everything below the bound is below the lowest unused one
    have full : Finset.range bound ⊆ used.filter (· < bound) := by
      intro fd member
      have inside := Finset.mem_range.mp member
      exact Finset.mem_filter.mpr ⟨least fd (by omega), inside⟩
    have count := Finset.card_le_card full
    rw [Finset.card_range] at count
    omega

namespace WebServer

theorem Registry.mem_openSlots {s : WebServer} (registry : s.Registry) (slot : Nat) :
    slot ∈ s.openSlots ↔ s.IsOpen slot := by
  simp only [openSlots, Finset.mem_filter, Finset.mem_range, and_iff_right_iff_imp]
  exact fun isOpen => (registry.known slot isOpen).1

theorem init_filled (users : Nat → Http.HttpConn) (setReactorMode : Bool) (slot : Nat) :
    (init users setReactorMode).IsOpen slot ↔ 7 ≤ slot ∧ slot < 7 :=
  iff_of_false (by simp [IsOpen, init]) (by omega)

theorem lowestUnused_lt_iff {s : WebServer} (registry : s.Registry) {others : Finset Nat}
    {clientfd : Nat} (apart : ∀ fd ∈ others, ¬s.IsOpen fd)
    (lowest : LowestUnused s others clientfd) :
    clientfd < maxFd ↔ s.userCount + (others.filter (· < maxFd)).card < maxFd := by
  have unused : clientfd ∉ s.openSlots ∪ others := by
    rw [Finset.mem_union, registry.mem_openSlots]
    exact not_or_intro lowest.closed lowest.unused
  have least : ∀ lower < clientfd, lower ∈ s.openSlots ∪ others := by
    intro lower below
    rw [Finset.mem_union, registry.mem_openSlots]
    exact lowest.least lower below
  have clients : s.openSlots.filter (· < maxFd) = s.openSlots := by
    refine Finset.filter_true_of_mem fun slot member => ?_
    exact (registry.known slot ((registry.mem_openSlots slot).mp member)).1
  have disjoint : Disjoint s.openSlots (others.filter (· < maxFd)) := by
    refine Finset.disjoint_left.mpr fun slot isOpen member => ?_
    exact apart slot (Finset.mem_filter.mp member).1 ((registry.mem_openSlots slot).mp isOpen)
  have count : ((s.openSlots ∪ others).filter (· < maxFd)).card =
      s.openSlots.card + (others.filter (· < maxFd)).card := by
    rw [Finset.filter_union, clients, Finset.card_union_of_disjoint disjoint]
  rw [lowest_lt_iff unused least, count, registry.count]
  omega

end WebServer

namespace Event

theorem inTable_iff {standing : Standing} {s : WebServer} {event : Event} (registry : s.Registry)
    (legal : event.Legal standing s) : event.InTable s ↔ event.LeavesRoom s := by
  obtain ⟨_, apart, fits⟩ := legal
  have index (clientfd : Nat) (indexes : event.Indexes s clientfd) :
      clientfd < maxFd ↔ s.userCount + (event.others.filter (· < maxFd)).card < maxFd := by
    rw [indexes.1] at fits
    exact WebServer.lowestUnused_lt_iff registry apart fits
  constructor
  · rintro inside ⟨clientfd, indexes⟩
    exact (index clientfd indexes).mp (inside clientfd indexes)
  · intro room clientfd indexes
    exact (index clientfd indexes).mpr (room ⟨clientfd, indexes⟩)

theorem step_registry {standing : Standing} {s next : WebServer} {event : Event}
    (registry : s.Registry) (legal : event.Legal standing s) (room : event.LeavesRoom s)
    (taken : takeEvent s event = .ok next) : next.Registry := by
  have inside := (inTable_iff registry legal).mpr room
  obtain ⟨_, _, fits⟩ := legal
  rcases event with ⟨others, step⟩
  cases step with
  | accept clientfd =>
      cases clientfd with
      | none => exact ((WebServer.step_moves registry (.accept none) trivial).2 next taken).1
      | some clientfd =>
          by_cases full : s.userCount ≥ maxFd
          · simp only [takeEvent, WebServer.step, WebServer.dealConnection, if_pos full] at taken
            exact Except.ok.inj taken ▸ registry
          · have bound : clientfd < maxFd := inside clientfd ⟨rfl, by omega⟩
            exact ((WebServer.step_moves registry (.accept (some clientfd))
              ⟨fits.closed, bound⟩).2 next taken).1
  | error sockfd => exact ((WebServer.step_moves registry _ fits).2 next taken).1
  | close sockfd => exact ((WebServer.step_moves registry _ fits).2 next taken).1
  | readable sockfd results => exact ((WebServer.step_moves registry _ fits).2 next taken).1
  | writable sockfd results => exact ((WebServer.step_moves registry _ fits).2 next taken).1
  | tick => exact ((WebServer.step_moves registry _ fits).2 next taken).1
  | work fs recvs writevs => exact ((WebServer.step_moves registry _ fits).2 next taken).1

end Event

def firstStanding : Standing := ⟨3, 4, (5, 6), by decide⟩

theorem mem_firstStanding (fd : Nat) : fd ∈ firstStanding.fds ↔ fd < 7 := by
  simp only [Standing.fds, firstStanding, Finset.mem_insert, Finset.mem_singleton]
  omega

theorem client_legal {s : WebServer} {first : Nat} (behind : 7 ≤ first)
    (filled : ∀ slot, s.IsOpen slot ↔ 7 ≤ slot ∧ slot < first) :
    Event.Legal firstStanding s ⟨firstStanding.fds, .accept (some first)⟩ := by
  refine ⟨Finset.Subset.refl _, ?_, ?_, ?_, ?_⟩
  · intro fd member
    rw [mem_firstStanding] at member
    rw [filled]
    omega
  · rw [filled]
    omega
  · rw [mem_firstStanding]
    omega
  · intro lower below
    rw [filled, mem_firstStanding]
    omega

/-- The guard bounds the number of the users and not the descriptor. -/
theorem inTable_iff_leavesRoom (users : Nat → Http.HttpConn) (setReactorMode : Bool)
    (standing : Standing) (events : List Event)
    (legal : AlongEvents (fun s event => event.Legal standing s)
      (.init users setReactorMode) events) :
    AlongEvents (fun s event => event.InTable s) (.init users setReactorMode) events ↔
      AlongEvents (fun s event => event.LeavesRoom s) (.init users setReactorMode) events := by
  have same (s : WebServer) (event : Event) (registry : s.Registry)
      (legal : event.Legal standing s) : event.InTable s ↔ event.LeavesRoom s :=
    Event.inTable_iff registry legal
  have preserved (s : WebServer) (event : Event) (next : WebServer) (registry : s.Registry)
      (legal : event.Legal standing s) (room : event.LeavesRoom s)
      (taken : takeEvent s event = .ok next) : next.Registry :=
    Event.step_registry registry legal room taken
  exact Runs.along_congr same preserved events (WebServer.init_registry users setReactorMode) legal

/-! Clients one after the other, up to the first one behind the table. -/

def clients : Nat → Nat → List Event
  | _, 0 => []
  | first, count + 1 =>
      ⟨firstStanding.fds, .accept (some first)⟩ :: clients (first + 1) count

/-- Seven descriptors are standing ones, so the first client behind the table comes while there
are seven users fewer than the table has places. -/
theorem clients_inTable_iff (count : Nat) {s : WebServer} {first : Nat} (registry : s.Registry)
    (behind : 7 ≤ first) (room : first ≤ maxFd) (total : first + count ≤ maxFd + 1)
    (filled : ∀ slot, s.IsOpen slot ↔ 7 ≤ slot ∧ slot < first) :
    AlongEvents (fun s event => event.Legal firstStanding s) s (clients first count) ∧
      (AlongEvents (fun s event => event.InTable s) s (clients first count) ↔
        first + count ≤ maxFd) := by
  induction count generalizing s first with
  | zero => exact ⟨trivial, iff_of_true trivial room⟩
  | succ count ih =>
      have legal := client_legal behind filled
      by_cases last : first = maxFd
      · have users : s.userCount = first - 7 := by
          have slots : s.openSlots = Finset.Ico 7 first := by
            ext slot
            rw [registry.mem_openSlots, filled, Finset.mem_Ico]
          rw [registry.count, slots, Nat.card_Ico]
          omega
        obtain rfl : count = 0 := by omega
        refine ⟨⟨legal, fun _ _ => trivial⟩, iff_of_false (fun inside => ?_) (by omega)⟩
        have bound := inside.1 first ⟨rfl, by omega⟩
        omega
      · have closed : ¬s.IsOpen first := by
          rw [filled]
          omega
        have bound : first < maxFd := by omega
        obtain ⟨next, taken, opens, valid, counted⟩ :=
          WebServer.dealConnection_opens registry closed bound
        have filled' (slot : Nat) : next.IsOpen slot ↔ 7 ≤ slot ∧ slot < first + 1 := by
          rw [opens.isOpen, filled]
          omega
        have later := ih (opens.registry registry closed bound valid counted) (by omega)
          (by omega) (by omega) filled'
        have accepted : takeEvent s ⟨firstStanding.fds, .accept (some first)⟩ = .ok next := taken
        refine ⟨(Runs.along_cons_of_ok accepted).mpr ⟨legal, later.1⟩, ?_⟩
        refine (Runs.along_cons_of_ok accepted).trans (Iff.trans ?_ (later.2.trans (by omega)))
        refine and_iff_right fun clientfd indexes => ?_
        obtain ⟨⟩ := indexes.1
        exact bound

theorem inTable_iff_leavesRoom_three :
    AlongEvents (fun s event => event.LeavesRoom s) (.init (fun _ => Http.HttpConn.zeroed) false)
      (clients 7 3) := by
  have filled := WebServer.init_filled (fun _ => Http.HttpConn.zeroed) false
  obtain ⟨legal, inside⟩ := clients_inTable_iff 3 (WebServer.init_registry _ false)
    (Nat.le_refl 7) (by decide) (by decide) filled
  exact (inTable_iff_leavesRoom (fun _ => Http.HttpConn.zeroed) false firstStanding (clients 7 3)
    legal).mp (inside.mpr (by decide))

theorem client_behind_table :
    AlongEvents (fun s event => event.Legal firstStanding s)
        (.init (fun _ => Http.HttpConn.zeroed) false) (clients 7 65530) ∧
      ¬AlongEvents (fun s event => event.InTable s)
        (.init (fun _ => Http.HttpConn.zeroed) false) (clients 7 65530) := by
  have filled := WebServer.init_filled (fun _ => Http.HttpConn.zeroed) false
  obtain ⟨legal, inside⟩ := clients_inTable_iff 65530 (WebServer.init_registry _ false)
    (Nat.le_refl 7) (by decide) (by decide) filled
  exact ⟨legal, fun all => absurd (inside.mp all) (by decide)⟩

end StudyRecord.Server
