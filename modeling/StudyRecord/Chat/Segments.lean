import StudyRecord.Chat.ChildTable

/-!
The segments of the shared memory. A child keeps the index it was started with, so two
children share a segment exactly if they were started among equally many others.
-/

namespace StudyRecord.ShmServer

open Runs

def Child.Writes (child : Child) (address : Nat) : Prop :=
  ∃ data shareMem, receive child.idx data shareMem address ≠ shareMem address

theorem Child.writes_iff (child : Child) (address : Nat) :
    child.Writes address ↔
      child.idx * bufferSize ≤ address ∧ address < child.idx * bufferSize + bufferSize := by
  constructor
  · rintro ⟨data, shareMem, changed⟩
    refine Classical.byContradiction fun outside => changed ?_
    have short : (data.take (bufferSize - 1)).length ≤ bufferSize - 1 := List.length_take_le ..
    have notData : ¬(child.idx * bufferSize ≤ address ∧
        address < child.idx * bufferSize + (data.take (bufferSize - 1)).length) := by
      omega
    simp only [receive, if_neg notData, if_neg outside]
  · intro inside
    refine ⟨[], fun _ => 1, ?_⟩
    have notData : ¬(child.idx * bufferSize ≤ address ∧
        address < child.idx * bufferSize + ([] : List UInt8).length) := by
      simp only [List.length_nil]
      omega
    simp only [receive, List.take_nil, if_neg notData, if_pos inside]
    decide

/-- Living children were started with different indices and write to different bytes, all
of them in the shared memory. -/
structure Exclusive (server : Server) : Prop where
  apart : ∀ one ∈ server.children, ∀ two ∈ server.children, one.alive = true →
    two.alive = true → one.pid ≠ two.pid →
      one.idx ≠ two.idx ∧ ∀ address, one.Writes address → ¬two.Writes address
  inside : ∀ child ∈ server.children, ∀ address, child.Writes address →
    address < userLimit * bufferSize

/-- A client for which a child is started finds a number of children that no living child
found when it was started. -/
def Unmatched (server : Server) : Event → Prop
  | .accept client => client.fork ≠ none → server.children.length < userLimit →
      ∀ child ∈ server.children, child.alive = true → child.others ≠ server.children.length
  | _ => True

instance decidableUnmatched (server : Server) : ∀ event, Decidable (Unmatched server event)
  | .accept client =>
      inferInstanceAs (Decidable (client.fork ≠ none → server.children.length < userLimit →
        ∀ child ∈ server.children, child.alive = true →
          child.others ≠ server.children.length))
  | .receive _ _ | .exit _ | .reap _ | .reaped | .terminated | .broadcast _ _ => .isTrue trivial

theorem Child.disjoint {one two : Child} (different : one.idx ≠ two.idx) (address : Nat)
    (writes : one.Writes address) : ¬two.Writes address := by
  rw [Child.writes_iff] at writes ⊢
  unfold bufferSize at writes ⊢
  omega

theorem Counted.inside {server : Server} (counted : Counted server) :
    ∀ child ∈ server.children, ∀ address, child.Writes address →
      address < userLimit * bufferSize := by
  intro child member address writes
  have small := (counted.index child member).2.1
  rw [Child.writes_iff] at writes
  unfold userLimit at *
  unfold bufferSize at *
  omega

theorem Exclusive.shrink {server next : Server} (exclusive : Exclusive server)
    (counted : Counted next)
    (living : ∀ child ∈ next.children, child.alive = true → child ∈ server.children) :
    Exclusive next := by
  refine ⟨?_, counted.inside⟩
  intro one first two second aliveOne aliveTwo
  exact exclusive.apart one (living one first aliveOne) two (living two second aliveTwo)
    aliveOne aliveTwo

theorem Exclusive.started {server : Server} (exclusive : Exclusive server)
    (counted : Counted server) {client : Accepted} {pid : Nat}
    (counted' : Counted (started server client pid))
    (unmatched : ∀ child ∈ server.children, child.alive = true →
      child.others ≠ server.children.length) : Exclusive (started server client pid) := by
  have new (child : Child) (member : child ∈ server.children) (alive : child.alive = true) :
      child.idx ≠ server.userCount := by
    rw [(counted.index child member).2.2.1, counted.count]
    exact unmatched child member alive
  refine ⟨?_, counted'.inside⟩
  intro one first two second aliveOne aliveTwo different
  simp only [ShmServer.started, List.mem_append, List.mem_singleton] at first second
  have indices : one.idx ≠ two.idx := by
    rcases first with first | rfl
    · rcases second with second | rfl
      · exact (exclusive.apart one first two second aliveOne aliveTwo different).1
      · exact new one first aliveOne
    · rcases second with second | rfl
      · exact (new two second aliveTwo).symm
      · exact absurd rfl different
  exact ⟨indices, Child.disjoint indices⟩

structure Separate (server : Server) : Prop extends Counted server, Exclusive server

theorem Separate.step {server next : Server} {event : Event} (separate : Separate server)
    (legal : Legal server event) (unmatched : Unmatched server event)
    (taken : ShmServer.step server event = .ok next) : Separate next := by
  have counted := separate.toCounted
  have exclusive := separate.toExclusive
  rcases counted.step_cases legal with
    ⟨other, made, _, spared⟩ | ⟨client, users, rfl, made, _, _⟩ |
    ⟨client, pid, rfl, forked, room, made, counted'⟩ | ⟨child, member, rfl, made, counted'⟩
  · obtain rfl : other = next := Except.ok.inj (made.symm.trans taken)
    have counted' := spared.counted counted
    exact ⟨counted', exclusive.shrink counted' spared.living⟩
  · obtain rfl : { server with users } = next := Except.ok.inj (made.symm.trans taken)
    have counted' : Counted { server with users } := ⟨counted.count, counted.pids, counted.index⟩
    exact ⟨counted', exclusive.shrink counted' fun _ member _ => member⟩
  · obtain rfl : ShmServer.started server client pid = next := Except.ok.inj (made.symm.trans taken)
    have fresh := unmatched (by simp [forked]) (counted.count ▸ room)
    exact ⟨counted', exclusive.started counted counted' fresh⟩
  · obtain rfl : removed server child = next := Except.ok.inj (made.symm.trans taken)
    exact ⟨counted', exclusive.shrink counted' fun _ among _ => (List.mem_filter.mp among).1⟩

theorem separate_init (users : Nat → ClientData) (shareMem : Nat → UInt8) :
    Separate (.init users shareMem) :=
  ⟨counted_init users shareMem, by simp [Server.init], by simp [Server.init]⟩

/-- No living children share a segment in any state of a run exactly if each client arrives
at another number of children than the living ones did. -/
theorem always_exclusive_iff (users : Nat → ClientData) (shareMem : Nat → UInt8)
    (events : List Event) (legal : Along step Legal (.init users shareMem) events) :
    Always step Exclusive (.init users shareMem) events ↔
      Along step Unmatched (.init users shareMem) events := by
  refine always_iff_along (fun _ separate => separate.toExclusive)
    (fun _ _ _ separate legal unmatched taken => separate.step legal unmatched taken)
    ?_ events (separate_init users shareMem) legal
  intro server event separate legal matched
  cases event with
  | accept client =>
      simp only [Unmatched, not_forall, not_not] at matched
      obtain ⟨forks, room, child, member, alive, same⟩ := matched
      rcases accept_cases legal with ⟨_, _, _, rejected⟩ | ⟨pid, _, _, _, fresh, made⟩
      · rw [separate.count] at rejected
        rcases rejected with none' | full
        · exact absurd none' forks
        · omega
      · refine ⟨_, made, fun exclusive => ?_⟩
        have newest : (⟨pid, server.userCount, true, server.children.length⟩ : Child) ∈
            (started server client pid).children := by
          simp [started]
        have older : child ∈ (started server client pid).children := by
          simp [started, member]
        have different := (exclusive.apart child older _ newest alive rfl (fresh child member)).1
        apply different
        rw [(separate.index child member).2.2.1, same, separate.count]
  | reap pid => exact absurd trivial matched
  | receive pid data => exact absurd trivial matched
  | exit pid => exact absurd trivial matched
  | reaped => exact absurd trivial matched
  | terminated => exact absurd trivial matched
  | broadcast sockfd child => exact absurd trivial matched

theorem always_exclusive_iff_turnover :
    Always step Exclusive blank
      [join 7 100, join 8 101, .receive 100 [104, 105], .broadcast 7 0, .exit 101, .reap 101,
        .reaped, join 9 102, .receive 102 [106]] := by
  refine (always_exclusive_iff _ _ _ ?_).mpr ?_
  · decide
  · decide

/-- The first of two clients leaves and another one arrives, whose child gets the index of
the second. -/
theorem third_shares_segment :
    ∃ final, Along step Legal blank
        [join 7 100, join 8 101, .exit 100, .reap 100, .reaped, join 9 102] ∧
      run step blank [join 7 100, join 8 101, .exit 100, .reap 100, .reaped, join 9 102] =
        .ok final ∧ ¬Exclusive final := by
  refine ⟨_, by decide, rfl, fun exclusive => ?_⟩
  exact (exclusive.apart ⟨101, 1, true, 1⟩ (by decide) ⟨102, 1, true, 1⟩ (by decide) rfl rfl
    (by decide)).1 rfl

end StudyRecord.ShmServer
