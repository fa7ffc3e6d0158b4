import StudyRecord.Chat.Room
import Mathlib.Data.List.Infix

/-!
A client is sent each message in its place only where every relay comes before the author of the
message sends again.
-/

namespace StudyRecord.ShmServer.Room

open Runs

/-- The texts that a client was sent for an author, each with the number of its message. -/
def shown (deliveries : List Delivery) (author : Nat) : List (Option Nat × List UInt8) :=
  (deliveries.filter (·.author = author)).map fun delivery => (delivery.message, delivery.text)

def record (messages : List (List UInt8)) : List (Option Nat × List UInt8) :=
  messages.mapIdx fun position data => (some (position + 1), padded data)

/-- Every client was sent the messages of each other client in order, each once and as a whole. -/
def Faithful (room : Room) : Prop :=
  ∀ author reader, shown (room.sent reader) author <+: record (room.received author)

/-- A client takes all of what it is sent, and a child only sends a segment that is not cleared and
that holds the only message of its author which is on its way to the child, with none given up. -/
def Current (room : Room) : Event → Prop
  | .relay idx accepted =>
      ∀ client, room.phase idx = .relaying client →
        bufferSize ≤ accepted ∧ room.phase client ≠ .cleared ∧
          room.underway client idx = 1 ∧ room.dropped client idx = 0
  | .wait .. | .clear _ | .recv .. | .notify .. | .take _ | .gather _ | .collect | .forward _ => True

theorem length_shown (deliveries : List Delivery) (author : Nat) :
    (shown deliveries author).length = told deliveries author := by
  rw [shown, List.length_map, told, List.countP_eq_length_filter]

theorem shown_append (deliveries : List Delivery) (delivery : Delivery) (author : Nat) :
    shown (deliveries ++ [delivery]) author =
      if delivery.author = author then
        shown deliveries author ++ [(delivery.message, delivery.text)]
      else shown deliveries author := by
  by_cases same : delivery.author = author
  · simp [shown, same]
  · simp [shown, same]

theorem length_record (messages : List (List UInt8)) : (record messages).length = messages.length :=
  List.length_mapIdx

theorem record_append (messages : List (List UInt8)) (data : List UInt8) :
    record (messages ++ [data]) = record messages ++ [(some (messages.length + 1), padded data)] :=
  List.mapIdx_concat

theorem record_last {messages : List (List UInt8)} {data : List UInt8}
    (last : data ∈ messages.getLast?) :
    ∃ earlier, record messages = earlier ++ [(some messages.length, padded data)] := by
  obtain ⟨earlier, rfl⟩ := List.getLast?_eq_some_iff.mp last
  exact ⟨record earlier, by rw [record_append, List.length_append, List.length_singleton]⟩

theorem next_message {messages : List (List UInt8)} {done : List (Option Nat × List UInt8)}
    {message : Option Nat} {text : List UInt8}
    (whole : done ++ [(message, text)] <+: record messages) :
    message = some (done.length + 1) := by
  obtain ⟨later, whole⟩ := whole
  have here : (record messages)[done.length]? = some (message, text) := by
    rw [← whole, List.append_assoc, List.getElem?_append_right le_rfl, Nat.sub_self]
    rfl
  simp only [record, List.getElem?_mapIdx, Option.map_eq_some_iff, Prod.mk.injEq] at here
  obtain ⟨data, _, same, _⟩ := here
  exact same.symm

theorem init_faithful (userCount : Nat) (shareMem : Nat → UInt8) :
    (init userCount shareMem).Faithful := fun _ _ => List.nil_prefix

/-! What a step adds to what was received and sent. -/

section Steps

variable {room next : Room} {event : Event}

theorem step_history (taken : room.step event = .ok next) :
    next.userCount = room.userCount ∧
      ((next.received = room.received ∧ next.sent = room.sent) ∨
        (∃ idx data, event = .recv idx data) ∨ ∃ idx accepted, event = .relay idx accepted) := by
  cases event with
  | wait idx reports =>
      obtain ⟨_, _, _, _, _, rfl⟩ := wait_ok taken
      exact ⟨rfl, .inl ⟨rfl, rfl⟩⟩
  | clear idx =>
      obtain ⟨_, _, _, rfl⟩ := clear_ok taken
      exact ⟨rfl, .inl ⟨rfl, rfl⟩⟩
  | recv idx data =>
      obtain ⟨_, rfl⟩ := recv_ok taken
      exact ⟨rfl, .inr (.inl ⟨idx, data, rfl⟩)⟩
  | notify idx accepted =>
      obtain ⟨_, rfl⟩ := notify_ok taken
      exact ⟨rfl, .inl ⟨rfl, rfl⟩⟩
  | take idx =>
      obtain ⟨_, _, _, rfl⟩ := take_ok taken
      exact ⟨rfl, .inl ⟨rfl, rfl⟩⟩
  | relay idx accepted =>
      obtain ⟨_, _, rfl⟩ := relay_ok taken
      exact ⟨rfl, .inr (.inr ⟨idx, accepted, rfl⟩)⟩
  | gather reports =>
      obtain ⟨_, _, _, rfl⟩ := gather_ok taken
      exact ⟨rfl, .inl ⟨rfl, rfl⟩⟩
  | collect =>
      obtain ⟨_, _, _, _, rfl⟩ := collect_ok taken
      exact ⟨rfl, .inl ⟨rfl, rfl⟩⟩
  | forward accepted =>
      obtain ⟨_, _, rfl⟩ | ⟨_, _, _, _, rfl⟩ := forward_ok taken
      · exact ⟨rfl, .inl ⟨rfl, rfl⟩⟩
      · exact ⟨rfl, .inl ⟨rfl, rfl⟩⟩

theorem step_userCount (taken : room.step event = .ok next) : next.userCount = room.userCount :=
  (step_history taken).1

theorem step_cleared (taken : room.step event = .ok next) (author : Nat) :
    event = .clear author ∨ (∃ data, event = .recv author data) ∨
      (next.phase author = .cleared ↔ room.phase author = .cleared) := by
  cases event with
  | wait idx reports =>
      obtain ⟨_, _, _, _, _, rfl⟩ := wait_ok taken
      exact .inr (.inr Iff.rfl)
  | clear idx =>
      obtain ⟨_, _, _, rfl⟩ := clear_ok taken
      by_cases same : author = idx
      · exact .inl (by rw [same])
      · exact .inr (.inr (by simp [same]))
  | recv idx data =>
      obtain ⟨_, rfl⟩ := recv_ok taken
      by_cases same : author = idx
      · exact .inr (.inl ⟨data, by rw [same]⟩)
      · exact .inr (.inr (by simp [same]))
  | notify idx accepted =>
      obtain ⟨stored, rfl⟩ := notify_ok taken
      by_cases same : author = idx
      · exact .inr (.inr (by simp [same, stored]))
      · exact .inr (.inr (by simp [same]))
  | take idx =>
      obtain ⟨_, waiting, _, rfl⟩ := take_ok taken
      by_cases same : author = idx
      · exact .inr (.inr (by simp [same, waiting]))
      · exact .inr (.inr (by simp [same]))
  | relay idx accepted =>
      obtain ⟨_, relaying, rfl⟩ := relay_ok taken
      by_cases same : author = idx
      · exact .inr (.inr (by simp [same, relaying]))
      · exact .inr (.inr (by simp [same]))
  | gather reports =>
      obtain ⟨_, _, _, rfl⟩ := gather_ok taken
      exact .inr (.inr Iff.rfl)
  | collect =>
      obtain ⟨_, _, _, _, rfl⟩ := collect_ok taken
      exact .inr (.inr Iff.rfl)
  | forward accepted =>
      obtain ⟨_, _, rfl⟩ | ⟨_, _, _, _, rfl⟩ := forward_ok taken
      · exact .inr (.inr Iff.rfl)
      · exact .inr (.inr Iff.rfl)

end Steps

section Relay

variable {room next : Room} {idx client accepted : Nat}

theorem relay_shown (relaying : room.phase idx = .relaying client)
    (taken : room.step (.relay idx accepted) = .ok next) :
    shown (next.sent idx) client = shown (room.sent idx) client ++
      [(room.held client, (segment client room.shareMem).take accepted)] := by
  obtain ⟨other, phase, rfl⟩ := relay_ok taken
  obtain rfl : client = other := by simpa [relaying] using phase
  simp only [Function.update_self, shown_append, if_true]

theorem relay_counted (inv : room.Inv) (relaying : room.phase idx = .relaying client) :
    (room.received client).length = (shown (room.sent idx) client).length +
      room.underway client idx + room.dropped client idx := by
  have here := inv.relayed idx client relaying
  rw [length_shown]
  exact inv.account client idx here.second here.different

theorem relaying_underway (relaying : room.phase idx = .relaying client) :
    1 ≤ room.underway client idx := by
  rw [underway, if_pos relaying]
  omega

theorem relay_last (inv : room.Inv) (relaying : room.phase idx = .relaying client)
    (steady : room.phase client ≠ .cleared) :
    ∃ earlier, record (room.received client) =
      earlier ++ [(room.held client, segment client room.shareMem)] := by
  have counted := relay_counted inv relaying
  have least := relaying_underway relaying
  have some' : room.received client ≠ [] := by
    rw [← List.length_pos_iff]
    omega
  have last := List.getLast?_eq_some_getLast some'
  rw [inv.text client steady _ last, held, if_neg steady]
  exact record_last last

theorem length_segment (idx : Nat) (shareMem : Nat → UInt8) :
    (segment idx shareMem).length = bufferSize := by
  rw [segment, List.length_map, List.length_range]

theorem relay_current (inv : room.Inv) (faithful : room.Faithful)
    (relaying : room.phase idx = .relaying client) (all : bufferSize ≤ accepted)
    (steady : room.phase client ≠ .cleared) (only : room.underway client idx = 1)
    (kept : room.dropped client idx = 0) (taken : room.step (.relay idx accepted) = .ok next) :
    shown (next.sent idx) client <+: record (room.received client) := by
  obtain ⟨earlier, split⟩ := relay_last inv relaying steady
  have same : shown (room.sent idx) client = earlier := by
    have counted := relay_counted inv relaying
    have long : earlier.length = (shown (room.sent idx) client).length := by
      have total := congrArg List.length split
      rw [length_record, List.length_append, List.length_singleton] at total
      omega
    have before := faithful client idx
    rw [split] at before
    have short := List.prefix_of_prefix_length_le before (List.prefix_append earlier _) long.ge
    exact short.eq_of_length long.symm
  have fits : (segment client room.shareMem).length ≤ accepted := by
    rw [length_segment]
    exact all
  rw [relay_shown relaying taken, split, same, List.take_of_length_le fits]

theorem relay_broken (inv : room.Inv) (relaying : room.phase idx = .relaying client)
    (taken : room.step (.relay idx accepted) = .ok next)
    (kept : shown (next.sent idx) client <+: record (room.received client)) :
    bufferSize ≤ accepted ∧ room.phase client ≠ .cleared ∧ room.underway client idx = 1 ∧
      room.dropped client idx = 0 := by
  rw [relay_shown relaying taken] at kept
  have number := next_message kept
  have counted := relay_counted inv relaying
  have least := relaying_underway relaying
  by_cases cleared : room.phase client = .cleared
  · rw [held, if_pos cleared] at number
    contradiction
  · rw [held, if_neg cleared, Option.some.injEq] at number
    refine ⟨?_, cleared, by omega, by omega⟩
    -- the last text is the last message, so it is as long as a segment
    have same := kept.eq_of_length (by
      rw [List.length_append, List.length_singleton, length_record]
      exact number.symm)
    obtain ⟨earlier, split⟩ := relay_last inv relaying cleared
    rw [split] at same
    have text := (List.append_inj' same (by simp only [List.length_singleton])).2
    simp only [List.cons.injEq, Prod.mk.injEq, and_true, true_and] at text
    have length := congrArg List.length text
    rw [List.length_take, length_segment] at length
    omega

end Relay

section Runs

variable {room next : Room} {event : Event}

theorem step_faithful (inv : room.Inv) (faithful : room.Faithful) (current : room.Current event)
    (taken : room.step event = .ok next) : next.Faithful := by
  obtain ⟨_, ⟨received, sent⟩ | ⟨idx, data, rfl⟩ | ⟨idx, accepted, rfl⟩⟩ := step_history taken
  · rw [Faithful, received, sent]
    exact faithful
  · obtain ⟨_, rfl⟩ := recv_ok taken
    intro author reader
    by_cases same : author = idx
    · subst same
      simp only [Function.update_self, record_append]
      exact List.prefix_append_of_prefix (faithful author reader)
    · simpa only [Function.update_of_ne same] using faithful author reader
  · obtain ⟨client, relaying, outcome⟩ := relay_ok taken
    obtain ⟨all, steady, only, kept⟩ := current client relaying
    have extended := relay_current inv faithful relaying all steady only kept taken
    subst outcome
    intro author reader
    by_cases same : author = client ∧ reader = idx
    · obtain ⟨rfl, rfl⟩ := same
      exact extended
    · have before := faithful author reader
      by_cases place : reader = idx
      · subst place
        have other : client ≠ author := fun equal => same ⟨equal.symm, rfl⟩
        simpa only [Function.update_self, shown_append, if_neg other] using before
      · simpa only [Function.update_of_ne place] using before

theorem step_broken (inv : room.Inv) (stale : ¬room.Current event) :
    ∃ next, room.step event = .ok next ∧ ¬next.Faithful := by
  cases event with
  | relay idx accepted =>
      simp only [Current, not_forall] at stale
      obtain ⟨client, relaying, stale⟩ := stale
      have taken : ∃ next, room.step (.relay idx accepted) = .ok next := by
        simp only [step, relaying]
        exact ⟨_, rfl⟩
      obtain ⟨next, taken⟩ := taken
      refine ⟨next, taken, fun faithful => stale (relay_broken inv relaying taken ?_)⟩
      obtain ⟨_, _, rfl⟩ := relay_ok taken
      exact faithful client idx
  | wait idx reports => exact absurd trivial stale
  | clear idx => exact absurd trivial stale
  | recv idx data => exact absurd trivial stale
  | notify idx accepted => exact absurd trivial stale
  | take idx => exact absurd trivial stale
  | gather reports => exact absurd trivial stale
  | collect => exact absurd trivial stale
  | forward accepted => exact absurd trivial stale

end Runs

/-- A room in which each client is always sent the messages of the others in order, each once and
as a whole, is one in which every relay comes before its author has sent again. -/
theorem faithful_iff_current (userCount : Nat) (shareMem : Nat → UInt8) (events : List Event) :
    Always step Faithful (init userCount shareMem) events ↔
      Along step Current (init userCount shareMem) events := by
  have holds (room : Room) (kept : room.Inv ∧ room.Faithful) : room.Faithful := kept.2
  have all : Along step (fun _ _ => True) (init userCount shareMem) events :=
    along_of_forall events _ fun _ _ _ => trivial
  refine always_iff_along holds ?_ ?_ events
    ⟨init_inv userCount shareMem, init_faithful userCount shareMem⟩ all
  · intro room event next kept _ current taken
    exact ⟨step_inv kept.1 taken, step_faithful kept.1 kept.2 current taken⟩
  · intro room event kept _ stale
    exact step_broken kept.1 stale

end StudyRecord.ShmServer.Room
