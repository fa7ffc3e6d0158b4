import StudyRecord.Chat.ShmServer
import StudyRecord.Library.Readiness
import Mathlib.Data.List.Count
import Mathlib.Data.List.GetD
import Mathlib.Data.List.Perm.Basic

/-!
Messages of `chatRoomServerShm.cpp` while its clients stay. A child leaves what its client sends
in its segment of the shared memory and only tells the parent its index; the parent tells the
other children, and each of them sends its client what the segment holds by then. The pipes are
watched edge-triggered, and one index is received for each report.
-/

namespace StudyRecord.ShmServer

open Readiness Runs

/-! The segments. -/

def clear (idx : Nat) (shareMem : Nat → UInt8) : Nat → UInt8 := fun address =>
  if idx * bufferSize ≤ address ∧ address < idx * bufferSize + bufferSize then 0
  else shareMem address

def store (idx : Nat) (data : List UInt8) (shareMem : Nat → UInt8) : Nat → UInt8 := fun address =>
  if idx * bufferSize ≤ address ∧ address < idx * bufferSize + data.length then
    data.getD (address - idx * bufferSize) 0
  else shareMem address

theorem receive_eq (idx : Nat) (data : List UInt8) (shareMem : Nat → UInt8) :
    receive idx data shareMem = store idx (data.take (bufferSize - 1)) (clear idx shareMem) := rfl

def segment (idx : Nat) (shareMem : Nat → UInt8) : List UInt8 :=
  (List.range bufferSize).map fun offset => shareMem (idx * bufferSize + offset)

/-- A message as it is sent on, with zeros up to the end of its segment. -/
def padded (data : List UInt8) : List UInt8 := data ++ List.replicate (bufferSize - data.length) 0

theorem segment_congr {idx : Nat} {first second : Nat → UInt8}
    (same : ∀ offset < bufferSize,
      first (idx * bufferSize + offset) = second (idx * bufferSize + offset)) :
    segment idx first = segment idx second :=
  List.map_congr_left fun offset member => same offset (List.mem_range.mp member)

theorem apart {idx other offset : Nat} (different : other ≠ idx) (inside : offset < bufferSize) :
    ¬(idx * bufferSize ≤ other * bufferSize + offset ∧
      other * bufferSize + offset < idx * bufferSize + bufferSize) := by
  simp only [bufferSize] at *
  omega

theorem segment_clear_other {idx other : Nat} (different : other ≠ idx) (shareMem : Nat → UInt8) :
    segment other (clear idx shareMem) = segment other shareMem :=
  segment_congr fun _ inside => if_neg (apart different inside)

theorem segment_store_other {idx other : Nat} (different : other ≠ idx) {data : List UInt8}
    (fits : data.length ≤ bufferSize) (shareMem : Nat → UInt8) :
    segment other (store idx data shareMem) = segment other shareMem := by
  refine segment_congr fun offset inside => if_neg fun here => apart different inside ?_
  exact ⟨here.1, by omega⟩

theorem segment_clear (idx : Nat) (shareMem : Nat → UInt8) :
    segment idx (clear idx shareMem) = padded [] := by
  have zeros : segment idx (clear idx shareMem) = (List.range bufferSize).map fun _ => 0 := by
    refine List.map_congr_left fun offset member => if_pos ?_
    have inside := List.mem_range.mp member
    omega
  rw [zeros, padded, List.nil_append, List.length_nil, Nat.sub_zero, List.map_const',
    List.length_range]

theorem segment_store {idx : Nat} {data : List UInt8} (fits : data.length ≤ bufferSize)
    {shareMem : Nat → UInt8} (blank : segment idx shareMem = padded []) :
    segment idx (store idx data shareMem) = padded data := by
  refine List.ext_getElem ?_ fun offset inside inside' => ?_
  · rw [segment, padded, List.length_map, List.length_range, List.length_append,
      List.length_replicate]
    omega
  · rw [segment, List.length_map, List.length_range] at inside
    have zero : shareMem (idx * bufferSize + offset) = 0 := by
      have here := congrArg (fun bytes => bytes[offset]?) blank
      simp only [segment, padded, List.nil_append, List.length_nil, Nat.sub_zero,
        List.getElem?_map, List.getElem?_range inside, List.getElem?_replicate, inside, if_true,
        Option.map_some, Option.some.injEq] at here
      exact here
    simp only [segment, padded, List.getElem_map, List.getElem_range, store,
      Nat.le_add_right, true_and, Nat.add_lt_add_iff_left, Nat.add_sub_cancel_left]
    by_cases written : offset < data.length
    · rw [if_pos written, List.getElem_append_left written, List.getD_eq_getElem _ _ written]
    · rw [if_neg written, zero, List.getElem_append_right (by omega), List.getElem_replicate]

/-! The parent and the children. -/

inductive Phase
  | waiting
  | cleared
  | stored
  | relaying (client : Nat)
  deriving DecidableEq

inductive Report
  | connfd
  | pipefd
  deriving DecidableEq

/-- What a client was sent for an index. `message` is the number of the message that the segment
held, and nothing if it was cleared. -/
structure Delivery where
  author : Nat
  text : List UInt8
  message : Option Nat
  deriving DecidableEq

/-- `events` are the reports that a child has not begun with, `reported` the pipes that the
parent has not, and `parent` is the index that the parent has received with the children that it
still has to tell. `received`, `sent` and `dropped` are read by no function. -/
structure Room where
  userCount : Nat
  shareMem : Nat → UInt8
  phase : Nat → Phase
  events : Nat → List Report
  up : Nat → Watch Nat
  down : Nat → Watch Nat
  reported : List Nat
  parent : Option (Nat × List Nat)
  received : Nat → List (List UInt8)
  sent : Nat → List Delivery
  dropped : Nat → Nat → Nat

namespace Room

inductive Disabled
  | disabled
  deriving DecidableEq

def init (userCount : Nat) (shareMem : Nat → UInt8) : Room where
  userCount := userCount
  shareMem := shareMem
  phase := fun _ => .waiting
  events := fun _ => []
  up := fun _ => .empty
  down := fun _ => .empty
  reported := []
  parent := none
  received := fun _ => []
  sent := fun _ => []
  dropped := fun _ _ => 0

/-- `wait` and `gather` are `epoll_wait` in a child and in the parent. A child does `clear`, `recv`
and `notify` for its client, and `take` and `relay` for its pipe. The parent receives an index with
`collect` and then tells one child after the other. What comes with `notify`, `relay` and `forward`
is the result of `send`. -/
inductive Event
  | wait (idx : Nat) (reports : List Report)
  | clear (idx : Nat)
  | recv (idx : Nat) (data : List UInt8)
  | notify (idx : Nat) (accepted : Bool)
  | take (idx : Nat)
  | relay (idx : Nat) (accepted : Nat)
  | gather (reports : List Nat)
  | collect
  | forward (accepted : Bool)

def held (room : Room) (idx : Nat) : Option Nat :=
  if room.phase idx = .cleared then none else some (room.received idx).length

def raised (room : Room) : List Nat :=
  (List.range room.userCount).filter fun idx => (room.up idx).edge

def step (room : Room) : Event → Except Disabled Room
  | .wait idx reports =>
      if idx < room.userCount ∧ room.phase idx = .waiting ∧ room.events idx = [] ∧
          reports.Nodup ∧ (.pipefd ∈ reports ↔ (room.down idx).edge = true) then
        .ok { room with
          events := Function.update room.events idx reports
          down := Function.update room.down idx
            (if .pipefd ∈ reports then (room.down idx).report else room.down idx) }
      else .error .disabled
  | .clear idx =>
      match room.phase idx, room.events idx with
      | .waiting, .connfd :: rest =>
          .ok { room with
            events := Function.update room.events idx rest
            shareMem := clear idx room.shareMem
            phase := Function.update room.phase idx .cleared }
      | _, _ => .error .disabled
  -- where `recv` fails with `EAGAIN` nothing is stored, and the parent is told all the same
  | .recv idx data =>
      if room.phase idx = .cleared then
        .ok { room with
          shareMem := store idx (data.take (bufferSize - 1)) room.shareMem
          received := Function.update room.received idx
            (room.received idx ++ [data.take (bufferSize - 1)])
          phase := Function.update room.phase idx .stored }
      else .error .disabled
  | .notify idx accepted =>
      if room.phase idx = .stored then
        .ok { room with
          up := if accepted then
              Function.update room.up idx ((room.up idx).arrive [idx]) else room.up
          dropped := if accepted then room.dropped else
              Function.update room.dropped idx fun reader => room.dropped idx reader + 1
          phase := Function.update room.phase idx .waiting }
      else .error .disabled
  -- `client` stays 0 where the pipe is empty
  | .take idx =>
      match room.phase idx, room.events idx with
      | .waiting, .pipefd :: rest =>
          .ok { room with
            events := Function.update room.events idx rest
            down := Function.update room.down idx ((room.down idx).take 1).release
            phase := Function.update room.phase idx
              (.relaying ((room.down idx).queue.headD 0)) }
      | _, _ => .error .disabled
  | .relay idx accepted =>
      match room.phase idx with
      | .relaying client =>
          .ok { room with
            sent := Function.update room.sent idx (room.sent idx ++
              [⟨client, (segment client room.shareMem).take accepted, room.held client⟩])
            phase := Function.update room.phase idx .waiting }
      | _ => .error .disabled
  | .gather reports =>
      if room.parent = none ∧ room.reported = [] ∧ reports.Perm room.raised then
        .ok { room with
          reported := reports
          up := fun idx => if idx ∈ reports then (room.up idx).report else room.up idx }
      else .error .disabled
  | .collect =>
      match room.parent, room.reported with
      | none, idx :: rest =>
          .ok { room with
            reported := rest
            up := Function.update room.up idx ((room.up idx).take 1).release
            parent := (room.up idx).queue.head?.map fun child =>
              (child, (List.range room.userCount).filter (· ≠ idx)) }
      | _, _ => .error .disabled
  | .forward accepted =>
      match room.parent with
      | none => .error .disabled
      | some (_, []) => .ok { room with parent := none }
      | some (child, idx :: rest) =>
          .ok { room with
            down := if accepted then
                Function.update room.down idx ((room.down idx).arrive [child]) else room.down
            dropped := if accepted then room.dropped else
                Function.update room.dropped child
                  (Function.update (room.dropped child) idx (room.dropped child idx + 1))
            parent := some (child, rest) }

section Outcomes

variable {room next : Room} {idx : Nat}

theorem wait_ok {reports : List Report} (taken : room.step (.wait idx reports) = .ok next) :
    idx < room.userCount ∧ room.phase idx = .waiting ∧ room.events idx = [] ∧ reports.Nodup ∧
      (.pipefd ∈ reports ↔ (room.down idx).edge = true) ∧
      next = { room with
        events := Function.update room.events idx reports
        down := Function.update room.down idx
          (if .pipefd ∈ reports then (room.down idx).report else room.down idx) } := by
  rw [step] at taken
  split at taken
  · next guard =>
      obtain ⟨inside, waiting, free, order, raised⟩ := guard
      exact ⟨inside, waiting, free, order, raised, (Except.ok.inj taken).symm⟩
  · contradiction

theorem clear_ok (taken : room.step (.clear idx) = .ok next) :
    ∃ rest, room.phase idx = .waiting ∧ room.events idx = .connfd :: rest ∧
      next = { room with
        events := Function.update room.events idx rest
        shareMem := ShmServer.clear idx room.shareMem
        phase := Function.update room.phase idx .cleared } := by
  rw [step] at taken
  split at taken
  · next rest waiting reports => exact ⟨rest, waiting, reports, (Except.ok.inj taken).symm⟩
  · contradiction

theorem recv_ok {data : List UInt8} (taken : room.step (.recv idx data) = .ok next) :
    room.phase idx = .cleared ∧
      next = { room with
        shareMem := store idx (data.take (bufferSize - 1)) room.shareMem
        received := Function.update room.received idx
          (room.received idx ++ [data.take (bufferSize - 1)])
        phase := Function.update room.phase idx .stored } := by
  rw [step] at taken
  split at taken
  · next cleared => exact ⟨cleared, (Except.ok.inj taken).symm⟩
  · contradiction

theorem notify_ok {accepted : Bool} (taken : room.step (.notify idx accepted) = .ok next) :
    room.phase idx = .stored ∧
      next = { room with
        up := if accepted then
            Function.update room.up idx ((room.up idx).arrive [idx]) else room.up
        dropped := if accepted then room.dropped else
            Function.update room.dropped idx fun reader => room.dropped idx reader + 1
        phase := Function.update room.phase idx .waiting } := by
  rw [step] at taken
  split at taken
  · next stored => exact ⟨stored, (Except.ok.inj taken).symm⟩
  · contradiction

theorem take_ok (taken : room.step (.take idx) = .ok next) :
    ∃ rest, room.phase idx = .waiting ∧ room.events idx = .pipefd :: rest ∧
      next = { room with
        events := Function.update room.events idx rest
        down := Function.update room.down idx ((room.down idx).take 1).release
        phase := Function.update room.phase idx
          (.relaying ((room.down idx).queue.headD 0)) } := by
  rw [step] at taken
  split at taken
  · next rest waiting reports => exact ⟨rest, waiting, reports, (Except.ok.inj taken).symm⟩
  · contradiction

theorem relay_ok {accepted : Nat} (taken : room.step (.relay idx accepted) = .ok next) :
    ∃ client, room.phase idx = .relaying client ∧
      next = { room with
        sent := Function.update room.sent idx (room.sent idx ++
          [⟨client, (segment client room.shareMem).take accepted, room.held client⟩])
        phase := Function.update room.phase idx .waiting } := by
  rw [step] at taken
  split at taken
  · next client relaying => exact ⟨client, relaying, (Except.ok.inj taken).symm⟩
  · contradiction

theorem gather_ok {reports : List Nat} (taken : room.step (.gather reports) = .ok next) :
    room.parent = none ∧ room.reported = [] ∧ reports.Perm room.raised ∧
      next = { room with
        reported := reports
        up := fun idx => if idx ∈ reports then (room.up idx).report else room.up idx } := by
  rw [step] at taken
  split at taken
  · next guard =>
      exact ⟨guard.1, guard.2.1, guard.2.2, (Except.ok.inj taken).symm⟩
  · contradiction

theorem collect_ok (taken : room.step .collect = .ok next) :
    ∃ idx rest, room.parent = none ∧ room.reported = idx :: rest ∧
      next = { room with
        reported := rest
        up := Function.update room.up idx ((room.up idx).take 1).release
        parent := (room.up idx).queue.head?.map fun child =>
          (child, (List.range room.userCount).filter (· ≠ idx)) } := by
  rw [step] at taken
  split at taken
  · next idx rest idle reports => exact ⟨idx, rest, idle, reports, (Except.ok.inj taken).symm⟩
  · contradiction

theorem forward_ok {accepted : Bool} (taken : room.step (.forward accepted) = .ok next) :
    (∃ child, room.parent = some (child, []) ∧ next = { room with parent := none }) ∨
    ∃ child idx rest, room.parent = some (child, idx :: rest) ∧
      next = { room with
        down := if accepted then
            Function.update room.down idx ((room.down idx).arrive [child]) else room.down
        dropped := if accepted then room.dropped else
            Function.update room.dropped child
              (Function.update (room.dropped child) idx (room.dropped child idx + 1))
        parent := some (child, rest) } := by
  rw [step] at taken
  split at taken
  · contradiction
  · next child told => exact .inl ⟨child, told, (Except.ok.inj taken).symm⟩
  · next child idx rest told => exact .inr ⟨child, idx, rest, told, (Except.ok.inj taken).symm⟩

end Outcomes

/-! Reports of the pipes. -/

inductive Pipe
  | up (idx : Nat)
  | down (idx : Nat)
  deriving DecidableEq

def watch (room : Room) : Pipe → Watch Nat
  | .up idx => room.up idx
  | .down idx => room.down idx

def Busy (room : Room) : Pipe → Prop
  | .up idx => idx ∈ room.reported
  | .down idx => .pipefd ∈ room.events idx

def target (room : Room) : Event → Option Pipe
  | .notify idx accepted => if accepted then some (.up idx) else none
  | .forward accepted =>
      match room.parent with
      | some (_, idx :: _) => if accepted then some (.down idx) else none
      | some (_, []) | none => none
  | .wait .. | .clear _ | .recv .. | .take _ | .relay .. | .gather _ | .collect => none

/-- An index comes to a pipe for which a report is to come already. -/
def Late (pipe : Pipe) (room : Room) (event : Event) : Prop :=
  room.target event = some pipe ∧ (room.watch pipe).edge = true

instance decidableLate (pipe : Pipe) (room : Room) (event : Event) :
    Decidable (Late pipe room event) :=
  inferInstanceAs (Decidable (_ ∧ _))

structure Ordered (room : Room) : Prop where
  child : ∀ idx, (room.events idx).Nodup
  parent : room.reported.Nodup

theorem init_ordered (userCount : Nat) (shareMem : Nat → UInt8) :
    (init userCount shareMem).Ordered :=
  ⟨fun _ => List.nodup_nil, List.nodup_nil⟩

section Reports

variable {room next : Room} {event : Event}

theorem Ordered.tail (ordered : room.Ordered) {idx : Nat} {report : Report} {rest : List Report}
    (reports : room.events idx = report :: rest) : report ∉ rest ∧ rest.Nodup := by
  have order := ordered.child idx
  rw [reports, List.nodup_cons] at order
  exact order

theorem update_nodup {events : Nat → List Report} (order : ∀ idx, (events idx).Nodup) (idx : Nat)
    {reports : List Report} (here : reports.Nodup) (other : Nat) :
    (Function.update events idx reports other).Nodup := by
  by_cases same : other = idx
  · rw [same, Function.update_self]
    exact here
  · rw [Function.update_of_ne same]
    exact order other

theorem step_ordered (ordered : room.Ordered) (taken : room.step event = .ok next) :
    next.Ordered := by
  cases event with
  | wait idx reports =>
      obtain ⟨_, _, _, order, _, rfl⟩ := wait_ok taken
      exact ⟨update_nodup ordered.child idx order, ordered.parent⟩
  | clear idx =>
      obtain ⟨rest, _, reports, rfl⟩ := clear_ok taken
      exact ⟨update_nodup ordered.child idx (ordered.tail reports).2, ordered.parent⟩
  | recv idx data =>
      obtain ⟨_, rfl⟩ := recv_ok taken
      exact ⟨ordered.child, ordered.parent⟩
  | notify idx accepted =>
      obtain ⟨_, rfl⟩ := notify_ok taken
      exact ⟨ordered.child, ordered.parent⟩
  | take idx =>
      obtain ⟨rest, _, reports, rfl⟩ := take_ok taken
      exact ⟨update_nodup ordered.child idx (ordered.tail reports).2, ordered.parent⟩
  | relay idx accepted =>
      obtain ⟨_, _, rfl⟩ := relay_ok taken
      exact ⟨ordered.child, ordered.parent⟩
  | gather reports =>
      obtain ⟨_, _, order, rfl⟩ := gather_ok taken
      refine ⟨ordered.child, order.nodup_iff.mpr ?_⟩
      exact List.nodup_range.filter _
  | collect =>
      obtain ⟨idx, rest, _, reports, rfl⟩ := collect_ok taken
      have order := ordered.parent
      rw [reports, List.nodup_cons] at order
      exact ⟨ordered.child, order.2⟩
  | forward accepted =>
      obtain ⟨_, _, rfl⟩ | ⟨_, _, _, _, rfl⟩ := forward_ok taken
      · exact ⟨ordered.child, ordered.parent⟩
      · exact ⟨ordered.child, ordered.parent⟩

theorem late_none {pipe : Pipe} (other : room.target event = none) :
    (if Late pipe room event then 1 else 0) = 0 :=
  if_neg fun late => by simp [Late, other] at late

theorem late_some {pipe : Pipe} (here : room.target event = some pipe) :
    (if Late pipe room event then 1 else 0) = if (room.watch pipe).edge = true then 1 else 0 := by
  simp only [Late, here, true_and]

theorem step_counted (ordered : room.Ordered) {pipe : Pipe} {count : Nat}
    (counted : (room.watch pipe).Counted (room.Busy pipe) count)
    (taken : room.step event = .ok next) :
    (next.watch pipe).Counted (next.Busy pipe)
      (count + if Late pipe room event then 1 else 0) := by
  cases event with
  | wait other reports =>
      obtain ⟨_, _, free, _, raised, rfl⟩ := wait_ok taken
      rw [late_none rfl, Nat.add_zero]
      cases pipe with
      | up idx => exact counted
      | down idx =>
          by_cases same : idx = other
          · subst same
            simp only [Busy, free, watch, Function.update_self] at counted ⊢
            by_cases here : .pipefd ∈ reports
            · rw [if_pos here]
              exact (counted.report (raised.mp here) List.not_mem_nil).congr
                (iff_of_true trivial here)
            · rw [if_neg here]
              exact counted.congr (iff_of_false List.not_mem_nil here)
          · simpa only [Busy, watch, Function.update_of_ne same] using counted
  | clear other =>
      obtain ⟨rest, _, reports, rfl⟩ := clear_ok taken
      rw [late_none rfl, Nat.add_zero]
      cases pipe with
      | up idx => exact counted
      | down idx =>
          by_cases same : idx = other
          · subst same
            simpa [Busy, watch, reports] using counted
          · simpa only [Busy, watch, Function.update_of_ne same] using counted
  | recv other data =>
      obtain ⟨_, rfl⟩ := recv_ok taken
      rw [late_none rfl, Nat.add_zero]
      cases pipe with
      | up idx => exact counted
      | down idx => exact counted
  | notify other accepted =>
      obtain ⟨_, rfl⟩ := notify_ok taken
      cases pipe with
      | up idx =>
          cases accepted with
          | false => simpa [Late, target, Busy, watch] using counted
          | true =>
              by_cases same : idx = other
              · subst same
                rw [late_some (by simp [target])]
                simpa [Busy, watch] using counted.arrive idx
              · simpa [Late, target, Busy, watch, same, Ne.symm same] using counted
      | down idx => simpa [Late, target, Busy, watch] using counted
  | take other =>
      obtain ⟨rest, _, reports, rfl⟩ := take_ok taken
      rw [late_none rfl, Nat.add_zero]
      cases pipe with
      | up idx => exact counted
      | down idx =>
          by_cases same : idx = other
          · subst same
            simp only [Busy, reports, watch, Function.update_self] at counted ⊢
            exact (counted.serve List.mem_cons_self).congr
              (iff_of_false id (ordered.tail reports).1)
          · simpa only [Busy, watch, Function.update_of_ne same] using counted
  | relay other accepted =>
      obtain ⟨_, _, rfl⟩ := relay_ok taken
      rw [late_none rfl, Nat.add_zero]
      cases pipe with
      | up idx => exact counted
      | down idx => exact counted
  | gather reports =>
      obtain ⟨_, free, order, rfl⟩ := gather_ok taken
      rw [late_none rfl, Nat.add_zero]
      cases pipe with
      | up idx =>
          simp only [Busy, free, watch] at counted ⊢
          by_cases here : idx ∈ reports
          · have raised := order.mem_iff.mp here
            rw [Room.raised, List.mem_filter] at raised
            rw [if_pos here]
            exact (counted.report raised.2 List.not_mem_nil).congr (iff_of_true trivial here)
          · rw [if_neg here]
            exact counted.congr (iff_of_false List.not_mem_nil here)
      | down idx => exact counted
  | collect =>
      obtain ⟨other, rest, _, reports, rfl⟩ := collect_ok taken
      rw [late_none rfl, Nat.add_zero]
      cases pipe with
      | up idx =>
          by_cases same : idx = other
          · subst same
            have order := ordered.parent
            rw [reports, List.nodup_cons] at order
            simp only [Busy, reports, watch, Function.update_self] at counted ⊢
            exact (counted.serve List.mem_cons_self).congr (iff_of_false id order.1)
          · simpa [Busy, watch, reports, same] using counted
      | down idx => exact counted
  | forward accepted =>
      obtain ⟨_, told, rfl⟩ | ⟨child, other, rest, told, rfl⟩ := forward_ok taken
      · rw [late_none (by simp [target, told]), Nat.add_zero]
        cases pipe with
        | up idx => exact counted
        | down idx => exact counted
      · cases pipe with
        | up idx => simpa [Late, target, told, Busy, watch] using counted
        | down idx =>
            cases accepted with
            | false => simpa [Late, target, told, Busy, watch] using counted
            | true =>
                by_cases same : idx = other
                · subst same
                  rw [late_some (by simp [target, told])]
                  simpa [Busy, watch] using counted.arrive child
                · simpa [Late, target, told, Busy, watch, same, Ne.symm same] using counted

end Reports

/-! Every message is on its way to a client once, or was given up, or the client was sent something
for it. -/

def pending (parent : Option (Nat × List Nat)) (author reader : Nat) : Nat :=
  match parent with
  | none => 0
  | some (child, rest) => if child = author then rest.count reader else 0

def unread (room : Room) (author reader : Nat) : Nat :=
  (room.up author).queue.count author + (room.down reader).queue.count author

def underway (room : Room) (author reader : Nat) : Nat :=
  (if room.phase author = .stored then 1 else 0) + room.unread author reader +
    pending room.parent author reader + if room.phase reader = .relaying author then 1 else 0

def told (deliveries : List Delivery) (author : Nat) : Nat :=
  deliveries.countP (·.author = author)

@[simp] theorem told_append (deliveries : List Delivery) (delivery : Delivery) (author : Nat) :
    told (deliveries ++ [delivery]) author =
      told deliveries author + if delivery.author = author then 1 else 0 := by
  simp [told, List.countP_append, List.countP_cons]

structure Apart (userCount child idx : Nat) : Prop where
  first : child < userCount
  second : idx < userCount
  different : child ≠ idx

structure Inv (room : Room) : Prop where
  ordered : room.Ordered
  counted : ∀ pipe, ∃ count, (room.watch pipe).Counted (room.Busy pipe) count
  reporting : ∀ idx, room.events idx ≠ [] → idx < room.userCount
  working : ∀ idx, room.phase idx ≠ .waiting → idx < room.userCount
  own : ∀ idx, ∀ child ∈ (room.up idx).queue, child = idx ∧ idx < room.userCount
  telling : ∀ child rest, room.parent = some (child, rest) →
    ∀ idx ∈ rest, Apart room.userCount child idx
  queued : ∀ idx, ∀ child ∈ (room.down idx).queue, Apart room.userCount child idx
  relayed : ∀ idx child, room.phase idx = .relaying child → Apart room.userCount child idx
  account : ∀ author reader, reader < room.userCount → author ≠ reader →
    (room.received author).length =
      told (room.sent reader) author + room.underway author reader + room.dropped author reader
  blank : ∀ idx, room.phase idx = .cleared → segment idx room.shareMem = padded []
  text : ∀ idx, room.phase idx ≠ .cleared → ∀ data ∈ (room.received idx).getLast?,
    segment idx room.shareMem = padded data

theorem init_inv (userCount : Nat) (shareMem : Nat → UInt8) : (init userCount shareMem).Inv where
  ordered := init_ordered userCount shareMem
  counted := by
    intro pipe
    refine ⟨0, ?_⟩
    cases pipe with
    | up idx => exact Watch.empty_counted.congr (iff_of_false id List.not_mem_nil)
    | down idx => exact Watch.empty_counted.congr (iff_of_false id List.not_mem_nil)
  reporting := by simp [init]
  working := by simp [init]
  own := by simp [init, Watch.empty]
  telling := by simp [init]
  queued := by simp [init, Watch.empty]
  relayed := by simp [init]
  account := by simp [init, told, underway, unread, pending, Watch.empty]
  blank := by simp [init]
  text := by simp [init]

theorem phase_of_update (good : Phase → Prop) {phase : Nat → Phase} {idx other : Nat}
    {value : Phase} (carried : good value → good (phase idx))
    (here : good (Function.update phase idx value other)) : good (phase other) := by
  by_cases same : other = idx
  · subst same
    exact carried (by simpa only [Function.update_self] using here)
  · simpa only [Function.update_of_ne same] using here

section Preserved

variable {room next : Room} {idx : Nat}

theorem step_watched (inv : room.Inv) {event : Event} (taken : room.step event = .ok next)
    (pipe : Pipe) : ∃ count, (next.watch pipe).Counted (next.Busy pipe) count := by
  obtain ⟨count, counted⟩ := inv.counted pipe
  exact ⟨_, step_counted inv.ordered counted taken⟩

theorem take_some (inv : room.Inv) {rest : List Report}
    (reports : room.events idx = .pipefd :: rest) :
    ∃ client later, (room.down idx).queue = client :: later := by
  obtain ⟨count, counted⟩ := inv.counted (.down idx)
  have here : room.Busy (.down idx) := by
    rw [Busy, reports]
    exact List.mem_cons_self
  exact List.exists_cons_of_ne_nil (counted.some here)

theorem collect_some (inv : room.Inv) {rest : List Nat} (reports : room.reported = idx :: rest) :
    ∃ later, (room.up idx).queue = idx :: later := by
  obtain ⟨count, counted⟩ := inv.counted (.up idx)
  have here : room.Busy (.up idx) := by
    rw [Busy, reports]
    exact List.mem_cons_self
  obtain ⟨child, later, queue⟩ := List.exists_cons_of_ne_nil (counted.some here)
  have queue : (room.up idx).queue = child :: later := queue
  obtain ⟨rfl, _⟩ := inv.own idx child (by rw [queue]; exact List.mem_cons_self)
  exact ⟨later, queue⟩

theorem wait_inv {reports : List Report} (inv : room.Inv)
    (taken : room.step (.wait idx reports) = .ok next) : next.Inv := by
  have ordered := step_ordered inv.ordered taken
  have counted := step_watched inv taken
  obtain ⟨here, _, _, _, _, rfl⟩ := wait_ok taken
  have queue (other : Nat) : (Function.update room.down idx
      (if .pipefd ∈ reports then (room.down idx).report else room.down idx) other).queue =
      (room.down other).queue := by
    by_cases same : other = idx
    · rw [same, Function.update_self]
      split <;> rfl
    · rw [Function.update_of_ne same]
  exact
    { ordered := ordered
      counted := counted
      reporting := by
        intro other busy
        by_cases same : other = idx
        · rw [same]
          exact here
        · exact inv.reporting other (by simpa [same] using busy)
      working := inv.working
      own := inv.own
      telling := inv.telling
      queued := by
        intro other child member
        rw [queue] at member
        exact inv.queued other child member
      relayed := inv.relayed
      account := by
        intro author reader inside different
        have before := inv.account author reader inside different
        simpa only [underway, unread, queue] using before
      blank := inv.blank
      text := inv.text }

theorem clear_inv (inv : room.Inv) (taken : room.step (.clear idx) = .ok next) : next.Inv := by
  have ordered := step_ordered inv.ordered taken
  have counted := step_watched inv taken
  obtain ⟨rest, waiting, reports, rfl⟩ := clear_ok taken
  have here := inv.reporting idx (by rw [reports]; exact List.cons_ne_nil _ rest)
  exact
    { ordered := ordered
      counted := counted
      reporting := by
        intro other busy
        by_cases same : other = idx
        · rw [same]
          exact here
        · exact inv.reporting other (by simpa [same] using busy)
      working := by
        intro other busy
        by_cases same : other = idx
        · rw [same]
          exact here
        · exact inv.working other (by simpa [same] using busy)
      own := inv.own
      telling := inv.telling
      queued := inv.queued
      relayed := by
        intro reader child relaying
        exact inv.relayed reader child (phase_of_update (· = .relaying child) (by simp) relaying)
      account := by
        intro author reader inside different
        have before := inv.account author reader inside different
        simp only [underway, unread, Function.update_apply] at before ⊢
        grind
      blank := by
        intro other phase
        by_cases same : other = idx
        · rw [same]
          exact segment_clear idx room.shareMem
        · rw [segment_clear_other same]
          exact inv.blank other (by simpa [same] using phase)
      text := by
        intro other phase data last
        by_cases same : other = idx
        · simp [same] at phase
        · rw [segment_clear_other same]
          exact inv.text other (by simpa [same] using phase) data last }

theorem recv_inv {data : List UInt8} (inv : room.Inv)
    (taken : room.step (.recv idx data) = .ok next) : next.Inv := by
  have ordered := step_ordered inv.ordered taken
  have counted := step_watched inv taken
  obtain ⟨cleared, rfl⟩ := recv_ok taken
  have fits : (data.take (bufferSize - 1)).length ≤ bufferSize := by
    rw [List.length_take]
    omega
  exact
    { ordered := ordered
      counted := counted
      reporting := inv.reporting
      working := by
        intro other busy
        exact inv.working other (phase_of_update (· ≠ .waiting) (by simp [cleared]) busy)
      own := inv.own
      telling := inv.telling
      queued := inv.queued
      relayed := by
        intro reader child relaying
        exact inv.relayed reader child (phase_of_update (· = .relaying child) (by simp) relaying)
      account := by
        intro author reader inside different
        have before := inv.account author reader inside different
        simp only [underway, unread, Function.update_apply] at before ⊢
        grind
      blank := by
        intro other phase
        by_cases same : other = idx
        · simp [same] at phase
        · rw [segment_store_other same fits]
          exact inv.blank other (by simpa [same] using phase)
      text := by
        intro other phase last member
        by_cases same : other = idx
        · subst same
          obtain rfl : data.take (bufferSize - 1) = last := by simpa using member
          exact segment_store fits (inv.blank other cleared)
        · rw [segment_store_other same fits]
          refine inv.text other ?_ last ?_
          · simpa [same] using phase
          · simpa [same] using member }

theorem notify_inv {accepted : Bool} (inv : room.Inv)
    (taken : room.step (.notify idx accepted) = .ok next) : next.Inv := by
  have ordered := step_ordered inv.ordered taken
  have counted := step_watched inv taken
  obtain ⟨stored, rfl⟩ := notify_ok taken
  have here := inv.working idx (by rw [stored]; decide)
  exact
    { ordered := ordered
      counted := counted
      reporting := inv.reporting
      working := by
        intro other busy
        exact inv.working other (phase_of_update (· ≠ .waiting) (by simp) busy)
      own := by
        intro other child member
        cases accepted with
        | false => exact inv.own other child member
        | true =>
            by_cases same : other = idx
            · subst same
              simp only [if_true, Function.update_self, Watch.arrive, List.mem_append,
                List.mem_singleton] at member
              rcases member with earlier | rfl
              · exact inv.own other child earlier
              · exact ⟨rfl, here⟩
            · exact inv.own other child (by simpa [same] using member)
      telling := inv.telling
      queued := inv.queued
      relayed := by
        intro reader child relaying
        exact inv.relayed reader child (phase_of_update (· = .relaying child) (by simp) relaying)
      account := by
        intro author reader inside different
        have before := inv.account author reader inside different
        cases accepted with
        | false =>
            simp only [underway, unread, Bool.false_eq_true, if_false,
              Function.update_apply, apply_ite (fun lost : Nat → Nat => lost reader)] at before ⊢
            grind
        | true =>
            simp only [underway, unread, if_true, Function.update_apply] at before ⊢
            grind [Watch.arrive]
      blank := by
        intro other phase
        exact inv.blank other (phase_of_update (· = .cleared) (by simp) phase)
      text := by
        intro other phase
        exact inv.text other (phase_of_update (· ≠ .cleared) (by simp [stored]) phase) }

theorem take_inv (inv : room.Inv) (taken : room.step (.take idx) = .ok next) : next.Inv := by
  have ordered := step_ordered inv.ordered taken
  have counted := step_watched inv taken
  obtain ⟨rest, waiting, reports, rfl⟩ := take_ok taken
  obtain ⟨client, later, queue⟩ := take_some inv reports
  have between := inv.queued idx client (by rw [queue]; exact List.mem_cons_self)
  have here := between.second
  exact
    { ordered := ordered
      counted := counted
      reporting := by
        intro other busy
        by_cases same : other = idx
        · rw [same]
          exact here
        · exact inv.reporting other (by simpa [same] using busy)
      working := by
        intro other busy
        by_cases same : other = idx
        · rw [same]
          exact here
        · exact inv.working other (by simpa [same] using busy)
      own := inv.own
      telling := inv.telling
      queued := by
        intro reader child member
        by_cases same : reader = idx
        · subst same
          simp only [Function.update_self, Watch.release, Watch.take] at member
          exact inv.queued reader child (List.mem_of_mem_drop member)
        · exact inv.queued reader child (by simpa [same] using member)
      relayed := by
        intro reader child relaying
        by_cases same : reader = idx
        · subst same
          obtain rfl : client = child := by simpa [queue] using relaying
          exact between
        · exact inv.relayed reader child (by simpa [same] using relaying)
      account := by
        intro author reader inside different
        have before := inv.account author reader inside different
        simp only [underway, unread, Function.update_apply, queue, List.headD_cons] at before ⊢
        grind [Watch.release, Watch.take]
      blank := by
        intro other phase
        exact inv.blank other (phase_of_update (· = .cleared) (by simp) phase)
      text := by
        intro other phase
        exact inv.text other (phase_of_update (· ≠ .cleared) (by simp [waiting]) phase) }

theorem relay_inv {accepted : Nat} (inv : room.Inv)
    (taken : room.step (.relay idx accepted) = .ok next) : next.Inv := by
  have ordered := step_ordered inv.ordered taken
  have counted := step_watched inv taken
  obtain ⟨client, relaying, rfl⟩ := relay_ok taken
  exact
    { ordered := ordered
      counted := counted
      reporting := inv.reporting
      working := by
        intro other busy
        exact inv.working other (phase_of_update (· ≠ .waiting) (by simp) busy)
      own := inv.own
      telling := inv.telling
      queued := inv.queued
      relayed := by
        intro reader child relaying
        exact inv.relayed reader child (phase_of_update (· = .relaying child) (by simp) relaying)
      account := by
        intro author reader inside different
        have before := inv.account author reader inside different
        simp only [underway, unread, Function.update_apply] at before ⊢
        grind [told_append]
      blank := by
        intro other phase
        exact inv.blank other (phase_of_update (· = .cleared) (by simp) phase)
      text := by
        intro other phase
        exact inv.text other (phase_of_update (· ≠ .cleared) (by simp [relaying]) phase) }

theorem gather_inv {reports : List Nat} (inv : room.Inv)
    (taken : room.step (.gather reports) = .ok next) : next.Inv := by
  have ordered := step_ordered inv.ordered taken
  have counted := step_watched inv taken
  obtain ⟨_, _, _, rfl⟩ := gather_ok taken
  have queue (other : Nat) :
      (if other ∈ reports then (room.up other).report else room.up other).queue =
        (room.up other).queue := by
    split <;> rfl
  exact
    { ordered := ordered
      counted := counted
      reporting := inv.reporting
      working := inv.working
      own := by
        intro other child member
        rw [queue] at member
        exact inv.own other child member
      telling := inv.telling
      queued := inv.queued
      relayed := inv.relayed
      account := by
        intro author reader inside different
        have before := inv.account author reader inside different
        simpa only [underway, unread, queue] using before
      blank := inv.blank
      text := inv.text }

theorem count_others {userCount idx reader : Nat} (inside : reader < userCount) :
    ((List.range userCount).filter (· ≠ idx)).count reader = if reader = idx then 0 else 1 := by
  by_cases same : reader = idx
  · rw [if_pos same, List.count_eq_zero]
    simp [same]
  · rw [if_neg same, List.count_filter (by simpa using same), List.count_range, if_pos inside]

theorem collect_inv (inv : room.Inv) (taken : room.step .collect = .ok next) : next.Inv := by
  have ordered := step_ordered inv.ordered taken
  have counted := step_watched inv taken
  obtain ⟨idx, rest, idle, reports, rfl⟩ := collect_ok taken
  obtain ⟨later, queue⟩ := collect_some inv reports
  have here := (inv.own idx idx (by rw [queue]; exact List.mem_cons_self)).2
  exact
    { ordered := ordered
      counted := counted
      reporting := inv.reporting
      working := inv.working
      own := by
        intro other author member
        by_cases same : other = idx
        · subst same
          simp only [Function.update_self, Watch.release, Watch.take] at member
          exact inv.own other author (List.mem_of_mem_drop member)
        · exact inv.own other author (by simpa [same] using member)
      telling := by
        intro author others collected reader member
        obtain ⟨rfl, rfl⟩ : idx = author ∧ _ = others := by
          simpa only [queue, List.head?_cons, Option.map_some, Option.some.injEq,
            Prod.mk.injEq] using collected
        rw [List.mem_filter, List.mem_range, decide_eq_true_eq] at member
        exact ⟨here, member.1, member.2.symm⟩
      queued := inv.queued
      relayed := inv.relayed
      account := by
        intro author reader inside different
        have before := inv.account author reader inside different
        have others : ((List.range room.userCount).filter (· ≠ idx)).count reader =
            if reader = idx then 0 else 1 := count_others inside
        simp only [underway, unread, pending, idle, queue, List.head?_cons, Option.map_some,
          Function.update_apply] at before ⊢
        grind [Watch.release, Watch.take]
      blank := inv.blank
      text := inv.text }

theorem forward_inv {accepted : Bool} (inv : room.Inv)
    (taken : room.step (.forward accepted) = .ok next) : next.Inv := by
  have ordered := step_ordered inv.ordered taken
  have counted := step_watched inv taken
  obtain ⟨child, told, rfl⟩ | ⟨child, idx, rest, told, rfl⟩ := forward_ok taken
  · exact
      { ordered := ordered
        counted := counted
        reporting := inv.reporting
        working := inv.working
        own := inv.own
        telling := by simp
        queued := inv.queued
        relayed := inv.relayed
        account := by
          intro author reader inside different
          have before := inv.account author reader inside different
          simp only [underway, unread, pending, told] at before ⊢
          simpa using before
        blank := inv.blank
        text := inv.text }
  · have here := inv.telling child _ told
    exact
      { ordered := ordered
        counted := counted
        reporting := inv.reporting
        working := inv.working
        own := inv.own
        telling := by
          intro author others going reader member
          obtain ⟨rfl, rfl⟩ : child = author ∧ rest = others := by simpa using going
          exact here reader (List.mem_cons_of_mem idx member)
        queued := by
          intro reader author member
          cases accepted with
          | false => exact inv.queued reader author member
          | true =>
              by_cases same : reader = idx
              · subst same
                simp only [if_true, Function.update_self, Watch.arrive, List.mem_append,
                  List.mem_singleton] at member
                rcases member with earlier | rfl
                · exact inv.queued reader author earlier
                · exact here reader List.mem_cons_self
              · exact inv.queued reader author (by simpa [same] using member)
        relayed := inv.relayed
        account := by
          intro author reader inside different
          have before := inv.account author reader inside different
          cases accepted with
          | false =>
              simp only [underway, unread, pending, told, Bool.false_eq_true, if_false,
                Function.update_apply] at before ⊢
              grind
          | true =>
              simp only [underway, unread, pending, told, if_true,
                Function.update_apply] at before ⊢
              grind [Watch.arrive]
        blank := inv.blank
        text := inv.text }

theorem step_inv {event : Event} (inv : room.Inv) (taken : room.step event = .ok next) :
    next.Inv :=
  match event with
  | .wait _ _ => wait_inv inv taken
  | .clear _ => clear_inv inv taken
  | .recv _ _ => recv_inv inv taken
  | .notify _ _ => notify_inv inv taken
  | .take _ => take_inv inv taken
  | .relay _ _ => relay_inv inv taken
  | .gather _ => gather_inv inv taken
  | .collect => collect_inv inv taken
  | .forward _ => forward_inv inv taken

end Preserved

end Room

end StudyRecord.ShmServer
