import StudyRecord.Chat.Faithful

/-!
What the clients of a room were sent once nothing is left to do. A message is lost where an index is
given up at a full pipe or comes behind another one that is still to be reported.
-/

namespace StudyRecord.ShmServer.Room

open Runs

/-- Every process rests in `epoll_wait` and no pipe is to be reported to it. -/
def Quiet (room : Room) : Prop :=
  room.parent = none ∧ room.reported = [] ∧ ∀ idx < room.userCount,
    room.phase idx = .waiting ∧ room.events idx = [] ∧
      (room.up idx).edge = false ∧ (room.down idx).edge = false

instance decidableQuiet (room : Room) : Decidable room.Quiet :=
  inferInstanceAs (Decidable (_ ∧ _))

/-! What is left in the pipes. -/

section Left

variable {userCount : Nat} {shareMem : Nat → UInt8} {events : List Event} {final : Room}

theorem run_counted (reached : run step (init userCount shareMem) events = .ok final)
    (pipe : Pipe) :
    (final.watch pipe).Counted (final.Busy pipe)
      (tally step (Late pipe) (init userCount shareMem) events) := by
  have start : ((init userCount shareMem).watch pipe).Counted
      ((init userCount shareMem).Busy pipe) 0 := by
    cases pipe with
    | up idx => exact Readiness.Watch.empty_counted.congr (iff_of_false id List.not_mem_nil)
    | down idx => exact Readiness.Watch.empty_counted.congr (iff_of_false id List.not_mem_nil)
  have preserved (room : Room) (event : Event) (next : Room) (count : Nat)
      (kept : room.Ordered ∧ (room.watch pipe).Counted (room.Busy pipe) count) (_ : True)
      (taken : room.step event = .ok next) :
      next.Ordered ∧ (next.watch pipe).Counted (next.Busy pipe)
        (count + if Late pipe room event then 1 else 0) :=
    ⟨step_ordered kept.1 taken, step_counted kept.1 kept.2 taken⟩
  have all := run_tally preserved events ⟨init_ordered userCount shareMem, start⟩
    (along_of_forall events _ fun _ _ _ => trivial) reached
  rw [Nat.zero_add] at all
  exact all.2

theorem quiet_left (reached : run step (init userCount shareMem) events = .ok final)
    (quiet : final.Quiet) {idx : Nat} (inside : idx < final.userCount) :
    (final.up idx).queue.length =
        tally step (Late (.up idx)) (init userCount shareMem) events ∧
      (final.down idx).queue.length =
        tally step (Late (.down idx)) (init userCount shareMem) events := by
  obtain ⟨_, free, still⟩ := quiet
  obtain ⟨_, rest, up, down⟩ := still idx inside
  constructor
  · have none' : ¬final.Busy (.up idx) := by
      rw [Busy, free]
      exact List.not_mem_nil
    have length := (run_counted reached (.up idx)).idle none'
    simpa only [watch, up, Bool.false_eq_true, if_false, Nat.zero_add] using length
  · have none' : ¬final.Busy (.down idx) := by
      rw [Busy, rest]
      exact List.not_mem_nil
    have length := (run_counted reached (.down idx)).idle none'
    simpa only [watch, down, Bool.false_eq_true, if_false, Nat.zero_add] using length

theorem quiet_underway (quiet : final.Quiet) {author reader : Nat}
    (first : author < final.userCount) (second : reader < final.userCount) :
    final.underway author reader = final.unread author reader := by
  obtain ⟨idle, _, still⟩ := quiet
  simp [underway, pending, idle, (still author first).1, (still reader second).1]

end Left

/-! The last message. -/

def Fresh (room : Room) : Prop :=
  ∀ author reader, reader < room.userCount → author ≠ reader →
    room.phase author ≠ .cleared →
    room.underway author reader = 0 → room.dropped author reader = 0 →
    ∀ last ∈ (shown (room.sent reader) author).getLast?,
      ∃ whole ∈ (record (room.received author)).getLast?,
        last.1 = whole.1 ∧ last.2 <+: whole.2

theorem step_fresh {room next : Room} {event : Event} (inv : room.Inv) (fresh : room.Fresh)
    (taken : room.step event = .ok next) : next.Fresh := by
  intro author reader inside different steady done kept
  have after := (step_inv inv taken).account author reader inside different
  rw [step_userCount taken] at inside
  have before := inv.account author reader inside different
  have unchanged (received : next.received author = room.received author)
      (sent : shown (next.sent reader) author = shown (room.sent reader) author)
      (steady : room.phase author ≠ .cleared) :
      ∀ last ∈ (shown (next.sent reader) author).getLast?,
        ∃ whole ∈ (record (next.received author)).getLast?,
          last.1 = whole.1 ∧ last.2 <+: whole.2 := by
    rw [received, ← length_shown, sent, length_shown] at after
    rw [received, sent]
    exact fresh author reader inside different steady (by omega) (by omega)
  obtain ⟨_, ⟨received, sent⟩ | ⟨idx, data, rfl⟩ | ⟨idx, accepted, rfl⟩⟩ := step_history taken
  · refine unchanged (by rw [received]) (by rw [sent]) ?_
    rcases step_cleared taken author with rfl | ⟨data, rfl⟩ | same
    · obtain ⟨_, _, _, rfl⟩ := clear_ok taken
      simp at steady
    · obtain ⟨_, rfl⟩ := recv_ok taken
      have longer := congrFun received author
      simp at longer
    · exact fun cleared => steady (same.mpr cleared)
  · obtain ⟨_, rfl⟩ := recv_ok taken
    have other : author ≠ idx := by
      rintro rfl
      simp [underway] at done
    exact unchanged (by simp [other]) rfl (by simpa [other] using steady)
  · obtain ⟨client, relaying, outcome⟩ := relay_ok taken
    have extended := relay_shown relaying taken
    subst outcome
    have steady' := phase_of_update (· ≠ .cleared) (by simp [relaying]) steady
    by_cases same : author = client ∧ reader = idx
    · obtain ⟨rfl, rfl⟩ := same
      obtain ⟨earlier, split⟩ := relay_last inv relaying steady'
      intro last member
      rw [extended, List.getLast?_concat, Option.mem_some_iff] at member
      subst member
      have beginning := List.take_prefix accepted (segment author room.shareMem)
      rw [split, List.getLast?_concat]
      exact ⟨_, Option.mem_some_self _, rfl, by simpa only using beginning⟩
    · refine unchanged rfl ?_ steady'
      by_cases place : reader = idx
      · subst place
        have other : client ≠ author := fun equal => same ⟨equal.symm, rfl⟩
        simp only [Function.update_self, shown_append, if_neg other]
      · simp only [Function.update_of_ne place]

/-- Whatever the order of the steps, once nothing is left to do a client was sent a text for each
message of another one but for those whose index is left in a pipe or was given up, and as many
indices are left in a pipe as came late. Where none is left or was given up, the last text is the
last message, as far as `send` took it. -/
theorem quiet_last (userCount : Nat) (shareMem : Nat → UInt8) (events : List Event) (final : Room)
    (reached : run step (init userCount shareMem) events = .ok final) (quiet : final.Quiet)
    (author reader : Nat) (first : author < final.userCount) (second : reader < final.userCount)
    (different : author ≠ reader) :
    (final.received author).length = (shown (final.sent reader) author).length +
        final.unread author reader + final.dropped author reader ∧
      (final.up author).queue.length =
        tally step (Late (.up author)) (init userCount shareMem) events ∧
      (final.down reader).queue.length =
        tally step (Late (.down reader)) (init userCount shareMem) events ∧
      (final.unread author reader = 0 → final.dropped author reader = 0 →
        ∀ last ∈ (shown (final.sent reader) author).getLast?,
          ∃ whole ∈ (record (final.received author)).getLast?,
            last.1 = whole.1 ∧ last.2 <+: whole.2) := by
  have start : (init userCount shareMem).Fresh := by
    intro author reader _ _ _ _ _ last member
    simp [init, shown] at member
  have preserved (room : Room) (event : Event) (next : Room) (kept : room.Inv ∧ room.Fresh)
      (_ : True) (taken : room.step event = .ok next) : next.Inv ∧ next.Fresh :=
    ⟨step_inv kept.1 taken, step_fresh kept.1 kept.2 taken⟩
  obtain ⟨inv, fresh⟩ := run_invariant preserved events ⟨init_inv userCount shareMem, start⟩
    (along_of_forall events _ fun _ _ _ => trivial) reached
  have waiting := quiet_underway quiet first second
  refine ⟨?_, (quiet_left reached quiet first).1, (quiet_left reached quiet second).2, ?_⟩
  · rw [length_shown, ← waiting]
    exact inv.account author reader second different
  · intro empty kept
    refine fresh author reader second different ?_ (waiting.trans empty) kept
    rw [(quiet.2.2 author first).1]
    decide

/-- Clients 0 and 1 of three send before the parent looks, and child 2 is told twice before it
looks. -/
def crowd : List Event :=
  [.wait 0 [.connfd], .clear 0, .recv 0 [7], .notify 0 true, .wait 1 [.connfd], .clear 1,
    .recv 1 [8], .notify 1 true, .gather [0, 1], .collect, .forward true, .forward true,
    .forward true, .collect, .forward true, .forward true, .forward true, .wait 0 [.pipefd],
    .take 0, .relay 0 bufferSize, .wait 1 [.pipefd], .take 1, .relay 1 bufferSize,
    .wait 2 [.pipefd], .take 2, .relay 2 bufferSize]

theorem quiet_last_crowd :
    ∃ final, run step (init 3 fun _ => 0) crowd = .ok final ∧
      (final.received 1).length =
        (shown (final.sent 2) 1).length + final.unread 1 2 + final.dropped 1 2 ∧
      final.unread 1 2 = 1 ∧ tally step (Late (.down 2)) (init 3 fun _ => 0) crowd = 1 := by
  have all := quiet_last 3 (fun _ => 0) crowd _ rfl (by decide) 1 2 (by decide) (by decide)
    (by decide)
  exact ⟨_, rfl, all.1, by decide, by decide⟩

end StudyRecord.ShmServer.Room
