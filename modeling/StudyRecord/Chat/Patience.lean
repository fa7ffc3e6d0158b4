import StudyRecord.Chat.Quiet

/-!
Clients that wait for each other: those that only send when what they sent before was relayed, and
those that only send when everything was.
-/

namespace StudyRecord.ShmServer.Room

open Runs

def Whole (_ : Room) : Event → Prop
  | .notify _ accepted | .forward accepted => accepted = true
  | .relay _ accepted => bufferSize ≤ accepted
  | .wait .. | .clear _ | .recv .. | .take _ | .gather _ | .collect => True

instance decidableWhole (room : Room) : ∀ event, Decidable (Whole room event)
  | .notify _ accepted | .forward accepted => inferInstanceAs (Decidable (accepted = true))
  | .relay _ accepted => inferInstanceAs (Decidable (bufferSize ≤ accepted))
  | .wait .. | .clear _ | .recv .. | .take _ | .gather _ | .collect => .isTrue trivial

/-- A child only receives from its client when every other client was sent its earlier messages. -/
def Patient (room : Room) : Event → Prop
  | .clear idx => ∀ reader < room.userCount, reader ≠ idx → room.underway idx reader = 0
  | .wait .. | .recv .. | .notify .. | .take _ | .relay .. | .gather _ | .collect | .forward _ => True

instance decidablePatient (room : Room) : ∀ event, Decidable (Patient room event)
  | .clear idx =>
      inferInstanceAs (Decidable (∀ reader < room.userCount, reader ≠ idx →
        room.underway idx reader = 0))
  | .wait .. | .recv .. | .notify .. | .take _ | .relay .. | .gather _ | .collect | .forward _ =>
      .isTrue trivial

/-- A child only receives from its client when no other one has begun to and every client was sent
the earlier messages of every other one. -/
def Alone (room : Room) : Event → Prop
  | .clear _ => ∀ author < room.userCount, room.phase author ≠ .cleared ∧
      ∀ reader < room.userCount, author ≠ reader → room.underway author reader = 0
  | .wait .. | .recv .. | .notify .. | .take _ | .relay .. | .gather _ | .collect | .forward _ => True

instance decidableAlone (room : Room) : ∀ event, Decidable (Alone room event)
  | .clear _ =>
      inferInstanceAs (Decidable (∀ author < room.userCount, room.phase author ≠ .cleared ∧
        ∀ reader < room.userCount, author ≠ reader → room.underway author reader = 0))
  | .wait .. | .recv .. | .notify .. | .take _ | .relay .. | .gather _ | .collect | .forward _ =>
      .isTrue trivial

section Waiting

variable {room next : Room} {event : Event}

theorem step_dropped (whole : room.Whole event) (taken : room.step event = .ok next) :
    next.dropped = room.dropped := by
  cases event with
  | wait idx reports =>
      obtain ⟨_, _, _, _, _, rfl⟩ := wait_ok taken
      rfl
  | clear idx =>
      obtain ⟨_, _, _, rfl⟩ := clear_ok taken
      rfl
  | recv idx data =>
      obtain ⟨_, rfl⟩ := recv_ok taken
      rfl
  | notify idx accepted =>
      obtain ⟨_, rfl⟩ := notify_ok taken
      exact if_pos whole
  | take idx =>
      obtain ⟨_, _, _, rfl⟩ := take_ok taken
      rfl
  | relay idx accepted =>
      obtain ⟨_, _, rfl⟩ := relay_ok taken
      rfl
  | gather reports =>
      obtain ⟨_, _, _, rfl⟩ := gather_ok taken
      rfl
  | collect =>
      obtain ⟨_, _, _, _, rfl⟩ := collect_ok taken
      rfl
  | forward accepted =>
      obtain ⟨_, _, rfl⟩ | ⟨_, _, _, _, rfl⟩ := forward_ok taken
      · rfl
      · exact if_pos whole

theorem step_underway (inv : room.Inv) (whole : room.Whole event)
    (taken : room.step event = .ok next) {author reader : Nat} (inside : reader < room.userCount)
    (different : author ≠ reader) :
    next.underway author reader ≤ room.underway author reader ∨
      room.phase author = .cleared ∧ next.phase author ≠ .cleared ∧
        next.underway author reader = room.underway author reader + 1 := by
  have before := inv.account author reader inside different
  have after := (step_inv inv taken).account author reader (by rwa [step_userCount taken]) different
  rw [step_dropped whole taken] at after
  obtain ⟨_, ⟨received, sent⟩ | ⟨idx, data, rfl⟩ | ⟨idx, accepted, rfl⟩⟩ := step_history taken
  · rw [received, sent] at after
    left
    omega
  · obtain ⟨cleared, rfl⟩ := recv_ok taken
    by_cases same : author = idx
    · subst same
      simp only [Function.update_self, List.length_append, List.length_singleton] at after
      exact .inr ⟨cleared, by simp, by omega⟩
    · simp only [Function.update_of_ne same] at after
      left
      omega
  · obtain ⟨client, relaying, rfl⟩ := relay_ok taken
    left
    by_cases same : reader = idx
    · subst same
      simp only [Function.update_self, told_append] at after
      omega
    · simp only [Function.update_of_ne same] at after
      omega

theorem cleared_before (taken : room.step event = .ok next) {author : Nat}
    (cleared : next.phase author = .cleared) :
    event = .clear author ∨ room.phase author = .cleared := by
  rcases step_cleared taken author with here | ⟨data, rfl⟩ | same
  · exact .inl here
  · obtain ⟨_, rfl⟩ := recv_ok taken
    simp at cleared
  · exact .inr (same.mp cleared)

/-! Clients that wait until their own messages were relayed. -/

structure Single (room : Room) : Prop where
  kept : ∀ author reader, room.dropped author reader = 0
  one : ∀ author reader, reader < room.userCount → author ≠ reader →
    room.underway author reader ≤ 1
  none : ∀ author reader, reader < room.userCount → author ≠ reader →
    room.phase author = .cleared → room.underway author reader = 0

theorem init_single (userCount : Nat) (shareMem : Nat → UInt8) :
    (init userCount shareMem).Single where
  kept _ _ := rfl
  one := by simp [init, underway, unread, pending, Readiness.Watch.empty]
  none := by simp [init]

theorem step_single (inv : room.Inv) (single : room.Single) (whole : room.Whole event)
    (patient : room.Patient event) (taken : room.step event = .ok next) : next.Single where
  kept := by
    intro author reader
    rw [step_dropped whole taken]
    exact single.kept author reader
  one := by
    intro author reader inside different
    rw [step_userCount taken] at inside
    have before := single.one author reader inside different
    rcases step_underway inv whole taken inside different with fewer | ⟨cleared, _, more⟩
    · omega
    · rw [more, single.none author reader inside different cleared]
  none := by
    intro author reader inside different cleared
    rw [step_userCount taken] at inside
    have before : room.underway author reader = 0 := by
      rcases cleared_before taken cleared with rfl | earlier
      · exact patient reader inside different.symm
      · exact single.none author reader inside different earlier
    rcases step_underway inv whole taken inside different with fewer | ⟨_, other, _⟩
    · omega
    · exact absurd cleared other

theorem single_current (inv : room.Inv) (single : room.Single) (whole : room.Whole event) :
    room.Current event := by
  cases event with
  | relay idx accepted =>
      intro client relaying
      have apart := inv.relayed idx client relaying
      have least := relaying_underway relaying
      have most := single.one client idx apart.second apart.different
      refine ⟨whole, fun cleared => ?_, by omega, single.kept client idx⟩
      have none' := single.none client idx apart.second apart.different cleared
      omega
  | wait idx reports => trivial
  | clear idx => trivial
  | recv idx data => trivial
  | notify idx accepted => trivial
  | take idx => trivial
  | gather reports => trivial
  | collect => trivial
  | forward accepted => trivial

structure Attuned (room : Room) : Prop where
  inv : room.Inv
  single : room.Single
  faithful : room.Faithful

theorem init_attuned (userCount : Nat) (shareMem : Nat → UInt8) :
    (init userCount shareMem).Attuned :=
  ⟨init_inv userCount shareMem, init_single userCount shareMem, init_faithful userCount shareMem⟩

theorem Attuned.step (attuned : room.Attuned) (whole : room.Whole event)
    (patient : room.Patient event) (taken : room.step event = .ok next) : next.Attuned where
  inv := step_inv attuned.inv taken
  single := step_single attuned.inv attuned.single whole patient taken
  faithful :=
    step_faithful attuned.inv attuned.faithful
      (single_current attuned.inv attuned.single whole) taken

/-! Clients that wait until every message was relayed. -/

def Speaking (room : Room) (author : Nat) : Prop :=
  room.phase author = .cleared ∨
    ∃ reader < room.userCount, author ≠ reader ∧ 0 < room.underway author reader

theorem underway_inside (inv : room.Inv) {author reader : Nat}
    (some' : 0 < room.underway author reader) : author < room.userCount := by
  by_cases stored : room.phase author = .stored
  · exact inv.working author (by rw [stored]; decide)
  by_cases relaying : room.phase reader = .relaying author
  · exact (inv.relayed reader author relaying).first
  by_cases up : author ∈ (room.up author).queue
  · exact (inv.own author author up).2
  by_cases down : author ∈ (room.down reader).queue
  · exact (inv.queued reader author down).first
  rw [underway, unread, if_neg stored, if_neg relaying, List.count_eq_zero_of_not_mem up,
    List.count_eq_zero_of_not_mem down] at some'
  cases told : room.parent with
  | none => simp [told, pending] at some'
  | some pair =>
      obtain ⟨child, rest⟩ := pair
      simp only [told, pending] at some'
      split at some'
      · next same =>
          have member : reader ∈ rest := List.count_pos_iff.mp (by omega)
          rw [← same]
          exact (inv.telling child rest told reader member).first
      · omega

theorem speaking_inside (inv : room.Inv) {author : Nat} (speaking : room.Speaking author) :
    author < room.userCount := by
  rcases speaking with cleared | ⟨reader, _, _, some'⟩
  · exact inv.working author (by rw [cleared]; decide)
  · exact underway_inside inv some'

theorem step_speaking (inv : room.Inv) (whole : room.Whole event)
    (taken : room.step event = .ok next) {author : Nat} (speaking : next.Speaking author) :
    event = .clear author ∨ room.Speaking author := by
  rcases speaking with cleared | ⟨reader, inside, different, some'⟩
  · exact (cleared_before taken cleared).imp_right .inl
  · rw [step_userCount taken] at inside
    rcases step_underway inv whole taken inside different with fewer | ⟨cleared, _, _⟩
    · exact .inr (.inr ⟨reader, inside, different, by omega⟩)
    · exact .inr (.inl cleared)

theorem alone_silent (inv : room.Inv) {idx : Nat} (alone : room.Alone (.clear idx))
    (author : Nat) : ¬room.Speaking author := by
  intro speaking
  have here := alone author (speaking_inside inv speaking)
  rcases speaking with cleared | ⟨reader, inside, different, some'⟩
  · exact here.1 cleared
  · have none' := here.2 reader inside different
    omega

def Lone (room : Room) : Prop :=
  ∀ first second, room.Speaking first → room.Speaking second → first = second

theorem init_lone (userCount : Nat) (shareMem : Nat → UInt8) :
    (init userCount shareMem).Lone := by
  intro first _ speaking
  simp [Speaking, init, underway, unread, pending, Readiness.Watch.empty] at speaking

theorem step_lone (inv : room.Inv) (lone : room.Lone) (whole : room.Whole event)
    (alone : room.Alone event) (taken : room.step event = .ok next) : next.Lone := by
  intro first second one two
  rcases step_speaking inv whole taken one with rfl | one
  · rcases step_speaking inv whole taken two with same | two
    · exact Event.clear.inj same
    · exact absurd two (alone_silent inv alone second)
  · rcases step_speaking inv whole taken two with rfl | two
    · exact absurd one (alone_silent inv alone first)
    · exact lone first second one two

theorem up_never_late (inv : room.Inv) (single : room.Single)
    (taken : room.step event = .ok next) {author reader : Nat}
    (inside : reader < room.userCount) (different : author ≠ reader) :
    ¬Late (.up author) room event := by
  rintro ⟨here, edge⟩
  cases event with
  | notify idx accepted =>
      obtain ⟨stored, _⟩ := notify_ok taken
      obtain rfl : idx = author := by
        cases accepted with
        | false => simp [target] at here
        | true => simpa [target] using here
      obtain ⟨count, counted⟩ := inv.counted (.up idx)
      obtain ⟨child, rest, queue⟩ := List.exists_cons_of_ne_nil (counted.raised edge)
      have queue : (room.up idx).queue = child :: rest := queue
      obtain ⟨rfl, _⟩ := inv.own idx child (by rw [queue]; exact List.mem_cons_self)
      have most := single.one child reader inside different
      rw [underway, unread, if_pos stored, queue, List.count_cons_self] at most
      omega
  | forward accepted =>
      simp only [target] at here
      split at here
      · cases accepted with
        | false => simp at here
        | true => simp at here
      · simp at here
      · simp at here
  | wait idx reports => simp [target] at here
  | clear idx => simp [target] at here
  | recv idx data => simp [target] at here
  | take idx => simp [target] at here
  | relay idx accepted => simp [target] at here
  | gather reports => simp [target] at here
  | collect => simp [target] at here

theorem down_never_late (inv : room.Inv) (single : room.Single) (lone : room.Lone)
    {reader : Nat} : ¬Late (.down reader) room event := by
  rintro ⟨here, edge⟩
  cases event with
  | forward accepted =>
      simp only [target] at here
      split at here
      · next child idx rest told =>
          obtain rfl : idx = reader := by
            cases accepted with
            | false => simp at here
            | true => simpa using here
          have apart := inv.telling child (idx :: rest) told idx List.mem_cons_self
          obtain ⟨count, counted⟩ := inv.counted (.down idx)
          obtain ⟨other, later, queue⟩ := List.exists_cons_of_ne_nil (counted.raised edge)
          have queue : (room.down idx).queue = other :: later := queue
          have apart' := inv.queued idx other (by rw [queue]; exact List.mem_cons_self)
          have telling : 0 < pending room.parent child idx := by
            rw [told, pending, if_pos rfl, List.count_cons_self]
            omega
          have waits : 0 < (room.down idx).queue.count other := by
            rw [queue, List.count_cons_self]
            omega
          have one : room.Speaking child :=
            .inr ⟨idx, apart.second, apart.different, by rw [underway]; omega⟩
          have two : room.Speaking other :=
            .inr ⟨idx, apart'.second, apart'.different, by rw [underway, unread]; omega⟩
          obtain rfl := lone child other one two
          have most := single.one child idx apart.second apart.different
          rw [underway, unread] at most
          omega
      · simp at here
      · simp at here
  | notify idx accepted =>
      cases accepted with
      | false => simp [target] at here
      | true => simp [target] at here
  | wait idx reports => simp [target] at here
  | clear idx => simp [target] at here
  | recv idx data => simp [target] at here
  | take idx => simp [target] at here
  | relay idx accepted => simp [target] at here
  | gather reports => simp [target] at here
  | collect => simp [target] at here

end Waiting

section Runs

variable {userCount : Nat} {shareMem : Nat → UInt8} {events : List Event} {final : Room}

theorem always_faithful (whole : Along step Whole (init userCount shareMem) events)
    (patient : Along step Patient (init userCount shareMem) events) :
    Always step Faithful (init userCount shareMem) events :=
  always_of_invariant (fun _ attuned => attuned.faithful)
    (fun _ _ _ attuned allowed taken => attuned.step allowed.1 allowed.2 taken) events
    (init_attuned userCount shareMem) (whole.and events patient)

theorem run_attuned (whole : Along step Whole (init userCount shareMem) events)
    (patient : Along step Patient (init userCount shareMem) events)
    (reached : run step (init userCount shareMem) events = .ok final) : final.Attuned :=
  run_invariant (fun _ _ _ attuned allowed taken => attuned.step allowed.1 allowed.2 taken) events
    (init_attuned userCount shareMem) (whole.and events patient) reached

theorem alone_never_late (whole : Along step Whole (init userCount shareMem) events)
    (patient : Along step Patient (init userCount shareMem) events)
    (alone : Along step Alone (init userCount shareMem) events)
    (reached : run step (init userCount shareMem) events = .ok final) {author reader : Nat}
    (inside : reader < userCount) (different : author ≠ reader) :
    tally step (Late (.up author)) (init userCount shareMem) events = 0 ∧
      tally step (Late (.down reader)) (init userCount shareMem) events = 0 := by
  have allowed := ((whole.and events patient).and events alone).and events
    (along_of_reached events reached)
  have preserved (room : Room) (event : Event) (next : Room)
      (kept : room.userCount = userCount ∧ room.Attuned ∧ room.Lone)
      (allowed : ((room.Whole event ∧ room.Patient event) ∧ room.Alone event) ∧
        ∃ next, room.step event = .ok next)
      (taken : room.step event = .ok next) :
      next.userCount = userCount ∧ next.Attuned ∧ next.Lone := by
    obtain ⟨count, attuned, lone⟩ := kept
    obtain ⟨⟨⟨whole, patient⟩, alone⟩, _⟩ := allowed
    exact ⟨(step_userCount taken).trans count, attuned.step whole patient taken,
      step_lone attuned.inv lone whole alone taken⟩
  have never : Along step (fun room event =>
      ¬Late (.up author) room event ∧ ¬Late (.down reader) room event)
      (init userCount shareMem) events := by
    refine allowed.mono preserved ?_ events
      ⟨rfl, init_attuned userCount shareMem, init_lone userCount shareMem⟩
    rintro room event ⟨count, attuned, lone⟩ ⟨_, next, taken⟩
    exact ⟨up_never_late attuned.inv attuned.single taken (by rwa [count]) different,
      down_never_late attuned.inv attuned.single lone⟩
  exact ⟨tally_none events (never.imp (fun _ _ both => both.1) events),
    tally_none events (never.imp (fun _ _ both => both.2) events)⟩

theorem run_userCount (reached : run step (init userCount shareMem) events = .ok final) :
    final.userCount = userCount := by
  have preserved (room : Room) (event : Event) (next : Room) (count : room.userCount = userCount)
      (_ : True) (taken : room.step event = .ok next) : next.userCount = userCount :=
    (step_userCount taken).trans count
  exact @run_invariant _ _ _ step (fun room => room.userCount = userCount) _ preserved events _ _
    rfl (along_of_forall events _ fun _ _ _ => trivial) reached

end Runs

/-- Where every `send` takes all of its bytes and clients wait until their earlier messages were
relayed, every client is always sent the messages of the others in order, each once and as a whole;
where one client speaks at a time, all of them once nothing is left to do. -/
theorem patient_faithful (userCount : Nat) (shareMem : Nat → UInt8) (events : List Event)
    (whole : Along step Whole (init userCount shareMem) events)
    (patient : Along step Patient (init userCount shareMem) events) :
    Always step Faithful (init userCount shareMem) events ∧
      (Along step Alone (init userCount shareMem) events →
        ∀ final, run step (init userCount shareMem) events = .ok final → final.Quiet →
          ∀ author reader, author < final.userCount → reader < final.userCount →
            author ≠ reader →
            shown (final.sent reader) author = record (final.received author)) := by
  refine ⟨always_faithful whole patient, ?_⟩
  intro alone final reached quiet author reader first second different
  have attuned := run_attuned whole patient reached
  have inside : reader < userCount := by rwa [← run_userCount reached]
  have never := alone_never_late whole patient alone reached inside different
  have up := (quiet_left reached quiet first).1.trans never.1
  have down := (quiet_left reached quiet second).2.trans never.2
  have account := attuned.inv.account author reader second different
  rw [quiet_underway quiet first second, unread, List.length_eq_zero_iff.mp up,
    List.length_eq_zero_iff.mp down, attuned.single.kept author reader] at account
  refine (attuned.faithful author reader).eq_of_length ?_
  rw [length_shown, length_record, account]
  rfl

def exchange (author reader : Nat) (data : UInt8) : List Event :=
  [.wait author [.connfd], .clear author, .recv author [data], .notify author true,
    .gather [author], .collect, .forward true, .forward true, .wait reader [.pipefd],
    .take reader, .relay reader bufferSize]

theorem patient_faithful_answer :
    ∃ final, run step (init 2 fun _ => 0) (exchange 0 1 7 ++ exchange 1 0 8) = .ok final ∧
      shown (final.sent 0) 1 = record (final.received 1) := by
  have both := patient_faithful 2 (fun _ => 0) (exchange 0 1 7 ++ exchange 1 0 8) (by decide)
    (by decide)
  exact ⟨_, rfl, both.2 (by decide) _ rfl (by decide) 1 0 (by decide) (by decide) (by decide)⟩

end StudyRecord.ShmServer.Room
