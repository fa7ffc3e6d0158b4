import Mathlib.Logic.Basic
import Mathlib.Data.List.Infix

/-!
Runs of a system that takes one step for each event and may stop with a fault.
-/

namespace StudyRecord.Runs

section Runs

variable {State Event Fault : Type} (step : State → Event → Except Fault State)

def run (state : State) : List Event → Except Fault State
  | [] => .ok state
  | event :: rest =>
      match step state event with
      | .error fault => .error fault
      | .ok next => run next rest

/-- A condition on the state and the event holds at every step of a run. -/
def Along (allowed : State → Event → Prop) (state : State) : List Event → Prop
  | [] => True
  | event :: rest =>
      allowed state event ∧ ∀ next, step state event = .ok next → Along allowed next rest

/-- A property holds in every state that a run goes through. -/
def Always (good : State → Prop) (state : State) : List Event → Prop
  | [] => good state
  | event :: rest => good state ∧ ∀ next, step state event = .ok next → Always good next rest

variable {step}

instance decidableAlong {allowed : State → Event → Prop}
    [∀ state event, Decidable (allowed state event)] :
    ∀ (state : State) (events : List Event), Decidable (Along step allowed state events)
  | _, [] => .isTrue trivial
  | state, event :: rest =>
      match taken : step state event with
      | .error _ =>
          decidable_of_iff (allowed state event)
            ⟨fun here => ⟨here, fun _ other => nomatch taken.symm.trans other⟩, And.left⟩
      | .ok next =>
          have : Decidable (Along step allowed next rest) := decidableAlong next rest
          decidable_of_iff (allowed state event ∧ Along step allowed next rest)
            ⟨fun both => ⟨both.1, fun _ other => Except.ok.inj (taken.symm.trans other) ▸ both.2⟩,
              fun both => ⟨both.1, both.2 next taken⟩⟩

theorem run_cons_of_ok {state next : State} {event : Event} {rest : List Event}
    (taken : step state event = .ok next) :
    run step state (event :: rest) = run step next rest := by
  simp only [run, taken]

theorem along_cons_of_ok {allowed : State → Event → Prop} {state next : State} {event : Event}
    {rest : List Event} (taken : step state event = .ok next) :
    Along step allowed state (event :: rest) ↔
      allowed state event ∧ Along step allowed next rest := by
  simp only [Along, taken, Except.ok.injEq, forall_eq']

theorem run_append {first second : List Event} {state middle : State}
    (early : run step state first = .ok middle) :
    run step state (first ++ second) = run step middle second := by
  induction first generalizing state with
  | nil =>
      obtain rfl : state = middle := Except.ok.inj early
      rfl
  | cons event rest ih =>
      simp only [run, List.cons_append] at early ⊢
      cases taken : step state event with
      | error fault =>
          rw [taken] at early
          contradiction
      | ok next =>
          rw [taken] at early
          exact ih early

theorem run_append_eq (first second : List Event) (state : State) :
    run step state (first ++ second) =
      run step state first >>= fun middle => run step middle second := by
  induction first generalizing state with
  | nil => rfl
  | cons event rest ih =>
      simp only [run, List.cons_append]
      cases step state event with
      | error fault => rfl
      | ok next => exact ih next

theorem run_append_ok {first second : List Event} {state final : State}
    (reached : run step state (first ++ second) = .ok final) :
    ∃ middle, run step state first = .ok middle ∧ run step middle second = .ok final := by
  rw [run_append_eq] at reached
  cases early : run step state first with
  | error fault =>
      rw [early] at reached
      contradiction
  | ok middle =>
      rw [early] at reached
      exact ⟨middle, rfl, reached⟩

theorem along_append {allowed : State → Event → Prop} {first second : List Event}
    {state middle : State} (early : run step state first = .ok middle) :
    Along step allowed state (first ++ second) ↔
      Along step allowed state first ∧ Along step allowed middle second := by
  induction first generalizing state with
  | nil =>
      obtain rfl : state = middle := Except.ok.inj early
      exact (and_iff_right trivial).symm
  | cons event rest ih =>
      simp only [run] at early
      cases taken : step state event with
      | error fault =>
          rw [taken] at early
          contradiction
      | ok next =>
          rw [taken] at early
          rw [List.cons_append, along_cons_of_ok taken, along_cons_of_ok taken, ih early, and_assoc]

/-- What holds at the start and is preserved by every step holds at the end of a run. -/
theorem run_invariant {invariant : State → Prop} {allowed : State → Event → Prop}
    (preserved : ∀ state event next, invariant state → allowed state event →
      step state event = .ok next → invariant next)
    (events : List Event) {state final : State} (start : invariant state)
    (along : Along step allowed state events) (reached : run step state events = .ok final) :
    invariant final := by
  induction events generalizing state with
  | nil =>
      obtain rfl : state = final := Except.ok.inj reached
      exact start
  | cons event rest ih =>
      simp only [run] at reached
      cases taken : step state event with
      | error fault =>
          rw [taken] at reached
          contradiction
      | ok next =>
          rw [taken] at reached
          exact ih (preserved state event next start along.1 taken) (along.2 next taken) reached

theorem always_of_invariant {invariant good : State → Prop} {allowed : State → Event → Prop}
    (holds : ∀ state, invariant state → good state)
    (preserved : ∀ state event next, invariant state → allowed state event →
      step state event = .ok next → invariant next)
    (events : List Event) {state : State} (start : invariant state)
    (along : Along step allowed state events) : Always step good state events := by
  induction events generalizing state with
  | nil => exact holds state start
  | cons event rest ih =>
      refine ⟨holds state start, fun next taken => ?_⟩
      exact ih (preserved state event next start along.1 taken) (along.2 next taken)

theorem run_avoids {invariant : State → Prop} {allowed : State → Event → Prop} {fault : Fault}
    (preserved : ∀ state event next, invariant state → allowed state event →
      step state event = .ok next → invariant next)
    (avoided : ∀ state event, invariant state → allowed state event →
      step state event ≠ .error fault)
    (events : List Event) {state : State} (start : invariant state)
    (along : Along step allowed state events) : run step state events ≠ .error fault := by
  induction events generalizing state with
  | nil => simp [run]
  | cons event rest ih =>
      simp only [run]
      cases taken : step state event with
      | error other =>
          have different := avoided state event start along.1
          rw [taken] at different
          exact different
      | ok next =>
          exact ih (preserved state event next start along.1 taken) (along.2 next taken)

theorem along_of_forall {allowed : State → Event → Prop} (events : List Event) (state : State)
    (all : ∀ event ∈ events, ∀ state, allowed state event) : Along step allowed state events := by
  induction events generalizing state with
  | nil => trivial
  | cons event rest ih =>
      refine ⟨all event (by simp) state, fun next _ => ih next ?_⟩
      exact fun other member => all other (by simp [member])

theorem along_of_invariant {invariant : State → Prop} {allowed : State → Event → Prop}
    (preserved : ∀ state event next, invariant state → step state event = .ok next →
      invariant next)
    (meets : ∀ state event, invariant state → allowed state event)
    (events : List Event) {state : State} (start : invariant state) :
    Along step allowed state events := by
  induction events generalizing state with
  | nil => trivial
  | cons event rest ih =>
      exact ⟨meets state event start, fun next taken => ih (preserved state event next start taken)⟩

theorem along_of_reached (events : List Event) {state final : State}
    (reached : run step state events = .ok final) :
    Along step (fun state event => ∃ next, step state event = .ok next) state events := by
  induction events generalizing state with
  | nil => trivial
  | cons event rest ih =>
      simp only [run] at reached
      cases taken : step state event with
      | error fault =>
          rw [taken] at reached
          contradiction
      | ok next =>
          rw [taken] at reached
          refine ⟨⟨next, taken⟩, fun other taken' => ?_⟩
          obtain rfl : next = other := Except.ok.inj (taken.symm.trans taken')
          exact ih reached

theorem Along.and {first second : State → Event → Prop} (events : List Event) {state : State}
    (one : Along step first state events) (two : Along step second state events) :
    Along step (fun state event => first state event ∧ second state event) state events := by
  induction events generalizing state with
  | nil => trivial
  | cons event rest ih =>
      exact ⟨⟨one.1, two.1⟩, fun next taken => ih (one.2 next taken) (two.2 next taken)⟩

theorem Along.mono {invariant : State → Prop} {allowed condition : State → Event → Prop}
    (preserved : ∀ state event next, invariant state → allowed state event →
      step state event = .ok next → invariant next)
    (meets : ∀ state event, invariant state → allowed state event → condition state event)
    (events : List Event) {state : State} (start : invariant state)
    (along : Along step allowed state events) : Along step condition state events := by
  induction events generalizing state with
  | nil => trivial
  | cons event rest ih =>
      refine ⟨meets state event start along.1, fun next taken => ?_⟩
      exact ih (preserved state event next start along.1 taken) (along.2 next taken)

theorem Along.imp {first second : State → Event → Prop}
    (weaker : ∀ state event, first state event → second state event) (events : List Event)
    {state : State} (along : Along step first state events) : Along step second state events := by
  induction events generalizing state with
  | nil => trivial
  | cons event rest ih =>
      exact ⟨weaker state event along.1, fun next taken => ih (along.2 next taken)⟩

theorem along_congr {invariant : State → Prop} {allowed first second : State → Event → Prop}
    (same : ∀ state event, invariant state → allowed state event →
      (first state event ↔ second state event))
    (preserved : ∀ state event next, invariant state → allowed state event →
      second state event → step state event = .ok next → invariant next)
    (events : List Event) {state : State} (start : invariant state)
    (along : Along step allowed state events) :
    Along step first state events ↔ Along step second state events := by
  induction events generalizing state with
  | nil => exact Iff.rfl
  | cons event rest ih =>
      have here := same state event start along.1
      have later (second' : second state event) (next : State) (taken : step state event = .ok next) :
          Along step first next rest ↔ Along step second next rest :=
        ih (preserved state event next start along.1 second' taken) (along.2 next taken)
      constructor
      · rintro ⟨met, rest⟩
        exact ⟨here.mp met, fun next taken => (later (here.mp met) next taken).mp (rest next taken)⟩
      · rintro ⟨met, rest⟩
        exact ⟨here.mpr met, fun next taken => (later met next taken).mpr (rest next taken)⟩

theorem always_final {good : State → Prop} (events : List Event) {state final : State}
    (always : Always step good state events) (reached : run step state events = .ok final) :
    good final := by
  induction events generalizing state with
  | nil =>
      obtain rfl : state = final := Except.ok.inj reached
      exact always
  | cons event rest ih =>
      simp only [run] at reached
      cases taken : step state event with
      | error fault =>
          rw [taken] at reached
          contradiction
      | ok next =>
          rw [taken] at reached
          exact ih (always.2 next taken) reached

/-- Where every step that meets a condition keeps an invariant, and every other step
goes to a state without the property, the runs with the property are the ones whose
steps meet the condition. -/
theorem always_iff_along {invariant good : State → Prop} {allowed condition : State → Event → Prop}
    (holds : ∀ state, invariant state → good state)
    (preserved : ∀ state event next, invariant state → allowed state event →
      condition state event → step state event = .ok next → invariant next)
    (broken : ∀ state event, invariant state → allowed state event → ¬condition state event →
      ∃ next, step state event = .ok next ∧ ¬good next)
    (events : List Event) {state : State} (start : invariant state)
    (along : Along step allowed state events) :
    Always step good state events ↔ Along step condition state events := by
  induction events generalizing state with
  | nil => exact iff_of_true (holds state start) trivial
  | cons event rest ih =>
      have later (here : condition state event) (next : State)
          (taken : step state event = .ok next) :
          Always step good next rest ↔ Along step condition next rest :=
        ih (preserved state event next start along.1 here taken) (along.2 next taken)
      constructor
      · rintro ⟨_, always⟩
        have here : condition state event := by
          refine Classical.byContradiction fun missed => ?_
          obtain ⟨next, taken, bad⟩ := broken state event start along.1 missed
          have first := always next taken
          cases rest with
          | nil => exact bad first
          | cons => exact bad first.1
        exact ⟨here, fun next taken => (later here next taken).mp (always next taken)⟩
      · rintro ⟨here, met⟩
        exact ⟨holds state start, fun next taken => (later here next taken).mpr (met next taken)⟩

/-- Where every step that meets a condition succeeds and keeps an invariant, and every other
step is a fault, the runs without a fault are the ones whose steps meet the condition. -/
theorem completes_iff_along {invariant good : State → Prop}
    {allowed condition : State → Event → Prop} (holds : ∀ state, invariant state → good state)
    (preserved : ∀ state event, invariant state → allowed state event → condition state event →
      ∃ next, step state event = .ok next ∧ invariant next)
    (refused : ∀ state event, invariant state → allowed state event → ¬condition state event →
      ∃ fault, step state event = .error fault)
    (events : List Event) {state : State} (start : invariant state)
    (along : Along step allowed state events) :
    (∃ final, run step state events = .ok final ∧ good final) ↔
      Along step condition state events := by
  induction events generalizing state with
  | nil => exact iff_of_true ⟨state, rfl, holds state start⟩ trivial
  | cons event rest ih =>
      by_cases here : condition state event
      · obtain ⟨next, taken, kept⟩ := preserved state event start along.1 here
        have later := ih kept (along.2 next taken)
        simp only [run, taken]
        refine later.trans ⟨fun met => ⟨here, fun other taken' => ?_⟩, fun met => met.2 next taken⟩
        obtain rfl : next = other := Except.ok.inj (taken.symm.trans taken')
        exact met
      · obtain ⟨fault, taken⟩ := refused state event start along.1 here
        refine iff_of_false ?_ fun met => here met.1
        rintro ⟨final, reached, _⟩
        simp only [run, taken] at reached
        contradiction

section Tally

variable (step) (counted : State → Event → Prop) [∀ state event, Decidable (counted state event)]

def tally (state : State) : List Event → Nat
  | [] => 0
  | event :: rest =>
      (if counted state event then 1 else 0) +
        match step state event with
        | .error _ => 0
        | .ok next => tally next rest

variable {step} {counted}

theorem run_tally {invariant : State → Nat → Prop} {allowed : State → Event → Prop}
    (preserved : ∀ state event next count, invariant state count → allowed state event →
      step state event = .ok next →
      invariant next (count + if counted state event then 1 else 0))
    (events : List Event) {state final : State} {count : Nat} (start : invariant state count)
    (along : Along step allowed state events) (reached : run step state events = .ok final) :
    invariant final (count + tally step counted state events) := by
  induction events generalizing state count with
  | nil =>
      obtain rfl : state = final := Except.ok.inj reached
      exact start
  | cons event rest ih =>
      simp only [run] at reached
      simp only [tally]
      cases taken : step state event with
      | error fault =>
          rw [taken] at reached
          contradiction
      | ok next =>
          rw [taken] at reached
          rw [← Nat.add_assoc]
          exact ih (preserved state event next count start along.1 taken) (along.2 next taken)
            reached

theorem tally_none (events : List Event) {state : State}
    (never : Along step (fun state event => ¬counted state event) state events) :
    tally step counted state events = 0 := by
  induction events generalizing state with
  | nil => rfl
  | cons event rest ih =>
      rw [tally, if_neg never.1, Nat.zero_add]
      cases taken : step state event with
      | error fault => rfl
      | ok next => exact ih (never.2 next taken)

end Tally

section Emitted

variable (step) {Output : Type} (emit : State → Event → List Output)

def emitted (state : State) : List Event → List Output
  | [] => []
  | event :: rest =>
      emit state event ++
        match step state event with
        | .error _ => []
        | .ok next => emitted next rest

variable {step} {emit}

theorem emitted_cons_of_ok {state next : State} {event : Event} (rest : List Event)
    (taken : step state event = .ok next) :
    emitted step emit state (event :: rest) = emit state event ++ emitted step emit next rest := by
  simp only [emitted, taken]

theorem emitted_append {first : List Event} (second : List Event) {state middle : State}
    (early : run step state first = .ok middle) :
    emitted step emit state (first ++ second) =
      emitted step emit state first ++ emitted step emit middle second := by
  induction first generalizing state with
  | nil =>
      obtain rfl : state = middle := Except.ok.inj early
      rfl
  | cons event rest ih =>
      simp only [run] at early
      cases taken : step state event with
      | error fault =>
          rw [taken] at early
          contradiction
      | ok next =>
          rw [taken] at early
          rw [List.cons_append, emitted_cons_of_ok _ taken, emitted_cons_of_ok _ taken, ih early,
            List.append_assoc]

theorem run_emitted {invariant : State → List Output → Prop} {allowed : State → Event → Prop}
    (preserved : ∀ state event next so, invariant state so → allowed state event →
      step state event = .ok next → invariant next (so ++ emit state event))
    (events : List Event) {state final : State} {so : List Output} (start : invariant state so)
    (along : Along step allowed state events) (reached : run step state events = .ok final) :
    invariant final (so ++ emitted step emit state events) := by
  induction events generalizing state so with
  | nil =>
      obtain rfl : state = final := Except.ok.inj reached
      rw [emitted, List.append_nil]
      exact start
  | cons event rest ih =>
      simp only [run] at reached
      cases taken : step state event with
      | error fault =>
          rw [taken] at reached
          contradiction
      | ok next =>
          rw [taken] at reached
          rw [emitted_cons_of_ok rest taken, ← List.append_assoc]
          exact ih (preserved state event next so start along.1 taken) (along.2 next taken) reached

theorem emitted_extends (first second : List Event) (state : State) :
    emitted step emit state first <+: emitted step emit state (first ++ second) := by
  induction first generalizing state with
  | nil => exact List.nil_prefix
  | cons event rest ih =>
      simp only [emitted, List.cons_append]
      cases step state event with
      | error fault => exact List.prefix_rfl
      | ok next => exact (List.prefix_append_right_inj _).mpr (ih next)

theorem emitted_nothing (events : List Event) (state : State)
    (quiet : ∀ event ∈ events, ∀ state, emit state event = []) :
    emitted step emit state events = [] := by
  induction events generalizing state with
  | nil => rfl
  | cons event rest ih =>
      rw [emitted, quiet event (by simp), List.nil_append]
      cases step state event with
      | error fault => rfl
      | ok next => exact ih next fun other member => quiet other (by simp [member])

theorem emitted_append_nothing (first second : List Event) (state : State)
    (quiet : ∀ event ∈ second, ∀ state, emit state event = []) :
    emitted step emit state (first ++ second) = emitted step emit state first := by
  induction first generalizing state with
  | nil => exact emitted_nothing second state quiet
  | cons event rest ih =>
      simp only [emitted, List.cons_append]
      cases step state event with
      | error fault => rfl
      | ok next => exact congrArg (emit state event ++ ·) (ih next)

/-- A machine whose steps come to a few operations each on a part of it puts out what the part
does, and the part runs as if it were alone. -/
theorem emitted_projected {Part Op Crash : Type} {stepPart : Part → Op → Except Crash Part}
    {emitPart : Part → Op → List Output} {ops : State → Event → List Op}
    {related : State → Part → Prop} {invariant : State → Prop} {allowed : State → Event → Prop}
    (preserved : ∀ state event next, invariant state → allowed state event →
      step state event = .ok next → invariant next)
    (projects : ∀ state event next part, invariant state → allowed state event →
      related state part → step state event = .ok next →
      ∃ part', run stepPart part (ops state event) = .ok part' ∧ related next part')
    (same : ∀ state event part, invariant state → allowed state event → related state part →
      emit state event = emitted stepPart emitPart part (ops state event))
    (events : List Event) {state final : State} {part : Part} (start : invariant state)
    (along : Along step allowed state events) (relates : related state part)
    (reached : run step state events = .ok final) :
    emitted step emit state events =
      emitted stepPart emitPart part (emitted step ops state events) := by
  induction events generalizing state part with
  | nil => rfl
  | cons event rest ih =>
      simp only [run] at reached
      cases taken : step state event with
      | error fault =>
          rw [taken] at reached
          contradiction
      | ok next =>
          rw [taken] at reached
          obtain ⟨part', moved, relates'⟩ := projects state event next part start along.1 relates taken
          have later := ih (preserved state event next start along.1 taken) (along.2 next taken)
            relates' reached
          rw [emitted_cons_of_ok rest taken, emitted_cons_of_ok rest taken, emitted_append _ moved,
            ← same state event part start along.1 relates, later]

/-- A machine whose steps come to a few operations each on a part of it takes the part through
these operations. -/
theorem run_projected {Part Op Crash : Type} {stepPart : Part → Op → Except Crash Part}
    {ops : State → Event → List Op} {related : State → Part → Prop} {invariant : State → Prop}
    {allowed : State → Event → Prop}
    (preserved : ∀ state event next, invariant state → allowed state event →
      step state event = .ok next → invariant next)
    (projects : ∀ state event next part, invariant state → allowed state event →
      related state part → step state event = .ok next →
      ∃ part', run stepPart part (ops state event) = .ok part' ∧ related next part')
    (events : List Event) {state final : State} {part : Part} (start : invariant state)
    (along : Along step allowed state events) (relates : related state part)
    (reached : run step state events = .ok final) :
    ∃ part', run stepPart part (emitted step ops state events) = .ok part' ∧
      related final part' := by
  induction events generalizing state part with
  | nil =>
      obtain rfl : state = final := Except.ok.inj reached
      exact ⟨part, rfl, relates⟩
  | cons event rest ih =>
      simp only [run] at reached
      cases taken : step state event with
      | error fault =>
          rw [taken] at reached
          contradiction
      | ok next =>
          rw [taken] at reached
          obtain ⟨middle, moved, relates'⟩ := projects state event next part start along.1 relates taken
          rw [emitted_cons_of_ok rest taken, run_append moved]
          exact ih (preserved state event next start along.1 taken) (along.2 next taken) relates'
            reached

end Emitted

section Agreement

variable {other : State → Event → Except Fault State} {invariant : State → Prop}
  {allowed : State → Event → Prop}
  (same : ∀ state event, invariant state → allowed state event →
    other state event = step state event)
  (preserved : ∀ state event next, invariant state → allowed state event →
    step state event = .ok next → invariant next)

include same preserved

theorem along_allowed_iff (events : List Event) {state : State} (start : invariant state) :
    Along other allowed state events ↔ Along step allowed state events := by
  induction events generalizing state with
  | nil => exact Iff.rfl
  | cons event rest ih =>
      refine and_congr_right fun met => forall_congr' fun next => ?_
      rw [same state event start met]
      exact imp_congr_right fun taken => ih (preserved state event next start met taken)

theorem run_agrees (events : List Event) {state : State} (start : invariant state)
    (along : Along other allowed state events) : run other state events = run step state events := by
  induction events generalizing state with
  | nil => rfl
  | cons event rest ih =>
      have here := same state event start along.1
      simp only [run, here]
      cases taken : step state event with
      | error fault => rfl
      | ok next =>
          exact ih (preserved state event next start along.1 taken)
            (along.2 next (here.trans taken))

theorem along_agrees (condition : State → Event → Prop) (events : List Event) {state : State}
    (start : invariant state) (along : Along other allowed state events) :
    Along other condition state events ↔ Along step condition state events := by
  induction events generalizing state with
  | nil => exact Iff.rfl
  | cons event rest ih =>
      have here := same state event start along.1
      have kept := preserved state event
      simp only [Along, here] at along ⊢
      refine and_congr_right fun _ => forall_congr' fun next => imp_congr_right fun taken => ?_
      exact ih (kept next start along.1 taken) (along.2 next taken)

theorem always_agrees {good good' : State → Prop}
    (agree : ∀ state, invariant state → (good state ↔ good' state)) (events : List Event)
    {state : State} (start : invariant state) (along : Along other allowed state events) :
    Always other good state events ↔ Always step good' state events := by
  induction events generalizing state with
  | nil => exact agree state start
  | cons event rest ih =>
      have here := same state event start along.1
      have kept := preserved state event
      simp only [Along, Always, here] at along ⊢
      refine and_congr (agree state start) ?_
      refine forall_congr' fun next => imp_congr_right fun taken => ?_
      exact ih (kept next start along.1 taken) (along.2 next taken)

theorem emitted_agrees {Output : Type} (emit : State → Event → List Output) (events : List Event)
    {state : State} (start : invariant state) (along : Along other allowed state events) :
    emitted other emit state events = emitted step emit state events := by
  induction events generalizing state with
  | nil => rfl
  | cons event rest ih =>
      have here := same state event start along.1
      simp only [emitted, here]
      cases taken : step state event with
      | error fault => rfl
      | ok next =>
          have later := ih (preserved state event next start along.1 taken)
            (along.2 next (here.trans taken))
          exact congrArg (emit state event ++ ·) later

end Agreement

end Runs

end StudyRecord.Runs
