import StudyRecord.Library.Runs
import Mathlib.Logic.Function.Basic

/-!
`open_listenfd` of `src/support.cpp`, over the descriptors of the process: a loop over the
addresses that `getaddrinfo` has returned, which looks for one that a socket can be bound to.
-/

namespace StudyRecord.OpenListenfd

open Runs

inductive Owner
  | other
  | own
  deriving DecidableEq

abbrev Table := Nat → Option Owner

/-- What the calls for one address return. `closeFails` is for a descriptor that is open. -/
structure Attempt where
  socket : Option Nat
  bind : Bool
  closeFails : Bool
  deriving DecidableEq

/-- A descriptor that is open is released whatever `close` returns. -/
def close (table : Table) (fd : Nat) (fails : Bool) : Bool × Table :=
  match table fd with
  | none => (false, table)
  | some _ => (!fails, Function.update table fd none)

inductive Left
  | bound (table : Table) (listenfd : Nat)
  | closeFailed (table : Table)

def step (table : Table) (p : Attempt) : Except Left Table :=
  match p.socket with
  | none => .ok table
  | some listenfd =>
      let table := Function.update table listenfd (some .own)
      if p.bind then
        .error (.bound table listenfd)
      else
        -- the argument of `close` is the comparison
        match close table (if listenfd < 0 then 1 else 0) p.closeFails with
        | (true, table) => .ok table
        | (false, table) => .error (.closeFailed table)

/-- `listp` is the list unless `getaddrinfo` fails. `listens` and `closeFails` are what `listen`
and the `close` after it return. -/
def openListenfd (table : Table) (listp : Option (List Attempt)) (isTcp listens closeFails : Bool) :
    Table × Int :=
  match listp with
  | none => (table, -2)
  | some listp =>
      match run step table listp with
      | .ok table => (table, -1)
      | .error (.closeFailed table) => (table, -1)
      | .error (.bound table listenfd) =>
          if isTcp && !listens then
            ((close table listenfd closeFails).2, -1)
          else
            (table, listenfd)

def Possible (table : Table) (p : Attempt) : Prop := ∀ fd ∈ p.socket, table fd = none

def before (opened : Nat → Bool) : Table := fun fd => if opened fd then some .other else none

/-- No descriptor that was open before has been closed, and what the call has opened has
been closed but for what it returns. -/
def TouchesOwn (opened : Nat → Bool) (result : Table × Int) : Prop :=
  (∀ fd, opened fd = true → result.1 fd = some .other) ∧
    ∀ fd, result.1 fd = some .own → result.2 = fd

/-- The loop goes no further: the socket is bound, or it has descriptor 0, is refused, and is
closed with an error. -/
def Attempt.last (p : Attempt) : Bool :=
  match p.socket with
  | none => false
  | some listenfd => p.bind || (listenfd == 0 && p.closeFails)

/-- Of the sockets that are made before the last pass, all of which `bind` refuses, each has
descriptor 0. -/
def Spared (listp : List Attempt) : Prop :=
  ∀ p ∈ listp.takeWhile fun p => !p.last, ∀ fd ∈ p.socket, fd = 0

structure Clean (opened : Nat → Bool) (table : Table) : Prop where
  kept : ∀ fd, opened fd = true → table fd = some .other
  released : ∀ fd, table fd ≠ some .own

theorem clean_before (opened : Nat → Bool) : Clean opened (before opened) where
  kept := fun fd was => if_pos was
  released := fun fd => by
    simp only [before]
    split <;> simp

theorem step_refused {table : Table} {p : Attempt} {listenfd : Nat}
    (made : p.socket = some listenfd) (refused : p.bind = false) :
    step table p =
      match close (Function.update table listenfd (some .own)) 0 p.closeFails with
      | (true, table) => .ok table
      | (false, table) => .error (.closeFailed table) := by
  simp only [step, made, refused, Nat.not_lt_zero, if_false, Bool.false_eq_true]

theorem step_refused_zero {table : Table} {p : Attempt} (made : p.socket = some 0)
    (refused : p.bind = false) (free : table 0 = none) :
    step table p = if p.closeFails then .error (.closeFailed table) else .ok table := by
  have restored : Function.update (Function.update table 0 (some Owner.own)) 0 none = table := by
    rw [Function.update_idem, ← free, Function.update_eq_self]
  rw [step_refused made refused, close, Function.update_self]
  simp only [restored]
  cases p.closeFails <;> rfl

def Leaks (fd : Nat) : Except Left Table → Prop
  | .ok table => table fd = some .own
  | .error (.closeFailed table) => table fd = some .own
  | .error (.bound table listenfd) => table fd = some .own ∧ fd ≠ listenfd

theorem close_other (table : Table) {fd closed : Nat} (other : fd ≠ closed) (fails : Bool) :
    (close table closed fails).2 fd = table fd := by
  simp only [close]
  split
  · rfl
  · exact Function.update_of_ne other ..

theorem step_refused_leaks {table : Table} {p : Attempt} {listenfd fd : Nat}
    (made : p.socket = some listenfd) (refused : p.bind = false) (other : fd ≠ 0)
    (own : Function.update table listenfd (some .own) fd = some .own) :
    Leaks fd (step table p) := by
  have opened := close_other (Function.update table listenfd (some .own)) other p.closeFails
  rw [own] at opened
  rw [step_refused made refused]
  generalize close (Function.update table listenfd (some .own)) 0 p.closeFails = closed at opened
  obtain ⟨done, next⟩ := closed
  cases done with
  | true => exact opened
  | false => exact opened

theorem step_leaks {table : Table} {p : Attempt} {fd : Nat} (other : fd ≠ 0)
    (own : table fd = some .own) (possible : Possible table p) : Leaks fd (step table p) := by
  cases made : p.socket with
  | none =>
      simp only [step, made]
      exact own
  | some listenfd =>
      have apart : fd ≠ listenfd := by
        rintro rfl
        rw [possible fd made] at own
        contradiction
      have still : Function.update table listenfd (some .own) fd = some .own := by
        rwa [Function.update_of_ne apart]
      cases bind : p.bind with
      | true =>
          simp only [step, made, bind, if_true]
          exact ⟨still, apart⟩
      | false => exact step_refused_leaks made bind other still

theorem run_leaks {fd : Nat} (other : fd ≠ 0) (listp : List Attempt) {table : Table}
    (own : table fd = some .own) (possible : Along step Possible table listp) :
    Leaks fd (run step table listp) := by
  induction listp generalizing table with
  | nil => exact own
  | cons p rest ih =>
      have here := step_leaks other own possible.1
      simp only [run]
      cases taken : step table p with
      | error left => rwa [taken] at here
      | ok next =>
          rw [taken] at here
          exact ih here (possible.2 next taken)

def Fine (opened : Nat → Bool) : Except Left Table → Prop
  | .ok table => Clean opened table
  | .error (.closeFailed table) => Clean opened table
  | .error (.bound table listenfd) =>
      ∃ clean, Clean opened clean ∧ clean listenfd = none ∧
        table = Function.update clean listenfd (some .own)

theorem spared_cons {p : Attempt} {rest : List Attempt} :
    Spared (p :: rest) ↔
      p.last = true ∨ ((∀ fd ∈ p.socket, fd = 0) ∧ Spared rest) := by
  rw [Spared, List.takeWhile_cons]
  cases p.last with
  | true => simp
  | false => simp [Spared]

theorem run_spared {opened : Nat → Bool} (listp : List Attempt) {table : Table}
    (clean : Clean opened table) (possible : Along step Possible table listp) :
    (Spared listp → Fine opened (run step table listp)) ∧
      (¬Spared listp → ∃ fd, Leaks fd (run step table listp)) := by
  induction listp generalizing table with
  | nil => exact ⟨fun _ => clean, fun unspared => absurd (by simp [Spared]) unspared⟩
  | cons p rest ih =>
      obtain ⟨here, later⟩ := possible
      -- the pass goes on as it has begun
      have goesOn (taken : step table p = .ok table) (zero : ∀ fd ∈ p.socket, fd = 0)
          (more : p.last = false) :
          (Spared (p :: rest) → Fine opened (run step table (p :: rest))) ∧
            (¬Spared (p :: rest) → ∃ fd, Leaks fd (run step table (p :: rest))) := by
        have same : Spared (p :: rest) ↔ Spared rest := by
          rw [spared_cons, more]
          exact ⟨fun either => (either.resolve_left (by simp)).2, fun spared => .inr ⟨zero, spared⟩⟩
        rw [run_cons_of_ok taken, same]
        exact ih clean (later table taken)
      cases made : p.socket with
      | none =>
          refine goesOn ?_ (fun fd found => ?_) ?_
          · simp only [step, made]
          · rw [made] at found
            contradiction
          · simp only [Attempt.last, made]
      | some listenfd =>
          have free := here listenfd made
          cases bind : p.bind with
          | true =>
              have spared : Spared (p :: rest) :=
                spared_cons.mpr (.inl (by simp [Attempt.last, made, bind]))
              refine ⟨fun _ => ?_, fun unspared => absurd spared unspared⟩
              simp only [run, step, made, bind, if_true]
              exact ⟨table, clean, free, rfl⟩
          | false =>
              by_cases zero : listenfd = 0
              · subst zero
                have taken := step_refused_zero made bind free
                cases fails : p.closeFails with
                | true =>
                    have spared : Spared (p :: rest) :=
                      spared_cons.mpr (.inl (by simp [Attempt.last, made, fails]))
                    refine ⟨fun _ => ?_, fun unspared => absurd spared unspared⟩
                    simp only [run, taken, fails, if_true]
                    exact clean
                | false =>
                    rw [fails] at taken
                    refine goesOn taken (fun fd found => ?_) ?_
                    · rw [made] at found
                      exact (Option.some.inj found).symm
                    · simp [Attempt.last, made, bind, fails]
              · have leaks : Leaks listenfd (step table p) :=
                  step_refused_leaks made bind zero (Function.update_self ..)
                refine ⟨fun spared => ?_, fun _ => ⟨listenfd, ?_⟩⟩
                · rcases spared_cons.mp spared with last | ⟨all, _⟩
                  · simp [Attempt.last, made, bind, zero] at last
                  · exact absurd (all listenfd made) zero
                · simp only [run]
                  cases taken : step table p with
                  | error left => rwa [taken] at leaks
                  | ok next =>
                      rw [taken] at leaks
                      exact run_leaks zero rest leaks (later next taken)

theorem Clean.touchesOwn {opened : Nat → Bool} {table : Table} (clean : Clean opened table)
    (returned : Int) : TouchesOwn opened (table, returned) :=
  ⟨clean.kept, fun fd own => absurd own (clean.released fd)⟩

theorem close_own {table : Table} {listenfd : Nat} (free : table listenfd = none) (fails : Bool) :
    (close (Function.update table listenfd (some .own)) listenfd fails).2 = table := by
  simp only [close, Function.update_self]
  rw [Function.update_idem, ← free, Function.update_eq_self]

theorem openListenfd_fine {opened : Nat → Bool} {listp : List Attempt}
    (isTcp listens closeFails : Bool) (fine : Fine opened (run step (before opened) listp)) :
    TouchesOwn opened (openListenfd (before opened) (some listp) isTcp listens closeFails) := by
  simp only [openListenfd]
  cases reached : run step (before opened) listp with
  | ok table =>
      rw [reached] at fine
      exact fine.touchesOwn (-1)
  | error left =>
      rw [reached] at fine
      cases left with
      | closeFailed table => exact fine.touchesOwn (-1)
      | bound table listenfd =>
          obtain ⟨clean, kept, free, rfl⟩ := fine
          simp only
          split
          · rw [close_own free]
            exact kept.touchesOwn (-1)
          · refine ⟨fun fd was => ?_, fun fd own => ?_⟩
            · have other : fd ≠ listenfd := by
                rintro rfl
                rw [kept.kept fd was] at free
                contradiction
              exact (Function.update_of_ne other ..).trans (kept.kept fd was)
            · by_contra other
              have apart : fd ≠ listenfd := fun same => other (congrArg Nat.cast same.symm)
              exact kept.released fd ((Function.update_of_ne apart ..).symm.trans own)

theorem openListenfd_leaks {opened : Nat → Bool} {listp : List Attempt} {fd : Nat}
    (isTcp listens closeFails : Bool) (leaks : Leaks fd (run step (before opened) listp)) :
    ¬TouchesOwn opened (openListenfd (before opened) (some listp) isTcp listens closeFails) := by
  rintro ⟨_, closed⟩
  simp only [openListenfd] at closed
  cases reached : run step (before opened) listp with
  | ok table =>
      rw [reached] at leaks closed
      exact absurd (closed fd leaks) (by simp only; omega)
  | error left =>
      rw [reached] at leaks closed
      cases left with
      | closeFailed table => exact absurd (closed fd leaks) (by simp only; omega)
      | bound table listenfd =>
          obtain ⟨own, apart⟩ := leaks
          simp only at closed
          split at closed
          · exact absurd (closed fd ((close_other _ apart closeFails).trans own)) (by simp only; omega)
          · exact apart (Int.ofNat_inj.mp (closed fd own)).symm

/-- The call leaves the descriptors of the process alone exactly where `bind` refuses no
socket but one with descriptor 0. -/
theorem openListenfd_touchesOwn_iff (opened : Nat → Bool) (listp : Option (List Attempt))
    (isTcp listens closeFails : Bool)
    (possible : ∀ attempts ∈ listp, Along step Possible (before opened) attempts) :
    TouchesOwn opened (openListenfd (before opened) listp isTcp listens closeFails) ↔
      ∀ attempts ∈ listp, Spared attempts := by
  cases listp with
  | none => exact iff_of_true ((clean_before opened).touchesOwn (-2)) (by simp)
  | some listp =>
      obtain ⟨fine, leaks⟩ := run_spared listp (clean_before opened) (possible listp rfl)
      constructor
      · rintro touches attempts ⟨⟩
        by_contra unspared
        obtain ⟨fd, open'⟩ := leaks unspared
        exact openListenfd_leaks isTcp listens closeFails open' touches
      · intro spared
        exact openListenfd_fine isTcp listens closeFails (fine (spared listp rfl))

def outputs : Nat → Bool := fun fd => decide (fd = 1 ∨ fd = 2)

def threeAddresses : List Attempt :=
  [⟨none, false, false⟩, ⟨some 0, false, false⟩, ⟨some 0, true, false⟩]

/-- No socket can be made for the first of three addresses, and the socket for the second, which
has the descriptor of the standard input, cannot be bound. -/
theorem openListenfd_touchesOwn_third :
    TouchesOwn outputs (openListenfd (before outputs) (some threeAddresses) true true false) := by
  have possible : ∀ listp ∈ some threeAddresses, Along step Possible (before outputs) listp := by
    rintro listp ⟨⟩
    refine ⟨fun fd found => by contradiction, fun first taken => ?_⟩
    obtain rfl := Except.ok.inj taken
    refine ⟨fun fd found => Option.some.inj found ▸ rfl, fun second taken => ?_⟩
    obtain rfl := Except.ok.inj taken
    exact ⟨fun fd found => Option.some.inj found ▸ rfl, fun third taken => by contradiction⟩
  refine (openListenfd_touchesOwn_iff outputs _ true true false possible).mpr ?_
  rintro listp ⟨⟩
  simp [Spared, threeAddresses, Attempt.last]

def streams : Nat → Bool := fun fd => decide (fd < 3)

/-- The first address cannot be bound: the call closes the standard input, returns its
descriptor as the new socket, and leaves the refused socket open. -/
theorem standard_input_closed :
    Along step Possible (before streams) [⟨some 3, false, false⟩, ⟨some 0, true, false⟩] ∧
      (openListenfd (before streams) (some [⟨some 3, false, false⟩, ⟨some 0, true, false⟩])
        true true false).2 = 0 ∧
      (openListenfd (before streams) (some [⟨some 3, false, false⟩, ⟨some 0, true, false⟩])
        true true false).1 3 = some .own ∧
      (openListenfd (before streams) (some [⟨some 3, false, false⟩, ⟨some 0, true, false⟩])
        true true false).1 0 = some .own ∧
      ¬TouchesOwn streams
        (openListenfd (before streams) (some [⟨some 3, false, false⟩, ⟨some 0, true, false⟩])
          true true false) := by
  refine ⟨?_, by decide, by decide, by decide, fun touches => ?_⟩
  · refine ⟨?_, fun next taken => ⟨?_, fun last taken' => ?_⟩⟩
    · rintro fd ⟨⟩
      rfl
    · obtain rfl := Except.ok.inj taken
      rintro fd ⟨⟩
      rfl
    · simp [step] at taken'
  · exact absurd (touches.1 0 rfl) (by decide)

end StudyRecord.OpenListenfd
