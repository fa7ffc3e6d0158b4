import Mathlib.Data.List.Basic

/-!
Streams that are read line by line. A line ends in CR LF, and a CR or an LF that
is not part of such a pair breaks the stream. Each line is handed to a step
function, which goes on in a new state or ends with a result.
-/

namespace StudyRecord.LineStream

section Lines

variable {α : Type} (cr lf : α)

def Plain (content : List α) : Prop := ∀ byte ∈ content, byte ≠ cr ∧ byte ≠ lf

instance [DecidableEq α] (content : List α) : Decidable (Plain cr lf content) :=
  inferInstanceAs (Decidable (∀ byte ∈ content, byte ≠ cr ∧ byte ≠ lf))

def joined (lines : List (List α)) : List α := (lines.map fun line => line ++ [cr, lf]).flatten

inductive Break : List α → Prop
  | afterCr (other : α) (rest : List α) (notLf : other ≠ lf) : Break (cr :: other :: rest)
  | bareLf (rest : List α) : Break (lf :: rest)

inductive Cut (α : Type)
  | line (content rest : List α)
  | broken
  | unfinished

def Cut.cons (byte : α) : Cut α → Cut α
  | .line content rest => .line (byte :: content) rest
  | .broken => .broken
  | .unfinished => .unfinished

def firstLine [DecidableEq α] : List α → Cut α
  | [] => .unfinished
  | byte :: rest =>
      if byte = cr then
        match rest with
        | [] => .unfinished
        | next :: rest => if next = lf then .line [] rest else .broken
      else if byte = lf then .broken
      else (firstLine rest).cons byte

inductive Cuts : List α → Cut α → Prop
  | line (content rest : List α) (plain : Plain cr lf content) :
      Cuts (content ++ cr :: lf :: rest) (.line content rest)
  | broken (content tail : List α) (plain : Plain cr lf content) (bad : Break cr lf tail) :
      Cuts (content ++ tail) .broken
  | plain (content : List α) (plain : Plain cr lf content) : Cuts content .unfinished
  | lastCr (content : List α) (plain : Plain cr lf content) : Cuts (content ++ [cr]) .unfinished

variable {cr lf}

theorem Plain.nil : Plain cr lf [] := by
  intro byte member
  contradiction

theorem Plain.cons {byte : α} {content : List α} (notCr : byte ≠ cr) (notLf : byte ≠ lf)
    (plain : Plain cr lf content) : Plain cr lf (byte :: content) := by
  intro other member
  rcases List.mem_cons.mp member with same | member
  · rw [same]
    exact ⟨notCr, notLf⟩
  · exact plain other member

theorem Plain.tail {byte : α} {content : List α} (plain : Plain cr lf (byte :: content)) :
    Plain cr lf content :=
  fun other member => plain other (List.mem_cons_of_mem _ member)

theorem Cuts.cons {byte : α} {stream : List α} {cut : Cut α} (notCr : byte ≠ cr)
    (notLf : byte ≠ lf) (cuts : Cuts cr lf stream cut) :
    Cuts cr lf (byte :: stream) (cut.cons byte) := by
  cases cuts with
  | line content rest plain => exact .line (byte :: content) rest (plain.cons notCr notLf)
  | broken content tail plain bad => exact .broken (byte :: content) tail (plain.cons notCr notLf) bad
  | plain content plain => exact .plain (byte :: stream) (plain.cons notCr notLf)
  | lastCr content plain => exact .lastCr (byte :: content) (plain.cons notCr notLf)

variable [DecidableEq α]

variable (cr lf) in
theorem firstLine_cuts (stream : List α) : Cuts cr lf stream (firstLine cr lf stream) := by
  induction stream with
  | nil => exact .plain [] .nil
  | cons byte rest ih =>
      simp only [firstLine]
      by_cases isCr : byte = cr
      · subst isCr
        simp only [if_true]
        cases rest with
        | nil => exact .lastCr [] .nil
        | cons next rest =>
            by_cases isLf : next = lf
            · subst isLf
              simp only [if_true]
              exact .line [] rest .nil
            · simp only [isLf, if_false]
              exact .broken [] _ .nil (.afterCr next rest isLf)
      · simp only [isCr, if_false]
        by_cases isLf : byte = lf
        · subst isLf
          simp only [if_true]
          exact .broken [] _ .nil (.bareLf rest)
        · simp only [isLf, if_false]
          exact ih.cons isCr isLf

theorem firstLine_cons {byte : α} (notCr : byte ≠ cr) (notLf : byte ≠ lf) (rest : List α) :
    firstLine cr lf (byte :: rest) = (firstLine cr lf rest).cons byte := by
  simp only [firstLine, notCr, notLf, if_false]

theorem firstLine_line {content : List α} (plain : Plain cr lf content) (rest : List α) :
    firstLine cr lf (content ++ cr :: lf :: rest) = .line content rest := by
  induction content with
  | nil => simp only [List.nil_append, firstLine, if_true]
  | cons byte content ih =>
      obtain ⟨notCr, notLf⟩ := plain byte List.mem_cons_self
      rw [List.cons_append, firstLine_cons notCr notLf, ih plain.tail]
      rfl

theorem firstLine_broken (different : cr ≠ lf) {content tail : List α}
    (plain : Plain cr lf content) (bad : Break cr lf tail) :
    firstLine cr lf (content ++ tail) = .broken := by
  induction content with
  | nil =>
      cases bad with
      | afterCr other rest notLf => simp only [List.nil_append, firstLine, notLf, if_true, if_false]
      | bareLf rest => simp only [List.nil_append, firstLine, different.symm, if_true, if_false]
  | cons byte content ih =>
      obtain ⟨notCr, notLf⟩ := plain byte List.mem_cons_self
      rw [List.cons_append, firstLine_cons notCr notLf, ih plain.tail]
      rfl

theorem firstLine_append (different : cr ≠ lf) (stream more : List α) :
    (∀ content rest, firstLine cr lf stream = .line content rest →
      firstLine cr lf (stream ++ more) = .line content (rest ++ more)) ∧
    (firstLine cr lf stream = .broken → firstLine cr lf (stream ++ more) = .broken) := by
  have cuts := firstLine_cuts cr lf stream
  generalize firstLine cr lf stream = cut at cuts
  cases cuts with
  | line content rest plain =>
      refine ⟨fun other behind same => ?_, fun isBroken => by contradiction⟩
      rw [Cut.line.injEq] at same
      rw [← same.1, ← same.2, List.append_assoc, List.cons_append, List.cons_append]
      exact firstLine_line plain _
  | broken content tail plain bad =>
      refine ⟨fun other behind same => by contradiction, fun _ => ?_⟩
      rw [List.append_assoc]
      apply firstLine_broken different plain
      cases bad with
      | afterCr other rest notLf => exact .afterCr other _ notLf
      | bareLf rest => exact .bareLf _
  | plain => exact ⟨fun _ _ same => by contradiction, fun isBroken => by contradiction⟩
  | lastCr => exact ⟨fun _ _ same => by contradiction, fun isBroken => by contradiction⟩

theorem firstLine_shorter {stream content rest : List α}
    (found : firstLine cr lf stream = .line content rest) : rest.length < stream.length := by
  have cuts := firstLine_cuts cr lf stream
  rw [found] at cuts
  cases cuts with
  | line =>
      rw [List.length_append, List.length_cons, List.length_cons]
      omega

end Lines

section Feed

variable {α σ ρ : Type} [DecidableEq α]

inductive Outcome (α σ ρ : Type)
  | waits (state : σ) (pending : List α)
  | ends (result : ρ)
  | broken

/-- Reads a stream line by line, and keeps the bytes of a line that is not finished. -/
def feed (cr lf : α) (step : σ → List α → Except ρ σ) (state : σ) (stream : List α) :
    Outcome α σ ρ :=
  match _ : firstLine cr lf stream with
  | .unfinished => .waits state stream
  | .broken => .broken
  | .line content rest =>
      match step state content with
      | .error result => .ends result
      | .ok next => feed cr lf step next rest
termination_by stream.length
decreasing_by exact firstLine_shorter (by assumption)

variable {cr lf : α} {step : σ → List α → Except ρ σ}

theorem feed_eq (state : σ) (stream : List α) :
    feed cr lf step state stream =
      match firstLine cr lf stream with
      | .unfinished => .waits state stream
      | .broken => .broken
      | .line content rest =>
          match step state content with
          | .error result => .ends result
          | .ok next => feed cr lf step next rest := by
  rw [feed]
  split <;> rename_i found <;> simp only [found]

theorem feed_append (different : cr ≠ lf) (state : σ) (stream more : List α) :
    feed cr lf step state (stream ++ more) =
      match feed cr lf step state stream with
      | .waits next pending => feed cr lf step next (pending ++ more)
      | .ends result => .ends result
      | .broken => .broken := by
  induction state, stream using @feed.induct _ _ _ _ cr lf step with
  | case1 state stream found =>
      rw [feed_eq state stream, found]
  | case2 state stream found =>
      have longer := (firstLine_append different stream more).2 found
      rw [feed_eq state stream, feed_eq state (stream ++ more), found, longer]
  | case3 state stream content rest found result ended =>
      have longer := (firstLine_append different stream more).1 content rest found
      rw [feed_eq state stream, feed_eq state (stream ++ more), found, longer]
      simp only [ended]
  | case4 state stream content rest found next continued ih =>
      have longer := (firstLine_append different stream more).1 content rest found
      rw [feed_eq state stream, feed_eq state (stream ++ more), found, longer]
      simp only [continued]
      exact ih

theorem feed_line {content : List α} (plain : Plain cr lf content) (state : σ) (rest : List α) :
    feed cr lf step state (content ++ cr :: lf :: rest) =
      match step state content with
      | .error result => .ends result
      | .ok next => feed cr lf step next rest := by
  rw [feed_eq, firstLine_line plain]

theorem feed_lines (lines : List (List α)) {state next : σ}
    (plain : ∀ line ∈ lines, Plain cr lf line) (accepted : lines.foldlM step state = .ok next)
    (rest : List α) :
    feed cr lf step state (joined cr lf lines ++ rest) = feed cr lf step next rest := by
  induction lines generalizing state with
  | nil =>
      obtain rfl : state = next := Except.ok.inj accepted
      rfl
  | cons line lines ih =>
      rw [List.foldlM_cons] at accepted
      have split : joined cr lf (line :: lines) ++ rest =
          line ++ cr :: lf :: (joined cr lf lines ++ rest) := by
        simp [joined]
      rw [split, feed_line (plain line List.mem_cons_self)]
      cases continued : step state line with
      | error result =>
          rw [continued] at accepted
          contradiction
      | ok middle =>
          rw [continued] at accepted
          exact ih (fun other member => plain other (List.mem_cons_of_mem _ member)) accepted

inductive Reading (cr lf : α) (step : σ → List α → Except ρ σ) (state : σ) (stream : List α) :
    Outcome α σ ρ → Prop
  | waits (lines : List (List α)) (next : σ) (pending : List α)
      (plain : ∀ line ∈ lines, Plain cr lf line) (accepted : lines.foldlM step state = .ok next)
      (unfinished : firstLine cr lf pending = .unfinished)
      (whole : stream = joined cr lf lines ++ pending) : Reading cr lf step state stream (.waits next pending)
  | ends (lines : List (List α)) (next : σ) (last rest : List α) (result : ρ)
      (plain : ∀ line ∈ lines, Plain cr lf line) (accepted : lines.foldlM step state = .ok next)
      (plainLast : Plain cr lf last) (ended : step next last = .error result)
      (whole : stream = joined cr lf lines ++ (last ++ cr :: lf :: rest)) :
      Reading cr lf step state stream (.ends result)
  | broken (lines : List (List α)) (next : σ) (content tail : List α)
      (plain : ∀ line ∈ lines, Plain cr lf line) (accepted : lines.foldlM step state = .ok next)
      (plainContent : Plain cr lf content) (bad : Break cr lf tail)
      (whole : stream = joined cr lf lines ++ (content ++ tail)) :
      Reading cr lf step state stream .broken

theorem Reading.line {state next : σ} {content rest : List α} {outcome : Outcome α σ ρ}
    (plain : Plain cr lf content) (continued : step state content = .ok next)
    (reading : Reading cr lf step next rest outcome) :
    Reading cr lf step state (content ++ cr :: lf :: rest) outcome := by
  have plainAll {lines : List (List α)} (others : ∀ line ∈ lines, Plain cr lf line) :
      ∀ line ∈ content :: lines, Plain cr lf line :=
    List.forall_mem_cons.mpr ⟨plain, others⟩
  have acceptedAll {lines : List (List α)} {final : σ} (accepted : lines.foldlM step next = .ok final) :
      (content :: lines).foldlM step state = .ok final := by
    rw [List.foldlM_cons, continued]
    exact accepted
  have wholeAll {lines : List (List α)} {tail : List α} (whole : rest = joined cr lf lines ++ tail) :
      content ++ cr :: lf :: rest = joined cr lf (content :: lines) ++ tail := by
    rw [whole]
    simp [joined]
  cases reading with
  | waits lines final pending others accepted unfinished whole =>
      exact .waits _ final pending (plainAll others) (acceptedAll accepted) unfinished (wholeAll whole)
  | ends lines final last behind result others accepted plainLast ended whole =>
      exact .ends _ final last behind result (plainAll others) (acceptedAll accepted) plainLast ended
        (wholeAll whole)
  | broken lines final part tail others accepted plainPart bad whole =>
      exact .broken _ final part tail (plainAll others) (acceptedAll accepted) plainPart bad
        (wholeAll whole)

variable (cr lf step) in
theorem feed_reading (state : σ) (stream : List α) :
    Reading cr lf step state stream (feed cr lf step state stream) := by
  have none : ∀ line ∈ ([] : List (List α)), Plain cr lf line := by
    intro line member
    contradiction
  induction state, stream using @feed.induct _ _ _ _ cr lf step with
  | case1 state stream found =>
      rw [feed_eq, found]
      exact .waits [] state stream none rfl found rfl
  | case2 state stream found =>
      have cuts := firstLine_cuts cr lf stream
      rw [feed_eq, found]
      rw [found] at cuts
      cases cuts with
      | broken content tail plain bad => exact .broken [] state content tail none rfl plain bad rfl
  | case3 state stream content rest found result ended =>
      have cuts := firstLine_cuts cr lf stream
      rw [feed_eq, found]
      rw [found] at cuts
      cases cuts with
      | line _ _ plain =>
          simp only [ended]
          exact .ends [] state content rest result none rfl plain ended rfl
  | case4 state stream content rest found next continued ih =>
      have cuts := firstLine_cuts cr lf stream
      rw [feed_eq, found]
      rw [found] at cuts
      cases cuts with
      | line _ _ plain =>
          simp only [continued]
          exact ih.line plain continued

theorem feed_waits {state next : σ} {stream pending : List α}
    (same : feed cr lf step state stream = .waits next pending) :
    firstLine cr lf pending = .unfinished ∧ ∃ before, stream = before ++ pending := by
  have reading := feed_reading cr lf step state stream
  rw [same] at reading
  cases reading with
  | waits lines _ _ _ _ unfinished whole => exact ⟨unfinished, joined cr lf lines, whole⟩

theorem feed_ends_iff (state : σ) (stream : List α) (result : ρ) :
    feed cr lf step state stream = .ends result ↔
      ∃ lines next last rest, (∀ line ∈ lines, Plain cr lf line) ∧
        lines.foldlM step state = .ok next ∧ Plain cr lf last ∧ step next last = .error result ∧
        stream = joined cr lf lines ++ (last ++ cr :: lf :: rest) := by
  constructor
  · intro same
    have reading := feed_reading cr lf step state stream
    rw [same] at reading
    cases reading with
    | ends lines next last rest _ plain accepted plainLast ended whole =>
        exact ⟨lines, next, last, rest, plain, accepted, plainLast, ended, whole⟩
  · rintro ⟨lines, next, last, rest, plain, accepted, plainLast, ended, rfl⟩
    rw [feed_lines lines plain accepted, feed_line plainLast, ended]

theorem feed_broken_iff (different : cr ≠ lf) (state : σ) (stream : List α) :
    feed cr lf step state stream = .broken ↔
      ∃ lines next content tail, (∀ line ∈ lines, Plain cr lf line) ∧
        lines.foldlM step state = .ok next ∧ Plain cr lf content ∧ Break cr lf tail ∧
        stream = joined cr lf lines ++ (content ++ tail) := by
  constructor
  · intro same
    have reading := feed_reading cr lf step state stream
    rw [same] at reading
    cases reading with
    | broken lines next content tail plain accepted plainContent bad whole =>
        exact ⟨lines, next, content, tail, plain, accepted, plainContent, bad, whole⟩
  · rintro ⟨lines, next, content, tail, plain, accepted, plainContent, bad, rfl⟩
    rw [feed_lines lines plain accepted, feed_eq, firstLine_broken different plainContent bad]

end Feed

end StudyRecord.LineStream
