import StudyRecord.Cgi.CgiConn

/-!
The line that names the program. `process` looks for the letter r before the LF where the
CR should be, and takes EAGAIN for data, so that no line is run as it was sent.
-/

namespace StudyRecord.Cgi

open CString

def Recv.bytes : Recv → List UInt8
  | .data waiting => waiting
  | _ => []

def Recv.goesOn : Recv → Bool
  | .data waiting => !waiting.isEmpty
  | .again => true
  | .error => false

theorem Recv.chunk {recv : Recv} (goesOn : recv.goesOn = true) (some' : recv ≠ .again) :
    ∃ waiting, waiting ≠ [] ∧ recv = .data waiting := by
  cases recv with
  | data waiting => exact ⟨waiting, by simpa [Recv.goesOn] using goesOn, rfl⟩
  | again => exact absurd rfl some'
  | error => contradiction

def received (script : List Recv) : List UInt8 := script.flatMap Recv.bytes

def crLf : List UInt8 := [13, 10]

namespace CgiConn

/-- What `process` should have done by the time these results have come in. -/
structure OnTime (world : World) (line : List UInt8) (script : List Recv) (c : CgiConn) : Prop where
  readIdx : c.readIdx = (received script).length
  inside : 0 ≤ c.readIdx ∧ c.readIdx ≤ bufferSize - 1
  looked : c.looked = if received script = line ++ crLf then [line] else []
  executed : c.executed =
    if received script = line ++ crLf ∧ world.access line = true ∧ world.fork = true then [line]
    else []

theorem process_append (world : World) (outcome : Outcome) (first second : List Recv) :
    process world outcome (first ++ second) = process world (process world outcome first) second := by
  induction first generalizing outcome with
  | nil => rfl
  | cons recv rest ih =>
      cases outcome with
      | running c => exact ih _
      | ended c =>
          have stays (script : List Recv) : process world (.ended c) script = .ended c := by
            cases script <;> rfl
          rw [stays, stays, stays]

theorem openLine_of_start {line bytes behind : List UInt8}
    (plain : ∀ byte ∈ line, byte ≠ 13 ∧ byte ≠ 10) (whole : bytes ++ behind = line ++ crLf) :
    ¬HasEnd bytes := by
  intro ended
  obtain ⟨index, letter, feed⟩ := (HasEnd.append ended : HasEnd (bytes ++ behind))
  rw [whole] at letter feed
  by_cases inLine : index + 1 < line.length
  · rw [List.getElem?_append_left inLine] at feed
    exact (plain lf (List.mem_of_getElem? feed)).2 rfl
  · rw [List.getElem?_append_right (by omega)] at feed
    have last : index = line.length := by
      obtain ⟨inside, here⟩ := List.getElem?_eq_some_iff.mp feed
      have two : crLf.length = 2 := rfl
      obtain first | second : index + 1 = line.length ∨ index + 1 = line.length + 1 := by omega
      · simp [first, crLf, lf] at here
      · omega
    rw [last, List.getElem?_append_right (Nat.le_refl _), Nat.sub_self] at letter
    exact absurd letter (by decide)

theorem Holding.chunks {line : List UInt8} (world : World) (script : List Recv) {c : CgiConn}
    {bytes : List UInt8} (holding : c.Holding bytes)
    (plain : ∀ byte ∈ line, byte ≠ 13 ∧ byte ≠ 10) (short : line.length < bufferSize - 2)
    (pieces : ∀ recv ∈ script, ∃ waiting, waiting ≠ [] ∧ recv = .data waiting)
    {behind : List UInt8} (whole : bytes ++ received script ++ behind = line ++ crLf) :
    ∃ next, process world (.running c) script = .running next ∧
      next.Holding (bytes ++ received script) := by
  induction script generalizing c bytes with
  | nil =>
      refine ⟨c, rfl, ?_⟩
      simpa [received] using holding
  | cons recv rest ih =>
      obtain ⟨waiting, some', rfl⟩ := pieces recv List.mem_cons_self
      have split : received (.data waiting :: rest) = waiting ++ received rest := rfl
      rw [split, ← List.append_assoc] at whole ⊢
      have total := congrArg List.length whole
      have positive := List.length_pos_of_ne_nil some'
      have two : crLf.length = 2 := rfl
      have size : bufferSize = 1024 := rfl
      simp only [List.length_append, two] at total
      have all : waiting.take (bufferSize - 1 - bytes.length) = waiting :=
        List.take_of_length_le (by omega)
      have result := holding.data world some' (by omega)
      rw [all] at result
      rcases result with ⟨ended, _⟩ | ⟨next, taken, holding'⟩
      · rw [List.append_assoc] at whole
        exact absurd ended (openLine_of_start plain whole)
      · simp only [process, holding.removed, if_true, taken]
        exact ih holding' (fun other member => pieces other (List.mem_cons_of_mem _ member)) whole

/-- Whatever the line and however it comes in, `process` has not kept count of it or has not
run it when it is complete. -/
theorem command_never_onTime (c : CgiConn) (sockfd : Int) (world : World) (line : List UInt8)
    (script : List Recv) (plain : ∀ byte ∈ line, byte ≠ 13 ∧ byte ≠ 10)
    (short : line.length < bufferSize - 2)
    (pieces : ∀ recv ∈ script, recv.goesOn = true) (whole : received script = line ++ crLf) :
    ¬∀ count, OnTime world line (script.take count)
      (process world (.running (c.init sockfd)) (script.take count)).conn := by
  intro onTime
  have start := init_holding c sockfd
  by_cases paused : .again ∈ script
  · obtain ⟨early, late, rfl, first⟩ := List.eq_append_cons_of_mem paused
    have chunks (recv : Recv) (member : recv ∈ early) :
        ∃ waiting, waiting ≠ [] ∧ recv = .data waiting := by
      refine Recv.chunk (pieces recv (List.mem_append_left _ member)) ?_
      rintro rfl
      exact first member
    have split : received (early ++ .again :: late) = received early ++ received late := by
      simp [received, Recv.bytes]
    rw [split] at whole
    obtain ⟨held, taken, holding⟩ := start.chunks world early plain short chunks whole
    obtain ⟨next, ended, readIdx, _⟩ := holding.again world
    have here := onTime (early.length + 1)
    have upTo : (early ++ .again :: late).take (early.length + 1) = early ++ [.again] :=
      List.take_length_add_append 1
    rw [upTo, process_append, taken] at here
    simp only [process, holding.removed, if_true, ended] at here
    have counted := here.readIdx
    have same : received (early ++ [.again]) = received early := by simp [received, Recv.bytes]
    rw [same] at counted
    simp only [Outcome.conn, readIdx, holding.readIdx, List.nil_append] at counted
    omega
  · have chunks (recv : Recv) (member : recv ∈ script) :
        ∃ waiting, waiting ≠ [] ∧ recv = .data waiting := by
      refine Recv.chunk (pieces recv member) ?_
      rintro rfl
      exact paused member
    have whole' : [] ++ received script ++ [] = line ++ crLf := by simpa using whole
    obtain ⟨held, taken, holding⟩ := start.chunks world script plain short chunks whole'
    have here := (onTime script.length).looked
    rw [List.take_length, taken, if_pos whole] at here
    simp only [Outcome.conn, holding.looked] at here
    contradiction

def zeroed : CgiConn := ⟨0, fun _ => 0, 0, [], [], 0⟩

def everyProgram : World := ⟨fun _ => true, true⟩

theorem command_never_onTime_split :
    ¬∀ count, OnTime everyProgram (bytes "/bin/ls")
      ([Recv.data (bytes "/bin/l"), .again, .data (bytes "s\r\n")].take count)
      (process everyProgram (.running (zeroed.init 7))
        ([Recv.data (bytes "/bin/l"), .again, .data (bytes "s\r\n")].take count)).conn :=
  command_never_onTime zeroed 7 everyProgram (bytes "/bin/ls") _ (by decide +kernel) (by decide)
    (by decide +kernel) (by decide +kernel)

/-- A whole line in one piece is not run; the EAGAIN behind it runs it with the CR at its end. -/
theorem whole_line_not_run :
    (process everyProgram (.running (zeroed.init 7)) [.data (bytes "/bin/ls\r\n")]).conn.executed = [] ∧
      (process everyProgram (.running (zeroed.init 7))
        [.data (bytes "/bin/ls\r\n"), .again]).conn.executed = [bytes "/bin/ls\r"] := by
  decide +kernel

end CgiConn

end StudyRecord.Cgi
