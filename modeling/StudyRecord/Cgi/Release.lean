import StudyRecord.Cgi.CommandLine

/-!
How the loop of `process` ends. After the end of the stream and after an error it removes
the descriptor and goes on, and from then on every `recv` is an error on a closed one.
-/

namespace StudyRecord.Cgi.CgiConn

open CString

def upTo (results : Nat → Recv) (count : Nat) : List Recv := (List.range count).map results

def arrived (results : Nat → Recv) (count : Nat) : List UInt8 :=
  (received (upTo results count)).take (bufferSize - 1)

def Fills (results : Nat → Recv) (count : Nat) : Prop :=
  ∃ waiting, waiting ≠ [] ∧ results count = .data waiting ∧
    (arrived results count).length < bufferSize - 1

def Passes (results : Nat → Recv) (count : Nat) : Prop :=
  Fills results count ∧ ¬HasEnd (arrived results (count + 1))

/-- An EAGAIN, or the letter r and an LF: the two ways out of the loop. -/
def WayOut (results : Nat → Recv) (count : Nat) : Prop :=
  results count = .again ∨ Fills results count ∧ HasEnd (arrived results (count + 1))

def LeavesLoop (results : Nat → Recv) : Prop :=
  ∃ count, (∀ early < count, Fills results early) ∧ WayOut results count

theorem upTo_succ (results : Nat → Recv) (count : Nat) :
    upTo results (count + 1) = upTo results count ++ [results count] := by
  rw [upTo, List.range_succ, List.map_append]
  rfl

theorem arrived_succ (results : Nat → Recv) (count : Nat) :
    arrived results (count + 1) = arrived results count ++
      (results count).bytes.take (bufferSize - 1 - (arrived results count).length) := by
  have split : received (upTo results (count + 1)) =
      received (upTo results count) ++ (results count).bytes := by
    rw [upTo_succ]
    simp [received]
  rw [arrived, split, List.take_append, arrived, List.length_take]
  congr 2
  omega

structure Closes (results : Nat → Recv) (count : Nat) : Prop where
  passes : ∀ early < count, Passes results early
  notAgain : results count ≠ .again
  notData : ¬Fills results count

theorem WayOut.not_passes {results : Nat → Recv} {count : Nat} (way : WayOut results count) :
    ¬Passes results count := by
  rintro ⟨⟨waiting, _, data, _⟩, openLine⟩
  rcases way with again | ⟨_, ended⟩
  · rw [again] at data
    contradiction
  · exact openLine ended

theorem Closes.not_leaves {results : Nat → Recv} {count : Nat} (closes : Closes results count) :
    ¬LeavesLoop results := by
  rintro ⟨last, fills, way⟩
  rcases Nat.lt_trichotomy count last with before | rfl | after
  · exact closes.notData (fills count before)
  · rcases way with again | ⟨data, _⟩
    · exact closes.notAgain again
    · exact closes.notData data
  · exact way.not_passes (closes.passes last after)

inductive Progress (results : Nat → Recv) (count : Nat) : Outcome → Prop
  | waits (c : CgiConn) (passes : ∀ early < count, Passes results early)
      (holding : c.Holding (arrived results count)) : Progress results count (.running c)
  | left (c : CgiConn) (leaves : LeavesLoop results) (removed : c.removed = 1) :
      Progress results count (.ended c)
  | spins (c : CgiConn) (last : Nat) (closes : Closes results last) (removed : 1 ≤ c.removed) :
      Progress results count (.running c)

theorem Holding.step {results : Nat → Recv} {count : Nat} {c : CgiConn}
    (holding : c.Holding (arrived results count)) (passes : ∀ early < count, Passes results early)
    (world : World) : Progress results (count + 1) (c.round world (results count)) := by
  have grows := arrived_succ results count
  have fills (early : Nat) (before : early < count) : Fills results early := (passes early before).1
  have closed (notAgain : results count ≠ .again) (notData : ¬Fills results count)
      (removes : c.round world (results count) = .running c.removefd) :
      Progress results (count + 1) (c.round world (results count)) := by
    rw [removes]
    exact .spins c.removefd count ⟨passes, notAgain, notData⟩ (Nat.le_add_left ..)
  cases result : results count with
  | again =>
      obtain ⟨next, ended, _, removed⟩ := holding.again world
      rw [ended]
      exact .left next ⟨count, fills, .inl result⟩ removed
  | error =>
      rw [← result]
      refine closed (by rw [result]; simp) ?_ (by rw [result]; rfl)
      rintro ⟨waiting, _, data, _⟩
      rw [result] at data
      contradiction
  | data waiting =>
      by_cases room : waiting ≠ [] ∧ (arrived results count).length < bufferSize - 1
      · have here : Fills results count := ⟨waiting, room.1, result, room.2⟩
        rw [result, Recv.bytes] at grows
        rcases holding.data world room.1 room.2 with
          ⟨end', next, ended, removed⟩ | ⟨next, continued, holding'⟩
        · rw [ended]
          rw [← grows] at end'
          exact .left next ⟨count, fills, .inr ⟨here, end'⟩⟩ removed
        · rw [continued]
          rw [← grows] at holding'
          refine .waits next (fun early before => ?_) holding'
          by_cases last : early = count
          · rw [last]
            exact ⟨here, holding'.openLine⟩
          · exact passes early (by omega)
      · rw [← result]
        refine closed (by rw [result]; simp) ?_ ?_
        · rintro ⟨other, some', data, small⟩
          rw [result] at data
          obtain rfl := Recv.data.inj data
          exact room ⟨some', small⟩
        · rw [result]
          refine holding.closed world ?_
          by_cases empty : waiting = []
          · exact .inl empty
          · exact .inr (Nat.le_of_not_lt fun small => room ⟨empty, small⟩)

theorem progress (results : Nat → Recv) (c : CgiConn) (sockfd : Int) (world : World) (count : Nat) :
    Progress results count (process world (.running (c.init sockfd)) (upTo results count)) := by
  induction count with
  | zero => exact .waits _ nofun (init_holding c sockfd)
  | succ count ih =>
      rw [upTo_succ, process_append]
      cases here : process world (.running (c.init sockfd)) (upTo results count) with
      | ended last =>
          rw [here] at ih
          cases ih with
          | left _ leaves removed => exact .left _ leaves removed
      | running held =>
          rw [here] at ih
          cases ih with
          | waits _ passes holding =>
              simp only [process, holding.removed, if_true]
              exact holding.step passes world
          | spins _ last closes removed =>
              have gone : held.removed ≠ 0 := by omega
              simp only [process, gone, if_false, round]
              exact .spins held.removefd last closes (Nat.le_add_left ..)

/-- The loop ends and has removed its descriptor at most once exactly if an EAGAIN or the end
of a line comes before the end of the stream, an error and a full buffer. -/
theorem released_once_iff (c : CgiConn) (sockfd : Int) (world : World) (results : Nat → Recv) :
    ((∃ count final, process world (.running (c.init sockfd)) (upTo results count) = .ended final) ∧
      ∀ count, (process world (.running (c.init sockfd)) (upTo results count)).conn.removed ≤ 1) ↔
      LeavesLoop results := by
  have now (count : Nat) := progress results c sockfd world count
  constructor
  · rintro ⟨⟨count, final, ended⟩, _⟩
    have here := now count
    rw [ended] at here
    cases here with
    | left _ leaves _ => exact leaves
  · intro leaves
    refine ⟨?_, fun count => ?_⟩
    · have ⟨last, _, way⟩ := leaves
      have here := now (last + 1)
      refine ⟨last + 1, ?_⟩
      cases result : process world (.running (c.init sockfd)) (upTo results (last + 1)) with
      | ended final => exact ⟨final, rfl⟩
      | running held =>
          rw [result] at here
          cases here with
          | waits _ passes _ => exact absurd (passes last (Nat.lt_succ_self _)) way.not_passes
          | spins _ _ closes _ => exact absurd leaves closes.not_leaves
    · have here := now count
      cases result : process world (.running (c.init sockfd)) (upTo results count) with
      | ended final =>
          rw [result] at here
          cases here with
          | left _ _ removed => exact removed.le
      | running held =>
          rw [result] at here
          cases here with
          | waits _ _ holding => exact holding.removed.le.trans (Nat.zero_le _)
          | spins _ _ closes _ => exact absurd leaves closes.not_leaves

/-- The peer closes: the descriptor is removed in every round, and there is no last one. -/
theorem peer_close_spins :
    (∀ count final, process everyProgram (.running (zeroed.init 7)) (upTo (fun _ => .data []) count) ≠
        .ended final) ∧
      (process everyProgram (.running (zeroed.init 7)) (upTo (fun _ => .data []) 2)).conn.removed = 2 := by
  refine ⟨fun count final ended => ?_, rfl⟩
  have closes : Closes (fun _ => .data []) 0 := by
    refine ⟨fun early before => absurd before (Nat.not_lt_zero _), by decide, ?_⟩
    rintro ⟨waiting, some', data, _⟩
    exact some' (Recv.data.inj data).symm
  have here := progress (fun _ => .data []) zeroed 7 everyProgram count
  rw [ended] at here
  cases here with
  | left _ leaves _ => exact closes.not_leaves leaves

end StudyRecord.Cgi.CgiConn
