import Mathlib.Algebra.Order.Group.Nat
import Mathlib.Data.List.Basic

/-!
`write_nbytes` of `test_pressure/testPressure.cpp`, which sends a buffer to a socket that does
not block. A byte of memory is known by its place from the start of the buffer, so that
what lies before the buffer has a negative place.
-/

namespace StudyRecord.Pressure

structure SendResult where
  bytesWrite : Int
  again : Bool
  deriving DecidableEq

/-- The call, with the result once it has returned. `accepted` and `offered` are looked at by
no function: the places that the socket has accepted, and the start and the length of what
each `send` has offered. `len` is an `int` of the source, and has no bound here: it grows by one
at each refusal, so that an overflow takes as many of these as its type has room for. -/
structure Writer where
  buffer : Int
  len : Int
  returned : Option Bool
  accepted : List Int
  offered : List (Int × Int)
  deriving DecidableEq

namespace Writer

def start (len : Nat) : Writer := ⟨0, len, none, [], []⟩

def places (w : Writer) (bytesWrite : Int) : List Int :=
  (List.range bytesWrite.toNat).map fun place : Nat => w.buffer + (place : Int)

/-- One pass of the loop. A refused `send` goes the way of one that has sent -1 bytes. -/
def pass (w : Writer) (result : SendResult) : Writer :=
  let bytesWrite := result.bytesWrite
  let w := { w with
    accepted := w.accepted ++ w.places bytesWrite
    offered := w.offered ++ [(w.buffer, w.len)] }
  if bytesWrite = -1 ∧ result.again = false then
    { w with returned := some false }
  else if bytesWrite = 0 then
    { w with returned := some false }
  else
    let w := { w with len := w.len - bytesWrite, buffer := w.buffer + bytesWrite }
    if w.len ≤ 0 then
      { w with returned := some true }
    else
      w

/-- `send` accepts no more than it is offered, and is called until the call returns. -/
def Answers (w : Writer) : List SendResult → Prop
  | [] => True
  | result :: rest =>
      (w.returned = none ∧ -1 ≤ result.bytesWrite ∧ result.bytesWrite ≤ w.len) ∧
        (w.pass result).Answers rest

end Writer

def writeNbytes (len : Nat) (results : List SendResult) : Writer :=
  results.foldl Writer.pass (.start len)

/-- What the call is for: once it has returned true, the socket has accepted the buffer, each
byte once and in order, and nothing outside of the buffer is ever offered. -/
def SendsBuffer (len : Nat) (w : Writer) : Prop :=
  (w.returned = some true → w.accepted = (List.range len).map Nat.cast) ∧
    ∀ range ∈ w.offered, 0 ≤ range.1 ∧ range.1 + range.2 ≤ len

def taken : List SendResult → Nat
  | [] => 0
  | result :: rest => result.bytesWrite.toNat + taken rest

def SendResult.refused (result : SendResult) : Bool :=
  decide (result.bytesWrite = -1) && result.again

def refusals (results : List SendResult) : Nat := results.countP SendResult.refused

/-- A call that is refused does not get as far as returning true, and at each `send` the
earlier ones have accepted at least one byte for each refusal. -/
def Undisturbed (len : Nat) (results : List SendResult) : Prop :=
  (refusals results = 0 ∨ taken results < len + refusals results) ∧
    ∀ sent < results.length, refusals (results.take sent) ≤ taken (results.take sent)

/-! What the call has done after some results. -/

structure Reached (len : Nat) (done : List SendResult) (w : Writer) : Prop where
  buffer : w.buffer = (taken done : Int) - refusals done
  left : w.len = len - w.buffer
  amount : w.accepted.length = taken done
  inOrder : refusals done = 0 → w.accepted = (List.range (taken done)).map Nat.cast
  running : w.returned = none → 1 ≤ w.len
  complete : w.returned = some true → w.len = 0
  gaveUp : w.returned = some false → 1 ≤ w.len
  inside : (∀ range ∈ w.offered, 0 ≤ range.1 ∧ range.1 + range.2 ≤ len) ↔
    ∀ sent < done.length, refusals (done.take sent) ≤ taken (done.take sent)

theorem taken_append (done : List SendResult) (result : SendResult) :
    taken (done ++ [result]) = taken done + result.bytesWrite.toNat := by
  induction done with
  | nil => exact Nat.add_comm ..
  | cons first rest ih => rw [List.cons_append, taken, ih, taken, Nat.add_assoc]

theorem refusals_append (done : List SendResult) (result : SendResult) :
    refusals (done ++ [result]) = refusals done + if result.refused then 1 else 0 := by
  simp [refusals, List.countP_append, List.countP_singleton]

theorem reached_start {len : Nat} (positive : 1 ≤ len) : Reached len [] (.start len) where
  buffer := rfl
  left := (Int.sub_zero _).symm
  amount := rfl
  inOrder := fun _ => rfl
  running := fun _ => Int.ofNat_le.mpr positive
  complete := fun returned => by contradiction
  gaveUp := fun returned => by contradiction
  inside := iff_of_true (fun _ member => by contradiction) fun _ below => by contradiction

theorem places_of_nonpos (w : Writer) {bytesWrite : Int} (none : bytesWrite ≤ 0) :
    w.places bytesWrite = [] := by
  rw [Writer.places, Int.toNat_of_nonpos none]
  rfl

theorem Reached.offers {len : Nat} {done : List SendResult} {w : Writer}
    (reached : Reached len done w) (result : SendResult) :
    (∀ range ∈ w.offered ++ [(w.buffer, w.len)], 0 ≤ range.1 ∧ range.1 + range.2 ≤ len) ↔
      ∀ sent < (done ++ [result]).length,
        refusals ((done ++ [result]).take sent) ≤ taken ((done ++ [result]).take sent) := by
  have here : (0 ≤ w.buffer ∧ w.buffer + w.len ≤ len) ↔ refusals done ≤ taken done := by
    have left := reached.left
    have buffer := reached.buffer
    omega
  have earlier {sent : Nat} (below : sent ≤ done.length) :
      (done ++ [result]).take sent = done.take sent :=
    List.take_append_of_le_length below
  rw [List.forall_mem_append, List.forall_mem_singleton, here, reached.inside, List.length_append,
    List.length_singleton]
  constructor
  · rintro ⟨before, last⟩ sent below
    rw [earlier (by omega)]
    by_cases final : sent = done.length
    · rwa [final, List.take_length]
    · exact before sent (by omega)
  · intro all
    refine ⟨fun sent below => ?_, ?_⟩
    · rw [← earlier (by omega)]
      exact all sent (by omega)
    · have last := all done.length (by omega)
      rwa [earlier (Nat.le_refl _), List.take_length] at last

theorem Reached.refused {len : Nat} {done : List SendResult} {w : Writer}
    (reached : Reached len done w) {result : SendResult} (running : w.returned = none)
    (minus : result.bytesWrite = -1) (again : result.again = true) :
    Reached len (done ++ [result]) (w.pass result) := by
  have positive := reached.running running
  have next : w.pass result = { w with
      len := w.len + 1
      buffer := w.buffer - 1
      offered := w.offered ++ [(w.buffer, w.len)] } := by
    simp only [Writer.pass, minus, again, places_of_nonpos w (show (-1 : Int) ≤ 0 by decide),
      List.append_nil]
    rw [if_neg (by simp), if_neg (by decide), if_neg (by omega)]
    rfl
  have counted : refusals (done ++ [result]) = refusals done + 1 := by
    simp [refusals_append, SendResult.refused, minus, again]
  have amount : taken (done ++ [result]) = taken done := by
    simp [taken_append, minus]
  have buffer := reached.buffer
  have left := reached.left
  rw [next]
  exact {
    buffer := by
      rw [counted, amount]
      show w.buffer - 1 = _
      omega
    left := by
      show w.len + 1 = len - (w.buffer - 1)
      omega
    amount := reached.amount.trans amount.symm
    inOrder := fun none => by omega
    running := fun _ => by
      show 1 ≤ w.len + 1
      omega
    complete := fun returned => absurd (running.symm.trans returned) (by simp)
    gaveUp := fun returned => absurd (running.symm.trans returned) (by simp)
    inside := reached.offers result
  }

theorem Reached.stopped {len : Nat} {done : List SendResult} {w : Writer}
    (reached : Reached len done w) {result : SendResult} (running : w.returned = none)
    (stops : (result.bytesWrite = -1 ∧ result.again = false) ∨ result.bytesWrite = 0) :
    Reached len (done ++ [result]) (w.pass result) := by
  have positive := reached.running running
  have none : result.bytesWrite ≤ 0 := by omega
  have next : w.pass result = { w with
      offered := w.offered ++ [(w.buffer, w.len)]
      returned := some false } := by
    simp only [Writer.pass, places_of_nonpos w none, List.append_nil]
    by_cases failed : result.bytesWrite = -1 ∧ result.again = false
    · rw [if_pos failed]
    · rw [if_neg failed, if_pos (stops.resolve_left failed)]
  have quiet : ¬result.refused = true := by
    simp only [SendResult.refused, Bool.and_eq_true, decide_eq_true_eq, not_and,
      Bool.not_eq_true]
    rcases stops with failed | zero
    · exact fun _ => failed.2
    · omega
  have counted : refusals (done ++ [result]) = refusals done := by
    rw [refusals_append, if_neg quiet, Nat.add_zero]
  have amount : taken (done ++ [result]) = taken done := by
    rw [taken_append, Int.toNat_of_nonpos none, Nat.add_zero]
  rw [next]
  exact {
    buffer := by
      rw [counted, amount]
      exact reached.buffer
    left := reached.left
    amount := reached.amount.trans amount.symm
    inOrder := fun undisturbed => by
      rw [amount]
      exact reached.inOrder (counted.symm.trans undisturbed)
    running := fun returned => by contradiction
    complete := fun returned => absurd (Option.some.inj returned) (by decide)
    gaveUp := fun _ => positive
    inside := reached.offers result
  }

theorem Reached.sent {len : Nat} {done : List SendResult} {w : Writer}
    (reached : Reached len done w) {result : SendResult} (running : w.returned = none)
    (positive : 1 ≤ result.bytesWrite) (upper : result.bytesWrite ≤ w.len) :
    Reached len (done ++ [result]) (w.pass result) := by
  have quiet : ¬result.refused = true := by
    simp only [SendResult.refused, Bool.and_eq_true, decide_eq_true_eq, not_and]
    omega
  have counted : refusals (done ++ [result]) = refusals done := by
    rw [refusals_append, if_neg quiet, Nat.add_zero]
  have amount := taken_append done result
  have buffer := reached.buffer
  have left := reached.left
  have length : (w.accepted ++ w.places result.bytesWrite).length =
      taken (done ++ [result]) := by
    rw [List.length_append, reached.amount, Writer.places, List.length_map, List.length_range,
      amount]
  have inOrder (undisturbed : refusals (done ++ [result]) = 0) :
      w.accepted ++ w.places result.bytesWrite =
        (List.range (taken (done ++ [result]))).map Nat.cast := by
    have here : w.buffer = (taken done : Int) := by omega
    rw [reached.inOrder (counted.symm.trans undisturbed), Writer.places, here, amount,
      List.range_add, List.map_append, List.map_map]
    refine congrArg _ (List.map_congr_left fun place _ => ?_)
    exact (Int.natCast_add ..).symm
  have taken' : (taken (done ++ [result]) : Int) = taken done + result.bytesWrite := by omega
  have steps : w.pass result = { w with
      accepted := w.accepted ++ w.places result.bytesWrite
      offered := w.offered ++ [(w.buffer, w.len)]
      len := w.len - result.bytesWrite
      buffer := w.buffer + result.bytesWrite
      returned := if w.len - result.bytesWrite ≤ 0 then some true else w.returned } := by
    simp only [Writer.pass]
    rw [if_neg (by omega), if_neg (by omega)]
    split <;> rfl
  rw [steps]
  exact {
    buffer := by
      rw [counted, taken']
      show w.buffer + result.bytesWrite = _
      omega
    left := by
      show w.len - result.bytesWrite = len - (w.buffer + result.bytesWrite)
      omega
    amount := length
    inOrder := inOrder
    running := fun returned => by
      show 1 ≤ w.len - result.bytesWrite
      by_contra last
      simp only [if_pos (show w.len - result.bytesWrite ≤ 0 by omega)] at returned
      contradiction
    complete := fun returned => by
      show w.len - result.bytesWrite = 0
      by_contra more
      simp only [if_neg (show ¬w.len - result.bytesWrite ≤ 0 by omega), running] at returned
      contradiction
    gaveUp := fun returned => by
      simp only [running] at returned
      split at returned <;> contradiction
    inside := reached.offers result
  }

theorem Reached.pass {len : Nat} {done : List SendResult} {w : Writer}
    (reached : Reached len done w) {result : SendResult} (running : w.returned = none)
    (lower : -1 ≤ result.bytesWrite) (upper : result.bytesWrite ≤ w.len) :
    Reached len (done ++ [result]) (w.pass result) := by
  by_cases positive : 1 ≤ result.bytesWrite
  · exact reached.sent running positive upper
  by_cases zero : result.bytesWrite = 0
  · exact reached.stopped running (.inr zero)
  have minus : result.bytesWrite = -1 := by omega
  cases again : result.again with
  | false => exact reached.stopped running (.inl ⟨minus, again⟩)
  | true => exact reached.refused running minus again

theorem Reached.run {len : Nat} {done : List SendResult} {w : Writer}
    (reached : Reached len done w) {results : List SendResult} (answers : w.Answers results) :
    Reached len (done ++ results) (results.foldl Writer.pass w) := by
  induction results generalizing done w with
  | nil => rwa [List.append_nil]
  | cons result rest ih =>
      obtain ⟨⟨running, lower, upper⟩, later⟩ := answers
      have next := ih (reached.pass running lower upper) later
      rwa [List.append_assoc] at next

/-- The call sends its buffer exactly where no refusal moves the pointer back to what was
sent before and the call is completed after that, or to what lies before the buffer. -/
theorem writeNbytes_sendsBuffer_iff {len : Nat} (positive : 1 ≤ len) {results : List SendResult}
    (answers : (Writer.start len).Answers results) :
    SendsBuffer len (writeNbytes len results) ↔ Undisturbed len results := by
  have reached : Reached len results (writeNbytes len results) :=
    (reached_start positive).run answers
  have buffer := reached.buffer
  have left := reached.left
  refine and_congr ?_ reached.inside
  constructor
  · intro sent
    by_cases complete : (writeNbytes len results).returned = some true
    · have amount := reached.amount
      rw [sent complete, List.length_map, List.length_range] at amount
      have finished := reached.complete complete
      exact .inl (by omega)
    · have more : 1 ≤ (writeNbytes len results).len := by
        cases returned : (writeNbytes len results).returned with
        | none => exact reached.running returned
        | some result =>
            cases result with
            | false => exact reached.gaveUp returned
            | true => exact absurd returned complete
      exact .inr (by omega)
  · intro undisturbed complete
    have finished := reached.complete complete
    have none : refusals results = 0 := by omega
    have all : taken results = len := by omega
    rw [reached.inOrder none, all]

/-- The socket takes three bytes and refuses the fourth: the next one sent is the third again,
and the call has not returned when that is done. Without the refusal it is complete. -/
theorem writeNbytes_sendsBuffer_refused :
    SendsBuffer 4 (writeNbytes 4 [⟨3, false⟩, ⟨-1, true⟩, ⟨1, false⟩]) ∧
      SendsBuffer 4 (writeNbytes 4 [⟨3, false⟩, ⟨1, false⟩]) := by
  constructor
  · have answers : (Writer.start 4).Answers [⟨3, false⟩, ⟨-1, true⟩, ⟨1, false⟩] :=
      ⟨⟨rfl, by decide, by decide⟩, ⟨rfl, by decide, by decide⟩, ⟨rfl, by decide, by decide⟩,
        trivial⟩
    exact (writeNbytes_sendsBuffer_iff (by decide) answers).mpr ⟨.inr (by decide), by decide⟩
  · have answers : (Writer.start 4).Answers [⟨3, false⟩, ⟨1, false⟩] :=
      ⟨⟨rfl, by decide, by decide⟩, ⟨rfl, by decide, by decide⟩, trivial⟩
    exact (writeNbytes_sendsBuffer_iff (by decide) answers).mpr ⟨.inl rfl, by decide⟩

/-- A refusal between two parts: the first byte is sent twice. A refusal before the first
part: the byte before the buffer is sent. -/
theorem writeNbytes_refused :
    (Writer.start 2).Answers [⟨1, false⟩, ⟨-1, true⟩, ⟨2, false⟩] ∧
      (writeNbytes 2 [⟨1, false⟩, ⟨-1, true⟩, ⟨2, false⟩]).returned = some true ∧
      (writeNbytes 2 [⟨1, false⟩, ⟨-1, true⟩, ⟨2, false⟩]).accepted = [0, 0, 1] ∧
      ¬SendsBuffer 2 (writeNbytes 2 [⟨1, false⟩, ⟨-1, true⟩, ⟨2, false⟩]) ∧
      (Writer.start 2).Answers [⟨-1, true⟩, ⟨3, false⟩] ∧
      (writeNbytes 2 [⟨-1, true⟩, ⟨3, false⟩]).returned = some true ∧
      (writeNbytes 2 [⟨-1, true⟩, ⟨3, false⟩]).offered = [(0, 2), (-1, 3)] ∧
      ¬SendsBuffer 2 (writeNbytes 2 [⟨-1, true⟩, ⟨3, false⟩]) := by
  refine ⟨?_, by decide, by decide, fun sends => ?_, ?_, by decide, by decide, fun sends => ?_⟩
  · exact ⟨⟨rfl, by decide, by decide⟩, ⟨rfl, by decide, by decide⟩, ⟨rfl, by decide, by decide⟩,
      trivial⟩
  · exact absurd (sends.1 rfl) (by decide)
  · exact ⟨⟨rfl, by decide, by decide⟩, ⟨rfl, by decide, by decide⟩, trivial⟩
  · exact absurd (sends.2 (-1, 3) (by decide)).1 (by decide)

end StudyRecord.Pressure
