import StudyRecord.Http.Response

/-!
Sending a response. `write` hands the iovecs to `writev` until all bytes are
out, and has to make them describe the unsent rest after every partial write.
-/

namespace StudyRecord.Http

open CString Machine

inductive Interest
  | epollIn
  | epollOut
  deriving DecidableEq, Repr

/-- A result of `writev` other than EAGAIN. A list of results ends in EAGAIN. -/
inductive Writev
  | sent (count : Nat)
  | error
  deriving DecidableEq, Repr

def Pointer.move (pointer : Pointer) (dif : Int) : Pointer :=
  ⟨pointer.region, pointer.offset + dif⟩

def Iovec.bytes (iov : Iovec) : List Pointer :=
  (List.range iov.len).map fun (index : Nat) => iov.base.move index

def Iovec.advance (iov : Iovec) (dif : Int) : Iovec :=
  ⟨iov.base.move dif, toSize (iov.len - dif)⟩

inductive WriteEnd
  | idle
  | again
  | failed
  | complete (kept : Bool)
  deriving DecidableEq, Repr

def WriteEnd.result : WriteEnd → Bool
  | .idle => true
  | .again => true
  | .failed => false
  | .complete kept => kept

def WriteEnd.modfd : WriteEnd → Option Interest
  | .idle => some .epollIn
  | .again => some .epollOut
  | .failed => none
  | .complete _ => some .epollIn

namespace HttpConn

def iov (c : HttpConn) : List Iovec := [c.iv0, c.iv1].take c.ivCount

def offered (c : HttpConn) : List Pointer := c.iov.flatMap Iovec.bytes

/-- The bookkeeping behind a successful `writev`. The comparison converts
`bytes_to_send` to `size_t`. -/
def advance (c : HttpConn) (temp : Int) : HttpConn :=
  let c := { c with
    bytesToSend := toInt (c.bytesToSend - temp)
    bytesHaveSend := toInt (c.bytesHaveSend + temp) }
  if toSize c.bytesToSend ≥ c.iv1.len then
    let dif := toInt (c.iv1.len - c.bytesToSend)
    { c with iv0 := ⟨c.iv0.base, 0⟩, iv1 := c.iv1.advance dif }
  else
    let dif := toInt (c.iv0.len + c.iv1.len - c.bytesToSend)
    { c with iv0 := c.iv0.advance dif }

def finish (c : HttpConn) : HttpConn × WriteEnd :=
  let c := c.unmap
  if c.linger then
    if c.checkedIdx < c.readIdx then (c, .complete false) else (c.init, .complete true)
  else (c, .complete false)

def writeLoop : List Writev → HttpConn → HttpConn × WriteEnd
  | [], c => (c, .again)
  | .error :: _, c => (c.unmap, .failed)
  | .sent count :: rest, c =>
      let c := c.advance (toInt count)
      if c.bytesToSend ≤ 0 then c.finish else writeLoop rest c

def write (c : HttpConn) (results : List Writev) : HttpConn × WriteEnd :=
  if c.bytesToSend = 0 then (c.init, .idle) else writeLoop results c

/-! Whole deliveries: `write` is called again after every EAGAIN. -/

/-- One `writev` of a delivery: the state it was called in, its count, all the
bytes handed over by then, and the state behind the bookkeeping. -/
structure Transfer where
  before : HttpConn
  count : Nat
  handed : List Pointer
  after : HttpConn

def loopTransfers (handed : List Pointer) : List Writev → HttpConn → List Transfer
  | [], _ => []
  | .error :: _, _ => []
  | .sent count :: rest, c =>
      let handed := handed ++ c.offered.take count
      let next := c.advance (toInt count)
      ⟨c, count, handed, next⟩ ::
        if next.bytesToSend ≤ 0 then [] else loopTransfers handed rest next

def handedBy (handed : List Pointer) (transfers : List Transfer) : List Pointer :=
  (transfers.getLast?.map Transfer.handed).getD handed

def transfers (handed : List Pointer) : List (List Writev) → HttpConn → List Transfer
  | [], _ => []
  | results :: rest, c =>
      let here := if c.bytesToSend = 0 then [] else loopTransfers handed results c
      here ++
        if (write c results).2 = .again then
          transfers (handedBy handed here) rest (write c results).1
        else []

def Transfer.Possible (transfer : Transfer) : Prop :=
  1 ≤ transfer.count ∧ transfer.count ≤ transfer.before.offered.length

/-- After a transfer either the whole response has been handed over, or the iovecs
describe the rest of it and their lengths sum to `bytes_to_send`. -/
def Transfer.Exact (whole : List Pointer) (transfer : Transfer) : Prop :=
  if transfer.after.bytesToSend ≤ 0 then transfer.handed = whole
  else transfer.handed ++ transfer.after.offered = whole ∧
    (transfer.after.iov.map Iovec.len).sum = transfer.after.bytesToSend

/-- A transfer that the bookkeeping gets right: all that is offered is taken, or
exactly the header of a response with a file is; where there is no file, a length
of the unused iovec that a truncation to `int` makes zero does as well. -/
def Transfer.Aligned (transfer : Transfer) : Prop :=
  transfer.count = transfer.before.offered.length ∨
    (transfer.before.ivCount = 2 ∧ transfer.count = transfer.before.iv0.len) ∨
    (transfer.before.ivCount = 1 ∧ 0 < transfer.before.iv1.len ∧
      2 ^ 32 ∣ transfer.before.iv1.len)

def response (c : HttpConn) : List Pointer :=
  Iovec.bytes ⟨⟨.writeBuf, 0⟩, c.writeIdx⟩ ++
    if c.ivCount = 2 then Iovec.bytes ⟨⟨.mapping c.fileAddress, 0⟩, c.fileStat.size⟩ else []

end HttpConn

/-! The places of an iovec. -/

@[simp] theorem Pointer.move_move (pointer : Pointer) (first second : Int) :
    (pointer.move first).move second = pointer.move (first + second) := by
  simp [Pointer.move, Int.add_assoc]

@[simp] theorem Pointer.move_zero (pointer : Pointer) : pointer.move 0 = pointer := by
  simp [Pointer.move]

theorem Pointer.move_inj {pointer : Pointer} {first second : Int} :
    pointer.move first = pointer.move second ↔ first = second := by
  simp [Pointer.move]

@[simp] theorem Iovec.bytes_length (iov : Iovec) : iov.bytes.length = iov.len := by
  simp [Iovec.bytes]

theorem Iovec.bytes_drop (iov : Iovec) (count : Nat) :
    iov.bytes.drop count =
      Iovec.bytes ⟨iov.base.move count, iov.len - count⟩ := by
  apply List.ext_getElem
  · simp
  · intro index left right
    simp [Iovec.bytes]

theorem Iovec.bytes_base {first second : Iovec} {left right : List Pointer}
    (some' : 0 < first.len) (more : 0 < second.len)
    (same : first.bytes ++ left = second.bytes ++ right) : first.base = second.base := by
  obtain ⟨firstLen, size⟩ : ∃ count, first.len = count + 1 := ⟨first.len - 1, by omega⟩
  obtain ⟨secondLen, size'⟩ : ∃ count, second.len = count + 1 := ⟨second.len - 1, by omega⟩
  have heads := congrArg List.head? same
  simpa [Iovec.bytes, size, size', List.range_succ_eq_map] using heads

namespace HttpConn

inductive Pending (c : HttpConn) : Prop
  | file (two : c.ivCount = 2) (apart : c.iv0.base.region ≠ c.iv1.base.region)
      (some' : 0 < c.iv1.len) (sum : c.bytesToSend = c.iv0.len + c.iv1.len)
  | page (one : c.ivCount = 1) (some' : 0 < c.iv0.len) (sum : c.bytesToSend = c.iv0.len)

theorem offered_two {c : HttpConn} (two : c.ivCount = 2) :
    c.offered = c.iv0.bytes ++ c.iv1.bytes := by
  simp [offered, iov, two]

theorem offered_one {c : HttpConn} (one : c.ivCount = 1) : c.offered = c.iv0.bytes := by
  simp [offered, iov, one]

theorem Pending.amount {c : HttpConn} (pending : c.Pending) :
    (c.offered.length : Int) = c.bytesToSend ∧ 0 < c.bytesToSend := by
  cases pending with
  | file two apart some' sum =>
      rw [offered_two two, List.length_append, Iovec.bytes_length, Iovec.bytes_length]
      omega
  | page one some' sum =>
      rw [offered_one one, Iovec.bytes_length]
      omega

theorem advance_bytesToSend (c : HttpConn) (temp : Int) :
    (c.advance temp).bytesToSend = toInt (c.bytesToSend - temp) := by
  simp only [advance]
  split <;> rfl

theorem advance_ivCount (c : HttpConn) (temp : Int) : (c.advance temp).ivCount = c.ivCount := by
  simp only [advance]
  split <;> rfl

theorem advance_iov (c : HttpConn) (temp : Int) (fits : FitsInt (c.bytesToSend - temp))
    (lower : 0 ≤ c.bytesToSend - temp) :
    ((c.iv1.len : Int) ≤ c.bytesToSend - temp →
        (c.advance temp).iv0 = ⟨c.iv0.base, 0⟩ ∧
          (c.advance temp).iv1 = c.iv1.advance (toInt (c.iv1.len - (c.bytesToSend - temp)))) ∧
      (c.bytesToSend - temp < c.iv1.len →
        (c.advance temp).iv0 =
            c.iv0.advance (toInt (c.iv0.len + c.iv1.len - (c.bytesToSend - temp))) ∧
          (c.advance temp).iv1 = c.iv1) := by
  have left := toInt_of_fits fits
  have size : (toSize (c.bytesToSend - temp) : Int) = c.bytesToSend - temp := by
    apply toSize_of_fits lower
    have upper := fits.2
    simp only [intMax] at upper
    omega
  constructor
  · intro enough
    have branch : toSize (c.bytesToSend - temp) ≥ c.iv1.len := by omega
    simp only [advance, left, branch, if_true, and_self]
  · intro short
    have branch : ¬toSize (c.bytesToSend - temp) ≥ c.iv1.len := by omega
    simp only [advance, left, branch, if_false, and_self]

theorem advance_zero (iov : Iovec) (bound : iov.len < 2 ^ 64) : iov.advance 0 = iov := by
  have size : toSize ((iov.len : Int) - 0) = iov.len := by
    simp only [toSize]
    omega
  simp only [Iovec.advance, size, Pointer.move_zero]

theorem advance_file {c : HttpConn} (two : c.ivCount = 2)
    (apart : c.iv0.base.region ≠ c.iv1.base.region) (some' : 0 < c.iv1.len)
    (sum : c.bytesToSend = c.iv0.len + c.iv1.len) (upper : c.bytesToSend ≤ intMax) (count : Nat)
    (least : 1 ≤ count) (rest : (count : Int) < c.bytesToSend) :
    ((c.advance count).offered = c.offered.drop count ↔ count = c.iv0.len) ∧
      (count = c.iv0.len → (c.advance count).Pending) := by
  have top : intMax = 2147483647 := rfl
  have fits : FitsInt (c.bytesToSend - count) := by
    simp only [FitsInt, intMin]
    omega
  obtain ⟨header, behind⟩ := advance_iov c count fits (by omega)
  have left : (c.advance count).bytesToSend = c.bytesToSend - count := by
    rw [advance_bytesToSend, toInt_of_fits fits]
  have two' : (c.advance count).ivCount = 2 := by rw [advance_ivCount, two]
  rw [offered_two two', offered_two two]
  by_cases inHeader : count ≤ c.iv0.len
  · obtain ⟨first, second⟩ := header (by omega)
    have moved : toInt (c.iv1.len - (c.bytesToSend - count)) = (count : Int) - c.iv0.len := by
      rw [toInt_of_fits (by simp only [FitsInt, intMin]; omega)]
      omega
    have size : (toSize ((c.iv1.len : Int) - (count - c.iv0.len)) : Int) =
        c.iv1.len - (count - c.iv0.len) := toSize_of_fits (by omega) (by omega)
    rw [moved] at second
    constructor
    · constructor
      · intro same
        by_contra different
        have rest : c.iv0.bytes.drop count ++ c.iv1.bytes =
            (c.iv0.bytes ++ c.iv1.bytes).drop count := by
          rw [List.drop_append_of_le_length (by simpa using inHeader)]
        rw [← rest, first, second, Iovec.bytes_drop] at same
        have same' : (c.iv1.advance (count - c.iv0.len)).bytes ++ [] =
            Iovec.bytes ⟨c.iv0.base.move count, c.iv0.len - count⟩ ++ c.iv1.bytes := by
          simpa [Iovec.bytes] using same
        have begins :=
          Iovec.bytes_base (by simp only [Iovec.advance]; omega) (by simp only; omega) same'
        have regions := congrArg Pointer.region begins
        exact apart regions.symm
      · intro same
        rw [first, second, same, Int.sub_self, advance_zero _ (by omega),
          List.drop_append_of_le_length (by simp), Iovec.bytes_drop]
        simp [Iovec.bytes]
    · intro same
      rw [same, Int.sub_self, advance_zero _ (by omega), ← same] at second
      refine .file two' (by rw [first, second]; exact apart) (by rw [second]; exact some') ?_
      rw [first, second, left, sum, same]
      simp only
      omega
  · obtain ⟨first, second⟩ := behind (by omega)
    have moved : toInt (c.iv0.len + c.iv1.len - (c.bytesToSend - count)) = count := by
      rw [toInt_of_fits (by simp only [FitsInt, intMin]; omega)]
      omega
    rw [moved] at first
    refine ⟨⟨fun same => ?_, fun same => by omega⟩, fun same => by omega⟩
    -- the length of the header iovec has wrapped around
    have lengths := congrArg List.length same
    rw [first, second, List.length_append, List.length_drop, List.length_append,
      Iovec.bytes_length, Iovec.bytes_length, Iovec.bytes_length] at lengths
    omega

theorem advance_page {c : HttpConn} (one : c.ivCount = 1) (sum : c.bytesToSend = c.iv0.len)
    (upper : c.bytesToSend ≤ intMax) (count : Nat) (least : 1 ≤ count)
    (rest : (count : Int) < c.bytesToSend) :
    ((c.advance count).offered = c.offered.drop count ↔
        0 < c.iv1.len ∧ 2 ^ 32 ∣ c.iv1.len) ∧
      (0 < c.iv1.len ∧ 2 ^ 32 ∣ c.iv1.len → (c.advance count).Pending) := by
  have top : intMax = 2147483647 := rfl
  have fits : FitsInt (c.bytesToSend - count) := by
    simp only [FitsInt, intMin]
    omega
  have fitsCount : FitsInt count := by
    simp only [FitsInt, intMin]
    omega
  obtain ⟨unused, used⟩ := advance_iov c count fits (by omega)
  have left : (c.advance count).bytesToSend = c.bytesToSend - count := by
    rw [advance_bytesToSend, toInt_of_fits fits]
  have one' : (c.advance count).ivCount = 1 := by rw [advance_ivCount, one]
  rw [offered_one one', offered_one one, Iovec.bytes_drop]
  by_cases small : (c.iv1.len : Int) ≤ c.bytesToSend - count
  · obtain ⟨first, _⟩ := unused small
    have no : ¬(0 < c.iv1.len ∧ 2 ^ 32 ∣ c.iv1.len) := by
      rintro ⟨some', multiple⟩
      have least := Nat.le_of_dvd some' multiple
      omega
    refine ⟨⟨fun same => ?_, fun aligned => absurd aligned no⟩, fun aligned => absurd aligned no⟩
    have lengths := congrArg List.length same
    rw [first, Iovec.bytes_length, Iovec.bytes_length] at lengths
    simp only at lengths
    omega
  · obtain ⟨first, second⟩ := used (by omega)
    have shift : (c.iv0.len : Int) + c.iv1.len - (c.bytesToSend - count) = count + c.iv1.len := by
      omega
    rw [shift] at first
    have aligned : toInt (count + c.iv1.len) = count ↔ 2 ^ 32 ∣ c.iv1.len := by
      have whole := toInt_eq_iff (count + c.iv1.len) count
      rw [toInt_of_fits fitsCount] at whole
      rw [whole]
      omega
    have right (exact' : toInt (count + c.iv1.len) = count) :
        (c.advance count).iv0 = ⟨c.iv0.base.move count, c.iv0.len - count⟩ := by
      have size : toSize ((c.iv0.len : Int) - count) = c.iv0.len - count := by
        have value : (toSize ((c.iv0.len : Int) - count) : Int) = c.iv0.len - count :=
          toSize_of_fits (by omega) (by omega)
        omega
      rw [first, exact', Iovec.advance, size]
    constructor
    · constructor
      · intro same
        refine ⟨by omega, aligned.mp ?_⟩
        rw [first] at same
        have lengths := congrArg List.length same
        rw [Iovec.bytes_length, Iovec.bytes_length] at lengths
        have some'' : 0 < c.iv0.len - count := by omega
        have begins := Iovec.bytes_base (Nat.lt_of_lt_of_eq some'' lengths.symm) some''
          (congrArg (· ++ []) same)
        exact Pointer.move_inj.mp begins
      · rintro ⟨_, multiple⟩
        rw [right (aligned.mpr multiple)]
    · rintro ⟨_, multiple⟩
      have exactly := right (aligned.mpr multiple)
      refine .page one' ?_ ?_
      · rw [exactly]
        simp only
        omega
      · rw [exactly, left, sum]
        simp only
        omega

/-! Runs. -/

structure OnTrack (c : HttpConn) (handed whole : List Pointer) : Prop where
  pending : c.Pending
  upper : c.bytesToSend ≤ intMax
  split : handed ++ c.offered = whole

theorem Pending.sum {c : HttpConn} (pending : c.Pending) :
    ((c.iov.map Iovec.len).sum : Int) = c.bytesToSend := by
  cases pending with
  | file two apart some' sum => simp [iov, two, sum]
  | page one some' sum => simp [iov, one, sum]

theorem Pending.advance {c : HttpConn} (pending : c.Pending) (upper : c.bytesToSend ≤ intMax)
    (transfer : Transfer) (same : transfer.before = c) (least : 1 ≤ transfer.count)
    (rest : transfer.count < c.offered.length) :
    ((HttpConn.advance c transfer.count).offered = c.offered.drop transfer.count ↔
        transfer.Aligned) ∧
      (transfer.Aligned → (HttpConn.advance c transfer.count).Pending) := by
  subst same
  have amount := pending.amount.1
  have partly : transfer.count ≠ transfer.before.offered.length := by omega
  cases pending with
  | file two apart some' sum =>
      have aligned : transfer.Aligned ↔ transfer.count = transfer.before.iv0.len := by
        simp [Transfer.Aligned, partly, two]
      rw [aligned]
      exact advance_file two apart some' sum upper transfer.count least (by omega)
  | page one some' sum =>
      have aligned : transfer.Aligned ↔
          0 < transfer.before.iv1.len ∧ 2 ^ 32 ∣ transfer.before.iv1.len := by
        simp [Transfer.Aligned, partly, one]
      rw [aligned]
      exact advance_page one sum upper transfer.count least (by omega)

theorem OnTrack.transfer {c : HttpConn} {handed whole : List Pointer}
    (track : c.OnTrack handed whole) (count : Nat) (least : 1 ≤ count)
    (most : count ≤ c.offered.length) :
    let transfer : Transfer :=
      ⟨c, count, handed ++ c.offered.take count, c.advance (toInt count)⟩
    (transfer.Exact whole ↔ transfer.Aligned) ∧
      (transfer.Aligned → 0 < transfer.after.bytesToSend →
        transfer.after.OnTrack transfer.handed whole) := by
  intro transfer
  obtain ⟨amount, _⟩ := track.pending.amount
  have upper := track.upper
  have fits (value : Int) (lower : 0 ≤ value) (most : value ≤ intMax) : FitsInt value := by
    simp only [FitsInt, intMin]
    omega
  have narrow : toInt count = count := toInt_of_fits (fits _ (by omega) (by omega))
  have after : transfer.after = c.advance count := by
    rw [← narrow]
  have left : transfer.after.bytesToSend = c.bytesToSend - count := by
    rw [after, advance_bytesToSend, toInt_of_fits (fits _ (by omega) (by omega))]
  have parts : handed ++ c.offered.take count ++ c.offered.drop count = whole := by
    rw [List.append_assoc, List.take_append_drop, track.split]
  by_cases all : count = c.offered.length
  · have done : transfer.after.bytesToSend ≤ 0 := by omega
    have handedAll : transfer.handed = whole := by
      rw [all, List.drop_length, List.append_nil] at parts
      rw [← parts, ← all]
    refine ⟨?_, fun _ more => by omega⟩
    simp only [Transfer.Exact, done, if_true, handedAll, true_iff]
    exact Or.inl all
  · have more : ¬transfer.after.bytesToSend ≤ 0 := by omega
    obtain ⟨described, kept⟩ := track.pending.advance upper transfer rfl least (by
      have count' : transfer.count = count := rfl
      omega)
    have split : transfer.handed ++ transfer.after.offered = whole ↔ transfer.Aligned := by
      rw [← described, ← parts, List.append_cancel_left_eq, after]
    rw [← after] at kept
    constructor
    · simp only [Transfer.Exact, more, if_false, split]
      exact ⟨fun both => both.1, fun aligned => ⟨aligned, (kept aligned).sum⟩⟩
    · intro aligned _
      exact ⟨kept aligned, by omega, split.mpr aligned⟩

theorem handedBy_cons (handed : List Pointer) (transfer : Transfer) (rest : List Transfer) :
    handedBy handed (transfer :: rest) = handedBy transfer.handed rest := by
  cases rest with
  | nil => rfl
  | cons next rest => simp [handedBy, List.getLast?_cons]

theorem loopTransfers_exact_iff (results : List Writev) (c : HttpConn)
    (handed whole : List Pointer) (track : c.OnTrack handed whole)
    (possible : ∀ transfer ∈ loopTransfers handed results c, transfer.Possible) :
    ((∀ transfer ∈ loopTransfers handed results c, transfer.Exact whole) ↔
        ∀ transfer ∈ loopTransfers handed results c, transfer.Aligned) ∧
      ((∀ transfer ∈ loopTransfers handed results c, transfer.Aligned) →
        (writeLoop results c).2 = .again →
          (writeLoop results c).1.OnTrack (handedBy handed (loopTransfers handed results c)) whole) := by
  induction results generalizing c handed with
  | nil =>
      refine ⟨by simp [loopTransfers], fun _ _ => ?_⟩
      simpa [loopTransfers, handedBy, writeLoop] using track
  | cons result rest ih =>
      cases result with
      | error => simp [loopTransfers, writeLoop]
      | sent count =>
          simp only [loopTransfers, List.forall_mem_cons, writeLoop, handedBy_cons] at possible ⊢
          obtain ⟨here, later⟩ := possible
          obtain ⟨exact', kept⟩ := track.transfer count here.1 here.2
          by_cases done : (c.advance (toInt count)).bytesToSend ≤ 0
          · simp only [done, if_true]
            refine ⟨by simpa using exact', fun _ again => ?_⟩
            simp only [finish] at again
            split at again
            · split at again <;> simp at again
            · simp at again
          · simp only [done, if_false] at later ⊢
            by_cases aligned : Transfer.Aligned
                ⟨c, count, handed ++ c.offered.take count, c.advance (toInt count)⟩
            · have next := ih _ _ (kept aligned (by simp only; omega)) later
              refine ⟨and_congr exact' next.1, fun all => next.2 all.2⟩
            · have inexact := fun exactly => aligned (exact'.mp exactly)
              exact ⟨⟨fun all => absurd all.1 inexact, fun all => absurd all.1 aligned⟩,
                fun all => absurd all.1 aligned⟩

theorem transfers_exact_iff (calls : List (List Writev)) (c : HttpConn)
    (handed whole : List Pointer) (track : c.OnTrack handed whole)
    (possible : ∀ transfer ∈ transfers handed calls c, transfer.Possible) :
    (∀ transfer ∈ transfers handed calls c, transfer.Exact whole) ↔
      ∀ transfer ∈ transfers handed calls c, transfer.Aligned := by
  induction calls generalizing c handed with
  | nil => simp [transfers]
  | cons results rest ih =>
      have some' : c.bytesToSend ≠ 0 := by
        have positive := track.pending.amount.2
        omega
      simp only [transfers, write, some', if_false, List.forall_mem_append] at possible ⊢
      obtain ⟨here, later⟩ := possible
      obtain ⟨exact', kept⟩ := loopTransfers_exact_iff results c handed whole track here
      by_cases again : (writeLoop results c).2 = .again
      · simp only [again, if_true] at later ⊢
        by_cases aligned : ∀ transfer ∈ loopTransfers handed results c, transfer.Aligned
        · exact and_congr exact' (ih _ _ (kept aligned again) later)
        · have inexact := fun exactly => aligned (exact'.mp exactly)
          exact ⟨fun all => absurd all.1 inexact, fun all => absurd all.1 aligned⟩
      · simp only [again, if_false]
        exact and_congr exact' (by simp)

/-! Prepared responses. -/

theorem addResponse_positive (c : HttpConn) (text : List UInt8) (some' : text ≠ [])
    (added : (addResponse c text).2 = true) : 0 < (addResponse c text).1.writeIdx := by
  have length := List.length_pos_of_ne_nil some'
  simp only [addResponse] at added ⊢
  split at added
  · simp at added
  · split at added
    · simp at added
    · rename_i room fits
      simp only [room, fits, if_false]
      omega

theorem sendFile_onTrack (c : HttpConn) (some' : c.fileStat.size ≠ 0)
    (small : ((sendFile c).1.response.length : Int) ≤ intMax) :
    (sendFile c).1.OnTrack [] (sendFile c).1.response := by
  have added := (addStatusLine_appends c 200 ok200Title).trans
    (addHeaders_appends (addStatusLine c 200 ok200Title).1
      (toInt (addStatusLine c 200 ok200Title).1.fileStat.size))
  simp only [sendFile] at small ⊢
  generalize (addHeaders (addStatusLine c 200 ok200Title).1
    (toInt (addStatusLine c 200 ok200Title).1.fileStat.size)).1 = header at added small ⊢
  have size : header.fileStat.size ≠ 0 := by
    rw [added.frame]
    exact some'
  simp only [response, List.length_append, Iovec.bytes_length, if_true] at small
  have amount : toInt (header.writeIdx + header.fileStat.size) =
      header.writeIdx + header.fileStat.size := by
    apply toInt_of_fits
    simp only [FitsInt, intMin]
    omega
  refine ⟨.file rfl (by simp) (by simp only; omega) ?_, ?_, ?_⟩
  · simp only [amount]
  · have bound : (header.writeIdx : Int) + header.fileStat.size ≤ intMax := by omega
    simp only [amount]
    exact bound
  · simp [response, offered, iov]

theorem processWrite_onTrack (c : HttpConn) (code : HttpCode)
    (prepared : (processWrite c code).2 = true)
    (small : ((processWrite c code).1.response.length : Int) ≤ intMax) :
    (processWrite c code).1.OnTrack [] (processWrite c code).1.response := by
  have page (status : Int) (title content : List UInt8) (some' : content ≠ [])
      (added : (sendBuffer (addPage c status title content)).2 = true)
      (small : ((sendBuffer (addPage c status title content)).1.response.length : Int) ≤ intMax) :
      (sendBuffer (addPage c status title content)).1.OnTrack []
        (sendBuffer (addPage c status title content)).1.response := by
    simp only [sendBuffer] at added small ⊢
    by_cases ok : (addPage c status title content).2 = true
    · simp only [ok, if_true] at small ⊢
      have positive := addResponse_positive _ content some' ok
      refine ⟨.page rfl positive rfl, ?_, ?_⟩
      · simpa [response] using small
      · simp [response, offered, iov]
    · simp [ok] at added
  cases code with
  | internalError => exact page _ _ _ (by decide) prepared small
  | noResource => exact page _ _ _ (by decide) prepared small
  | forbiddenRequest => exact page _ _ _ (by decide) prepared small
  | fileRequest =>
      simp only [processWrite] at prepared small ⊢
      split
      · rename_i some'
        rw [if_pos some'] at small
        exact sendFile_onTrack c some' small
      · rename_i none
        rw [if_neg none] at prepared small
        exact page _ _ _ (by decide) prepared small
  | noRequest => simp [processWrite] at prepared
  | getRequest => simp [processWrite] at prepared
  | badRequest => simp [processWrite] at prepared
  | closedConnection => simp [processWrite] at prepared

/-- Whatever counts `writev` returns and however often `write` has to be called
again, header and file go out byte for byte exactly when every count ends at the
end of the header or of the response. -/
theorem write_exact_iff (c : HttpConn) (code : HttpCode) (calls : List (List Writev))
    (prepared : (processWrite c code).2 = true)
    (small : ((processWrite c code).1.response.length : Int) ≤ intMax)
    (possible : ∀ transfer ∈ transfers [] calls (processWrite c code).1, transfer.Possible) :
    (∀ transfer ∈ transfers [] calls (processWrite c code).1,
        transfer.Exact (processWrite c code).1.response) ↔
      ∀ transfer ∈ transfers [] calls (processWrite c code).1, transfer.Aligned :=
  transfers_exact_iff calls _ [] _ (processWrite_onTrack c code prepared small) possible

def fourByteFile : HttpConn := { zeroed with fileStat := ⟨0o100644, 4⟩, fileAddress := 4096 }

instance (whole : List Pointer) (transfer : Transfer) : Decidable (transfer.Exact whole) :=
  inferInstanceAs (Decidable (if transfer.after.bytesToSend ≤ 0 then transfer.handed = whole
    else transfer.handed ++ transfer.after.offered = whole ∧
      (transfer.after.iov.map Iovec.len).sum = transfer.after.bytesToSend))

instance (transfer : Transfer) : Decidable transfer.Possible :=
  inferInstanceAs (Decidable (_ ∧ _))

theorem write_exact_iff_whole :
    (∀ transfer ∈ transfers [] [[], [.sent 59]] (processWrite fourByteFile .fileRequest).1,
        transfer.Exact (processWrite fourByteFile .fileRequest).1.response) ↔
      ∀ transfer ∈ transfers [] [[], [.sent 59]] (processWrite fourByteFile .fileRequest).1,
        transfer.Aligned :=
  write_exact_iff fourByteFile .fileRequest [[], [.sent 59]] (by decide +kernel)
    (by decide +kernel) (by decide +kernel)

/-- The kernel takes three bytes of the header. -/
theorem partial_header_lost :
    (processWrite fourByteFile .fileRequest).2 = true ∧
      ((processWrite fourByteFile .fileRequest).1.response.length : Int) ≤ intMax ∧
      (∀ transfer ∈ transfers [] [[.sent 3]] (processWrite fourByteFile .fileRequest).1,
        transfer.Possible) ∧
      ¬∀ transfer ∈ transfers [] [[.sent 3]] (processWrite fourByteFile .fileRequest).1,
        transfer.Exact (processWrite fourByteFile .fileRequest).1.response := by
  decide +kernel

end HttpConn

end StudyRecord.Http
