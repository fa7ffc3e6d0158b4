import StudyRecord.Http.Amount

/-!
Whether the loop of `write` gets to an end. Each round has to leave fewer bytes to
send, which it does as long as the iovecs offer some of them.
-/

namespace StudyRecord.Http.HttpConn

open CString Machine

/-- A count that `writev` can return: at least one byte of those it is offered, none
when none is offered, and no more than an `int` holds. -/
structure Transfer.Counted (transfer : Transfer) : Prop where
  some' : transfer.before.offered ≠ [] → 1 ≤ transfer.count
  nothing : transfer.before.offered = [] → transfer.count = 0
  upper : (transfer.count : Int) ≤ intMax

/-- The round ends the loop, or it leaves fewer bytes and not a negative number of them. -/
def Transfer.Progress (transfer : Transfer) : Prop :=
  transfer.after.bytesToSend ≤ 0 ∨
    0 ≤ transfer.after.bytesToSend ∧ transfer.after.bytesToSend < transfer.before.bytesToSend

def Transfer.left (transfer : Transfer) : Int := transfer.before.bytesToSend - transfer.count

/-- The length of the unused iovec of a page, seen against what is left of it. -/
def Transfer.Clear (unused : Nat) (transfer : Transfer) : Prop :=
  transfer.before.ivCount = 1 →
    transfer.left < unused ∧ ¬(2 ^ 32 : Int) ∣ unused - transfer.left

def Transfer.InRange (transfer : Transfer) : Prop :=
  0 ≤ transfer.before.bytesToSend ∨ intMin ≤ transfer.left

/-! Deliveries as paths from one state to the next. -/

def Path (c : HttpConn) : List Transfer → Prop
  | [] => True
  | transfer :: rest =>
      transfer.before = c ∧ transfer.after = c.advance (toInt transfer.count) ∧
        (transfer.after.bytesToSend ≤ 0 → rest = []) ∧ Path transfer.after rest

def reached (c : HttpConn) (transfers : List Transfer) : HttpConn :=
  (transfers.getLast?.map Transfer.after).getD c

theorem reached_cons (c : HttpConn) (transfer : Transfer) (rest : List Transfer) :
    reached c (transfer :: rest) = reached transfer.after rest := by
  cases rest with
  | nil => rfl
  | cons next rest => simp [reached, List.getLast?_cons]

theorem Path.append {c : HttpConn} {first second : List Transfer} (early : Path c first)
    (more : ∀ transfer ∈ first, 0 < transfer.after.bytesToSend)
    (late : Path (reached c first) second) : Path c (first ++ second) := by
  induction first generalizing c with
  | nil => exact late
  | cons transfer rest ih =>
      obtain ⟨before, after, _, next⟩ := early
      rw [reached_cons] at late
      have positive := more transfer List.mem_cons_self
      have later := ih next (fun other member => more other (List.mem_cons_of_mem _ member)) late
      exact ⟨before, after, fun done => by omega, later⟩

theorem loopTransfers_path (results : List Writev) (c : HttpConn) (handed : List Pointer) :
    Path c (loopTransfers handed results c) ∧
      ((writeLoop results c).2 = .again →
        reached c (loopTransfers handed results c) = (writeLoop results c).1 ∧
          ∀ transfer ∈ loopTransfers handed results c, 0 < transfer.after.bytesToSend) := by
  induction results generalizing c handed with
  | nil => exact ⟨trivial, fun _ => ⟨rfl, fun _ member => by contradiction⟩⟩
  | cons result rest ih =>
      cases result with
      | error => exact ⟨trivial, fun again => by contradiction⟩
      | sent count =>
          simp only [loopTransfers, writeLoop, reached_cons, List.forall_mem_cons]
          obtain ⟨path, last⟩ := ih (c.advance (toInt count)) (handed ++ c.offered.take count)
          by_cases done : (c.advance (toInt count)).bytesToSend ≤ 0
          · simp only [done, if_true]
            refine ⟨⟨rfl, rfl, fun _ => rfl, trivial⟩, fun again => ?_⟩
            simp only [finish] at again
            split at again
            · split at again <;> contradiction
            · contradiction
          · simp only [done, if_false]
            refine ⟨⟨rfl, rfl, fun done' => absurd done' done, path⟩, fun again => ?_⟩
            obtain ⟨same, more⟩ := last again
            exact ⟨same, by omega, more⟩

theorem transfers_path (calls : List (List Writev)) (c : HttpConn) (handed : List Pointer) :
    Path c (transfers handed calls c) := by
  induction calls generalizing c handed with
  | nil => exact trivial
  | cons results rest ih =>
      simp only [transfers]
      by_cases idle : c.bytesToSend = 0
      · have ending : (write c results).2 = .idle := by rw [write, if_pos idle]
        simp [idle, ending, Path]
      · have calls : write c results = writeLoop results c := by rw [write, if_neg idle]
        obtain ⟨path, last⟩ := loopTransfers_path results c handed
        simp only [idle, if_false, calls]
        split
        · rename_i again
          obtain ⟨same, more⟩ := last again
          refine path.append more ?_
          rw [same]
          exact ih _ _
        · rw [List.append_nil]
          exact path

theorem Path.pending {c : HttpConn} {ts : List Transfer} (path : Path c ts)
    (pending : 0 < c.bytesToSend) : ∀ transfer ∈ ts, 0 < transfer.before.bytesToSend := by
  induction ts generalizing c with
  | nil => exact fun _ member => by contradiction
  | cons transfer rest ih =>
      obtain ⟨before, _, last, next⟩ := path
      refine List.forall_mem_cons.mpr ⟨before ▸ pending, ?_⟩
      by_cases done : transfer.after.bytesToSend ≤ 0
      · rw [last done]
        exact fun _ member => by contradiction
      · exact ih next (by omega)

theorem Path.ivCount {c : HttpConn} {ts : List Transfer} (path : Path c ts) :
    ∀ transfer ∈ ts, transfer.before.ivCount = c.ivCount := by
  induction ts generalizing c with
  | nil => exact fun _ member => by contradiction
  | cons transfer rest ih =>
      obtain ⟨before, after, _, next⟩ := path
      have same : transfer.after.ivCount = c.ivCount := by rw [after, advance_ivCount]
      exact List.forall_mem_cons.mpr ⟨by rw [before], same ▸ ih next⟩

theorem transfers_idle {c : HttpConn} (calls : List (List Writev)) (handed : List Pointer)
    (idle : c.bytesToSend = 0) : transfers handed calls c = [] := by
  cases calls with
  | nil => rfl
  | cons results rest =>
      have ending : (write c results).2 = .idle := by rw [write, if_pos idle]
      simp [transfers, idle, ending]

/-! One transfer. -/

theorem toInt_mod (value : Int) : (toInt value - value) % 2 ^ 32 = 0 := by
  simp only [toInt, Int.bmod_def]
  omega

theorem toSize_eq (value : Int) : (toSize value : Int) = value % 2 ^ 64 := by
  simp only [toSize]
  omega

theorem offered_nil {c : HttpConn} : c.offered = [] ↔ (c.iov.map Iovec.len).sum = 0 := by
  rw [← List.length_eq_zero_iff, offered, List.length_flatMap]
  simp

theorem transfer_left {c : HttpConn} {transfer : Transfer} (before : transfer.before = c)
    (after : transfer.after = c.advance (toInt transfer.count)) (pending : 0 < c.bytesToSend)
    (fits : FitsInt c.bytesToSend) (counted : transfer.Counted) :
    FitsInt transfer.left ∧ transfer.after = c.advance transfer.count ∧
      transfer.after.bytesToSend = transfer.left := by
  have upper := counted.upper
  have bound := fits.2
  have count : toInt transfer.count = transfer.count := toInt_of_fits (by
    simp only [FitsInt, intMin]
    omega)
  have left : FitsInt transfer.left := by
    simp only [FitsInt, intMin, intMax, Transfer.left, before] at upper bound ⊢
    omega
  refine ⟨left, by rw [after, count], ?_⟩
  rw [after, count, advance_bytesToSend, ← before]
  exact toInt_of_fits left

/-! A response with a file. -/

structure SendsFile (c : HttpConn) : Prop where
  two : c.ivCount = 2
  some' : 0 < c.iv1.len
  pending : 0 < c.bytesToSend
  fits : FitsInt c.bytesToSend

theorem SendsFile.advance {c : HttpConn} (sends : c.SendsFile) {count : Nat}
    (fits : FitsInt (c.bytesToSend - count)) (more : 0 < c.bytesToSend - count) :
    (c.advance count).SendsFile := by
  obtain ⟨enough, short⟩ := advance_iov c count fits (Int.le_of_lt more)
  have left : (c.advance count).bytesToSend = c.bytesToSend - count := by
    rw [advance_bytesToSend, toInt_of_fits fits]
  refine ⟨by rw [advance_ivCount, sends.two], ?_, by rw [left]; exact more, by rw [left]; exact fits⟩
  by_cases branch : (c.iv1.len : Int) ≤ c.bytesToSend - count
  · -- the file iovec is made as long as what is left
    have upper := fits.2
    have dif : toInt (c.iv1.len - (c.bytesToSend - count)) = c.iv1.len - (c.bytesToSend - count) := by
      apply toInt_of_fits
      simp only [FitsInt, intMin, intMax] at upper ⊢
      omega
    have size := toSize_eq (c.iv1.len - (c.iv1.len - (c.bytesToSend - count)))
    rw [(enough branch).2, dif]
    simp only [Iovec.advance, intMax] at upper ⊢
    omega
  · rw [(short (by omega)).2]
    exact sends.some'

theorem SendsFile.progress {c : HttpConn} {ts : List Transfer} (sends : c.SendsFile)
    (path : Path c ts) (counted : ∀ transfer ∈ ts, transfer.Counted) :
    ∀ transfer ∈ ts, transfer.Progress := by
  induction ts generalizing c with
  | nil => exact fun _ member => by contradiction
  | cons transfer rest ih =>
      obtain ⟨before, after, last, next⟩ := path
      obtain ⟨here, later⟩ := List.forall_mem_cons.mp counted
      obtain ⟨fits, after', left⟩ := transfer_left before after sends.pending sends.fits here
      have offers : transfer.before.offered ≠ [] := by
        have some' := sends.some'
        rw [before, Ne, offered_nil, iov, sends.two]
        simp
        omega
      have least := here.some' offers
      have leaves : transfer.left = c.bytesToSend - transfer.count := by rw [Transfer.left, before]
      refine List.forall_mem_cons.mpr ⟨?_, ?_⟩
      · rw [Transfer.Progress, left, before]
        omega
      · by_cases done : transfer.after.bytesToSend ≤ 0
        · rw [last done]
          exact fun _ member => by contradiction
        · rw [leaves] at fits
          have more := sends.advance fits (by omega)
          rw [← after'] at more
          exact ih more next later

/-! A page, beside an iovec that it does not use. -/

structure SendsPage (unused : Nat) (c : HttpConn) : Prop where
  one : c.ivCount = 1
  other : c.iv1.len = unused
  pending : 0 < c.bytesToSend
  small : c.bytesToSend < writeBufferSize
  some' : 0 < c.iv0.len
  residue : (unused : Int) % 2 ^ 32 < writeBufferSize →
    (c.iv0.len : Int) = c.bytesToSend ∨
      (c.iv0.len : Int) = (c.bytesToSend - (unused : Int) % 2 ^ 32) % 2 ^ 64

structure Stalled (c : HttpConn) : Prop where
  one : c.ivCount = 1
  empty : c.iv0.len = 0
  pending : 0 < c.bytesToSend
  fits : FitsInt c.bytesToSend

theorem SendsPage.fits {unused : Nat} {c : HttpConn} (sends : c.SendsPage unused) :
    FitsInt c.bytesToSend := by
  have pending := sends.pending
  have small := sends.small
  have size : writeBufferSize = 1024 := rfl
  simp only [FitsInt, intMin, intMax]
  omega

theorem SendsPage.advance {unused : Nat} {c : HttpConn} (sends : c.SendsPage unused) {count : Nat}
    (least : 1 ≤ count) (more : 0 < c.bytesToSend - count) :
    (c.bytesToSend - count < unused ∧ ¬(2 ^ 32 : Int) ∣ unused - (c.bytesToSend - count) →
        (c.advance count).SendsPage unused) ∧
      (¬(c.bytesToSend - count < unused ∧ ¬(2 ^ 32 : Int) ∣ unused - (c.bytesToSend - count)) →
        (c.advance count).Stalled) := by
  have size : writeBufferSize = 1024 := rfl
  have small := sends.small
  have fits : FitsInt (c.bytesToSend - count) := by
    simp only [FitsInt, intMin, intMax]
    omega
  have left : (c.advance count).bytesToSend = c.bytesToSend - count := by
    rw [advance_bytesToSend, toInt_of_fits fits]
  have one : (c.advance count).ivCount = 1 := by rw [advance_ivCount, sends.one]
  obtain ⟨enough, short⟩ := advance_iov c count fits (Int.le_of_lt more)
  have residue := sends.residue
  rw [sends.other] at enough short
  by_cases branch : (unused : Int) ≤ c.bytesToSend - count
  · refine ⟨fun clear => by omega, fun _ => ⟨one, ?_, by omega, left ▸ fits⟩⟩
    rw [(enough branch).1]
  · obtain ⟨first, second⟩ := short (by omega)
    have dif := toInt_mod (c.iv0.len + unused - (c.bytesToSend - count))
    have range := toInt_fits (c.iv0.len + unused - (c.bytesToSend - count))
    simp only [FitsInt, intMin, intMax] at range
    generalize toInt (c.iv0.len + unused - (c.bytesToSend - count)) = d at dif range first
    have length := toSize_eq (c.iv0.len - d)
    have first' : (c.advance count).iv0.len = toSize (c.iv0.len - d) := by rw [first]; rfl
    refine ⟨fun clear => ⟨one, by rw [second, sends.other], by omega, by omega, ?_, ?_⟩, fun met => ?_⟩
    · omega
    · intro low
      have before := residue low
      omega
    · refine ⟨one, ?_, by omega, left ▸ fits⟩
      have low : (unused : Int) % 2 ^ 32 < writeBufferSize := by omega
      have before := residue low
      omega

theorem Stalled.progress {c : HttpConn} (stalled : c.Stalled) {transfer : Transfer}
    (before : transfer.before = c) (after : transfer.after = c.advance (toInt transfer.count))
    (counted : transfer.Counted) : ¬transfer.Progress := by
  have offers : transfer.before.offered = [] := by
    rw [before, offered_nil, iov, stalled.one]
    simp [stalled.empty]
  have zero := counted.nothing offers
  have pending := stalled.pending
  obtain ⟨_, _, left⟩ := transfer_left before after pending stalled.fits counted
  rw [Transfer.Progress, left, Transfer.left, before]
  omega

theorem SendsPage.progress_iff {unused : Nat} {c : HttpConn} {ts : List Transfer}
    (sends : c.SendsPage unused) (path : Path c ts) (counted : ∀ transfer ∈ ts, transfer.Counted) :
    (∀ transfer ∈ ts, transfer.Progress) ↔ ∀ transfer ∈ ts.dropLast, transfer.Clear unused := by
  induction ts generalizing c with
  | nil => simp
  | cons transfer rest ih =>
      obtain ⟨before, after, last, next⟩ := path
      obtain ⟨here, later⟩ := List.forall_mem_cons.mp counted
      obtain ⟨_, after', left⟩ := transfer_left before after sends.pending sends.fits here
      have leaves : transfer.left = c.bytesToSend - transfer.count := by rw [Transfer.left, before]
      have offers : transfer.before.offered ≠ [] := by
        have some' := sends.some'
        rw [before, Ne, offered_nil, iov, sends.one]
        simp
        omega
      have least := here.some' offers
      have progress : transfer.Progress := by
        rw [Transfer.Progress, left, before]
        omega
      cases rest with
      | nil => simp [progress]
      | cons following rest =>
          have more : 0 < transfer.after.bytesToSend := by
            by_contra done
            have none := last (by omega)
            contradiction
          rw [left, leaves] at more
          obtain ⟨clear, met⟩ := sends.advance least more
          rw [← leaves, ← after'] at clear met
          have one : transfer.before.ivCount = 1 := before ▸ sends.one
          rw [List.dropLast_cons_of_ne_nil (List.cons_ne_nil _ _), List.forall_mem_cons,
            List.forall_mem_cons (a := transfer)]
          by_cases free : transfer.Clear unused
          · have rest := ih (clear (free one)) next later
            exact and_congr (iff_of_true progress free) rest
          · have stalled := met fun free' => free fun _ => free'
            have stuck := stalled.progress next.1 next.2.1 (later following List.mem_cons_self)
            refine iff_of_false (fun all => stuck ?_) fun all => free all.1
            exact all.2 following List.mem_cons_self

/-! Prepared responses. -/

theorem sendBuffer_sendsPage {result : HttpConn × Bool} {text : List UInt8} {c : HttpConn}
    (made : result = addResponse c text) (some' : 0 < text.length)
    (prepared : (sendBuffer result).2 = true) :
    (sendBuffer result).1.SendsPage (sendBuffer result).1.iv1.len := by
  obtain ⟨ok, amount⟩ := sendBuffer_true prepared
  have position : result.1.writeIdx = c.writeIdx + text.length := by
    rw [made] at ok ⊢
    exact addResponse_true ok
  have room : result.1.writeIdx < writeBufferSize := by
    rw [made] at ok position ⊢
    simp only [addResponse] at ok position ⊢
    split at ok
    · contradiction
    · split at ok
      · contradiction
      · omega
  have parts : (sendBuffer result).1.ivCount = 1 ∧
      (sendBuffer result).1.iv0.len = result.1.writeIdx := by
    rw [sendBuffer, if_pos ok]
    exact ⟨rfl, rfl⟩
  exact ⟨parts.1, rfl, by omega, by omega, by omega, fun _ => Or.inl (by omega)⟩

theorem processWrite_ends {c : HttpConn} {ret : HttpCode} (prepared : (processWrite c ret).2 = true) :
    (processWrite c ret).1.SendsPage (processWrite c ret).1.iv1.len ∨
      (processWrite c ret).1.ivCount = 2 ∧ 0 < (processWrite c ret).1.iv1.len ∧
        FitsInt (processWrite c ret).1.bytesToSend := by
  cases ret with
  | internalError => exact Or.inl (sendBuffer_sendsPage rfl (by decide) prepared)
  | noResource => exact Or.inl (sendBuffer_sendsPage rfl (by decide) prepared)
  | forbiddenRequest => exact Or.inl (sendBuffer_sendsPage rfl (by decide) prepared)
  | fileRequest =>
      simp only [processWrite] at prepared ⊢
      by_cases some' : c.fileStat.size ≠ 0
      · rw [if_pos some']
        have frame := ((addStatusLine_appends c 200 ok200Title).trans (addHeaders_appends
          (addStatusLine c 200 ok200Title).1
          (toInt (addStatusLine c 200 ok200Title).1.fileStat.size))).frame
        right
        simp only [sendFile]
        refine ⟨trivial, ?_, toInt_fits _⟩
        rw [frame]
        exact Nat.pos_of_ne_zero some'
      · rw [if_neg some'] at prepared ⊢
        exact Or.inl (sendBuffer_sendsPage rfl (by decide) prepared)
  | noRequest => simp [processWrite] at prepared
  | getRequest => simp [processWrite] at prepared
  | badRequest => simp [processWrite] at prepared
  | closedConnection => simp [processWrite] at prepared

theorem negative_progress_iff {c : HttpConn} {ts : List Transfer} (two : c.ivCount = 2)
    (some' : 0 < c.iv1.len) (negative : c.bytesToSend < 0) (fits : FitsInt c.bytesToSend)
    (path : Path c ts) (counted : ∀ transfer ∈ ts, transfer.Counted) :
    (∀ transfer ∈ ts, transfer.Progress) ↔ ∀ transfer ∈ ts.head?, transfer.InRange := by
  cases ts with
  | nil => simp
  | cons transfer rest =>
      obtain ⟨before, after, last, _⟩ := path
      have here := counted transfer List.mem_cons_self
      have upper := here.upper
      have lower := fits.1
      simp only [intMin, intMax] at upper lower
      have offers : transfer.before.offered ≠ [] := by
        rw [before, Ne, offered_nil, iov, two]
        simp
        omega
      have least := here.some' offers
      have count : toInt transfer.count = transfer.count := toInt_of_fits (by
        simp only [FitsInt, intMin, intMax]
        omega)
      have left : transfer.after.bytesToSend = toInt transfer.left := by
        rw [after, count, advance_bytesToSend, ← before]
        rfl
      have leaves : transfer.left = c.bytesToSend - transfer.count := by rw [Transfer.left, before]
      simp only [List.head?_cons, Option.mem_some_iff, forall_eq']
      by_cases range : intMin ≤ transfer.left
      · have inside : FitsInt transfer.left := by
          simp only [FitsInt, intMin, intMax] at range ⊢
          omega
        rw [toInt_of_fits inside] at left
        rw [last (by omega)]
        refine iff_of_true ?_ (Or.inr range)
        simp only [List.mem_singleton, forall_eq]
        exact Or.inl (by omega)
      · have wraps := toInt_mod transfer.left
        have inside := toInt_fits transfer.left
        simp only [FitsInt, intMin, intMax] at inside range
        have stuck : ¬transfer.Progress := by
          rw [Transfer.Progress, left, before]
          omega
        refine iff_of_false (fun all => stuck (all transfer List.mem_cons_self)) ?_
        rw [Transfer.InRange, before]
        simp only [intMin]
        omega

/-- Whatever `writev` returns, the loop of `write` makes progress in every round of a
delivery exactly when no part of a page leaves what the unused iovec meets, and a
negative `bytes_to_send` does not wrap around. -/
theorem write_progress_iff (c : HttpConn) (ret : HttpCode) (calls : List (List Writev))
    (prepared : (processWrite c ret).2 = true)
    (counted : ∀ transfer ∈ transfers [] calls (processWrite c ret).1, transfer.Counted) :
    (∀ transfer ∈ transfers [] calls (processWrite c ret).1, transfer.Progress) ↔
      (∀ transfer ∈ (transfers [] calls (processWrite c ret).1).dropLast,
          transfer.Clear (processWrite c ret).1.iv1.len) ∧
        ∀ transfer ∈ (transfers [] calls (processWrite c ret).1).head?, transfer.InRange := by
  have path := transfers_path calls (processWrite c ret).1 []
  have inRange (pending : 0 < (processWrite c ret).1.bytesToSend) :
      ∀ transfer ∈ (transfers [] calls (processWrite c ret).1).head?, transfer.InRange := by
    intro transfer head
    exact Or.inl (Int.le_of_lt (path.pending pending transfer (List.mem_of_mem_head? head)))
  rcases processWrite_ends prepared with sends | ⟨two, some', fits⟩
  · rw [sends.progress_iff path counted]
    exact (and_iff_left (inRange sends.pending)).symm
  · have clear : ∀ transfer ∈ (transfers [] calls (processWrite c ret).1).dropLast,
        transfer.Clear (processWrite c ret).1.iv1.len := by
      intro transfer member one
      rw [path.ivCount transfer (List.dropLast_subset _ member), two] at one
      contradiction
    rw [and_iff_right clear]
    rcases Int.lt_trichotomy (processWrite c ret).1.bytesToSend 0 with negative | idle | pending
    · exact negative_progress_iff two some' negative fits path counted
    · simp [transfers_idle calls [] idle]
    · have sends : SendsFile (processWrite c ret).1 := ⟨two, some', pending, fits⟩
      exact iff_of_true (sends.progress path counted) (inRange pending)

instance (transfer : Transfer) : Decidable transfer.Progress := inferInstanceAs (Decidable (_ ∨ _))

instance (transfer : Transfer) : Decidable transfer.Counted :=
  decidable_of_iff ((transfer.before.offered ≠ [] → 1 ≤ transfer.count) ∧
      (transfer.before.offered = [] → transfer.count = 0) ∧ (transfer.count : Int) ≤ intMax)
    ⟨fun ⟨some', nothing, upper⟩ => ⟨some', nothing, upper⟩,
      fun ⟨some', nothing, upper⟩ => ⟨some', nothing, upper⟩⟩

theorem write_progress_iff_parts :
    (∀ transfer ∈ transfers [] [[.sent 20], [], [.sent 39]]
        (processWrite fourByteFile .fileRequest).1, transfer.Progress) ↔
      (∀ transfer ∈ (transfers [] [[.sent 20], [], [.sent 39]]
          (processWrite fourByteFile .fileRequest).1).dropLast,
          transfer.Clear (processWrite fourByteFile .fileRequest).1.iv1.len) ∧
        ∀ transfer ∈ (transfers [] [[.sent 20], [], [.sent 39]]
          (processWrite fourByteFile .fileRequest).1).head?, transfer.InRange :=
  write_progress_iff fourByteFile .fileRequest [[.sent 20], [], [.sent 39]]
    (by decide +kernel) (by decide +kernel)

/-- A page on a slot that has had no file: the kernel takes ten bytes of it, and then
`writev` is called with nothing to take, again and again. -/
theorem partial_page_spins :
    (processWrite zeroed .noResource).2 = true ∧
      (∀ transfer ∈ transfers [] [[.sent 10, .sent 0]] (processWrite zeroed .noResource).1,
        transfer.Counted) ∧
      ¬∀ transfer ∈ transfers [] [[.sent 10, .sent 0]] (processWrite zeroed .noResource).1,
        transfer.Progress := by
  decide +kernel

end StudyRecord.Http.HttpConn
