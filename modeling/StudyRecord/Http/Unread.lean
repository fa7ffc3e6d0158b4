import StudyRecord.Http.Scanner
import StudyRecord.Library.LineStream

/-!
The bytes of a request that are not read yet: the line that is being scanned and
all that has come in behind it. What `parse_line` does depends on them alone.
-/

namespace StudyRecord.Http.HttpConn

open CString LineStream

/-- The buffer from the start of the line on holds these bytes, and the ones that
have been scanned hold no line end. -/
structure Unread (c : HttpConn) (pending : List UInt8) : Prop where
  received : c.readIdx = c.startLine + pending.length
  content : ∀ index (inside : index < pending.length), c.readBuf (c.startLine + index) = pending[index]
  ordered : c.Ordered
  plain : Plain cr lf (pending.take (c.checkedIdx - c.startLine))
  behind : c.startLine = 0 ∨ c.readBuf (c.startLine - 1) = 0

theorem Unread.empty {c : HttpConn} (start : c.startLine = c.readIdx) (ordered : c.Ordered)
    (behind : c.startLine = 0 ∨ c.readBuf (c.startLine - 1) = 0) : c.Unread [] := by
  refine ⟨start.symm, ?_, ordered, ?_, behind⟩
  · intro index inside
    contradiction
  · rw [List.take_nil]
    exact .nil

theorem Unread.receive {c : HttpConn} {pending : List UInt8} (here : c.Unread pending)
    (arrived : List UInt8) : (c.receive arrived).Unread (pending ++ arrived) := by
  have received := here.received
  have ordered := here.ordered.lineStart
  have checked := here.ordered.checked
  refine ⟨?_, fun index inside => ?_, here.ordered.receive arrived, ?_, ?_⟩
  · rw [receive_readIdx, receive_startLine, List.length_append]
    omega
  · rw [List.length_append] at inside
    rw [receive_startLine]
    by_cases old : index < pending.length
    · rw [receive_below _ _ (by omega), List.getElem_append_left old]
      exact here.content index old
    · obtain ⟨offset, rfl⟩ := Nat.exists_eq_add_of_le (Nat.not_lt.mp old)
      rw [List.getElem_append_right (by omega), ← Nat.add_assoc, ← received,
        receive_inside _ _ _ (by omega)]
      simp only [Nat.add_sub_cancel_left]
  · rw [receive_checkedIdx, receive_startLine, List.take_append_of_le_length (by omega)]
    exact here.plain
  · rw [receive_startLine]
    by_cases first : c.startLine = 0
    · exact Or.inl first
    · rw [receive_below _ _ (by omega)]
      exact here.behind

theorem Unread.byte {c : HttpConn} {content tail : List UInt8} (here : c.Unread (content ++ tail))
    (index : Nat) (inside : index < tail.length) :
    c.readBuf (c.startLine + content.length + index) = tail[index] := by
  have byte := here.content (content.length + index) (by rw [List.length_append]; omega)
  rw [List.getElem_append_right (by omega)] at byte
  simpa only [Nat.add_assoc, Nat.add_sub_cancel_left] using byte

theorem Unread.contentByte {c : HttpConn} {content tail : List UInt8}
    (here : c.Unread (content ++ tail)) (index : Nat) (inside : index < content.length) :
    c.readBuf (c.startLine + index) = content[index] := by
  have byte := here.content index (by rw [List.length_append]; omega)
  rw [List.getElem_append_left inside] at byte
  exact byte

theorem Unread.scan {c : HttpConn} {content tail : List UInt8} (here : c.Unread (content ++ tail))
    (plain : Plain cr lf content) (lineEnd : ∀ byte ∈ tail.head?, byte = cr ∨ byte = lf) :
    c.checkedIdx ≤ c.startLine + content.length ∧ c.PlainTo (c.startLine + content.length) := by
  have received := here.received
  have checked := here.ordered.checked
  have ordered := here.ordered.lineStart
  rw [List.length_append] at received
  constructor
  · refine Nat.le_of_not_lt fun past => ?_
    cases tail with
    | nil =>
        rw [List.length_nil] at received
        omega
    | cons byte tail =>
        have seen : byte ∈ (content ++ byte :: tail).take (c.checkedIdx - c.startLine) := by
          rw [List.take_append, show c.checkedIdx - c.startLine - content.length =
            (c.checkedIdx - c.startLine - content.length - 1) + 1 by omega, List.take_succ_cons]
          exact List.mem_append_right _ List.mem_cons_self
        obtain ⟨notCr, notLf⟩ := here.plain byte seen
        exact (lineEnd byte rfl).elim notCr notLf
  · intro position lower upper
    obtain ⟨index, rfl⟩ := Nat.exists_eq_add_of_le (Nat.le_trans ordered lower)
    have inside : index < content.length := by omega
    rw [here.contentByte index inside]
    exact plain content[index] (List.getElem_mem inside)

theorem Unread.notAfterCr {c : HttpConn} {content tail : List UInt8}
    (here : c.Unread (content ++ tail)) (plain : Plain cr lf content) :
    ¬(c.startLine + content.length > 1 ∧ c.readBuf (c.startLine + content.length - 1) = cr) := by
  rintro ⟨far, isCr⟩
  by_cases empty : content.length = 0
  · rw [empty, Nat.add_zero] at far isCr
    rcases here.behind with first | zero
    · omega
    · rw [zero] at isCr
      contradiction
  · have inside : content.length - 1 < content.length := by omega
    have byte := here.contentByte (content.length - 1) inside
    rw [show c.startLine + (content.length - 1) = c.startLine + content.length - 1 by omega,
      isCr] at byte
    exact (plain _ (List.getElem_mem inside)).1 byte.symm

theorem Unread.scanned {c : HttpConn} {pending : List UInt8} (here : c.Unread pending) {stop : Nat}
    (lower : c.startLine ≤ stop) (upper : stop ≤ c.readIdx)
    (plain : Plain cr lf (pending.take (stop - c.startLine))) :
    { c with checkedIdx := stop }.Unread pending :=
  ⟨here.received, here.content, ⟨lower, upper⟩, plain, here.behind⟩

def lineCut (c : HttpConn) (stop : Nat) : HttpConn :=
  { c with readBuf := store (store c.readBuf stop 0) (stop + 1) 0, checkedIdx := stop + 2 }

inductive LineFound (c : HttpConn) (pending : List UInt8) :
    HttpConn × LineStatus → Cut UInt8 → Prop
  | line (content rest : List UInt8) (whole : pending = content ++ cr :: lf :: rest)
      (plain : Plain cr lf content) :
      LineFound c pending (c.lineCut (c.startLine + content.length), .lineOk) (.line content rest)
  | broken (stop : Nat) : LineFound c pending ({ c with checkedIdx := stop }, .lineBad) .broken
  | unfinished (stop : Nat) (here : { c with checkedIdx := stop }.Unread pending) :
      LineFound c pending ({ c with checkedIdx := stop }, .lineOpen) .unfinished

theorem parseLine_found {c : HttpConn} {pending : List UInt8} (here : c.Unread pending) :
    LineFound c pending (parseLine c) (firstLine cr lf pending) := by
  have cuts := firstLine_cuts cr lf pending
  have received := here.received
  have ordered := here.ordered.checked
  generalize firstLine cr lf pending = cut at cuts
  cases cuts with
  | line content rest plain =>
      rw [List.length_append, List.length_cons, List.length_cons] at received
      obtain ⟨lower, skipped⟩ := here.scan plain fun byte first => Or.inl (Option.some.inj first).symm
      have isCr := here.byte 0 (by simp)
      have isLf := here.byte 1 (by simp)
      have scanned := Scanned.crLf (c.startLine + content.length) lower skipped isCr (by omega) isLf
      rw [scanned.result ordered]
      exact .line content rest rfl plain
  | broken content tail plain bad =>
      cases bad with
      | afterCr other rest notLf =>
          rw [List.length_append, List.length_cons, List.length_cons] at received
          obtain ⟨lower, skipped⟩ :=
            here.scan plain fun byte first => Or.inl (Option.some.inj first).symm
          have isCr := here.byte 0 (by simp)
          have isOther := here.byte 1 (by simp)
          have scanned := Scanned.badCr (c.startLine + content.length) lower skipped isCr (by omega)
            fun isLf => notLf (isOther.symm.trans isLf)
          rw [scanned.result ordered]
          exact .broken _
      | bareLf rest =>
          rw [List.length_append, List.length_cons] at received
          obtain ⟨lower, skipped⟩ :=
            here.scan plain fun byte first => Or.inr (Option.some.inj first).symm
          have isLf := here.byte 0 (by simp)
          have scanned := Scanned.badLf (c.startLine + content.length) lower skipped isLf (by omega)
            (here.notAfterCr plain)
          rw [scanned.result ordered]
          exact .broken _
  | plain content plain =>
      have whole : c.Unread (pending ++ []) := by
        rw [List.append_nil]
        exact here
      obtain ⟨lower, skipped⟩ := whole.scan plain fun byte first => by contradiction
      rw [← received] at skipped
      have kept : { c with checkedIdx := c.readIdx }.Unread pending := by
        refine here.scanned (by omega) (Nat.le_refl _) ?_
        rw [List.take_of_length_le (by omega)]
        exact plain
      rw [(Scanned.exhausted skipped).result ordered]
      exact .unfinished _ kept
  | lastCr content plain =>
      rw [List.length_append, List.length_singleton] at received
      obtain ⟨lower, skipped⟩ := here.scan plain fun byte first => Or.inl (Option.some.inj first).symm
      have isCr := here.byte 0 (by simp)
      have scanned := Scanned.lastCr (c.startLine + content.length) lower skipped isCr (by omega)
      have kept : { c with checkedIdx := c.startLine + content.length }.Unread (content ++ [cr]) := by
        refine here.scanned (by omega) (by omega) ?_
        rw [Nat.add_sub_cancel_left, List.take_left]
        exact plain
      rw [scanned.result ordered]
      exact .unfinished _ kept

theorem Unread.next {c next : HttpConn} {content rest : List UInt8}
    (here : c.Unread (content ++ cr :: lf :: rest)) (readIdx : next.readIdx = c.readIdx)
    (checkedIdx : next.checkedIdx = c.startLine + content.length + 2)
    (startLine : next.startLine = c.startLine + content.length + 2)
    (kept : ∀ position, c.startLine + content.length ≤ position →
      next.readBuf position = (c.lineCut (c.startLine + content.length)).readBuf position) :
    next.Unread rest := by
  have received := here.received
  rw [List.length_append, List.length_cons, List.length_cons] at received
  refine ⟨by omega, fun index inside => ?_, ⟨by omega, by omega⟩, ?_, Or.inr ?_⟩
  · have byte := here.byte (index + 2) (by rw [List.length_cons, List.length_cons]; omega)
    rw [startLine, kept _ (by omega)]
    simp only [lineCut]
    rw [store_other _ _ (by omega), store_other _ _ (by omega), Nat.add_assoc, Nat.add_comm 2 index]
    exact byte
  · rw [checkedIdx, startLine, Nat.sub_self, List.take_zero]
    exact .nil
  · rw [startLine, kept _ (by omega)]
    exact store_self _ _ _

end StudyRecord.Http.HttpConn
