import StudyRecord.Http.Calls
import StudyRecord.Http.Segmentation

/-!
Which bytes of the read buffer the request reader touches, and when all of them
lie inside the buffer.
-/

namespace StudyRecord.Http.HttpConn

open CString Machine

/-- A byte of the read buffer that is read or written, or the sum that
`parse_content` forms in an `int`. -/
inductive Access
  | byte (index : Int)
  | sum (value : Int)
  deriving DecidableEq, Repr

def Access.InRange : Access → Prop
  | .byte index => 0 ≤ index ∧ index < readBufferSize
  | .sum value => FitsInt value

instance (access : Access) : Decidable access.InRange :=
  match access with
  | .byte index => inferInstanceAs (Decidable (0 ≤ index ∧ index < readBufferSize))
  | .sum value => inferInstanceAs (Decidable (FitsInt value))

def parseLineAccesses : Nat → HttpConn → List Access
  | 0, _ => []
  | left + 1, c =>
      .byte c.checkedIdx ::
        if c.readBuf c.checkedIdx = cr then
          if c.checkedIdx + 1 = c.readIdx then [] else [.byte (c.checkedIdx + 1 : Nat)]
        else if c.readBuf c.checkedIdx = lf then
          if c.checkedIdx > 1 then [.byte (c.checkedIdx - 1 : Nat)] else []
        else parseLineAccesses left { c with checkedIdx := c.checkedIdx + 1 }

def stringAccesses (c : HttpConn) (start : Nat) : List Access :=
  (stringReads readBufferSize c.readBuf start).map fun index => .byte (index : Nat)

def pointerAccesses (c : HttpConn) (reads : List (Option Nat)) : List Access :=
  (reads.filterMap id).flatMap c.stringAccesses

def contentAccesses (c : HttpConn) (text : Nat) : List Access :=
  .sum (contentSum c) ::
    if (c.readIdx : Int) ≥ toInt (contentSum c) then [.byte (contentIndex c text)] else []

/-- One round of the loop of `process_read` first puts the line into the log. -/
def bodyAccesses (c : HttpConn) : List Access :=
  let text := c.startLine
  c.stringAccesses text ++
    let c := { c with startLine := c.checkedIdx }
    match c.checkState with
    | .requestLine => c.pointerAccesses (parseRequestLine c text).reads
    | .header => c.pointerAccesses (parseHeaders c text).reads
    | .content => contentAccesses c text

def guardAccesses (c : HttpConn) (status : LineStatus) : List Access :=
  if c.checkState = .content ∧ status = .lineOk then []
  else parseLineAccesses (c.readIdx - c.checkedIdx) c

def stepAccesses (c : HttpConn) (status : LineStatus) : List Access :=
  guardAccesses c status ++
    if (loopGuard c status).2 = .lineOk then bodyAccesses (loopGuard c status).1 else []

def loopAccesses : Nat → HttpConn → LineStatus → List Access
  | 0, _, _ => []
  | fuel + 1, c, status =>
      stepAccesses c status ++
        match loopStep c status with
        | .stop _ _ => []
        | .next c status => loopAccesses fuel c status

def stepLooks (c : HttpConn) (status : LineStatus) : List HttpConn :=
  let guarded := loopGuard c status
  if guarded.2 = .lineOk ∧ guarded.1.checkState = .content then [guarded.1] else []

def loopLooks : Nat → HttpConn → LineStatus → List HttpConn
  | 0, _, _ => []
  | fuel + 1, c, status =>
      stepLooks c status ++
        match loopStep c status with
        | .stop _ _ => []
        | .next c status => loopLooks fuel c status

def accesses (c : HttpConn) : List Call → List Access
  | [] => []
  | call :: rest =>
      (match call with
        | .processRead _ => loopAccesses (loopFuel c .lineOk) c .lineOk
        | _ => []) ++ accesses (call.run c) rest

def bodyLooks (c : HttpConn) : List Call → List HttpConn
  | [] => []
  | call :: rest =>
      (match call with
        | .processRead _ => loopLooks (loopFuel c .lineOk) c .lineOk
        | _ => []) ++ bodyLooks (call.run c) rest

/-- A look at the body that stays inside the buffer: the length does not reach
back behind the line, its sum with the scan position is an `int`, and a buffer
that is full still holds a terminator and does not end where the body does. -/
structure LookInRange (c : HttpConn) : Prop where
  lower : -(c.startLine : Int) ≤ c.contentLength
  upper : c.contentLength + c.checkedIdx ≤ intMax
  full : c.readIdx < readBufferSize ∨
    (∃ final, c.startLine ≤ final ∧ final < readBufferSize ∧ c.readBuf final = 0) ∧
      ¬(c.startLine = c.checkedIdx ∧ c.contentLength + c.checkedIdx = readBufferSize)

/-! The scan and the lines. -/

structure Bounded (c : HttpConn) : Prop where
  ordered : c.Ordered
  capacity : c.readIdx ≤ readBufferSize
  clear : ∀ index, c.readIdx ≤ index → index < readBufferSize → c.readBuf index = 0

theorem parseLineAccesses_inRange (left : Nat) (c : HttpConn)
    (whole : c.checkedIdx + left = c.readIdx) (capacity : c.readIdx ≤ readBufferSize) :
    ∀ access ∈ parseLineAccesses left c, access.InRange := by
  induction left generalizing c with
  | zero => simp [parseLineAccesses]
  | succ left ih =>
      intro access member
      rw [parseLineAccesses, List.mem_cons] at member
      rcases member with here | later
      · rw [here, Access.InRange]
        omega
      · split at later
        · split at later
          · simp at later
          · rw [List.mem_singleton] at later
            rw [later, Access.InRange]
            omega
        · split at later
          · split at later
            · rw [List.mem_singleton] at later
              rw [later, Access.InRange]
              omega
            · simp at later
          · exact ih { c with checkedIdx := c.checkedIdx + 1 } (by simp only; omega) capacity access later

theorem guardAccesses_inRange (c : HttpConn) (status : LineStatus) (bounded : c.Bounded) :
    ∀ access ∈ guardAccesses c status, access.InRange := by
  have checked := bounded.ordered.checked
  simp only [guardAccesses]
  split
  · simp
  · exact parseLineAccesses_inRange _ c (by omega) bounded.capacity

theorem stringAccesses_inRange {c : HttpConn} {start final : Nat} (lower : start ≤ final)
    (inside : final < readBufferSize) (zero : c.readBuf final = 0) :
    ∀ access ∈ c.stringAccesses start, access.InRange := by
  intro access member
  obtain ⟨index, reached, rfl⟩ := List.mem_map.mp member
  have bound : start + (stringAt readBufferSize c.readBuf start).length ≤ final :=
    stringAt_bound lower zero
  have range := List.mem_range'_1.mp reached
  rw [Access.InRange]
  omega

theorem stringFrom_whole (buffer : Buffer) (room start : Nat)
    (nonzero : ∀ index, start ≤ index → index < start + room → buffer index ≠ 0) :
    (stringFrom buffer room start).length = room := by
  induction room generalizing start with
  | zero => rfl
  | succ room ih =>
      have here := nonzero start (Nat.le_refl _) (by omega)
      simp only [stringFrom, here, if_false, List.length_cons]
      rw [ih (start + 1) (fun index lower upper => nonzero index (by omega) (by omega))]

theorem stringAccesses_overrun {c : HttpConn} {start : Nat} (inside : start ≤ readBufferSize)
    (nonzero : ∀ index, start ≤ index → index < readBufferSize → c.readBuf index ≠ 0) :
    Access.byte readBufferSize ∈ c.stringAccesses start := by
  have whole := stringFrom_whole c.readBuf (readBufferSize - start) start
    (fun index lower upper => nonzero index lower (by omega))
  apply List.mem_map.mpr
  refine ⟨readBufferSize, List.mem_range'_1.mpr ⟨inside, ?_⟩, rfl⟩
  rw [stringAt, whole]
  omega

theorem pointerAccesses_inRange {c : HttpConn} {reads : List (Option Nat)} {start final : Nat}
    (within : ReadsWithin reads start final) (inside : final < readBufferSize)
    (zero : c.readBuf final = 0) :
    ∀ access ∈ c.pointerAccesses reads, access.InRange := by
  intro access member
  obtain ⟨index, listed, reached⟩ := List.mem_flatMap.mp member
  obtain ⟨pointer, found, same⟩ := List.mem_filterMap.mp listed
  have bounds := within pointer found index same
  exact stringAccesses_inRange bounds.2 inside zero access reached

theorem lineAccesses_inRange (c : HttpConn) (header : c.checkState ≠ .content) (ready : c.LineReady)
    (bounded : c.Bounded) : ∀ access ∈ bodyAccesses c, access.InRange := by
  obtain ⟨final, line, _⟩ := ready.resolve_left header
  have line' : { c with startLine := c.checkedIdx }.Terminated c.startLine final :=
    ⟨line.lower, line.received, line.zero⟩
  have inside : final < readBufferSize := Nat.lt_of_lt_of_le line.received bounded.capacity
  have logged := stringAccesses_inRange line.lower inside line.zero
  cases state : c.checkState with
  | requestLine =>
      have parts : bodyAccesses c = c.stringAccesses c.startLine ++
          { c with startLine := c.checkedIdx }.pointerAccesses
            (parseRequestLine { c with startLine := c.checkedIdx } c.startLine).reads := by
        simp only [bodyAccesses]
        rw [state]
      rw [parts, List.forall_mem_append]
      exact ⟨logged, pointerAccesses_inRange (parseRequestLine_effect line').reads inside line.zero⟩
  | header =>
      have parts : bodyAccesses c = c.stringAccesses c.startLine ++
          { c with startLine := c.checkedIdx }.pointerAccesses
            (parseHeaders { c with startLine := c.checkedIdx } c.startLine).reads := by
        simp only [bodyAccesses]
        rw [state]
      rw [parts, List.forall_mem_append]
      exact ⟨logged, pointerAccesses_inRange (parseHeaders_effect line').reads inside line.zero⟩
  | content => contradiction

/-! The body. -/

theorem bodyAccesses_content (c : HttpConn) (inBody : c.checkState = .content) :
    bodyAccesses c = c.stringAccesses c.startLine ++ .sum (c.contentLength + c.checkedIdx) ::
      if (c.readIdx : Int) ≥ toInt (c.contentLength + c.checkedIdx) then
        [.byte (c.startLine + c.contentLength)]
      else [] := by
  simp only [bodyAccesses]
  rw [inBody]
  rfl

theorem LookInRange.inRange {c : HttpConn} (look : c.LookInRange) (inBody : c.checkState = .content)
    (bounded : c.Bounded) : ∀ access ∈ bodyAccesses c, access.InRange := by
  have lineStart := bounded.ordered.lineStart
  have checked := bounded.ordered.checked
  have capacity := bounded.capacity
  have size : readBufferSize = 2048 := rfl
  have lower := look.lower
  have upper := look.upper
  have full := look.full
  have fits : FitsInt (c.contentLength + c.checkedIdx) := by
    simp only [FitsInt, intMin]
    omega
  rw [bodyAccesses_content c inBody, toInt_of_fits fits, List.forall_mem_append, List.forall_mem_cons]
  refine ⟨?_, fits, ?_⟩
  · rcases full with room | ⟨⟨final, low, inside, zero⟩, _⟩
    · exact stringAccesses_inRange (by omega) room (bounded.clear c.readIdx (Nat.le_refl _) room)
    · exact stringAccesses_inRange low inside zero
  · intro access member
    split at member
    · rename_i whole
      rw [List.mem_singleton] at member
      rw [member, Access.InRange]
      rcases full with room | ⟨_, apart⟩
      · omega
      · omega
    · simp at member

theorem lookInRange_of_inRange {c : HttpConn} (inBody : c.checkState = .content)
    (bounded : c.Bounded) (inRange : ∀ access ∈ bodyAccesses c, access.InRange) : c.LookInRange := by
  have lineStart := bounded.ordered.lineStart
  have checked := bounded.ordered.checked
  have capacity := bounded.capacity
  have size : readBufferSize = 2048 := rfl
  rw [bodyAccesses_content c inBody, List.forall_mem_append, List.forall_mem_cons] at inRange
  obtain ⟨logged, fits, looked⟩ := inRange
  rw [Access.InRange] at fits
  have upper := fits.2
  have written : c.contentLength + c.checkedIdx ≤ c.readIdx →
      0 ≤ c.startLine + c.contentLength ∧ c.startLine + c.contentLength < readBufferSize := by
    intro whole
    have enough : (c.readIdx : Int) ≥ toInt (c.contentLength + c.checkedIdx) := by
      rw [toInt_of_fits fits]
      exact whole
    rw [if_pos enough] at looked
    exact looked _ (List.mem_singleton_self _)
  refine ⟨by omega, upper, ?_⟩
  by_cases room : c.readIdx < readBufferSize
  · exact Or.inl room
  · refine Or.inr ⟨?_, by omega⟩
    by_contra missing
    push Not at missing
    have overrun := logged _ (stringAccesses_overrun (by omega) missing)
    rw [Access.InRange] at overrun
    omega

theorem stepAccesses_inRange_iff (c : HttpConn) (status : LineStatus) (bounded : c.Bounded)
    (guarded : (loopGuard c status).1.Bounded) :
    (∀ access ∈ stepAccesses c status, access.InRange) ↔
      ∀ look ∈ stepLooks c status, look.LookInRange := by
  have scan := guardAccesses_inRange c status bounded
  have ready := loopGuard_ready c status bounded.ordered
  simp only [stepAccesses, stepLooks, List.forall_mem_append]
  by_cases ok : (loopGuard c status).2 = .lineOk
  · by_cases inBody : (loopGuard c status).1.checkState = .content
    · simp only [ok, inBody, and_self, if_true, List.mem_singleton, forall_eq]
      exact ⟨fun both => lookInRange_of_inRange inBody guarded both.2,
        fun look => ⟨scan, look.inRange inBody guarded⟩⟩
    · have line := lineAccesses_inRange _ inBody (ready ok) guarded
      simp only [ok, inBody, and_false, if_true, if_false]
      exact ⟨fun _ => by simp, fun _ => ⟨scan, line⟩⟩
  · simp only [ok, false_and, if_false]
    exact ⟨fun _ => by simp, fun _ => ⟨scan, by simp⟩⟩

/-! The bound is kept. -/

theorem loopGuard_bounded (c : HttpConn) (status : LineStatus) (bounded : c.Bounded) :
    (loopGuard c status).1.Bounded := by
  obtain ⟨ordered, readIdx, _⟩ := loopGuard_ordered c status bounded.ordered
  refine ⟨ordered, by rw [readIdx]; exact bounded.capacity, ?_⟩
  intro index lower upper
  rw [readIdx] at lower
  have zero := bounded.clear index lower upper
  simp only [loopGuard]
  split
  · exact zero
  · exact parseLine_zeros c bounded.ordered.checked index zero

theorem loopBody_bounded (c : HttpConn) (ready : c.LineReady) (bounded : c.Bounded) :
    (loopBody c).conn.Bounded := by
  obtain ⟨_, readIdx, checkedIdx, startLine⟩ := loopBody_frame c ready
  refine ⟨⟨by rw [startLine, checkedIdx], by rw [checkedIdx, readIdx]; exact bounded.ordered.checked⟩,
    by rw [readIdx]; exact bounded.capacity, ?_⟩
  intro index lower upper
  rw [readIdx] at lower
  have zero := bounded.clear index lower upper
  by_cases inBody : c.checkState = .content
  · rw [loopBody_content c inBody, contentStep_conn, parseContent]
    split
    · exact storeInt_zero _ _ _ zero
    · exact zero
  · exact loopBody_zeros inBody ready index zero

theorem loopStep_bounded (c : HttpConn) (status : LineStatus) (bounded : c.Bounded) :
    (loopStep c status).conn.Bounded := by
  have guarded := loopGuard_bounded c status bounded
  have ready := loopGuard_ready c status bounded.ordered
  simp only [loopStep]
  split
  · rename_i next same
    rw [same] at guarded ready
    exact loopBody_bounded next (ready rfl) guarded
  · rename_i next _ _ same
    rw [same] at guarded
    exact guarded

theorem readLoop_bounded (fuel : Nat) (c : HttpConn) (status : LineStatus) (bounded : c.Bounded) :
    (readLoop fuel c status).1.Bounded := by
  induction fuel generalizing c status with
  | zero => exact bounded
  | succ fuel ih =>
      have step := loopStep_bounded c status bounded
      simp only [readLoop]
      split
      · rename_i stopped
        rw [stopped] at step
        exact step
      · rename_i next status' continued
        rw [continued] at step
        exact ih next status' step

theorem receive_bounded (c : HttpConn) (arrived : List UInt8) (bounded : c.Bounded)
    (room : c.readIdx + arrived.length ≤ readBufferSize) : (c.receive arrived).Bounded := by
  refine ⟨bounded.ordered.receive arrived, room, ?_⟩
  intro index lower upper
  rw [receive_readIdx] at lower
  have kept : (c.receive arrived).readBuf index = c.readBuf index := copyIn_above _ _ lower
  rw [kept]
  exact bounded.clear index (by omega) upper

theorem init_bounded (c : HttpConn) : c.init.Bounded := by
  refine ⟨⟨Nat.le_refl _, Nat.le_refl _⟩, Nat.zero_le _, ?_⟩
  intro index _ upper
  simp [init, memset, upper]

theorem Bounded.kept {c after : HttpConn} (bounded : c.Bounded) (buffer : after.readBuf = c.readBuf)
    (readIdx : after.readIdx = c.readIdx) (checkedIdx : after.checkedIdx = c.checkedIdx)
    (startLine : after.startLine = c.startLine) : after.Bounded := by
  obtain ⟨⟨lineStart, checked⟩, capacity, clear⟩ := bounded
  refine ⟨⟨by omega, by omega⟩, by omega, ?_⟩
  intro index lower upper
  rw [buffer]
  exact clear index (by omega) upper

theorem scan_bounded (c : HttpConn) (bounded : c.Bounded) : (scan c).1.Bounded :=
  readLoop_bounded (loopFuel c .lineOk) c .lineOk bounded

theorem doRequest_bounded (c : HttpConn) (fs : FileSystem) (bounded : c.Bounded) :
    (doRequest c fs).1.Bounded := by
  rw [doRequest_frame c fs]
  exact bounded.kept rfl rfl rfl rfl

theorem processRead_request (c : HttpConn) (fs : FileSystem) :
    RequestFrame (scan c).1 (processRead c fs).1 := by
  simp only [processRead]
  split
  · rename_i result
    rw [result]
    rfl
  · rename_i result
    rw [result]
    exact doRequest_frame _ fs
  · rename_i result
    rw [result]
    rfl

theorem processRead_frame (c : HttpConn) (fs : FileSystem) (ordered : c.Ordered) :
    ∃ scanned, ReadFrame c scanned ∧ RequestFrame scanned (c.processRead fs).1 :=
  ⟨(scan c).1, (runLoop_effect c .lineOk ordered).frame, processRead_request c fs⟩

theorem processRead_bounded (c : HttpConn) (fs : FileSystem) (bounded : c.Bounded) :
    (c.processRead fs).1.Bounded := by
  have scanned := scan_bounded c bounded
  rw [processRead_request]
  exact scanned.kept rfl rfl rfl rfl

theorem Call.run_bounded (c : HttpConn) (call : Call) (bounded : c.Bounded) :
    (call.run c).Bounded := by
  cases call with
  | init => exact init_bounded c
  | read results =>
      obtain ⟨arrived, same, room⟩ := read_receive c results
      rw [Call.run, same]
      exact receive_bounded c arrived bounded (room bounded.capacity)
  | processRead fs => exact processRead_bounded c fs bounded
  | processWrite ret =>
      rw [Call.run, processWrite_frame c ret]
      exact bounded.kept rfl rfl rfl rfl
  | write results =>
      obtain ⟨sent, frame, ends⟩ := write_frame c results
      rw [Call.run]
      rcases ends with stays | fresh
      · rw [stays, frame]
        exact bounded.kept rfl rfl rfl rfl
      · rw [fresh]
        exact init_bounded sent

/-! Whole runs. -/

theorem loopAccesses_inRange_iff (fuel : Nat) (c : HttpConn) (status : LineStatus)
    (bounded : c.Bounded) :
    (∀ access ∈ loopAccesses fuel c status, access.InRange) ↔
      ∀ look ∈ loopLooks fuel c status, look.LookInRange := by
  induction fuel generalizing c status with
  | zero => simp [loopAccesses, loopLooks]
  | succ fuel ih =>
      have step := loopStep_bounded c status bounded
      simp only [loopAccesses, loopLooks, List.forall_mem_append]
      rw [stepAccesses_inRange_iff c status bounded (loopGuard_bounded c status bounded)]
      cases continued : loopStep c status with
      | stop => simp
      | next next status' =>
          rw [continued] at step
          exact and_congr_right fun _ => ih next status' step

theorem accesses_inRange_iff (calls : List Call) (c : HttpConn) (bounded : c.Bounded) :
    (∀ access ∈ accesses c calls, access.InRange) ↔
      ∀ look ∈ bodyLooks c calls, look.LookInRange := by
  induction calls generalizing c with
  | nil => simp [accesses, bodyLooks]
  | cons call rest ih =>
      have later := ih (call.run c) (call.run_bounded c bounded)
      simp only [accesses, bodyLooks, List.forall_mem_append]
      cases call with
      | init => simpa using later
      | read results => simpa using later
      | processWrite ret => simpa using later
      | write results => simpa using later
      | processRead fs =>
          exact and_congr (loopAccesses_inRange_iff _ c .lineOk bounded) later

/-- Whatever arrives and however it is read, a connection touches only bytes of its
read buffer exactly when every look at a body stays in range. -/
theorem connection_accesses_inRange_iff (c : HttpConn) (calls : List Call) :
    (∀ access ∈ accesses c.init calls, access.InRange) ↔
      ∀ look ∈ bodyLooks c.init calls, look.LookInRange :=
  accesses_inRange_iff calls c.init (init_bounded c)

/-- A length of -99 puts the terminator of the body in front of the buffer. -/
theorem negative_length_out_of_range :
    ¬∀ access ∈ accesses zeroed.init
      [.read [.data (bytes "GET / HTTP/1.1\r\nContent-Length: -99\r\n\r\n")],
        .processRead ⟨fun _ => none, fun _ _ => 0⟩],
        access.InRange := by
  decide +kernel

end StudyRecord.Http.HttpConn
