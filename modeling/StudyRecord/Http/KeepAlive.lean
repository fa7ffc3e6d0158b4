import StudyRecord.Http.Body
import StudyRecord.Http.DocRoot

/-!
Whether `write` keeps a connection. It compares the scan position with the bytes received,
and `parse_content` leaves the scan position in front of the body.
-/

namespace StudyRecord.Http.HttpConn

open CString Machine

/-- The state in which `process_read` calls `do_request`: in this call if no rounds are to
come, and otherwise in the last of them, after it has asked for more in all before. -/
def requestFrom (c : HttpConn) : List Round → Option HttpConn
  | [] => if (scan c).2 = .callsDoRequest then some (scan c).1 else none
  | round :: rest =>
      if (scan c).2 = .returns .noRequest then requestFrom (readRound (scan c).1 round) rest else none

def request (c : HttpConn) : List Round → Option HttpConn
  | [] => none
  | round :: rest => requestFrom (readRound c round) rest

def respond (c : HttpConn) (fs : FileSystem) : HttpConn × Bool :=
  match doRequest c fs with
  | (found, some code) => processWrite found code
  | (found, none) => (found, false)

/-- The calls of `write` for a response, each of them after an EAGAIN of the one before. -/
def sendAll (c : HttpConn) : List (List Writev) → HttpConn × WriteEnd
  | [] => (c, .again)
  | results :: rest =>
      match c.write results with
      | (next, .again) => sendAll next rest
      | ended => ended

/-- `write` returns true and the slot is ready for the next request. -/
def KeptAlive (result : HttpConn × WriteEnd) : Prop :=
  result.2.result = true ∧ ∃ sent, result.1 = init sent

/-! The decision of `write`. -/

structure SameTest (before after : HttpConn) : Prop where
  linger : after.linger = before.linger
  checkedIdx : after.checkedIdx = before.checkedIdx
  readIdx : after.readIdx = before.readIdx

theorem SameTest.trans {first second third : HttpConn} (early : SameTest first second)
    (late : SameTest second third) : SameTest first third :=
  ⟨late.linger.trans early.linger, late.checkedIdx.trans early.checkedIdx,
    late.readIdx.trans early.readIdx⟩

theorem SendFrame.sameTest {before after : HttpConn} (frame : SendFrame before after) :
    SameTest before after := by
  rw [SendFrame] at frame
  rw [frame]
  exact ⟨rfl, rfl, rfl⟩

theorem RequestFrame.sameTest {before after : HttpConn} (frame : RequestFrame before after) :
    SameTest before after := by
  rw [RequestFrame] at frame
  rw [frame]
  exact ⟨rfl, rfl, rfl⟩

theorem ResponseFrame.sameTest {before after : HttpConn} (frame : ResponseFrame before after) :
    SameTest before after := by
  rw [ResponseFrame] at frame
  rw [frame]
  exact ⟨rfl, rfl, rfl⟩

theorem respond_sameTest (c : HttpConn) (fs : FileSystem) : SameTest c (respond c fs).1 := by
  have found := (doRequest_frame c fs).sameTest
  simp only [respond]
  split
  · rename_i conn code same
    rw [same] at found
    exact found.trans (processWrite_frame conn code).sameTest
  · rename_i conn same
    rw [same] at found
    exact found

structure Decides (c : HttpConn) (result : HttpConn × WriteEnd) : Prop where
  again : result.2 = .again → SameTest c result.1
  complete : ∀ kept, result.2 = .complete kept →
    (KeptAlive result ↔ c.linger = true ∧ c.readIdx ≤ c.checkedIdx)

theorem Decides.earlier {before c : HttpConn} {result : HttpConn × WriteEnd} (same : SameTest before c)
    (decides : Decides c result) : Decides before result := by
  refine ⟨fun again => same.trans (decides.again again), fun kept ending => ?_⟩
  rw [decides.complete kept ending, same.linger, same.checkedIdx, same.readIdx]

theorem Decides.goesOn {before c : HttpConn} (same : SameTest before c) :
    Decides before (c, .again) := by
  refine ⟨fun _ => same, fun kept ending => ?_⟩
  simp only [reduceCtorEq] at ending

theorem Decides.completes {before c : HttpConn} {kept : Bool}
    (decided : KeptAlive (c, .complete kept) ↔
      before.linger = true ∧ before.readIdx ≤ before.checkedIdx) :
    Decides before (c, .complete kept) := by
  refine ⟨fun again => ?_, fun _ _ => decided⟩
  simp only [reduceCtorEq] at again

theorem Decides.silent {before c : HttpConn} {ending : WriteEnd}
    (outcome : ending = .failed ∨ ending = .idle) : Decides before (c, ending) := by
  rcases outcome with rfl | rfl <;> constructor <;> simp

theorem not_keptAlive_false (c : HttpConn) : ¬KeptAlive (c, .complete false) := by
  simp [KeptAlive, WriteEnd.result]

theorem finish_decides (c : HttpConn) : Decides c c.finish := by
  have same := (unmap_frame c).sameTest
  refine Decides.earlier same ?_
  simp only [finish]
  split
  · rename_i linger
    split
    · rename_i unread
      refine .completes (iff_of_false (not_keptAlive_false _) ?_)
      rintro ⟨_, read⟩
      omega
    · rename_i read
      exact .completes (iff_of_true ⟨rfl, _, rfl⟩ ⟨linger, Nat.le_of_not_lt read⟩)
  · rename_i closing
    exact .completes (iff_of_false (not_keptAlive_false _) fun open' => closing open'.1)

theorem writeLoop_decides (results : List Writev) (c : HttpConn) :
    Decides c (writeLoop results c) := by
  induction results generalizing c with
  | nil => exact .goesOn ⟨rfl, rfl, rfl⟩
  | cons result rest ih =>
      cases result with
      | error => exact .silent (.inl rfl)
      | sent count =>
          refine Decides.earlier (advance_frame c (toInt count)).sameTest ?_
          simp only [writeLoop]
          split
          · exact finish_decides _
          · exact ih _

theorem write_decides (c : HttpConn) (results : List Writev) : Decides c (c.write results) := by
  simp only [write]
  split
  · exact .silent (.inr rfl)
  · exact writeLoop_decides results c

theorem sendAll_decides (calls : List (List Writev)) (c : HttpConn) : Decides c (sendAll c calls) := by
  induction calls generalizing c with
  | nil => exact .goesOn ⟨rfl, rfl, rfl⟩
  | cons results rest ih =>
      have decides := write_decides c results
      simp only [sendAll]
      split
      · rename_i next same
        rw [same] at decides
        exact Decides.earlier (decides.again rfl) (ih next)
      · exact decides

/-! The scan position when `do_request` is called. -/

structure InContent (c : HttpConn) (size : Nat) : Prop where
  ordered : c.Ordered
  inBody : c.checkState = .content
  amount : c.contentLength = size

structure BodyAhead (c : HttpConn) (size : Nat) (result : HttpConn × ReadEnd) : Prop where
  inContent : result.1.InContent size
  linger : result.1.linger = c.linger
  readIdx : result.1.readIdx = c.readIdx
  ahead : result.2 = .callsDoRequest → size + result.1.checkedIdx ≤ result.1.readIdx

theorem InContent.loopBody {c : HttpConn} {size : Nat} (inside : c.InContent size)
    (small : size + c.readIdx < 2 ^ 31) :
    (HttpConn.loopBody c).conn.InContent size ∧ (HttpConn.loopBody c).conn.linger = c.linger ∧
      (HttpConn.loopBody c).conn.readIdx = c.readIdx ∧
      ∀ stopped ending, HttpConn.loopBody c = .stop stopped ending →
        size + stopped.checkedIdx ≤ stopped.readIdx := by
  have checked := inside.ordered.checked
  have amount := inside.amount
  have frame := parseContent_frame { c with startLine := c.checkedIdx } c.startLine
  rw [loopBody_content c inside.inBody, contentStep_conn]
  refine ⟨?_, by rw [frame], by rw [frame], fun stopped ending stop => ?_⟩
  · rw [frame]
    exact ⟨⟨Nat.le_refl _, checked⟩, inside.inBody, amount⟩
  · by_cases whole : contentSum c ≤ c.readIdx
    · have conn := congrArg LoopStep.conn stop
      rw [contentStep_conn, frame] at conn
      simp only [LoopStep.conn] at conn
      simp only [contentSum] at whole
      rw [← conn]
      simp only
      omega
    · have short : (c.readIdx : Int) < contentSum c := by omega
      have fits : FitsInt (contentSum c) := by
        simp only [FitsInt, intMin, intMax, contentSum]
        omega
      rw [parseContent_short { c with startLine := c.checkedIdx } c.startLine fits short] at stop
      contradiction

theorem InContent.parseLine {c : HttpConn} {size : Nat} (inside : c.InContent size) :
    (HttpConn.parseLine c).1.InContent size ∧ (HttpConn.parseLine c).1.linger = c.linger ∧
      (HttpConn.parseLine c).1.readIdx = c.readIdx := by
  have frame := (parseLine_scanned c inside.ordered.checked).frame
  refine ⟨⟨inside.ordered.parseLine, ?_, ?_⟩, by rw [frame], parseLine_readIdx c inside.ordered.checked⟩
  · rw [frame]
    exact inside.inBody
  · rw [frame]
    exact inside.amount

theorem InContent.loopStep {c : HttpConn} {size : Nat} (inside : c.InContent size)
    (small : size + c.readIdx < 2 ^ 31) (status : LineStatus) :
    (HttpConn.loopStep c status).conn.InContent size ∧
      (HttpConn.loopStep c status).conn.linger = c.linger ∧
      (HttpConn.loopStep c status).conn.readIdx = c.readIdx ∧
      ∀ stopped, HttpConn.loopStep c status = .stop stopped .callsDoRequest →
        size + stopped.checkedIdx ≤ stopped.readIdx := by
  by_cases look : status = .lineOk
  · subst look
    rw [loopStep_body c inside.inBody]
    obtain ⟨inside', linger, readIdx, ahead⟩ := inside.loopBody small
    exact ⟨inside', linger, readIdx, fun stopped => ahead stopped _⟩
  · have scanning : HttpConn.loopStep c status = HttpConn.loopStep c .lineOpen := by
      simp [HttpConn.loopStep, loopGuard, look]
    obtain ⟨scanned, linger, readIdx⟩ := inside.parseLine
    rw [scanning, loopStep_open]
    split
    · obtain ⟨inside', linger', readIdx', ahead⟩ := scanned.loopBody (by omega)
      exact ⟨inside', linger'.trans linger, readIdx'.trans readIdx, fun stopped => ahead stopped _⟩
    · refine ⟨scanned, linger, readIdx, fun stopped stop => ?_⟩
      simp at stop

theorem InContent.runLoop {c : HttpConn} {size : Nat} (inside : c.InContent size)
    (small : size + c.readIdx < 2 ^ 31) (status : LineStatus) :
    BodyAhead c size (HttpConn.runLoop c status) := by
  have ordered := inside.ordered
  revert inside small
  refine loop_induction ?_ c status ordered
  intro c status ordered ih inside small
  obtain ⟨inside', linger, readIdx, ahead⟩ := inside.loopStep small status
  rw [runLoop_eq c status ordered]
  cases step : HttpConn.loopStep c status with
  | stop stopped ending =>
      rw [step] at inside' linger readIdx ahead
      refine ⟨inside', linger, readIdx, ?_⟩
      rintro rfl
      exact ahead stopped rfl
  | next next status' =>
      rw [step] at inside' linger readIdx
      have later := ih next status' step inside' (by rw [show next.readIdx = _ from readIdx]; exact small)
      exact ⟨later.inContent, later.linger.trans linger, later.readIdx.trans readIdx, later.ahead⟩

/-! Rounds. -/

structure Asked (c : HttpConn) (header : List UInt8) (size total : Nat) (asked : HttpConn) :
    Prop where
  linger : asked.linger = (headerPhase (c.receive header)).1.linger
  readIdx : asked.readIdx = c.readIdx + total
  bare : size = 0 → asked.checkedIdx = c.readIdx + header.length
  ahead : size ≠ 0 → size + asked.checkedIdx ≤ asked.readIdx

theorem content_request (rounds : List Round) (c : HttpConn) (size : Nat) (asked : HttpConn)
    (inside : c.InContent size) (solid : Solid rounds) (small : size < readBufferSize)
    (room : c.readIdx + (delivered rounds).length < readBufferSize)
    (requested : c.requestFrom rounds = some asked) :
    asked.linger = c.linger ∧ asked.readIdx = c.readIdx + (delivered rounds).length ∧
      size + asked.checkedIdx ≤ asked.readIdx := by
  have capacity : readBufferSize = 2048 := rfl
  induction rounds generalizing c with
  | nil =>
      have result := inside.runLoop (by omega) .lineOk
      simp only [requestFrom] at requested
      split at requested
      · rename_i called
        obtain rfl := Option.some.inj requested
        exact ⟨result.linger, result.readIdx, result.ahead called⟩
      · contradiction
  | cons round rest ih =>
      rw [delivered_cons, List.length_append] at room ⊢
      have result := inside.runLoop (by omega) .lineOk
      have readIdx : (scan c).1.readIdx = c.readIdx := result.readIdx
      simp only [requestFrom] at requested
      split at requested
      · rw [readRound_eq _ round (solid round (by simp)) (by omega)] at requested
        have arrived : ((scan c).1.receive round.bytes).InContent size :=
          ⟨result.inContent.ordered.receive _, result.inContent.inBody, result.inContent.amount⟩
        obtain ⟨linger, readIdx', ahead⟩ := ih _ arrived
          (fun other member => solid other (by simp [member]))
          (by rw [receive_readIdx]; omega) requested
        refine ⟨linger.trans result.linger, ?_, ahead⟩
        rw [readIdx', receive_readIdx, readIdx, Nat.add_assoc]
      · contradiction

theorem Accepts.scan_inside {c : HttpConn} {arrived left : List UInt8} {size : Nat}
    (accepts : c.Accepts (arrived ++ left) size) (state : c.HeaderState) (more : left ≠ []) :
    HttpConn.scan (c.receive arrived) = ((headerPhase (c.receive arrived)).1, .returns .noRequest) := by
  have state' := state.receive arrived
  have phases := scan_eq _ state'.ordered state'.header
  rwa [(accepts.rest state more).1] at phases

theorem Accepts.phase_rest {c : HttpConn} {arrived left : List UInt8} {size : Nat}
    (accepts : c.Accepts (arrived ++ left) size) (state : c.HeaderState) (more : left ≠ []) :
    headerPhase ((headerPhase (c.receive arrived)).1.receive left) =
      headerPhase (c.receive (arrived ++ left)) := by
  have state' := state.receive arrived
  have resumed := headerPhase_receive (c.receive arrived) state'.ordered state'.header left
  rw [receive_receive, (accepts.rest state more).1] at resumed
  exact resumed.symm

theorem requestFrom_congr {first second : HttpConn} (same : scan first = scan second)
    (rounds : List Round) : first.requestFrom rounds = second.requestFrom rounds := by
  cases rounds <;> simp only [requestFrom, same]

theorem Accepts.asked {c : HttpConn} {header : List UInt8} {size : Nat}
    (accepts : c.Accepts header size) (state : c.HeaderState) (part : List UInt8)
    (rounds : List Round) (asked : HttpConn) (solid : Solid rounds) (small : size < readBufferSize)
    (room : c.readIdx + (header.length + part.length + (delivered rounds).length) < readBufferSize)
    (requested : (c.receive (header ++ part)).requestFrom rounds = some asked) :
    Asked c header size (header.length + part.length + (delivered rounds).length) asked := by
  have readIdx : (headerPhase (c.receive header)).1.readIdx = c.readIdx + header.length :=
    (headerPhase_effect _ (state.receive header)).step.readIdx
  by_cases bare : size = 0
  · have state' := state.receive (header ++ part)
    have result := scan_eq _ state'.ordered state'.header
    rw [accepts.longer state part, if_pos bare] at result
    simp only at result
    cases rounds with
    | nil =>
        simp only [requestFrom, result, if_true, Option.some.injEq] at requested
        subst requested
        refine ⟨rfl, ?_, fun _ => accepts.whole, fun some' => absurd bare some'⟩
        simp [readIdx, delivered, Nat.add_assoc]
    | cons round rest => simp [requestFrom, result] at requested
  · have start := accepts.atBody state bare
    rw [requestFrom_congr ((accepts.scan state part).2 bare)] at requested
    have inside : ((headerPhase (c.receive header)).1.receive part).InContent size :=
      ⟨start.ordered.receive part, start.inBody, start.amount⟩
    obtain ⟨linger, total, ahead⟩ := content_request rounds _ size asked inside solid small
      (by rw [receive_readIdx]; omega) requested
    refine ⟨linger, ?_, fun none' => absurd none' bare, fun _ => ahead⟩
    rw [total, receive_readIdx, readIdx]
    omega

theorem header_request (rounds : List Round) (round : Round) (c : HttpConn)
    (header behind : List UInt8) (size : Nat) (asked : HttpConn) (state : c.HeaderState)
    (accepts : c.Accepts header size) (solid : Solid (round :: rounds)) (small : size < readBufferSize)
    (whole : delivered (round :: rounds) = header ++ behind)
    (room : c.readIdx + (delivered (round :: rounds)).length < readBufferSize)
    (requested : c.request (round :: rounds) = some asked) :
    Asked c header size (delivered (round :: rounds)).length asked := by
  induction rounds generalizing round c header with
  | nil =>
      rw [delivered_cons, List.length_append] at room ⊢
      simp only [request, readRound_eq c round (solid round (by simp)) (by omega)] at requested
      rcases header_split ((delivered_cons round []).symm.trans whole) with
        ⟨left, more, _, rest⟩ | ⟨part, bytes⟩
      · simp [delivered, more] at rest
      · rw [bytes, List.length_append] at room ⊢
        rw [bytes] at requested
        exact accepts.asked state part [] asked (by simp [Solid]) small room requested
  | cons next rest ih =>
      have solidRest : Solid (next :: rest) := fun other member =>
        solid other (List.mem_cons_of_mem _ member)
      rw [delivered_cons, List.length_append] at room ⊢
      simp only [request, readRound_eq c round (solid round (by simp)) (by omega)] at requested
      rcases header_split ((delivered_cons round (next :: rest)).symm.trans whole) with
        ⟨left, more, rfl, later⟩ | ⟨part, bytes⟩
      · have effect := headerPhase_effect _ (state.receive round.bytes)
        obtain ⟨none', accepts'⟩ := accepts.rest state more
        have readIdx : (headerPhase (c.receive round.bytes)).1.readIdx =
            c.readIdx + round.bytes.length := effect.step.readIdx
        simp only [requestFrom, accepts.scan_inside state more, if_true] at requested
        have asked' := ih next _ left (effect.headerState none') accepts' solidRest later
          (by rw [readIdx]; omega) requested
        refine ⟨?_, ?_, fun bare => ?_, asked'.ahead⟩
        · rw [asked'.linger, accepts.phase_rest state more]
        · rw [asked'.readIdx, readIdx, Nat.add_assoc]
        · rw [asked'.bare bare, readIdx, List.length_append, Nat.add_assoc]
      · rw [bytes, List.length_append] at room ⊢
        rw [bytes] at requested
        exact accepts.asked state part (next :: rest) asked solidRest small room requested

/-- After a whole request that asks for keep-alive, and the bytes behind it that came with it,
the connection is kept for a request without a body if nothing is behind it, and never
for one with a body: so it is decided as it should be unless a body ends the buffer. -/
theorem keepAlive_right_iff (c : HttpConn) (header body extra : List UInt8) (rounds : List Round)
    (asked : HttpConn) (fs : FileSystem) (calls : List (List Writev)) (kept : Bool)
    (accepts : c.init.Accepts header body.length)
    (keepAlive : (headerPhase (c.init.receive header)).1.linger = true) (solid : Solid rounds)
    (whole : delivered rounds = header ++ body ++ extra)
    (fits : (header ++ body ++ extra).length < readBufferSize)
    (requested : c.init.request rounds = some asked)
    (sent : (sendAll (respond asked fs).1 calls).2 = .complete kept) :
    (KeptAlive (sendAll (respond asked fs).1 calls) ↔ extra = []) ↔ body = [] ∨ extra ≠ [] := by
  obtain ⟨round, rest, rfl⟩ : ∃ round rest, rounds = round :: rest := by
    cases rounds with
    | nil => simp [request] at requested
    | cons round rest => exact ⟨round, rest, rfl⟩
  have fresh : c.init.readIdx = 0 := rfl
  rw [← whole] at fits
  rw [List.append_assoc] at whole
  have total := congrArg List.length whole
  simp only [List.length_append] at total
  have facts := header_request rest round c.init header (body ++ extra) body.length asked
    (init_headerState c) accepts solid (by omega) whole (by omega) requested
  have decided :=
    (Decides.earlier (respond_sameTest asked fs) (sendAll_decides calls _)).complete kept sent
  have linger : asked.linger = true := facts.linger.trans keepAlive
  have readIdx := facts.readIdx
  rw [decided, linger, eq_self_iff_true, true_and, ← List.length_eq_zero_iff,
    ← List.length_eq_zero_iff, ne_eq, ← List.length_eq_zero_iff]
  by_cases bare : body.length = 0
  · have checkedIdx := facts.bare bare
    omega
  · have ahead := facts.ahead bare
    omega

def keepAliveHeader : List UInt8 := bytes "GET / HTTP/1.1\r\nConnection: keep-alive\r\n\r\n"

def keepAliveBodyHeader : List UInt8 :=
  bytes "GET / HTTP/1.1\r\nConnection: keep-alive\r\nContent-Length: 1\r\n\r\n"

theorem request_single {c : HttpConn} {round : Round}
    (called : (scan (readRound c round)).2 = .callsDoRequest) :
    c.request [round] = some (scan (readRound c round)).1 :=
  if_pos called

theorem keepAlive_right_iff_bare :
    (KeptAlive (sendAll (respond (scan (readRound zeroed.init [keepAliveHeader])).1 emptyFileSystem).1
        [[], [.sent 118]]) ↔ ([] : List UInt8) = []) ↔
      ([] : List UInt8) = [] ∨ ([] : List UInt8) ≠ [] :=
  keepAlive_right_iff zeroed keepAliveHeader [] [] [[keepAliveHeader]] _ emptyFileSystem
    [[], [.sent 118]] true (by constructor <;> decide +kernel) (by decide +kernel) (by decide)
    (by decide) (by decide) (request_single (by decide +kernel)) (by decide +kernel)

/-- A request with a body of one byte and nothing behind it: the response goes out and the
connection is closed. -/
theorem body_closes_connection :
    zeroed.init.Accepts keepAliveBodyHeader 1 ∧
      (headerPhase (zeroed.init.receive keepAliveBodyHeader)).1.linger = true ∧
      zeroed.init.request [[keepAliveBodyHeader ++ bytes "x"]] =
        some (scan (readRound zeroed.init [keepAliveBodyHeader ++ bytes "x"])).1 ∧
      (sendAll (respond (scan (readRound zeroed.init [keepAliveBodyHeader ++ bytes "x"])).1
        emptyFileSystem).1 [[.sent 118]]).2 = .complete false :=
  ⟨by constructor <;> decide +kernel, by decide +kernel, request_single (by decide +kernel),
    by decide +kernel⟩

end StudyRecord.Http.HttpConn
