import StudyRecord.Pressure.Fetch

/-!
`benchcore` of `test_pressure/webbench-1.5/webbench.c`, the loop of a child that asks for the page
until its time is over, and what it counts at the web server of this repository.
-/

namespace StudyRecord.WebBench

open CString LineStream Machine Http Http.HttpConn

/-- The counters, of which only `bytes` can leave an `int` in the time of a run. -/
structure Counters where
  speed : Int
  failed : Int
  bytes : Int
  deriving DecidableEq

inductive Read
  | data (chunk : List UInt8)
  | ended
  | error

/-- What the calls of one pass return. `reads` stops early when the time is over. -/
structure Attempt where
  socket : Bool
  written : Int
  shutdown : Bool
  reads : List Read
  closed : Bool

namespace Counters

def fail (counters : Counters) : Counters := { counters with failed := counters.failed + 1 }

def readAll (counters : Counters) : List Read → Counters × Bool
  | [] => (counters, true)
  | .data chunk :: rest =>
      readAll { counters with bytes := toInt (counters.bytes + chunk.length) } rest
  | .ended :: _ => (counters, true)
  | .error :: _ => (counters.fail, false)

def attempt (settings : Settings) (force : Bool) (request : List UInt8) (counters : Counters)
    (calls : Attempt) : Counters :=
  if calls.socket = false then counters.fail
  else if request.length ≠ calls.written then counters.fail
  else if settings.version = 0 ∧ calls.shutdown = false then counters.fail
  else
    match if force then (counters, true) else counters.readAll calls.reads with
    | (counters, false) => counters
    | (counters, true) =>
        if calls.closed = false then counters.fail
        else { counters with speed := counters.speed + 1 }

end Counters

def benchcore (settings : Settings) (force : Bool) (request : List UInt8)
    (passes : List Attempt) : Counters :=
  let counters := passes.foldl (Counters.attempt settings force request) ⟨0, 0, 0⟩
  if counters.failed > 0 then { counters with failed := counters.failed - 1 } else counters

/-! What is counted. -/

def readsOf : List Read → Int × Bool
  | [] => (0, true)
  | .data chunk :: rest => (chunk.length + (readsOf rest).1, (readsOf rest).2)
  | .ended :: _ => (0, true)
  | .error :: _ => (0, false)

namespace Attempt

variable (settings : Settings) (force : Bool) (request : List UInt8)

def Sends (calls : Attempt) : Prop :=
  calls.socket = true ∧ calls.written = request.length ∧
    (settings.version = 0 → calls.shutdown = true)

instance (calls : Attempt) : Decidable (calls.Sends settings request) :=
  inferInstanceAs (Decidable (_ ∧ _ ∧ (_ → _)))

def Succeeds (calls : Attempt) : Prop :=
  calls.Sends settings request ∧ (force = false → (readsOf calls.reads).2 = true) ∧
    calls.closed = true

instance (calls : Attempt) : Decidable (calls.Succeeds settings force request) :=
  inferInstanceAs (Decidable (_ ∧ (_ → _) ∧ _))

def bytesRead (calls : Attempt) : Int :=
  if calls.Sends settings request ∧ force = false then (readsOf calls.reads).1 else 0

end Attempt

theorem readAll_eq (reads : List Read) {counters : Counters} {total : Int}
    (counted : counters.bytes = toInt total) :
    counters.readAll reads =
      (⟨counters.speed, counters.failed + if (readsOf reads).2 then 0 else 1,
        toInt (total + (readsOf reads).1)⟩, (readsOf reads).2) := by
  induction reads generalizing counters total with
  | nil => simp [Counters.readAll, readsOf, ← counted]
  | cons read reads ih =>
      cases read with
      | data chunk =>
          have later := @ih { counters with bytes := toInt (counters.bytes + chunk.length) }
            (total + chunk.length) (by rw [counted, toInt_add_left])
          rw [Counters.readAll, later, readsOf, Int.add_assoc]
      | ended => simp [Counters.readAll, readsOf, ← counted]
      | error => simp [Counters.readAll, readsOf, Counters.fail, ← counted]

theorem attempt_eq (settings : Settings) (force : Bool) (request : List UInt8) (calls : Attempt)
    {counters : Counters} {total : Int} (counted : counters.bytes = toInt total) :
    counters.attempt settings force request calls =
      ⟨counters.speed + if calls.Succeeds settings force request then 1 else 0,
        counters.failed + if calls.Succeeds settings force request then 0 else 1,
        toInt (total + calls.bytesRead settings force request)⟩ := by
  rw [Counters.attempt]
  by_cases sends : calls.Sends settings request
  · obtain ⟨socket, written, shutdown⟩ := sends
    have whole : ¬(request.length : Int) ≠ calls.written := fun other => other written.symm
    have halved : ¬(settings.version = 0 ∧ calls.shutdown = false) := by
      rintro ⟨oldest, kept⟩
      rw [shutdown oldest] at kept
      contradiction
    have sends : calls.Sends settings request := ⟨socket, written, shutdown⟩
    rw [if_neg (by simp [socket]), if_neg whole, if_neg halved]
    cases force with
    | true =>
        cases closed : calls.closed with
        | true => simp [Attempt.Succeeds, Attempt.bytesRead, sends, closed, ← counted]
        | false =>
            simp [Attempt.Succeeds, Attempt.bytesRead, Counters.fail, sends, closed, ← counted]
    | false =>
        rw [if_neg Bool.false_ne_true, readAll_eq calls.reads counted]
        cases through : (readsOf calls.reads).2 with
        | false => simp [Attempt.Succeeds, Attempt.bytesRead, sends, through]
        | true =>
            cases closed : calls.closed with
            | true => simp [Attempt.Succeeds, Attempt.bytesRead, sends, through, closed]
            | false => simp [Attempt.Succeeds, Attempt.bytesRead, Counters.fail, sends, through, closed]
  · have missed : ¬calls.Succeeds settings force request := fun succeeds => sends succeeds.1
    have failed : counters.fail = ⟨counters.speed + if calls.Succeeds settings force request then 1
        else 0, counters.failed + if calls.Succeeds settings force request then 0 else 1,
        toInt (total + calls.bytesRead settings force request)⟩ := by
      simp [Counters.fail, missed, Attempt.bytesRead, sends, ← counted]
    rw [← failed]
    split
    · rfl
    · rename_i socket
      split
      · rfl
      · rename_i written
        split
        · rfl
        · rename_i shutdown
          refine absurd ⟨by simpa using socket, ?_, fun oldest => ?_⟩ sends
          · exact (not_not.mp written).symm
          · by_contra kept
            exact shutdown ⟨oldest, by simpa using kept⟩

theorem attempts_eq (settings : Settings) (force : Bool) (request : List UInt8)
    (passes : List Attempt) {counters : Counters} {total : Int}
    (counted : counters.bytes = toInt total) :
    passes.foldl (Counters.attempt settings force request) counters =
      ⟨counters.speed + passes.countP (·.Succeeds settings force request),
        counters.failed + passes.countP (¬·.Succeeds settings force request),
        toInt (total + (passes.map (·.bytesRead settings force request)).sum)⟩ := by
  induction passes generalizing counters total with
  | nil => simp [← counted]
  | cons calls passes ih =>
      have here := attempt_eq settings force request calls counted
      rw [List.foldl_cons, ih (congrArg Counters.bytes here), here, List.map_cons, List.sum_cons,
        ← Int.add_assoc]
      by_cases succeeds : calls.Succeeds settings force request
      · simp [succeeds]
        omega
      · simp [succeeds]
        omega

theorem benchcore_eq (settings : Settings) (force : Bool) (request : List UInt8)
    (passes : List Attempt) :
    benchcore settings force request passes =
      ⟨passes.countP (·.Succeeds settings force request),
        ((passes.countP (¬·.Succeeds settings force request)) - 1 : Nat),
        toInt (passes.map (·.bytesRead settings force request)).sum⟩ := by
  have zero : (⟨0, 0, 0⟩ : Counters).bytes = toInt 0 := rfl
  rw [benchcore, attempts_eq settings force request passes zero]
  generalize passes.countP (¬·.Succeeds settings force request) = failed
  by_cases some_ : 0 < failed
  · simp [some_]
  · have none_ : failed = 0 := by omega
    simp [none_]

/-! The load generator at the server. -/

/-- A connection of a child as the server and the kernel have it: the slot, the rounds in which the
request arrives, what the file system says, what `writev` returns, and the chunks in which the
child reads the answer. -/
structure Visit where
  conn : HttpConn
  rounds : List Round
  fs : FileSystem
  calls : List (List Writev)
  chunks : List (List UInt8)

namespace Visit

def turn (visit : Visit) (request : Request) : Turn where
  request := request
  rounds := visit.rounds
  fs := visit.fs
  calls := visit.calls

structure Served (visit : Visit) (memory : Nat → Int → UInt8) (built : Built) (request : Request) :
    Prop where
  solid : Solid visit.rounds
  last : ∀ round ∈ visit.rounds.getLast?, round ≠ []
  whole : delivered visit.rounds = built.request
  small : ∀ stat ∈ visit.fs.stat request.file, stat.size ≤ sizeMost false
  carried : visit.conn.init.Carried [visit.turn request]
  chunks : visit.chunks.flatten = session memory visit.conn.init [visit.turn request]

def attempt (visit : Visit) (built : Built) : Attempt where
  socket := true
  written := built.request.length
  shutdown := true
  reads := visit.chunks.map .data ++ [.ended]
  closed := true

end Visit

theorem readsOf_chunks (chunks : List (List UInt8)) :
    readsOf (chunks.map .data ++ [.ended]) = ((chunks.flatten.length : Int), true) := by
  induction chunks with
  | nil => rfl
  | cons chunk chunks ih =>
      rw [List.map_cons, List.cons_append, readsOf, ih, List.flatten_cons, List.length_append,
        Nat.cast_add]

theorem Visit.succeeds (visit : Visit) (settings : Settings) (built : Built) :
    (visit.attempt built).Succeeds settings false built.request := by
  refine ⟨⟨rfl, rfl, fun _ => rfl⟩, fun _ => ?_, rfl⟩
  rw [Visit.attempt, readsOf_chunks]

theorem Visit.bytesRead (visit : Visit) (settings : Settings) (built : Built) :
    (visit.attempt built).bytesRead settings false built.request = visit.chunks.flatten.length := by
  have sends : (visit.attempt built).Sends settings built.request := ⟨rfl, rfl, fun _ => rfl⟩
  rw [Attempt.bytesRead, if_pos ⟨sends, rfl⟩, Visit.attempt, readsOf_chunks]

theorem Visit.Served.answered {visit : Visit} {memory : Nat → Int → UInt8} {built : Built}
    {request : Request} (served : visit.Served memory built request)
    (written : built.request = request.render) (bare : request.head.contentLength = 0)
    (short : request.render.length < readBufferSize) (closes : request.head.linger = false) :
    visit.chunks.flatten = (answer memory visit.fs request.file false).getD [] := by
  have wellFormed : (visit.turn request).WellFormed :=
    { bare := bare
      solid := served.solid
      last := served.last
      whole := served.whole.trans written
      short := short
      small := by
        rw [Visit.turn, closes]
        exact served.small }
  have single := session_turn memory [] wellFormed served.carried
  rw [served.chunks]
  rw [Visit.turn, closes] at single
  cases said : answer memory visit.fs request.file false with
  | none =>
      rw [said] at single
      exact single
  | some text =>
      rw [said] at single
      exact single

/-- A child that asks the server for a page until its time is over, with a pass at the end that
the alarm may break, counts every visit as a success, no failure and the bytes of all answers. A
pass that is broken between two reads counts as a success as well. -/
theorem benchmark_counts (settings : Settings) (direct : settings.proxyhost = none)
    (get : settings.method = .get) (numbered : 0 < settings.http10) (address : Address)
    (clean : Clean address.url) (built : Built)
    (made : buildRequest settings address.url = .ok built) (memory : Nat → Int → UInt8)
    (page : Request)
    (asked : page = address.page (Address.plain_of_clean clean) (settings.http10 = 2))
    (visits : List Visit) (served : ∀ visit ∈ visits, visit.Served memory built page)
    (broken : Option Attempt) :
    benchcore settings false built.request (visits.map (·.attempt built) ++ broken.toList) =
      ⟨visits.length + broken.toList.countP (·.Succeeds settings false built.request), 0,
        toInt ((visits.map fun visit =>
        (((answer memory visit.fs page.file false).getD []).length : Int)).sum +
          (broken.toList.map (·.bytesRead settings false built.request)).sum)⟩ := by
  obtain ⟨short, fits, rfl⟩ := built_of_ok direct made
  subst asked
  have plain := Address.plain_of_clean clean
  have written := built_request direct get numbered address plain
  have room : (address.built settings).request.length < readBufferSize :=
    built_short settings fits.1 short
  have head := page_head address plain (settings.http10 = 2)
  have through : (visits.map (·.attempt (address.built settings))).countP
      (·.Succeeds settings false (address.built settings).request) = visits.length := by
    rw [List.countP_eq_length.mpr, List.length_map]
    intro calls member
    obtain ⟨visit, _, rfl⟩ := List.mem_map.mp member
    exact decide_eq_true (visit.succeeds settings _)
  have disturbed : (visits.map (·.attempt (address.built settings))).countP
      (¬·.Succeeds settings false (address.built settings).request) = 0 := by
    rw [List.countP_eq_zero]
    intro calls member
    obtain ⟨visit, _, rfl⟩ := List.mem_map.mp member
    simpa using visit.succeeds settings _
  have read : ((visits.map (·.attempt (address.built settings))).map
      (·.bytesRead settings false (address.built settings).request)).sum =
        (visits.map fun visit => (((answer memory visit.fs
          (address.page plain (settings.http10 = 2)).file false).getD []).length : Int)).sum := by
    rw [List.map_map]
    congr 1
    refine List.map_congr_left fun visit member => ?_
    have answered := (served visit member).answered written (by rw [head]) (by rwa [← written])
      (by rw [head])
    rw [Function.comp_apply, visit.bytesRead settings, answered]
  rw [benchcore_eq, List.countP_append, List.countP_append, through, disturbed, List.map_append,
    List.sum_append, read]
  cases broken with
  | none => simp
  | some calls =>
      by_cases succeeds : calls.Succeeds settings false (address.built settings).request
      · simp [succeeds]
      · simp [succeeds]

def plainPage : Request :=
  plainAddress.page (Address.plain_of_clean (by decide +kernel)) true

def plainText : List UInt8 := fileText (fun _ _ => 65) false 4096 4

def plainVisit : Visit where
  conn := zeroed
  rounds := [[plainPage.render]]
  fs := shortFile
  calls := [[.sent 59]]
  chunks := [plainText.take 20, plainText.drop 20]

theorem plainVisit_served :
    plainVisit.Served (fun _ _ => 65) (plainAddress.built plainSettings) plainPage where
  solid := by decide +kernel
  last := by decide +kernel
  whole := by decide +kernel
  small := by decide +kernel
  carried := by decide +kernel
  chunks := by decide +kernel

theorem benchmark_counts_one :
    benchcore plainSettings false (plainAddress.built plainSettings).request
        ([plainVisit.attempt (plainAddress.built plainSettings)] ++
          [⟨true, (plainAddress.built plainSettings).request.length, true, [.data [72]], true⟩]) =
      ⟨2, 0, 60⟩ := by
  have counted := benchmark_counts plainSettings rfl rfl (by decide) plainAddress (by decide +kernel)
    (plainAddress.built plainSettings) (by rfl) (fun _ _ => 65) plainPage rfl [plainVisit]
    (List.forall_mem_singleton.mpr plainVisit_served)
    (some ⟨true, (plainAddress.built plainSettings).request.length, true, [.data [72]], true⟩)
  refine counted.trans ?_
  decide +kernel

end StudyRecord.WebBench
