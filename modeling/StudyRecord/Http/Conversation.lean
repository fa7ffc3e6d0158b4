import StudyRecord.Http.Session
import StudyRecord.Http.Slot

/-!
The session of one client as operations on its slot of the connection table: a read and a call
of `process` for each round in which a request arrives, and a call of `write` for each time the
socket takes more of the answer.
-/

namespace StudyRecord.Http

open Runs Machine

def Slot.sends (memory : Nat → Int → UInt8) (s : Slot) : Slot.Op → List UInt8
  | .accept _ _ => []
  | .read _ => []
  | .process _ => []
  | .write results => s.conn.wire memory [results]
  | .close => []
  | .expire => []

def Slot.Op.isWrite : Slot.Op → Bool
  | .accept _ _ => false
  | .read _ => false
  | .process _ => false
  | .write _ => true
  | .close => false
  | .expire => false

theorem Slot.sends_quiet (memory : Nat → Int → UInt8) {op : Slot.Op} (quiet : op.isWrite = false)
    (s : Slot) : s.sends memory op = [] := by
  cases op with
  | accept sockfd timer => rfl
  | read results => rfl
  | process fs => rfl
  | write results => contradiction
  | close => rfl
  | expire => rfl

namespace HttpConn

/-! One write after the other. -/

def Transfer.behind (before : List Pointer) (transfer : Transfer) : Transfer :=
  { transfer with handed := before ++ transfer.handed }

theorem loopTransfers_behind (before handed : List Pointer) (results : List Writev) (c : HttpConn) :
    loopTransfers (before ++ handed) results c =
      (loopTransfers handed results c).map (Transfer.behind before) := by
  induction results generalizing handed c with
  | nil => rfl
  | cons result rest ih =>
      cases result with
      | error => rfl
      | sent count =>
          simp only [loopTransfers, List.append_assoc, List.map_cons, Transfer.behind]
          split
          · rfl
          · rw [ih]

theorem handedBy_behind (before handed : List Pointer) (transfers : List Transfer) :
    handedBy (before ++ handed) (transfers.map (Transfer.behind before)) =
      before ++ handedBy handed transfers := by
  rw [handedBy, handedBy, List.getLast?_map]
  cases transfers.getLast? with
  | none => rfl
  | some transfer => rfl

theorem transfers_behind (before handed : List Pointer) (calls : List (List Writev)) (c : HttpConn) :
    transfers (before ++ handed) calls c =
      (transfers handed calls c).map (Transfer.behind before) := by
  induction calls generalizing handed c with
  | nil => rfl
  | cons results rest ih =>
      have here : (if c.bytesToSend = 0 then [] else loopTransfers (before ++ handed) results c) =
          (if c.bytesToSend = 0 then [] else loopTransfers handed results c).map
            (Transfer.behind before) := by
        split
        · rfl
        · exact loopTransfers_behind before handed results c
      rw [transfers, transfers, here, handedBy_behind, List.map_append]
      by_cases again : (c.write results).2 = .again
      · rw [if_pos again, if_pos again, ih]
      · rw [if_neg again, if_neg again, List.map_nil]

theorem handedBy_append (handed : List Pointer) (first second : List Transfer) :
    handedBy handed (first ++ second) = handedBy (handedBy handed first) second := by
  rw [handedBy, handedBy, handedBy, List.getLast?_append]
  cases second.getLast? with
  | none => rfl
  | some transfer => rfl

theorem writeLoop_again (results : List Writev) {c : HttpConn}
    (again : (writeLoop results c).2 = .again) : SendFrame c (writeLoop results c).1 := by
  induction results generalizing c with
  | nil => rfl
  | cons result rest ih =>
      cases result with
      | error => contradiction
      | sent count =>
          simp only [writeLoop] at again ⊢
          split
          · rename_i done
            rw [if_pos done, finish] at again
            split at again
            · split at again <;> contradiction
            · contradiction
          · rename_i more
            rw [if_neg more] at again
            exact (advance_frame c _).trans (ih again)

theorem write_again {c : HttpConn} {results : List Writev} (again : (c.write results).2 = .again) :
    SendFrame c (c.write results).1 := by
  by_cases nothing : c.bytesToSend = 0
  · rw [write, if_pos nothing] at again
    contradiction
  · rw [write, if_neg nothing] at again ⊢
    exact writeLoop_again results again

theorem SendFrame.byteAt {before after : HttpConn} (frame : SendFrame before after) :
    after.byteAt = before.byteAt := by
  funext memory pointer
  rw [frame]
  rfl

theorem wire_again (memory : Nat → Int → UInt8) {c : HttpConn} {results : List Writev}
    (rest : List (List Writev)) (again : (c.write results).2 = .again) :
    c.wire memory (results :: rest) =
      c.wire memory [results] ++ (c.write results).1.wire memory rest := by
  have first : transfers [] [results] c =
      if c.bytesToSend = 0 then [] else loopTransfers [] results c := by
    rw [transfers, transfers, ite_self, List.append_nil]
  have later := transfers_behind
    (handedBy [] (if c.bytesToSend = 0 then [] else loopTransfers [] results c)) [] rest
    (c.write results).1
  rw [List.append_nil] at later
  have behind := handedBy_behind
    (handedBy [] (if c.bytesToSend = 0 then [] else loopTransfers [] results c)) []
    (transfers [] rest (c.write results).1)
  rw [List.append_nil] at behind
  rw [wire, wire, wire, (write_again again).byteAt, first, transfers, if_pos again, later,
    handedBy_append, behind, List.map_append]

/-! The operations of a session. -/

/-- A request that arrives in rounds, each with the file system that `process` finds behind it,
and the results of `writev` in each call for the answer. -/
structure Exchange where
  request : Request
  early : List (Round × FileSystem)
  round : Round
  fs : FileSystem
  calls : List (List Writev)

def Exchange.turn (exchange : Exchange) : Turn where
  request := exchange.request
  rounds := exchange.early.map Prod.fst ++ [exchange.round]
  fs := exchange.fs
  calls := exchange.calls

def visit (round : Round) (fs : FileSystem) : List Slot.Op :=
  [.read (round.map Recv.data), .process fs]

def Exchange.asks (exchange : Exchange) : List Slot.Op :=
  exchange.early.flatMap (fun arrival => visit arrival.1 arrival.2) ++
    visit exchange.round exchange.fs

def Exchange.answered (exchange : Exchange) (memory : Nat → Int → UInt8) : Option (List UInt8) :=
  answer memory exchange.fs exchange.request.file exchange.request.head.linger

/-- Nothing is written where there is no answer, and nothing is asked behind the last answer. -/
def conversation (memory : Nat → Int → UInt8) : List Exchange → List Slot.Op
  | [] => []
  | exchange :: rest =>
      exchange.asks ++
        match exchange.answered memory with
        | none => []
        | some _ =>
            exchange.calls.map Slot.Op.write ++
              if exchange.request.head.linger then conversation memory rest else []

def Served (c : HttpConn) : List Exchange → Prop
  | [] => True
  | exchange :: rest => ∀ asked ∈ c.request exchange.turn.rounds,
      (respond asked exchange.fs).2 = true →
        ((∀ transfer ∈ transfers [] exchange.calls (respond asked exchange.fs).1,
          transfer.Possible ∧ transfer.Aligned) ∧
          (sendAll (respond asked exchange.fs).1 exchange.calls.dropLast).2 = .again) ∧
        ∃ kept, (sendAll (respond asked exchange.fs).1 exchange.calls).2 = .complete kept ∧
          (kept = true → Served (sendAll (respond asked exchange.fs).1 exchange.calls).1 rest)

instance servedDecidable : (exchanges : List Exchange) → (c : HttpConn) →
    Decidable (c.Served exchanges)
  | [], _ => isTrue trivial
  | exchange :: rest, c =>
      have := servedDecidable rest
      inferInstanceAs (Decidable (∀ asked ∈ c.request exchange.turn.rounds,
        (respond asked exchange.fs).2 = true →
          ((∀ transfer ∈ transfers [] exchange.calls (respond asked exchange.fs).1,
            transfer.Possible ∧ transfer.Aligned) ∧
            (sendAll (respond asked exchange.fs).1 exchange.calls.dropLast).2 = .again) ∧
          ∃ kept, (sendAll (respond asked exchange.fs).1 exchange.calls).2 = .complete kept ∧
            (kept = true → Served (sendAll (respond asked exchange.fs).1 exchange.calls).1 rest)))

theorem Served.carried {exchanges : List Exchange} {c : HttpConn} (served : c.Served exchanges) :
    c.Carried (exchanges.map Exchange.turn) := by
  induction exchanges generalizing c with
  | nil => trivial
  | cons exchange rest ih =>
      intro asked requested prepared
      obtain ⟨⟨transfers', _⟩, kept, complete, later⟩ := served asked requested prepared
      exact ⟨transfers', kept, complete, fun alive => ih (later alive)⟩

/-! Reading a request. -/

theorem visit_round {c : HttpConn} (live : List Mapping) {round : Round}
    (solid : ∀ piece ∈ round, piece ≠ []) (room : c.readIdx + round.bytes.length < readBufferSize) :
    Slot.step ⟨c, live⟩ (.read (round.map Recv.data)) = .ok ⟨readRound c round, live⟩ := by
  have space : ¬c.readIdx ≥ readBufferSize := by omega
  have read' : c.read (round.map Recv.data) = (readRound c round, true) := by
    rw [readRound_eq c round solid room, read, if_neg space, recvLoop_pieces c round solid (by omega)]
  simp only [Slot.step, Slot.read, read']
  rfl

theorem visit_more {c : HttpConn} (live : List Mapping) (fs : FileSystem)
    (more : (scan c).2 = .returns .noRequest) :
    Slot.step ⟨c, live⟩ (.process fs) = .ok ⟨(scan c).1, live⟩ := by
  have parsed : c.processRead fs = ((scan c).1, some .noRequest) := by
    rw [processRead]
    generalize scan c = result at more
    obtain ⟨conn, ending⟩ := result
    obtain rfl : ending = .returns .noRequest := more
    rfl
  simp only [Slot.step, Slot.process, parsed]
  rfl

theorem visit_last {c asked : HttpConn} (live : List Mapping) (fs : FileSystem)
    (scanned : scan c = (asked, .callsDoRequest)) (prepared : (respond asked fs).2 = true) :
    ∃ live', Slot.step ⟨c, live⟩ (.process fs) = .ok ⟨(respond asked fs).1, live'⟩ := by
  have parsed : c.processRead fs = doRequest asked fs := by rw [processRead, scanned]
  rcases same : doRequest asked fs with ⟨found, code⟩
  rw [respond, same] at prepared
  cases code with
  | none => contradiction
  | some ret =>
      have answers : ret ≠ .noRequest := by
        rintro rfl
        contradiction
      refine ⟨Slot.mmapped ⟨c, live⟩ found ret, ?_⟩
      have kept : (processWrite found ret).2 = true := prepared
      simp only [Slot.step, Slot.process, parsed, same, answers, if_false, kept, respond]
      rfl

theorem request_more (c : HttpConn) (first round : Round) (rest : List Round) :
    c.request (first :: round :: rest) =
      if (scan (readRound c first)).2 = .returns .noRequest then
        (scan (readRound c first)).1.request (round :: rest)
      else none := rfl

theorem rounds_read (early : List (Round × FileSystem)) (round : Round) {c asked : HttpConn}
    (live : List Mapping) (ordered : c.Ordered) (solid : Solid (early.map Prod.fst ++ [round]))
    (room : c.readIdx + (delivered (early.map Prod.fst ++ [round])).length < readBufferSize)
    (requested : c.request (early.map Prod.fst ++ [round]) = some asked) :
    ∃ whole, run Slot.step ⟨c, live⟩ (early.flatMap (fun arrival => visit arrival.1 arrival.2) ++
        [.read (round.map Recv.data)]) = .ok ⟨whole, live⟩ ∧
      scan whole = (asked, .callsDoRequest) := by
  induction early generalizing c with
  | nil =>
      have read' := visit_round live (solid round (by simp)) (by simpa [delivered] using room)
      refine ⟨readRound c round, by simp [run, read'], ?_⟩
      simp only [List.map_nil, List.nil_append, request, requestFrom] at requested
      split at requested
      · rename_i calls
        exact Prod.ext (Option.some.inj requested) calls
      · contradiction
  | cons arrival rest ih =>
      obtain ⟨first, fs⟩ := arrival
      obtain ⟨second, later, shape⟩ : ∃ second later,
          rest.map Prod.fst ++ [round] = second :: later :=
        List.exists_cons_of_ne_nil (by simp)
      have size : (delivered (first :: (rest.map Prod.fst ++ [round]))).length =
          first.bytes.length + (delivered (rest.map Prod.fst ++ [round])).length := by
        simp [delivered]
      rw [List.map_cons, List.cons_append] at solid room requested
      rw [size] at room
      have solid' := List.forall_mem_cons.mp solid
      have small : c.readIdx + first.bytes.length < readBufferSize := by omega
      have read' := visit_round live solid'.1 small
      have taken := readRound_eq c first solid'.1 small
      have effect := runLoop_effect (readRound c first) .lineOk (taken ▸ ordered.receive first.bytes)
      have index : (scan (readRound c first)).1.readIdx = c.readIdx + first.bytes.length := by
        refine effect.readIdx.trans ?_
        rw [taken, receive_readIdx]
      rw [shape, request_more] at requested
      split at requested
      · rename_i more
        rw [← shape] at requested
        have ordered' : (scan (readRound c first)).1.Ordered := effect.ordered
        obtain ⟨whole, reached, scanned⟩ := ih ordered' solid'.2 (by rw [index]; omega) requested
        refine ⟨whole, ?_, scanned⟩
        rw [List.flatMap_cons, List.append_assoc, visit, List.cons_append, List.cons_append,
          List.nil_append, run_cons_of_ok read', run_cons_of_ok (visit_more live fs more), reached]
      · contradiction

/-! Sending the answer. -/

theorem write_kept {c : HttpConn} (live : List Mapping) {results : List Writev}
    (result : (c.write results).2.result = true) :
    Slot.step ⟨c, live⟩ (.write results) =
      .ok ⟨(c.write results).1,
        if (c.write results).2.unmaps then (Slot.mk c live).munmapped else live⟩ := by
  simp only [Slot.step, Slot.write, Slot.closeUnless, result, if_true]

theorem sendAll_again {c : HttpConn} {results : List Writev} (rest : List (List Writev))
    (again : (c.write results).2 = .again) :
    sendAll c (results :: rest) = sendAll (c.write results).1 rest := by
  have whole : c.write results = ((c.write results).1, .again) := Prod.ext rfl again
  rw [sendAll, whole]

theorem sendAll_ended {c : HttpConn} {results : List Writev} (rest : List (List Writev))
    (ended : (c.write results).2 ≠ .again) : sendAll c (results :: rest) = c.write results := by
  rw [sendAll]
  split
  · rename_i next again
    rw [again] at ended
    contradiction
  · rfl

theorem emitted_write (memory : Nat → Int → UInt8) (s : Slot) (results : List Writev) :
    emitted Slot.step (Slot.sends memory) s [.write results] = s.conn.wire memory [results] := by
  rw [emitted]
  cases s.step (.write results) with
  | error crash => exact List.append_nil _
  | ok next => exact List.append_nil _

theorem writes_sent (memory : Nat → Int → UInt8) (calls : List (List Writev)) {c : HttpConn}
    (live : List Mapping) {kept : Bool} (more : (sendAll c calls.dropLast).2 = .again)
    (complete : (sendAll c calls).2 = .complete kept) :
    emitted Slot.step (Slot.sends memory) ⟨c, live⟩ (calls.map Slot.Op.write) =
        c.wire memory calls ∧
      (kept = true → ∃ live', run Slot.step ⟨c, live⟩ (calls.map Slot.Op.write) =
        .ok ⟨(sendAll c calls).1, live'⟩) := by
  induction calls generalizing c live with
  | nil => contradiction
  | cons results rest ih =>
      by_cases again : (c.write results).2 = .again
      · have taken := write_kept live (show (c.write results).2.result = true by rw [again]; rfl)
        rw [sendAll_again rest again] at complete
        cases rest with
        | nil => contradiction
        | cons second others =>
            rw [List.dropLast_cons_cons, sendAll_again _ again] at more
            obtain ⟨sent, reached⟩ := ih _ more complete
            refine ⟨?_, fun alive => ?_⟩
            · rw [List.map_cons, emitted_cons_of_ok _ taken, sent, wire_again memory _ again]
              rfl
            · rw [List.map_cons, run_cons_of_ok taken, sendAll_again _ again]
              exact reached alive
      · cases rest with
        | nil =>
            rw [sendAll_ended [] again] at complete
            refine ⟨emitted_write memory ⟨c, live⟩ results, fun alive => ?_⟩
            have taken := write_kept live (show (c.write results).2.result = true by rw [complete, alive]; rfl)
            rw [List.map_singleton, run_cons_of_ok taken, sendAll_ended [] again]
            exact ⟨_, rfl⟩
        | cons second others =>
            rw [List.dropLast_cons_cons, sendAll_ended _ again] at more
            contradiction

/-! Whole conversations. -/

theorem asks_quiet (exchange : Exchange) : ∀ op ∈ exchange.asks, op.isWrite = false := by
  intro op member
  simp only [Exchange.asks, visit, List.mem_append, List.mem_flatMap, List.mem_pair] at member
  rcases member with ⟨_, _, rfl | rfl⟩ | rfl | rfl <;> rfl

theorem emitted_quiet (memory : Nat → Int → UInt8) (s : Slot) {ops : List Slot.Op}
    (quiet : ∀ op ∈ ops, op.isWrite = false) :
    emitted Slot.step (Slot.sends memory) s ops = [] :=
  emitted_nothing ops s fun op member s => Slot.sends_quiet memory (quiet op member) s

theorem conversation_sent (memory : Nat → Int → UInt8) (exchanges : List Exchange) (c : HttpConn)
    (live : List Mapping) (wellFormed : ∀ exchange ∈ exchanges, exchange.turn.WellFormed)
    (served : c.init.Served exchanges) :
    emitted Slot.step (Slot.sends memory) ⟨c.init, live⟩ (conversation memory exchanges) =
      answers memory (exchanges.map Exchange.turn) := by
  induction exchanges generalizing c live with
  | nil => rfl
  | cons exchange rest ih =>
      obtain ⟨here, others⟩ := List.forall_mem_cons.mp wellFormed
      obtain ⟨asked, requested, ready⟩ := here.asked c
      have prepared := respond_answers ready exchange.fs memory here.small
      have served := served asked requested
      have heard := emitted_quiet memory ⟨c.init, live⟩ (asks_quiet exchange)
      simp only [conversation, List.map_cons, answers]
      change _ = match exchange.answered memory with
        | none => []
        | some text => text ++ if exchange.request.head.linger then
            answers memory (rest.map Exchange.turn) else []
      cases said : exchange.answered memory with
      | none =>
          simp only [List.append_nil]
          exact heard
      | some text =>
          have prepares : Prepares memory text (respond asked exchange.fs) := by
            have same : answer memory exchange.fs exchange.turn.request.file
                exchange.turn.request.head.linger = some text := said
            rw [same] at prepared
            exact prepared
          obtain ⟨⟨transfers', more⟩, kept, complete, later⟩ := served prepares.prepared
          have linger : kept = exchange.request.head.linger := ready.kept exchange.fs complete
          have sent := prepares.sent transfers' complete
          have room : c.init.readIdx + (delivered exchange.turn.rounds).length < readBufferSize := by
            have short := here.short
            rw [← here.whole] at short
            exact (Nat.zero_add _).symm ▸ short
          obtain ⟨whole, reached, scanned⟩ := rounds_read exchange.early exchange.round live
            (init_headerState c).ordered here.solid room requested
          obtain ⟨live', answering⟩ := visit_last live exchange.fs scanned prepares.prepared
          have asks : run Slot.step ⟨c.init, live⟩ exchange.asks =
              .ok ⟨(respond asked exchange.fs).1, live'⟩ := by
            have shape : exchange.asks =
                (exchange.early.flatMap (fun arrival => visit arrival.1 arrival.2) ++
                  [.read (exchange.round.map Recv.data)]) ++ [.process exchange.fs] := by
              simp [Exchange.asks, visit]
            rw [shape, run_append reached, run_cons_of_ok answering]
            rfl
          obtain ⟨delivered', next⟩ := writes_sent memory exchange.calls live' more complete
          simp only
          rw [emitted_append _ asks, heard, List.nil_append, ← linger]
          cases kept with
          | false => simp [delivered', sent]
          | true =>
              obtain ⟨live'', next⟩ := next rfl
              obtain ⟨before, fresh⟩ := sendAll_fresh exchange.calls complete
              rw [if_pos rfl, if_pos rfl, emitted_append _ next, delivered', sent, fresh]
              rw [fresh] at later
              rw [ih before live'' others (later rfl)]

end HttpConn

end StudyRecord.Http
