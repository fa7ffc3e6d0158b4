import StudyRecord.Practice.TcpAndUdp

/-!
The answers to datagrams. Only the part of the buffer that it shares with the array for clients is
ever cleared, so that a datagram shorter than an earlier one may be answered with the end of the
earlier one behind it.
-/

namespace StudyRecord.TcpAndUdp

open CString Readiness Runs

namespace Server

def overwritten (buf : Buffer) (data : List UInt8) : Buffer :=
  copyIn buf 0 (data.take (udpBufferSize - 1))

/-- What is done with the array: a datagram is received in it, or the loop around `recv` for a
client ends, with the last `memset` before it. -/
inductive Use
  | received (data : List UInt8)
  | cleared
  deriving DecidableEq

def Use.apply (buf : Buffer) : Use → Buffer
  | .received data => overwritten buf data
  | .cleared => memset buf 0 tcpBufferSize

theorem cleared_upper (buf : Buffer) {index : Nat} (outside : tcpBufferSize ≤ index) :
    Use.apply buf .cleared index = buf index :=
  if_neg (Nat.not_lt_of_le outside)

def uses (server : Server) : Event → List Use
  | .serve _ _ =>
      match server.batch with
      | .udp :: _ => (server.datagrams.queue.take 1).map .received
      | .client id :: _ => if (server.clients id).watch.queue = [] then [.cleared] else []
      | _ => []
  | .connect _ | .write _ _ | .shutdown _ | .datagram _ | .wait _ | .refuse => []

def datagramsOf (uses : List Use) : List (List UInt8) :=
  uses.filterMap fun
    | .received data => some data
    | .cleared => none

def replies : Buffer → List Use → List (List UInt8)
  | _, [] => []
  | buf, .received data :: rest =>
      (if data = [] then [] else [stringAt udpBufferSize (overwritten buf data) 0]) ++
        replies (overwritten buf data) rest
  | buf, .cleared :: rest => replies (memset buf 0 tcpBufferSize) rest

theorem replies_append (buf : Buffer) (first second : List Use) :
    replies buf (first ++ second) =
      replies buf first ++ replies (first.foldl Use.apply buf) second := by
  induction first generalizing buf with
  | nil => rfl
  | cons use rest ih =>
      cases use with
      | received data =>
          rw [List.cons_append, replies, ih, replies, List.append_assoc, List.foldl_cons]
          rfl
      | cleared =>
          rw [List.cons_append, replies, ih, replies, List.foldl_cons]
          rfl

structure Faithful (buf : Buffer) (data : List UInt8) : Prop where
  solid : ∀ byte ∈ data, byte ≠ 0
  fits : data.length < udpBufferSize
  ends : buf data.length = 0

theorem overwritten_fits (buf : Buffer) {data : List UInt8} (fits : data.length < udpBufferSize) :
    overwritten buf data = copyIn buf 0 data := by
  rw [overwritten, List.take_of_length_le (by omega)]

theorem overwritten_last {buf : Buffer} (zero : buf (udpBufferSize - 1) = 0) (data : List UInt8) :
    overwritten buf data (udpBufferSize - 1) = 0 := by
  rw [overwritten, copyIn_above _ _ (by rw [List.length_take]; omega), zero]

theorem answer_faithful_iff {buf : Buffer} (zero : buf (udpBufferSize - 1) = 0)
    (data : List UInt8) :
    stringAt udpBufferSize (overwritten buf data) 0 = data ↔ Faithful buf data := by
  by_cases fits : data.length < udpBufferSize
  · rw [overwritten_fits buf fits, stringAt_overwritten_iff buf fits]
    exact ⟨fun both => ⟨both.1, fits, both.2⟩, fun faithful => ⟨faithful.solid, faithful.ends⟩⟩
  · refine iff_of_false (fun same => ?_) fun faithful => fits faithful.fits
    have bound : 0 + (stringAt udpBufferSize (overwritten buf data) 0).length ≤ udpBufferSize - 1 :=
      stringAt_bound (Nat.zero_le _) (overwritten_last zero data)
    rw [same] at bound
    have size : udpBufferSize = 1024 := rfl
    omega

theorem overwritten_zero_iff {buf : Buffer} {data : List UInt8} (solid : ∀ byte ∈ data, byte ≠ 0)
    (fits : data.length < udpBufferSize) (size : Nat) :
    overwritten buf data size = 0 ↔ data.length ≤ size ∧ buf size = 0 := by
  rw [overwritten_fits buf fits]
  by_cases behind : data.length ≤ size
  · rw [copyIn_above _ _ (by omega)]
    exact (and_iff_right behind).symm
  · refine iff_of_false (fun zero => ?_) fun both => behind both.1
    have inside : size < data.length := Nat.lt_of_not_le behind
    have here : copyIn buf 0 data (0 + size) = data[size] := copyIn_inside buf data inside
    rw [Nat.zero_add] at here
    rw [here] at zero
    exact solid _ (List.getElem_mem inside) zero

def NonEmpty (data : List UInt8) : Bool := !data.isEmpty

/-- Nothing longer has been received since the array was last clear behind `size` bytes. The
earlier uses stand the last one first. -/
def Clean (buf : Buffer) (size : Nat) : List Use → Prop
  | [] => buf size = 0
  | .received data :: earlier => data.length ≤ size ∧ Clean buf size earlier
  | .cleared :: earlier => size < tcpBufferSize ∨ Clean buf size earlier

instance decidableClean (buf : Buffer) (size : Nat) :
    (earlier : List Use) → Decidable (Clean buf size earlier)
  | [] => inferInstanceAs (Decidable (buf size = 0))
  | .received data :: earlier =>
      have := decidableClean buf size earlier
      inferInstanceAs (Decidable (data.length ≤ size ∧ Clean buf size earlier))
  | .cleared :: earlier =>
      have := decidableClean buf size earlier
      inferInstanceAs (Decidable (size < tcpBufferSize ∨ Clean buf size earlier))

structure Answerable (buf : Buffer) (earlier : List Use) (data : List UInt8) : Prop where
  solid : ∀ byte ∈ data, byte ≠ 0
  fits : data.length < udpBufferSize
  clean : Clean buf data.length earlier

def leaves (buf : Buffer) (earlier : List Use) : Buffer :=
  earlier.foldr (fun use buf => use.apply buf) buf

def Plain (earlier : List Use) : Prop :=
  ∀ data, .received data ∈ earlier → (∀ byte ∈ data, byte ≠ 0) ∧ data.length < udpBufferSize

theorem leaves_zero_iff (buf : Buffer) {earlier : List Use} (plain : Plain earlier) (size : Nat) :
    leaves buf earlier size = 0 ↔ Clean buf size earlier := by
  induction earlier with
  | nil => exact Iff.rfl
  | cons use earlier ih =>
      have before := ih fun data member => plain data (List.mem_cons_of_mem use member)
      cases use with
      | received data =>
          obtain ⟨solid, fits⟩ := plain data List.mem_cons_self
          exact (overwritten_zero_iff solid fits size).trans (and_congr_right' before)
      | cleared =>
          show memset (leaves buf earlier) 0 tcpBufferSize size = 0 ↔ _
          by_cases inside : size < tcpBufferSize
          · exact iff_of_true (if_pos inside) (.inl inside)
          · rw [memset, if_neg inside, before]
            exact (or_iff_right inside).symm

theorem leaves_last (buf : Buffer) (zero : buf (udpBufferSize - 1) = 0) (earlier : List Use) :
    leaves buf earlier (udpBufferSize - 1) = 0 := by
  induction earlier with
  | nil => exact zero
  | cons use earlier ih =>
      cases use with
      | received data => exact overwritten_last ih data
      | cleared =>
          exact (cleared_upper _ (by decide)).trans ih

theorem answer_answerable_iff {buf : Buffer} (zero : buf (udpBufferSize - 1) = 0)
    {earlier : List Use} (plain : Plain earlier) (data : List UInt8) :
    stringAt udpBufferSize (overwritten (leaves buf earlier) data) 0 = data ↔
      Answerable buf earlier data := by
  rw [answer_faithful_iff (leaves_last buf zero earlier)]
  have same := leaves_zero_iff buf plain data.length
  exact ⟨fun faithful => ⟨faithful.solid, faithful.fits, same.mp faithful.ends⟩,
    fun answerable => ⟨answerable.solid, answerable.fits, same.mpr answerable.clean⟩⟩

def AllAnswerable (buf : Buffer) : (earlier later : List Use) → Prop
  | _, [] => True
  | earlier, .received data :: later =>
      (data ≠ [] → Answerable buf earlier data) ∧
        AllAnswerable buf (.received data :: earlier) later
  | earlier, .cleared :: later => AllAnswerable buf (.cleared :: earlier) later

theorem replies_exact {buf : Buffer} (zero : buf (udpBufferSize - 1) = 0) (later : List Use)
    {earlier : List Use} (plain : Plain earlier) :
    replies (leaves buf earlier) later = (datagramsOf later).filter NonEmpty ↔
      AllAnswerable buf earlier later := by
  induction later generalizing earlier with
  | nil => exact iff_of_true rfl trivial
  | cons use later ih =>
      cases use with
      | cleared =>
          have plain' : Plain (.cleared :: earlier) := fun data member =>
            plain data ((List.mem_cons.mp member).resolve_left Use.noConfusion)
          exact ih plain'
      | received data =>
          have longer (solid : ∀ byte ∈ data, byte ≠ 0) (fits : data.length < udpBufferSize) :
              Plain (.received data :: earlier) := by
            intro other member
            rcases List.mem_cons.mp member with same | before
            · rw [Use.received.inj same]
              exact ⟨solid, fits⟩
            · exact plain other before
          have taken : (datagramsOf (.received data :: later)).filter NonEmpty =
              (if data = [] then [] else [data]) ++ (datagramsOf later).filter NonEmpty := by
            cases data <;> rfl
          rw [replies, taken, AllAnswerable]
          by_cases empty : data = []
          · rw [if_pos empty, if_pos empty, List.nil_append, List.nil_append]
            have rest := ih (longer (by simp [empty]) (by simp [empty, udpBufferSize]))
            exact rest.trans (and_iff_right fun some' => absurd empty some').symm
          · rw [if_neg empty, if_neg empty, List.singleton_append, List.singleton_append,
              List.cons.injEq, answer_answerable_iff zero plain]
            have same : (data ≠ [] → Answerable buf earlier data) ↔ Answerable buf earlier data :=
              forall_prop_of_true empty
            rw [same]
            exact and_congr_right fun here => ih (longer here.solid here.fits)

/-! The uses of the array in a run. -/

/-- `used` are the uses of the array so far. In the middle of the loop around `recv` the array
differs from what they leave in the part that the next `memset` clears. -/
structure Answered (buf : Buffer) (server : Server) (used : List Use) : Prop where
  upper : ∀ index, tcpBufferSize ≤ index → server.buf index = used.foldl Use.apply buf index
  between : (∀ id, server.batch.head? ≠ some (.client id)) → server.buf = used.foldl Use.apply buf
  received : server.datagrams.taken = datagramsOf used
  answers : server.answers = replies buf used

theorem fill_upper (server : Server) {received : List UInt8} (room : received.length ≤ tcpBufferSize)
    {index : Nat} (outside : tcpBufferSize ≤ index) :
    (server.fill received).buf index = server.buf index := by
  show copyIn _ 0 received index = _
  rw [copyIn_above _ _ (by omega), memset, if_neg (by omega)]

theorem datagramsOf_append (first second : List Use) :
    datagramsOf (first ++ second) = datagramsOf first ++ datagramsOf second :=
  List.filterMap_append

section Answered

variable {buf : Buffer} {server next : Server} {used : List Use}

theorem Answered.same (answered : server.Answered buf used)
    (outside : ∀ id, server.batch.head? ≠ some (.client id)) (same : next.buf = server.buf)
    (datagrams : next.datagrams.taken = server.datagrams.taken)
    (answers : next.answers = server.answers) : next.Answered buf used where
  upper index above := by
    rw [same]
    exact answered.upper index above
  between _ := by
    rw [same]
    exact answered.between outside
  received := datagrams.trans answered.received
  answers := answers.trans answered.answers

theorem Answered.still (answered : server.Answered buf used) (same : next.buf = server.buf)
    (batch : next.batch = server.batch)
    (datagrams : next.datagrams.taken = server.datagrams.taken)
    (answers : next.answers = server.answers) : next.Answered buf used where
  upper index above := by
    rw [same]
    exact answered.upper index above
  between outside := by
    rw [same]
    exact answered.between fun id => batch ▸ outside id
  received := datagrams.trans answered.received
  answers := answers.trans answered.answers

theorem Answered.serveUdp (answered : server.Answered buf used)
    (array : server.buf = used.foldl Use.apply buf) :
    server.serveUdp.Answered buf (used ++ (server.datagrams.queue.take 1).map .received) := by
  rw [Server.serveUdp]
  split
  · rename_i empty
    rw [empty, List.take_nil, List.map_nil, List.append_nil]
    exact ⟨answered.upper, fun _ => array, answered.received, answered.answers⟩
  · rename_i data queue shape
    have first : (server.datagrams.queue.take 1).map Use.received = [.received data] := by
      rw [shape]
      rfl
    have taken : (server.datagrams.take 1).taken = server.datagrams.taken ++ [data] := by
      rw [Watch.take, shape]
      rfl
    have after : copyIn server.buf 0 (data.take (udpBufferSize - 1)) =
        (used ++ [Use.received data]).foldl Use.apply buf := by
      rw [List.foldl_append, ← array]
      rfl
    rw [first]
    refine ⟨fun index _ => congrFun after index, fun _ => after, ?_, ?_⟩
    · show (server.datagrams.take 1).taken = _
      rw [taken, answered.received, datagramsOf_append]
      rfl
    · show (if _ then _ else _) = replies buf (used ++ [.received data])
      rw [replies_append, ← array, ← answered.answers, replies, replies, List.append_nil]
      by_cases empty : data = []
      · rw [if_pos (by rw [empty, List.take_nil]), if_pos empty, List.append_nil]
      · rw [if_neg empty, if_neg]
        · rfl
        · rw [List.take_eq_nil_iff]
          exact fun either => either.elim (by decide) empty

theorem Answered.serveClient (answered : server.Answered buf used) {id : Nat} {rest : List Source}
    (shape : server.batch = .client id :: rest) {count : Nat} (most : count ≤ tcpBufferSize - 1)
    (accepted : Nat) :
    (server.serveClient id rest count accepted).Answered buf
      (used ++ if (server.clients id).watch.queue = [] then [.cleared] else []) := by
  rw [Server.serveClient]
  split
  · have after : memset server.buf 0 tcpBufferSize =
        (used ++ [Use.cleared]).foldl Use.apply buf := by
      rw [List.foldl_append]
      funext index
      by_cases inside : index < tcpBufferSize
      · exact (if_pos inside).trans (if_pos inside).symm
      · have above := Nat.le_of_not_lt inside
        exact (cleared_upper _ above).trans
          ((answered.upper index above).trans (cleared_upper _ above).symm)
    have nothing : copyIn (memset server.buf 0 tcpBufferSize) 0 [] =
        memset server.buf 0 tcpBufferSize := by
      funext index
      exact copyIn_above _ [] (Nat.zero_le index)
    refine ⟨fun index _ => ?_, fun _ => ?_, ?_, ?_⟩
    · exact congrFun (nothing.trans after) index
    · exact nothing.trans after
    · show server.datagrams.taken = _
      rw [datagramsOf_append, answered.received]
      exact (List.append_nil _).symm
    · show server.answers = _
      rw [replies_append, answered.answers]
      exact (List.append_nil _).symm
  · rw [List.append_nil]
    refine ⟨fun index above => ?_, fun outside => absurd ?_ (outside id), answered.received,
      answered.answers⟩
    · refine (fill_upper server ?_ above).trans (answered.upper index above)
      rw [List.length_take]
      omega
    · show server.batch.head? = _
      rw [shape]
      rfl

theorem step_answered (server : Server) (event : Event) (next : Server) (used : List Use)
    (answered : server.Answered buf used) (legal : server.Legal event)
    (taken : step server event = .ok next) : next.Answered buf (used ++ server.uses event) := by
  obtain rfl := Except.ok.inj taken
  cases event with
  | connect id =>
      rw [uses, List.append_nil]
      exact answered.still rfl rfl rfl rfl
  | write id bytes =>
      rw [uses, List.append_nil]
      exact answered.still rfl rfl rfl rfl
  | shutdown id =>
      rw [uses, List.append_nil]
      exact answered.still rfl rfl rfl rfl
  | datagram data =>
      rw [uses, List.append_nil]
      exact answered.still rfl rfl rfl rfl
  | wait reports =>
      have taken : (server.wait reports).datagrams.taken = server.datagrams.taken := by
        simp only [Server.wait]
        split <;> rfl
      rw [uses, List.append_nil]
      refine answered.same (fun id => ?_) rfl taken rfl
      rw [legal.1]
      simp
  | refuse =>
      rw [uses, List.append_nil, after, refuse]
      split
      · rename_i rest shape
        exact answered.same (fun id => by rw [shape]; simp) rfl rfl rfl
      · rename_i rest shape
        exact answered.same (fun id => by rw [shape]; simp) rfl rfl rfl
      · exact answered
  | serve count accepted =>
      rw [uses, after, serve]
      split
      · rename_i shape
        simp only [shape, List.append_nil]
        exact answered
      · rename_i rest shape
        have outside (id : Nat) : server.batch.head? ≠ some (.client id) := by simp [shape]
        simp only [shape, List.append_nil, serveListen]
        split
        · exact answered.same outside rfl rfl rfl
        · exact answered.same outside rfl rfl rfl
      · rename_i rest shape
        have outside (id : Nat) : server.batch.head? ≠ some (.client id) := by simp [shape]
        have popped : Answered buf { server with batch := rest } used :=
          answered.same outside rfl rfl rfl
        have array := answered.between outside
        simp only [shape]
        exact popped.serveUdp array
      · rename_i id rest shape
        have served := answered.serveClient shape legal.2.2 accepted
        simp only [shape]
        exact served

end Answered

/-- In every run, the datagrams that have been received and are not empty are answered with
themselves exactly if none has a zero byte or more bytes than the array takes, and the array is
zero behind each: from the start on or since the end of a client's turn has cleared its beginning,
and without a longer datagram after that. -/
theorem answers_exact {buf : Buffer} (zero : buf (udpBufferSize - 1) = 0) {events : List Event}
    {server : Server} (legal : Along step Legal (init buf) events)
    (reached : run step (init buf) events = .ok server) :
    server.answers = server.datagrams.taken.filter NonEmpty ↔
      AllAnswerable buf [] (emitted step uses (init buf) events) := by
  have start : (init buf).Answered buf [] := ⟨fun _ _ => rfl, fun _ => rfl, rfl, rfl⟩
  have answered := run_emitted step_answered events start legal reached
  rw [List.nil_append] at answered
  rw [answered.answers, answered.received]
  have plain : Plain [] := fun _ member => absurd member List.not_mem_nil
  exact replies_exact zero _ plain

theorem answers_exact_shorter :
    ∃ server, run step (init fun _ => 0)
        [.connect 0, .wait [.listen], .serve 1 0, .datagram [1, 2], .wait [.udp], .serve 1 0,
          .write 0 [7], .wait [.client 0], .serve 1 1, .serve 1 0, .datagram [3], .wait [.udp],
          .serve 1 0] = .ok server ∧
      server.answers = [[1, 2], [3]] := by
  have legal : Along step Legal (init fun _ => 0)
      [.connect 0, .wait [.listen], .serve 1 0, .datagram [1, 2], .wait [.udp], .serve 1 0,
        .write 0 [7], .wait [.client 0], .serve 1 1, .serve 1 0, .datagram [3], .wait [.udp],
        .serve 1 0] := by decide
  refine ⟨_, rfl, (answers_exact rfl legal rfl).mpr ?_⟩
  have all : AllAnswerable (fun _ => 0) [] [.received [1, 2], .cleared, .received [3]] :=
    ⟨fun _ => ⟨by simp, by decide, by decide⟩, fun _ => ⟨by simp, by decide, by decide⟩, trivial⟩
  exact all

end Server

end StudyRecord.TcpAndUdp
