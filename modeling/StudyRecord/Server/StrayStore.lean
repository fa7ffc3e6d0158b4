import StudyRecord.Server.Consistency

/-!
The store of `parse_content` outside of the read buffer. A connection has its timer, its socket
and the address of its client in front of the buffer, and the number of received bytes behind it;
what is further away belongs to another connection or to nothing.
-/

namespace StudyRecord.Http.HttpConn

open CString Machine

def contentLooks (c : HttpConn) : List HttpConn := loopLooks (loopFuel c .lineOk) c .lineOk

def contentStores (c : HttpConn) : List Int :=
  (contentLooks c).filterMap fun look =>
    if (look.readIdx : Int) ≥ toInt (contentSum look) then
      some (contentIndex look look.startLine)
    else none

instance (c : HttpConn) : Decidable c.LookInRange :=
  decidable_of_iff
    (-(c.startLine : Int) ≤ c.contentLength ∧ c.contentLength + c.checkedIdx ≤ intMax ∧
      (c.readIdx < readBufferSize ∨
        (∃ final, final < readBufferSize ∧ c.startLine ≤ final ∧ c.readBuf final = 0) ∧
          ¬(c.startLine = c.checkedIdx ∧ c.contentLength + c.checkedIdx = readBufferSize)))
    ⟨fun ⟨lower, upper, full⟩ => ⟨lower, upper, full.imp_right fun ⟨⟨final, inside, low, zero⟩, apart⟩ =>
        ⟨⟨final, low, inside, zero⟩, apart⟩⟩,
      fun ⟨lower, upper, full⟩ => ⟨lower, upper, full.imp_right fun ⟨⟨final, low, inside, zero⟩, apart⟩ =>
        ⟨⟨final, inside, low, zero⟩, apart⟩⟩⟩

theorem loopLooks_bounded (fuel : Nat) (c : HttpConn) (status : LineStatus) (bounded : c.Bounded) :
    ∀ look ∈ loopLooks fuel c status, look.Bounded ∧ look.checkState = .content := by
  induction fuel generalizing c status with
  | zero => simp [loopLooks]
  | succ fuel ih =>
      have guarded := loopGuard_bounded c status bounded
      have step := loopStep_bounded c status bounded
      simp only [loopLooks, List.forall_mem_append]
      constructor
      · intro look member
        simp only [stepLooks] at member
        split at member
        · rename_i here
          rw [List.mem_singleton.mp member]
          exact ⟨guarded, here.2⟩
        · simp at member
      · cases continued : loopStep c status with
        | stop => simp
        | next next status' =>
            rw [continued] at step
            exact ih next status' step

theorem contentStores_inRange {c : HttpConn} (bounded : c.Bounded)
    (inRange : ∀ look ∈ contentLooks c, look.LookInRange) :
    ∀ index ∈ contentStores c, 0 ≤ index ∧ index < readBufferSize := by
  intro index member
  obtain ⟨look, listed, stored⟩ := List.mem_filterMap.mp member
  obtain ⟨bounded', inBody⟩ := loopLooks_bounded _ c _ bounded look listed
  have touched := (inRange look listed).inRange inBody bounded'
  split at stored
  · rename_i whole
    rw [contentSum] at whole
    rw [bodyAccesses_content look inBody, if_pos whole] at touched
    have same := Option.some.inj stored
    rw [← same]
    exact touched (.byte (look.startLine + look.contentLength)) (by simp)
  · contradiction

/-! The fields around the buffer. -/

/-- A number in memory, its lowest byte first, with one byte set to zero. -/
def clearByte (value byte : Nat) : Nat := value - value / 256 ^ byte % 256 * 256 ^ byte

def clearInt (value : Int) (byte : Nat) : Int := toInt (clearByte (value % 2 ^ 32).toNat byte)

/-- Where the timers lie, and which timer, if it is one, a pointer leads to. -/
structure Heap where
  addressOf : Nat → Nat
  nodeAt : Nat → Nat
  back : ∀ timer, nodeAt (addressOf timer) = timer

def Heap.clearTimer (heap : Heap) (timer : Option Nat) (byte : Nat) : Option Nat :=
  match clearByte ((timer.map heap.addressOf).getD 0) byte with
  | 0 => none
  | address => some (heap.nodeAt address)

/-- Where `timer`, `m_sockfd` and what follows `m_sockfd` begin, counted from `m_read_buf`. -/
def timerOffset : Int := -148

def sockfdOffset : Int := -140

def addressOffset : Int := -136

/-- The connection behind `m_read_buf[index] = '\0'`, as far as the index is not in the buffer.
A store outside of the fields from `timer` to `m_read_idx` has no outcome. -/
def overwritten (heap : Heap) (c : HttpConn) (index : Int) : Option HttpConn :=
  if index < timerOffset then none
  else if index < sockfdOffset then
    some { c with timer := heap.clearTimer c.timer (index - timerOffset).toNat }
  else if index < addressOffset then
    some { c with sockfd := clearInt c.sockfd (index - sockfdOffset).toNat }
  else if index < readBufferSize then some c
  else if index = readBufferSize then some { c with readIdx := clearByte c.readIdx 0 }
  else none

theorem overwritten_inRange (heap : Heap) (c : HttpConn) {index : Int} (lower : 0 ≤ index)
    (upper : index < readBufferSize) : overwritten heap c index = some c := by
  have timer : ¬index < timerOffset := by simp only [timerOffset]; omega
  have sockfd : ¬index < sockfdOffset := by simp only [sockfdOffset]; omega
  have address : ¬index < addressOffset := by simp only [addressOffset]; omega
  rw [overwritten, if_neg timer, if_neg sockfd, if_neg address, if_pos upper]

/-- The stores are the last that `process_read` does before `do_request`. -/
def stored (heap : Heap) (before after : HttpConn) : Option HttpConn :=
  before.contentStores.foldlM (overwritten heap) after

theorem stored_inRange (heap : Heap) {before : HttpConn} (after : HttpConn) (bounded : before.Bounded)
    (inRange : ∀ look ∈ contentLooks before, look.LookInRange) :
    stored heap before after = some after := by
  have inside := contentStores_inRange bounded inRange
  rw [stored]
  generalize before.contentStores = stores at inside ⊢
  induction stores with
  | nil => rfl
  | cons index rest ih =>
      have first := inside index List.mem_cons_self
      rw [List.foldlM_cons, overwritten_inRange heap after first.1 first.2]
      exact ih fun other member => inside other (List.mem_cons_of_mem index member)

end StudyRecord.Http.HttpConn

namespace StudyRecord.Server.WebServer

open Http Timer HttpConn

/-! The server with the store carried out. -/

def respondStored (heap : Heap) (s : WebServer) (slot : Nat) (fs : FileSystem) :
    Except Fault WebServer :=
  match (s.users slot).processRead fs with
  | (_, none) => .error .nullPointer
  | (c, some ret) =>
      match stored heap (s.users slot) c with
      | none => .error .strayStore
      | some c => s.reply slot c ret

def processStored (heap : Heap) (s : WebServer) (slot : Nat) (fs : FileSystem)
    (recvs : List HttpConn.Recv) (writevs : List Writev) : Except Fault WebServer :=
  if s.connActorMode = 0 then
    if (s.users slot).taskState = 1 then
      let (s, ok) := s.writeConn slot writevs
      s.closeUnless slot ok
    else do
      let (s, ok) := s.readConn slot recvs
      let s ← s.closeUnless slot ok
      s.respondStored heap slot fs
  else s.respondStored heap slot fs

def workStored (heap : Heap) (s : WebServer) (fs : FileSystem) (recvs : List HttpConn.Recv)
    (writevs : List Writev) : Except Fault WebServer :=
  match s.workQueue with
  | [] => .ok s
  | request :: rest =>
      { s with workQueue := rest }.processStored heap request.slot fs recvs writevs

def stepStored (heap : Heap) (s : WebServer) : Step → Except Fault WebServer
  | .work fs recvs writevs => s.workStored heap fs recvs writevs
  | event => s.step event

abbrev runStored (heap : Heap) (s : WebServer) (steps : List Step) : Except Fault WebServer :=
  Runs.run (stepStored heap) s steps

abbrev AlongStored (heap : Heap) (allowed : WebServer → Step → Prop) (s : WebServer)
    (steps : List Step) : Prop :=
  Runs.Along (stepStored heap) allowed s steps

def parsing (s : WebServer) (slot : Nat) (recvs : List HttpConn.Recv) : Option HttpConn :=
  if s.connActorMode = 0 then
    if (s.users slot).taskState = 1 then none
    else
      let (s, ok) := s.readConn slot recvs
      match s.closeUnless slot ok with
      | .error _ => none
      | .ok s => some (s.users slot)
  else some (s.users slot)

def Step.InRange (s : WebServer) : Step → Prop
  | .work _ recvs _ =>
      match s.workQueue with
      | [] => True
      | request :: rest => ∀ c ∈ { s with workQueue := rest }.parsing request.slot recvs,
          ∀ look ∈ c.contentLooks, look.LookInRange
  | _ => True

instance (s : WebServer) : (event : Step) → Decidable (event.InRange s)
  | .work _ recvs _ =>
      match queue : s.workQueue with
      | [] => .isTrue (by simp [Step.InRange, queue])
      | request :: rest =>
          decidable_of_iff (∀ c ∈ { s with workQueue := rest }.parsing request.slot recvs,
            ∀ look ∈ c.contentLooks, look.LookInRange) (by simp only [Step.InRange, queue])
  | .accept _ => inferInstanceAs (Decidable True)
  | .error _ => inferInstanceAs (Decidable True)
  | .close _ => inferInstanceAs (Decidable True)
  | .readable _ _ => inferInstanceAs (Decidable True)
  | .writable _ _ => inferInstanceAs (Decidable True)
  | .tick => inferInstanceAs (Decidable True)

theorem respondStored_eq (heap : Heap) {s : WebServer} {slot : Nat} (fs : FileSystem)
    (bounded : (s.users slot).Bounded)
    (inRange : ∀ look ∈ (s.users slot).contentLooks, look.LookInRange) :
    s.respondStored heap slot fs = s.respond slot fs := by
  have kept (c : HttpConn) := stored_inRange heap c bounded inRange
  simp only [respondStored, respond]
  rcases parsed : (s.users slot).processRead fs with ⟨c, code⟩
  cases code with
  | none => rfl
  | some ret => simp only [kept]

theorem processStored_eq (heap : Heap) {s : WebServer} (registry : s.Registry) {slot : Nat}
    (known : 0 < s.accepted slot) (fs : FileSystem) (recvs : List HttpConn.Recv)
    (writevs : List Writev)
    (inRange : ∀ c ∈ s.parsing slot recvs, ∀ look ∈ c.contentLooks, look.LookInRange) :
    s.processStored heap slot fs recvs writevs = s.process slot fs recvs writevs := by
  simp only [parsing] at inRange
  simp only [processStored, process]
  split
  · rename_i reactor
    simp only [reactor, if_true] at inRange
    split
    · rfl
    · rename_i reads
      simp only [reads, if_false] at inRange
      have read := readConn_still s slot recvs
      have orderly := closeUnless_orderly (read.registry registry) (read.accepted ▸ known)
        (s.readConn slot recvs).2
      cases closed : (s.readConn slot recvs).1.closeUnless slot (s.readConn slot recvs).2 with
      | error fault => rfl
      | ok middle =>
          obtain ⟨registry', quiet⟩ := orderly.2 middle closed
          rw [closed] at inRange
          have bounded : (middle.users slot).Bounded := by
            refine registry'.bounded slot ?_
            rw [quiet.accepted, read.accepted]
            exact known
          exact respondStored_eq heap fs bounded (inRange (middle.users slot) rfl)
  · rename_i proactor
    simp only [proactor, if_false] at inRange
    exact respondStored_eq heap fs (registry.bounded slot known) (inRange (s.users slot) rfl)

theorem stepStored_eq (heap : Heap) {s : WebServer} (registry : s.Registry) {event : Step}
    (inRange : event.InRange s) : s.stepStored heap event = s.step event := by
  cases event with
  | work fs recvs writevs =>
      simp only [Step.InRange] at inRange
      simp only [stepStored, step, workStored, work]
      cases queue : s.workQueue with
      | nil => rfl
      | cons request rest =>
          rw [queue] at inRange
          have registry' := (pop_still queue).registry registry
          have known := registry.queued request (by simp [queue])
          exact processStored_eq heap registry' known fs recvs writevs inRange
  | accept => rfl
  | error => rfl
  | close => rfl
  | readable => rfl
  | writable => rfl
  | tick => rfl

/-! Whole runs. -/

section Runs

variable (heap : Heap) {s : WebServer} (registry : s.Registry) (steps : List Step)

include registry

theorem allowedStored_iff :
    AlongStored heap Step.Legal s steps ∧ AlongStored heap Step.InRange s steps ↔
      AlongSteps Step.Legal s steps ∧ AlongSteps Step.InRange s steps := by
  have same : AlongStored heap (fun s event => event.Legal s ∧ event.InRange s) s steps ↔
      AlongSteps (fun s event => event.Legal s ∧ event.InRange s) s steps :=
    Runs.along_allowed_iff (fun _ _ registry allowed => stepStored_eq heap registry allowed.2)
      (fun _ _ _ registry allowed taken => step_registry registry allowed.1 taken) steps registry
  constructor
  · rintro ⟨legal, inRange⟩
    have both := same.mp (legal.and steps inRange)
    exact ⟨both.imp (fun _ _ => And.left) steps, both.imp (fun _ _ => And.right) steps⟩
  · rintro ⟨legal, inRange⟩
    have both := same.mpr (legal.and steps inRange)
    exact ⟨both.imp (fun _ _ => And.left) steps, both.imp (fun _ _ => And.right) steps⟩

variable (legal : AlongStored heap Step.Legal s steps)
  (inRange : AlongStored heap Step.InRange s steps)

include legal inRange

theorem runStored_eq : runStored heap s steps = runSteps s steps :=
  Runs.run_agrees (fun _ _ registry allowed => stepStored_eq heap registry allowed.2)
    (fun _ _ _ registry allowed taken => step_registry registry allowed.1 taken) steps registry
    (legal.and steps inRange)

theorem alongStored_iff (condition : WebServer → Step → Prop) :
    AlongStored heap condition s steps ↔ AlongSteps condition s steps :=
  Runs.along_agrees (fun _ _ registry allowed => stepStored_eq heap registry allowed.2)
    (fun _ _ _ registry allowed taken => step_registry registry allowed.1 taken) condition steps
    registry (legal.and steps inRange)

theorem alwaysStored_iff {good good' : WebServer → Prop}
    (agree : ∀ s, s.Registry → (good s ↔ good' s)) :
    Runs.Always (stepStored heap) good s steps ↔ Runs.Always step good' s steps :=
  Runs.always_agrees (fun _ _ registry allowed => stepStored_eq heap registry allowed.2)
    (fun _ _ _ registry allowed taken => step_registry registry allowed.1 taken) agree steps
    registry (legal.and steps inRange)

end Runs

/-- As long as every look at a body stays in range, no timer is used behind its end, and
connections and timers stand one to one in every state, whatever happens in whatever order. -/
theorem runStored_consistent (heap : Heap) (users : Nat → HttpConn) (setReactorMode : Bool)
    (steps : List Step)
    (legal : AlongStored heap Step.Legal (init users setReactorMode) steps)
    (inRange : AlongStored heap Step.InRange (init users setReactorMode) steps) :
    runStored heap (init users setReactorMode) steps ≠ .error .freedTimer ∧
      Runs.Always (stepStored heap) Consistent (init users setReactorMode) steps := by
  have start := init_registry users setReactorMode
  have legal' := (alongStored_iff heap start steps legal inRange Step.Legal).mp legal
  have preserved (s : WebServer) (event : Step) (next : WebServer) (registry : s.Registry)
      (legal : event.Legal s) (taken : s.step event = .ok next) : next.Registry :=
    step_registry registry legal taken
  constructor
  · rw [runStored_eq heap start steps legal inRange]
    exact Runs.run_avoids preserved
      (fun s event registry legal => (step_moves registry event legal).1) steps start legal'
  · rw [alwaysStored_iff heap start steps legal inRange fun s _ => Iff.rfl]
    exact Runs.always_of_invariant (fun s registry => Registry.consistent registry) preserved steps
      start legal'

def denseHeap : Heap where
  addressOf timer := 0x555555560000 + 48 * timer
  nodeAt address :=
    if 0x555555560000 ≤ address ∧ (address - 0x555555560000) % 48 = 0 then
      (address - 0x555555560000) / 48
    else address
  back timer := by
    have whole : 0x555555560000 + 48 * timer - 0x555555560000 = 48 * timer := by omega
    simp [whole]

theorem runStored_consistent_reuse :
    Runs.Always (stepStored denseHeap) Consistent (init (fun _ => HttpConn.zeroed) false)
      [.accept (some 7),
        .readable 7 [.data (CString.bytes "GET / HTTP/1.1\r\nContent-Length: 2\r\n\r\nab")],
        .work ⟨fun _ => none, fun _ _ => 0⟩ [] [], .close 7, .accept (some 7), .tick,
        .accept (some 8), .tick, .tick, .tick] :=
  (runStored_consistent denseHeap (fun _ => HttpConn.zeroed) false
    [.accept (some 7),
      .readable 7 [.data (CString.bytes "GET / HTTP/1.1\r\nContent-Length: 2\r\n\r\nab")],
      .work ⟨fun _ => none, fun _ _ => 0⟩ [] [], .close 7, .accept (some 7), .tick,
      .accept (some 8), .tick, .tick, .tick] (by decide +kernel) (by decide +kernel)).2

/-- A length of -183 ends the body inside of the pointer to the timer. The pointer leads to no
timer any more, and the next close follows it. -/
theorem negative_length_unlinks_timer :
    AlongStored denseHeap Step.Legal (init (fun _ => HttpConn.zeroed) false)
        [.accept (some 7),
          .readable 7 [.data (CString.bytes "GET / HTTP/1.1\r\nContent-Length: -183\r\n\r\n")],
          .work ⟨fun _ => none, fun _ _ => 0⟩ [] [], .close 7] ∧
      runStored denseHeap (init (fun _ => HttpConn.zeroed) false)
        [.accept (some 7),
          .readable 7 [.data (CString.bytes "GET / HTTP/1.1\r\nContent-Length: -183\r\n\r\n")],
          .work ⟨fun _ => none, fun _ _ => 0⟩ [] [], .close 7] = .error .freedTimer ∧
      ∃ s, runStored denseHeap (init (fun _ => HttpConn.zeroed) false)
        [.accept (some 7),
          .readable 7 [.data (CString.bytes "GET / HTTP/1.1\r\nContent-Length: -183\r\n\r\n")],
          .work ⟨fun _ => none, fun _ _ => 0⟩ [] []] = .ok s ∧ ¬s.Consistent := by
  refine ⟨by decide +kernel, rfl, _, rfl, fun consistent => ?_⟩
  obtain ⟨timer, has, _, user⟩ := consistent.openTimer 7 (by decide +kernel)
  obtain rfl : denseHeap.nodeAt 0x5555560000 = timer := Option.some.inj has
  revert user
  decide +kernel

end StudyRecord.Server.WebServer
