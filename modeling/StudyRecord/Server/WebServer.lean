import StudyRecord.Http.Calls
import StudyRecord.Library.Runs
import StudyRecord.Timer.TimeWheel

/-!
The web server: the table of connections, the time wheel, the work queue of the
thread pool and the descriptors of the clients. The event loop handles one reported
event, a tick or a new client at a time, and a worker processes one entry at a time.
-/

namespace StudyRecord.Server

open Http Timer

def maxFd : Nat := 65536

def timeSlot : Int := 1

def maxRequests : Nat := 10000

/-- What epoll holds for the descriptor of a client. A descriptor that has been
reported once is disarmed until `modfd` arms it again. -/
inductive Descriptor
  | closed
  | disarmed
  | armed (interest : Interest)
  deriving DecidableEq, Repr

/-- An entry of the work queue: the slot that the pointer leads to, and which of the
connections of that slot it was appended for, which no function looks at. -/
structure Entry where
  slot : Nat
  accepted : Nat
  deriving DecidableEq, Repr

/-- Why a run ends: a timer that is not in the wheel is used, a null pointer is
followed, the event loop waits for room in the work queue, or memory outside of the
slot of a connection is written to. -/
inductive Fault
  | freedTimer
  | nullPointer
  | queueFull
  | strayStore
  deriving DecidableEq, Repr

/-- The state of the server. `accepted` counts the connections that each slot has
had; no function looks at it. -/
structure WebServer where
  users : Nat → HttpConn
  tw : TimeWheel Nat
  userCount : Int
  workQueue : List Entry
  epoll : Nat → Descriptor
  accepted : Nat → Nat
  actorMode : Int
  connActorMode : Int

namespace WebServer

theorem ok_bind (s : WebServer) (rest : WebServer → Except Fault WebServer) :
    (Except.ok s >>= rest) = rest s := rfl

/-- The constructor and `init`, which sets the mode of the connections but not the
mode of the server. Memory that `new` hands out for the table holds anything. -/
def init (users : Nat → HttpConn) (setReactorMode : Bool) : WebServer where
  users := users
  tw := TimeWheel.empty
  userCount := 0
  workQueue := []
  epoll := fun _ => .closed
  accepted := fun _ => 0
  actorMode := 1
  connActorMode := if setReactorMode then 0 else 1

def setConn (s : WebServer) (slot : Nat) (c : HttpConn) : WebServer :=
  { s with users := Function.update s.users slot c }

@[simp] theorem setConn_users (s : WebServer) (slot : Nat) (c : HttpConn) :
    (s.setConn slot c).users slot = c := Function.update_self ..

/-! Descriptors. -/

def setEpoll (s : WebServer) (fd : Nat) (descriptor : Descriptor) : WebServer :=
  { s with epoll := Function.update s.epoll fd descriptor }

def addfd (s : WebServer) (fd : Nat) : WebServer := s.setEpoll fd (.armed .epollIn)

/-- `modfd`, which fails without an effect for a descriptor that is not open. -/
def modfd (s : WebServer) (fd : Int) (ev : Interest) : WebServer :=
  if fd < 0 ∨ s.epoll fd.toNat = .closed then s else s.setEpoll fd.toNat (.armed ev)

def removefd (s : WebServer) (fd : Int) : WebServer :=
  if fd < 0 then s else s.setEpoll fd.toNat .closed

def report (s : WebServer) (fd : Nat) : WebServer :=
  match s.epoll fd with
  | .armed _ => s.setEpoll fd .disarmed
  | _ => s

/-! Closing a connection. -/

/-- `timer_func`, which is the first part of `close_conn` as well. -/
def timerFunc (s : WebServer) (slot : Nat) : WebServer :=
  let c := s.users slot
  if c.sockfd ≠ -1 then
    let s := s.removefd c.sockfd
    let s := s.setConn slot { c with sockfd := -1 }
    { s with userCount := s.userCount - 1 }
  else s

def closeConn (s : WebServer) (slot : Nat) : Except Fault WebServer :=
  let s := s.timerFunc slot
  match (s.users slot).timer with
  | none => .ok s
  | some timer =>
      match s.tw.delTimer timer with
      | none => .error .freedTimer
      | some tw => .ok ({ s with tw := tw }.setConn slot { s.users slot with timer := none })

def closeUnless (s : WebServer) (slot : Nat) (ok : Bool) : Except Fault WebServer :=
  if ok then .ok s else s.closeConn slot

def timerCbFunc (s : WebServer) (conData : Option Nat) : Except Fault WebServer :=
  match conData with
  | none => .error .nullPointer
  | some slot =>
      let s := s.timerFunc slot
      .ok (s.setConn slot { s.users slot with timer := none })

def tick (s : WebServer) : Except Fault WebServer :=
  match s.tw.tick with
  | none => .error .freedTimer
  | some (tw, fired) =>
      fired.foldlM (fun (s : WebServer) timer => s.timerCbFunc timer.2) { s with tw := tw }

/-! The thread pool. -/

def append (s : WebServer) (slot : Nat) : Except Fault WebServer :=
  if s.workQueue.length > maxRequests then .error .queueFull
  else .ok { s with workQueue := s.workQueue ++ [⟨slot, s.accepted slot⟩] }

def appendTask (s : WebServer) (slot : Nat) (state : Int) : Except Fault WebServer :=
  (s.setConn slot { s.users slot with taskState := state }).append slot

/-! The connections. -/

def initConn (s : WebServer) (sockfd : Nat) : WebServer :=
  let s := s.addfd sockfd
  { s with
    users := Function.update s.users sockfd (HttpConn.init { s.users sockfd with sockfd := sockfd })
    userCount := s.userCount + 1
    accepted := Function.update s.accepted sockfd (s.accepted sockfd + 1) }

def readConn (s : WebServer) (slot : Nat) (results : List HttpConn.Recv) : WebServer × Bool :=
  let (c, ok) := (s.users slot).read results
  (s.setConn slot c, ok)

def writeConn (s : WebServer) (slot : Nat) (results : List Writev) : WebServer × Bool :=
  let (c, ending) := (s.users slot).write results
  let s := s.setConn slot c
  match ending.modfd with
  | none => (s, ending.result)
  | some ev => (s.modfd c.sockfd ev, ending.result)

def reply (s : WebServer) (slot : Nat) (c : HttpConn) (ret : HttpCode) : Except Fault WebServer :=
  if ret = .noRequest then .ok ((s.setConn slot c).modfd c.sockfd .epollIn)
  else do
    let (c, ok) := c.processWrite ret
    let s := s.setConn slot c
    let s ← s.closeUnless slot ok
    return s.modfd (s.users slot).sockfd .epollOut

def respond (s : WebServer) (slot : Nat) (fs : FileSystem) : Except Fault WebServer :=
  match (s.users slot).processRead fs with
  | (_, none) => .error .nullPointer
  | (c, some ret) => s.reply slot c ret

/-- `process`. A connection in reactor mode reads and writes in the worker. -/
def process (s : WebServer) (slot : Nat) (fs : FileSystem) (recvs : List HttpConn.Recv)
    (writevs : List Writev) : Except Fault WebServer :=
  if s.connActorMode = 0 then
    if (s.users slot).taskState = 1 then
      let (s, ok) := s.writeConn slot writevs
      s.closeUnless slot ok
    else do
      let (s, ok) := s.readConn slot recvs
      let s ← s.closeUnless slot ok
      s.respond slot fs
  else s.respond slot fs

/-! The event loop. -/

/-- `deal_connection` with the result of `accept`. A client that is refused has its
descriptor closed by `send_error`. -/
def dealConnection (s : WebServer) (clientfd : Option Nat) : Except Fault WebServer :=
  match clientfd with
  | none => .ok s
  | some clientfd =>
      if s.userCount ≥ maxFd then .ok s
      else
        let s := s.initConn clientfd
        match s.tw.addTimer (3 * timeSlot) with
        | some (tw, some timer) =>
            match tw.setUserData timer clientfd with
            | none => .error .freedTimer
            | some tw =>
                .ok ({ s with tw := tw }.setConn clientfd { s.users clientfd with timer := some timer })
        | _ => .error .freedTimer

def dealErr (s : WebServer) (sockfd : Nat) : Except Fault WebServer := s.closeConn sockfd

def dealClose (s : WebServer) (sockfd : Nat) : Except Fault WebServer := s.closeConn sockfd

def timerUpdate (s : WebServer) (sockfd : Nat) : Except Fault WebServer :=
  match (s.users sockfd).timer with
  | none => .ok s
  | some timer =>
      match s.tw.adjustTimer timer (3 * timeSlot) with
      | none => .error .freedTimer
      | some tw => .ok { s with tw := tw }

def dealRead (s : WebServer) (sockfd : Nat) (results : List HttpConn.Recv) :
    Except Fault WebServer := do
  let s ← s.timerUpdate sockfd
  if s.actorMode = 0 then s.appendTask sockfd 0
  else
    let (s, ok) := s.readConn sockfd results
    if ok then s.append sockfd else s.closeConn sockfd

def dealWrite (s : WebServer) (sockfd : Nat) (results : List Writev) :
    Except Fault WebServer := do
  let s ← s.timerUpdate sockfd
  if s.actorMode = 0 then s.appendTask sockfd 1
  else
    let (s, ok) := s.writeConn sockfd results
    s.closeUnless sockfd ok

/-! Steps. -/

inductive Step
  | accept (clientfd : Option Nat)
  | error (sockfd : Nat)
  | close (sockfd : Nat)
  | readable (sockfd : Nat) (results : List HttpConn.Recv)
  | writable (sockfd : Nat) (results : List Writev)
  | tick
  | work (fs : FileSystem) (recvs : List HttpConn.Recv) (writevs : List Writev)

def work (s : WebServer) (fs : FileSystem) (recvs : List HttpConn.Recv) (writevs : List Writev) :
    Except Fault WebServer :=
  match s.workQueue with
  | [] => .ok s
  | request :: rest => { s with workQueue := rest }.process request.slot fs recvs writevs

def step (s : WebServer) : Step → Except Fault WebServer
  | .accept clientfd => s.dealConnection clientfd
  | .error sockfd => (s.report sockfd).dealErr sockfd
  | .close sockfd => (s.report sockfd).dealClose sockfd
  | .readable sockfd results => (s.report sockfd).dealRead sockfd results
  | .writable sockfd results => (s.report sockfd).dealWrite sockfd results
  | .tick => s.tick
  | .work fs recvs writevs => s.work fs recvs writevs

def IsOpen (s : WebServer) (slot : Nat) : Prop := s.epoll slot ≠ .closed

instance (s : WebServer) (slot : Nat) : Decidable (s.IsOpen slot) :=
  inferInstanceAs (Decidable (_ ≠ _))

/-- `accept` returns a descriptor that is not open and below the size of the table,
and events are reported only for descriptors of clients. -/
def Step.Legal (s : WebServer) : Step → Prop
  | .accept (some clientfd) => ¬s.IsOpen clientfd ∧ clientfd < maxFd
  | .error sockfd => s.IsOpen sockfd
  | .close sockfd => s.IsOpen sockfd
  | .readable sockfd _ => s.IsOpen sockfd
  | .writable sockfd _ => s.IsOpen sockfd
  | _ => True

instance (s : WebServer) : (event : Step) → Decidable (event.Legal s)
  | .accept none => inferInstanceAs (Decidable True)
  | .accept (some _) => inferInstanceAs (Decidable (_ ∧ _))
  | .error _ => inferInstanceAs (Decidable (s.IsOpen _))
  | .close _ => inferInstanceAs (Decidable (s.IsOpen _))
  | .readable _ _ => inferInstanceAs (Decidable (s.IsOpen _))
  | .writable _ _ => inferInstanceAs (Decidable (s.IsOpen _))
  | .tick => inferInstanceAs (Decidable True)
  | .work _ _ _ => inferInstanceAs (Decidable True)

abbrev runSteps (s : WebServer) (steps : List Step) : Except Fault WebServer :=
  Runs.run step s steps

abbrev AlongSteps (allowed : WebServer → Step → Prop) (s : WebServer) (steps : List Step) : Prop :=
  Runs.Along step allowed s steps

end WebServer

end StudyRecord.Server
