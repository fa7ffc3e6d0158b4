import StudyRecord.Library.CString
import StudyRecord.Library.Machine

/-!
The connection record of the HTTP server and the functions that read a request
into it: `read`, `parse_line`, `parse_request_line`, `parse_headers`,
`parse_content` and the loop of `process_read`.
-/

namespace StudyRecord.Http

open CString Machine

def filenameLen : Nat := 200

def readBufferSize : Nat := 2048

def writeBufferSize : Nat := 1024

inductive CheckState
  | requestLine
  | header
  | content
  deriving DecidableEq, Repr

inductive LineStatus
  | lineOk
  | lineBad
  | lineOpen
  deriving DecidableEq, Repr

inductive HttpCode
  | noRequest
  | getRequest
  | badRequest
  | noResource
  | forbiddenRequest
  | fileRequest
  | internalError
  | closedConnection
  deriving DecidableEq, Repr

inductive Method
  | get
  | post
  | head
  | put
  | delete
  | trace
  | options
  | connect
  | patch
  deriving DecidableEq, Repr

inductive Region
  | writeBuf
  | mapping (address : Nat)
  deriving DecidableEq, Repr

structure Pointer where
  region : Region
  offset : Int
  deriving DecidableEq, Repr

structure Iovec where
  base : Pointer
  len : Nat
  deriving DecidableEq, Repr

structure FileStat where
  mode : Nat
  size : Nat
  deriving DecidableEq, Repr

/-- One slot of the connection table. The pointers `url`, `version` and `host`
point into `readBuf` and are its indices; `timer` names a timer of the wheel. -/
structure HttpConn where
  sockfd : Int
  timer : Option Nat
  readBuf : Buffer
  readIdx : Nat
  checkedIdx : Nat
  startLine : Nat
  writeBuf : Buffer
  writeIdx : Nat
  checkState : CheckState
  method : Method
  realFile : Buffer
  url : Option Nat
  version : Option Nat
  host : Option Nat
  contentLength : Int
  linger : Bool
  fileAddress : Nat
  fileStat : FileStat
  iv0 : Iovec
  iv1 : Iovec
  ivCount : Nat
  bytesToSend : Int
  bytesHaveSend : Int
  taskState : Int

namespace HttpConn

/-- The private `init()`, which prepares a slot for the next request. -/
def init (c : HttpConn) : HttpConn :=
  { c with
    checkState := .requestLine
    linger := false
    method := .get
    url := none
    version := none
    contentLength := 0
    host := none
    startLine := 0
    checkedIdx := 0
    readIdx := 0
    writeIdx := 0
    bytesToSend := 0
    bytesHaveSend := 0
    readBuf := memset c.readBuf 0 readBufferSize
    writeBuf := memset c.writeBuf 0 writeBufferSize
    realFile := memset c.realFile 0 filenameLen }

def zeroed : HttpConn where
  sockfd := 0
  timer := none
  readBuf := fun _ => 0
  readIdx := 0
  checkedIdx := 0
  startLine := 0
  writeBuf := fun _ => 0
  writeIdx := 0
  checkState := .requestLine
  method := .get
  realFile := fun _ => 0
  url := none
  version := none
  host := none
  contentLength := 0
  linger := false
  fileAddress := 0
  fileStat := ⟨0, 0⟩
  iv0 := ⟨⟨.mapping 0, 0⟩, 0⟩
  iv1 := ⟨⟨.mapping 0, 0⟩, 0⟩
  ivCount := 0
  bytesToSend := 0
  bytesHaveSend := 0
  taskState := 0

def str (c : HttpConn) (start : Nat) : List UInt8 := stringAt readBufferSize c.readBuf start

def cut (c : HttpConn) (index : Nat) : HttpConn :=
  { c with readBuf := store c.readBuf index 0 }

/-! Receiving. -/

/-- A result of `recv` other than EAGAIN: bytes that were waiting, none of them
when the peer has closed, or an error. A list of results ends in EAGAIN. -/
inductive Recv
  | data (waiting : List UInt8)
  | error
  deriving DecidableEq, Repr

def receive (c : HttpConn) (arrived : List UInt8) : HttpConn :=
  { c with
    readBuf := copyIn c.readBuf c.readIdx arrived
    readIdx := c.readIdx + arrived.length }

/-- The loop of `read`. `recv` hands over at most the space it is offered. -/
def recvLoop : List Recv → HttpConn → HttpConn × Bool
  | [], c => (c, true)
  | .error :: _, c => (c, false)
  | .data waiting :: rest, c =>
      let arrived := waiting.take (readBufferSize - c.readIdx)
      if arrived = [] then (c, false) else recvLoop rest (c.receive arrived)

def read (c : HttpConn) (results : List Recv) : HttpConn × Bool :=
  if c.readIdx ≥ readBufferSize then (c, false) else recvLoop results c

/-! Lines. -/

def cr : UInt8 := 13

def lf : UInt8 := 10

def parseLineLoop : Nat → HttpConn → HttpConn × LineStatus
  | 0, c => (c, .lineOpen)
  | left + 1, c =>
      let temp := c.readBuf c.checkedIdx
      if temp = cr then
        if c.checkedIdx + 1 = c.readIdx then (c, .lineOpen)
        else if c.readBuf (c.checkedIdx + 1) = lf then
          ({ c with
              readBuf := store (store c.readBuf c.checkedIdx 0) (c.checkedIdx + 1) 0
              checkedIdx := c.checkedIdx + 2 }, .lineOk)
        else (c, .lineBad)
      else if temp = lf then
        if c.checkedIdx > 1 ∧ c.readBuf (c.checkedIdx - 1) = cr then
          ({ c with
              readBuf := store (store c.readBuf (c.checkedIdx - 1) 0) c.checkedIdx 0
              checkedIdx := c.checkedIdx + 1 }, .lineOk)
        else (c, .lineBad)
      else parseLineLoop left { c with checkedIdx := c.checkedIdx + 1 }

def parseLine (c : HttpConn) : HttpConn × LineStatus :=
  parseLineLoop (c.readIdx - c.checkedIdx) c

/-! The request line. -/

/-- What parsing one line gives. `reads` lists the pointers handed to the string
functions or dereferenced; the code is missing when one of them was null. -/
structure Parsed where
  conn : HttpConn
  code : Option HttpCode
  reads : List (Option Nat)

def Parsed.after (reads : List (Option Nat)) (parsed : Parsed) : Parsed :=
  { parsed with reads := reads ++ parsed.reads }

def blanks : List UInt8 := bytes " \t"

def skipBlanks (c : HttpConn) (start : Nat) : Nat := start + strspn blanks (c.str start)

def slash : UInt8 := 47

def stripScheme (c : HttpConn) (url : Nat) (scheme : List UInt8) : Option Nat :=
  if strncasecmpZero (c.str url) scheme scheme.length then
    (strchr slash (c.str (url + scheme.length))).map fun offset => url + scheme.length + offset
  else some url

def schemeReads (c : HttpConn) (url : Nat) (scheme : List UInt8) : List (Option Nat) :=
  if strncasecmpZero (c.str url) scheme scheme.length then [some url, some (url + scheme.length)]
  else [some url]

/-- The last part of `parse_request_line`: the schemes and the leading slash. -/
def parseUrl (c : HttpConn) (url : Nat) : Parsed :=
  Parsed.after (schemeReads c url (bytes "http://")) <|
    match stripScheme c url (bytes "http://") with
    | none => ⟨{ c with url := none }, none, [none]⟩
    | some url =>
        Parsed.after (schemeReads c url (bytes "https://")) <|
          match stripScheme c url (bytes "https://") with
          | none => ⟨{ c with url := none }, some .badRequest, []⟩
          | some url =>
              let c := { c with url := some url }
              if c.readBuf url ≠ slash then ⟨c, some .badRequest, [some url]⟩
              else ⟨{ c with checkState := .header }, some .noRequest, [some url]⟩

def checkVersion (c : HttpConn) (url version : Nat) : Parsed :=
  let c := { c with version := some version }
  Parsed.after [some version] <|
    if strcasecmpZero (c.str version) (bytes "HTTP/1.1") = false ∧
        strcasecmpZero (c.str version) (bytes "HTTP/1.0") = false then
      ⟨c, some .badRequest, []⟩
    else parseUrl c url

def parseVersion (c : HttpConn) (url : Nat) : Parsed :=
  let c := { c with url := some url }
  match strpbrk blanks (c.str url) with
  | none => ⟨{ c with version := none }, some .badRequest, [some url]⟩
  | some offset =>
      let c := c.cut (url + offset)
      let version := url + offset + 1
      Parsed.after [some url, some version] (checkVersion c url (c.skipBlanks version))

def parseRequestLine (c : HttpConn) (text : Nat) : Parsed :=
  match strpbrk blanks (c.str text) with
  | none => ⟨{ c with url := none }, some .badRequest, [some text]⟩
  | some offset =>
      let c := c.cut (text + offset)
      let url := text + offset + 1
      if strcasecmpZero (c.str text) (bytes "GET") then
        let c := { c with method := .get }
        Parsed.after [some text, some text, some url] (parseVersion c (c.skipBlanks url))
      else ⟨{ c with url := some url }, some .badRequest, [some text, some text]⟩

/-! Headers and the body. -/

def headerValue (c : HttpConn) (text : Nat) (name : List UInt8) : Nat :=
  c.skipBlanks (text + name.length)

def valueReads (c : HttpConn) (text : Nat) (name : List UInt8) : List (Option Nat) :=
  [some (text + name.length), some (headerValue c text name)]

def parseHeaders (c : HttpConn) (text : Nat) : Parsed :=
  if c.readBuf text = 0 then
    if c.contentLength ≠ 0 then ⟨{ c with checkState := .content }, some .noRequest, [some text]⟩
    else ⟨c, some .getRequest, [some text]⟩
  else if strncasecmpZero (c.str text) (bytes "Connection:") 11 then
    let value := headerValue c text (bytes "Connection:")
    Parsed.after (some text :: valueReads c text (bytes "Connection:")) <|
      if strcasecmpZero (c.str value) (bytes "keep-alive") then
        ⟨{ c with linger := true }, some .noRequest, []⟩
      else ⟨c, some .noRequest, []⟩
  else if strncasecmpZero (c.str text) (bytes "Content-Length:") 15 then
    let value := headerValue c text (bytes "Content-Length:")
    Parsed.after (some text :: valueReads c text (bytes "Content-Length:"))
      ⟨{ c with contentLength := toInt (atol (c.str value)) }, some .noRequest, []⟩
  else if strncasecmpZero (c.str text) (bytes "Host:") 5 then
    let value := headerValue c text (bytes "Host:")
    Parsed.after (some text :: valueReads c text (bytes "Host:"))
      ⟨{ c with host := some value }, some .noRequest, []⟩
  else ⟨c, some .noRequest, [some text]⟩

def contentSum (c : HttpConn) : Int := c.contentLength + c.checkedIdx

/-- The index of `m_read_buf` that `text[m_content_length]` stands for. -/
def contentIndex (c : HttpConn) (text : Nat) : Int := text + c.contentLength

def parseContent (c : HttpConn) (text : Nat) : HttpConn × HttpCode :=
  if (c.readIdx : Int) ≥ toInt (contentSum c) then
    -- the part in the buffer; what an index outside of it hits is in `HttpConn.overwritten`
    ({ c with readBuf := storeInt c.readBuf (contentIndex c text) 0 }, .getRequest)
  else (c, .noRequest)

/-! The loop of `process_read`. -/

inductive ReadEnd
  | returns (code : HttpCode)
  | callsDoRequest
  | nullDereference
  deriving DecidableEq, Repr

inductive LoopStep
  | next (c : HttpConn) (status : LineStatus)
  | stop (c : HttpConn) (ending : ReadEnd)

def LoopStep.conn : LoopStep → HttpConn
  | .next c _ => c
  | .stop c _ => c

def loopGuard (c : HttpConn) (status : LineStatus) : HttpConn × LineStatus :=
  if c.checkState = .content ∧ status = .lineOk then (c, .lineOk) else parseLine c

def lineStep (parsed : Parsed) : LoopStep :=
  match parsed.code with
  | none => .stop parsed.conn .nullDereference
  | some .badRequest => .stop parsed.conn (.returns .badRequest)
  | some .getRequest => .stop parsed.conn .callsDoRequest
  | some _ => .next parsed.conn .lineOk

def contentStep (parsed : HttpConn × HttpCode) : LoopStep :=
  match parsed.2 with
  | .getRequest => .stop parsed.1 .callsDoRequest
  | _ => .next parsed.1 .lineOpen

def loopBody (c : HttpConn) : LoopStep :=
  let text := c.startLine
  let c := { c with startLine := c.checkedIdx }
  match c.checkState with
  | .requestLine => lineStep (parseRequestLine c text)
  | .header => lineStep (parseHeaders c text)
  | .content => contentStep (parseContent c text)

def loopStep (c : HttpConn) (status : LineStatus) : LoopStep :=
  match loopGuard c status with
  | (c, .lineOk) => loopBody c
  | (c, _) => .stop c (.returns .noRequest)

def readLoop : Nat → HttpConn → LineStatus → HttpConn × ReadEnd
  | 0, c, _ => (c, .returns .noRequest)
  | fuel + 1, c, status =>
      match loopStep c status with
      | .stop c ending => (c, ending)
      | .next c status => readLoop fuel c status

/-- Enough rounds for the loop: a round takes a line out of the buffer, except the
one that looks at the body with the status still at `lineOk`. -/
def loopFuel (c : HttpConn) (status : LineStatus) : Nat :=
  2 * (c.readIdx - c.checkedIdx) + (if status = .lineOk then 1 else 0) + 1

def runLoop (c : HttpConn) (status : LineStatus) : HttpConn × ReadEnd :=
  readLoop (loopFuel c status) c status

/-- `process_read` up to the call of `do_request`. -/
def scan (c : HttpConn) : HttpConn × ReadEnd := runLoop c .lineOk

end HttpConn

end StudyRecord.Http
