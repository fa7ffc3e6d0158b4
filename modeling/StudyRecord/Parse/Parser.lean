import StudyRecord.Http.Core

/-!
The stand-alone request parser of `mine/practice/httpRequestParse.cpp`. What its
functions print is left out.
-/

namespace StudyRecord.Parse

open CString
open Http.HttpConn (cr lf)

def bufferSize : Nat := 4096

inductive CheckState
  | requestline
  | header
  deriving DecidableEq, Repr

inductive LineStatus
  | lineOk
  | lineBad
  | lineOpen
  deriving DecidableEq, Repr

inductive HttpCode
  | noRequest
  | getRequest
  | badRequest
  | forbiddenRequest
  | internalError
  | closedConnection
  deriving DecidableEq, Repr

/-- The variables of `main` that `parse_content` works on. -/
structure RequestParser where
  buffer : Buffer
  checkedIndex : Nat
  checkState : CheckState
  readIndex : Nat
  startLine : Nat

namespace RequestParser

def start : RequestParser where
  buffer := fun _ => 0
  checkedIndex := 0
  checkState := .requestline
  readIndex := 0
  startLine := 0

def str (p : RequestParser) (start : Nat) : List UInt8 := stringAt bufferSize p.buffer start

def cut (p : RequestParser) (index : Nat) : RequestParser :=
  { p with buffer := store p.buffer index 0 }

def parseLineLoop : Nat → RequestParser → RequestParser × LineStatus
  | 0, p => (p, .lineOpen)
  | left + 1, p =>
      let temp := p.buffer p.checkedIndex
      if temp = cr then
        if p.checkedIndex + 1 = p.readIndex then (p, .lineOpen)
        else if p.buffer (p.checkedIndex + 1) = lf then
          ({ p with
              buffer := store (store p.buffer p.checkedIndex 0) (p.checkedIndex + 1) 0
              checkedIndex := p.checkedIndex + 2 }, .lineOk)
        else (p, .lineBad)
      else if temp = lf then
        if p.checkedIndex > 1 ∧ p.buffer (p.checkedIndex - 1) = cr then
          ({ p with
              buffer := store (store p.buffer (p.checkedIndex - 1) 0) p.checkedIndex 0
              checkedIndex := p.checkedIndex + 1 }, .lineOk)
        else (p, .lineBad)
      else parseLineLoop left { p with checkedIndex := p.checkedIndex + 1 }

def parseLine (p : RequestParser) : RequestParser × LineStatus :=
  parseLineLoop (p.readIndex - p.checkedIndex) p

def blanks : List UInt8 := bytes " \t"

def slash : UInt8 := 47

def stripScheme (p : RequestParser) (uri : Nat) : Option Nat :=
  if strncasecmpZero (p.str uri) (bytes "http://") 7 then
    (strchr slash (p.str (uri + 7))).map fun offset => uri + 7 + offset
  else some uri

def parseTarget (p : RequestParser) (uri : Nat) : RequestParser × HttpCode :=
  match strpbrk blanks (p.str uri) with
  | none => (p, .badRequest)
  | some offset =>
      let p := p.cut (uri + offset)
      let version := uri + offset + 1
      let version := version + strspn blanks (p.str version)
      if strcasecmpZero (p.str version) (bytes "HTTP/1.1") = false then (p, .badRequest)
      else
        match stripScheme p uri with
        | none => (p, .badRequest)
        | some uri =>
            if p.buffer uri ≠ slash then (p, .badRequest)
            else ({ p with checkState := .header }, .noRequest)

def parseRequestline (p : RequestParser) (temp : Nat) : RequestParser × HttpCode :=
  match strpbrk blanks (p.str temp) with
  | none => (p, .badRequest)
  | some offset =>
      let p := p.cut (temp + offset)
      let uri := temp + offset + 1
      let method := temp
      if strcasecmpZero (p.str method) (bytes "GET") then
        parseTarget p (uri + strspn blanks (p.str uri))
      else (p, .badRequest)

/-- Any header is taken: the branch for `Host:` differs in what it prints only. -/
def parseHeaders (p : RequestParser) (temp : Nat) : HttpCode :=
  if p.buffer temp = 0 then .getRequest else .noRequest

inductive LoopStep
  | next (p : RequestParser)
  | stop (p : RequestParser) (code : HttpCode)

def loopBody (p : RequestParser) : LoopStep :=
  let temp := p.startLine
  let p := { p with startLine := p.checkedIndex }
  match p.checkState with
  | .requestline =>
      match parseRequestline p temp with
      | (p, .badRequest) => .stop p .badRequest
      | (p, _) => .next p
  | .header =>
      match parseHeaders p temp with
      | .badRequest => .stop p .badRequest
      | .getRequest => .stop p .getRequest
      | _ => .next p

def contentLoop : Nat → RequestParser → RequestParser × HttpCode
  | 0, p => (p, .noRequest)
  | fuel + 1, p =>
      match parseLine p with
      | (p, .lineOk) =>
          match loopBody p with
          | .next p => contentLoop fuel p
          | .stop p code => (p, code)
      | (p, .lineOpen) => (p, .noRequest)
      | (p, .lineBad) => (p, .badRequest)

/-- `parse_content`. Each round of its loop takes a line out of the buffer. -/
def parseContent (p : RequestParser) : RequestParser × HttpCode :=
  contentLoop (p.readIndex - p.checkedIndex + 1) p

def receive (p : RequestParser) (chunk : List UInt8) : RequestParser :=
  { p with
    buffer := copyIn p.buffer p.readIndex chunk
    readIndex := p.readIndex + chunk.length }

/-- The loop of `main` over the chunks that `recv` hands over. -/
def serve (p : RequestParser) : List (List UInt8) → RequestParser × HttpCode
  | [] => (p, .noRequest)
  | chunk :: rest =>
      match parseContent (p.receive (chunk.take (bufferSize - p.readIndex))) with
      | (p, .noRequest) => serve p rest
      | (p, code) => (p, code)

end RequestParser

end StudyRecord.Parse
