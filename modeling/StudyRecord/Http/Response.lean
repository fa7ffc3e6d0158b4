import StudyRecord.Http.Core

/-!
The answer to a request: `do_request` finds the file, `process_write` formats the
header and points the iovecs at header and file.
-/

namespace StudyRecord.Http

open CString Machine

/-- What `do_request` asks the system about a path: `stat`, and the address that
`mmap` returns for the file opened there. -/
structure FileSystem where
  stat : List UInt8 → Option FileStat
  mmap : List UInt8 → Nat → Nat

def FileStat.othersRead (stat : FileStat) : Bool := stat.mode &&& 0o4 != 0

def FileStat.isDir (stat : FileStat) : Bool := stat.mode &&& 0o170000 == 0o040000

namespace HttpConn

def ok200Title : List UInt8 := bytes "OK"
def error403Title : List UInt8 := bytes "Forbidden"
def error403Form : List UInt8 := bytes "You do not have permission to get file from this server.\n"
def error404Title : List UInt8 := bytes "Not Found"
def error404Form : List UInt8 := bytes "Thre requested file was not found on this server.\n"
def error500Title : List UInt8 := bytes "Internal Error"
def error500Form : List UInt8 :=
  bytes "There was an unusual problem serving the requested file.\n"
def okString : List UInt8 := bytes "<html><body></body></html>"

def docRoot : List UInt8 := bytes "."

/-! The requested file. -/

/-- `strcpy(m_real_file, doc_root)` and the `strncpy` of the URL behind it, which
cuts the URL and fills the rest of the array with NULs. -/
def buildRealFile (c : HttpConn) (url : Nat) : Buffer :=
  let len := docRoot.length
  let room := filenameLen - len - 1
  let copied := (c.str url).take room
  let rooted := copyIn c.realFile 0 (docRoot ++ [0])
  copyIn rooted len (copied ++ List.replicate (room - copied.length) 0)

def realPath (c : HttpConn) : List UInt8 := stringAt filenameLen c.realFile 0

/-- `do_request`; without a URL the copy dereferences a null pointer. -/
def doRequest (c : HttpConn) (fs : FileSystem) : HttpConn × Option HttpCode :=
  match c.url with
  | none => (c, none)
  | some url =>
      let c := { c with realFile := buildRealFile c url }
      match fs.stat c.realPath with
      | none => (c, some .noResource)
      | some stat =>
          let c := { c with fileStat := stat }
          if !stat.othersRead then (c, some .forbiddenRequest)
          else if stat.isDir then (c, some .badRequest)
          else ({ c with fileAddress := fs.mmap c.realPath stat.size }, some .fileRequest)

/-- `process_read` with its calls of `do_request`; nothing is returned on a null dereference. -/
def processRead (c : HttpConn) (fs : FileSystem) : HttpConn × Option HttpCode :=
  match scan c with
  | (c, .returns code) => (c, some code)
  | (c, .callsDoRequest) => doRequest c fs
  | (c, .nullDereference) => (c, none)

def unmap (c : HttpConn) : HttpConn :=
  if c.fileAddress ≠ 0 then { c with fileAddress := 0 } else c

/-! The response header. -/

/-- `vsnprintf` writes what fits and a NUL, and returns the length of the whole text. -/
def addResponse (c : HttpConn) (text : List UInt8) : HttpConn × Bool :=
  if c.writeIdx ≥ writeBufferSize then (c, false)
  else
    let room := writeBufferSize - c.writeIdx - 1
    let written := if room = 0 then [] else text.take (room - 1) ++ [0]
    let c := { c with writeBuf := copyIn c.writeBuf c.writeIdx written }
    if text.length ≥ room then (c, false)
    else ({ c with writeIdx := c.writeIdx + text.length }, true)

def decimal (value : Int) : List UInt8 := bytes (toString value)

def addStatusLine (c : HttpConn) (status : Int) (title : List UInt8) : HttpConn × Bool :=
  addResponse c (bytes "HTTP/1.0 " ++ decimal status ++ bytes " " ++ title ++ bytes "\r\n")

def addContentLength (c : HttpConn) (contentLen : Int) : HttpConn × Bool :=
  addResponse c (bytes "Content-Length:" ++ decimal contentLen ++ bytes "\r\n")

def addLinger (c : HttpConn) : HttpConn × Bool :=
  addResponse c
    (bytes "Connection:" ++ (if c.linger then bytes "keep-alive" else bytes "close") ++ bytes "\r\n")

def addBlankLine (c : HttpConn) : HttpConn × Bool := addResponse c (bytes "\r\n")

def addContent (c : HttpConn) (content : List UInt8) : HttpConn × Bool := addResponse c content

def andThen (result : HttpConn × Bool) (call : HttpConn → HttpConn × Bool) : HttpConn × Bool :=
  if result.2 then call result.1 else result

def addHeaders (c : HttpConn) (contentLen : Int) : HttpConn × Bool :=
  andThen (andThen (addContentLength c contentLen) addLinger) addBlankLine

/-- A whole page in the write buffer. Only the result of the last call is looked at. -/
def addPage (c : HttpConn) (status : Int) (title content : List UInt8) : HttpConn × Bool :=
  let c := (addStatusLine c status title).1
  let c := (addHeaders c (toInt content.length)).1
  addContent c content

def sendBuffer (result : HttpConn × Bool) : HttpConn × Bool :=
  let c := result.1
  if result.2 then
    ({ c with
        iv0 := ⟨⟨.writeBuf, 0⟩, c.writeIdx⟩
        ivCount := 1
        bytesToSend := c.writeIdx }, true)
  else (c, false)

def sendFile (c : HttpConn) : HttpConn × Bool :=
  let c := (addStatusLine c 200 ok200Title).1
  let c := (addHeaders c (toInt c.fileStat.size)).1
  ({ c with
      iv0 := ⟨⟨.writeBuf, 0⟩, c.writeIdx⟩
      iv1 := ⟨⟨.mapping c.fileAddress, 0⟩, c.fileStat.size⟩
      ivCount := 2
      bytesToSend := toInt (c.writeIdx + c.fileStat.size) }, true)

def processWrite (c : HttpConn) (ret : HttpCode) : HttpConn × Bool :=
  match ret with
  | .internalError => sendBuffer (addPage c 500 error500Title error500Form)
  | .noResource => sendBuffer (addPage c 404 error404Title error404Form)
  | .forbiddenRequest => sendBuffer (addPage c 403 error403Title error403Form)
  | .fileRequest =>
      if c.fileStat.size ≠ 0 then sendFile c
      else sendBuffer (addPage c 200 ok200Title okString)
  | _ => (c, false)

/-! What formatting changes. -/

def ResponseFrame (before after : HttpConn) : Prop :=
  after = { before with
    writeBuf := after.writeBuf
    writeIdx := after.writeIdx
    iv0 := after.iv0
    iv1 := after.iv1
    ivCount := after.ivCount
    bytesToSend := after.bytesToSend }

structure Appends (before after : HttpConn) : Prop where
  frame : after = { before with writeBuf := after.writeBuf, writeIdx := after.writeIdx }
  forward : before.writeIdx ≤ after.writeIdx

theorem Appends.refl (c : HttpConn) : Appends c c := ⟨rfl, Nat.le_refl _⟩

theorem Appends.trans {first second third : HttpConn} (early : Appends first second)
    (late : Appends second third) : Appends first third := by
  refine ⟨?_, Nat.le_trans early.forward late.forward⟩
  rw [late.frame, early.frame]

theorem addResponse_appends (c : HttpConn) (text : List UInt8) :
    Appends c (addResponse c text).1 := by
  simp only [addResponse]
  split
  · exact .refl c
  · split
    · exact ⟨rfl, Nat.le_refl _⟩
    · exact ⟨rfl, Nat.le_add_right _ _⟩

theorem andThen_appends {c : HttpConn} {result : HttpConn × Bool}
    {call : HttpConn → HttpConn × Bool} (early : Appends c result.1)
    (late : ∀ conn, Appends conn (call conn).1) : Appends c (andThen result call).1 := by
  simp only [andThen]
  split
  · exact early.trans (late result.1)
  · exact early

theorem addHeaders_appends (c : HttpConn) (contentLen : Int) :
    Appends c (addHeaders c contentLen).1 :=
  andThen_appends
    (andThen_appends (addResponse_appends c _) fun conn => addResponse_appends conn _)
    fun conn => addResponse_appends conn _

theorem addStatusLine_appends (c : HttpConn) (status : Int) (title : List UInt8) :
    Appends c (addStatusLine c status title).1 :=
  addResponse_appends c _

theorem addPage_appends (c : HttpConn) (status : Int) (title content : List UInt8) :
    Appends c (addPage c status title content).1 :=
  ((addStatusLine_appends c status title).trans (addHeaders_appends _ _)).trans
    (addResponse_appends _ content)

end HttpConn

end StudyRecord.Http
