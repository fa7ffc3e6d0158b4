import StudyRecord.Http.Amount
import StudyRecord.Http.Reuse

/-!
The bytes of a response: a status line, the two headers, an empty line and a body of
the length that the first header names.
-/

namespace StudyRecord.Http.HttpConn

open CString Machine

def IsLine (text : List UInt8) : Prop := cr ∉ text ∧ lf ∉ text

instance (text : List UInt8) : Decidable (IsLine text) := inferInstanceAs (Decidable (_ ∧ _))

def IsStatusLine (line : List UInt8) : Prop :=
  IsLine line ∧ ∃ status title, line = bytes "HTTP/1.0 " ++ decimal status ++ bytes " " ++ title

/-- A status line, the two headers and an empty line, each ended by CRLF, and a body
as long as the first header says. -/
def Framed (linger : Bool) (response : List UInt8) : Prop :=
  ∃ (status : List UInt8) (length : Int) (body : List UInt8), IsStatusLine status ∧
    response = status ++ bytes "\r\n" ++
      (bytes "Content-Length:" ++ decimal length) ++ bytes "\r\n" ++
      (bytes "Connection:" ++ if linger then bytes "keep-alive" else bytes "close") ++
      bytes "\r\n" ++ bytes "\r\n" ++ body ∧
    length = body.length

theorem framed_of_parts {linger : Bool} {status : Int} {title body : List UInt8}
    (line : IsLine (bytes "HTTP/1.0 " ++ decimal status ++ bytes " " ++ title)) :
    Framed linger (statusLine status title ++ headers linger body.length ++ body) := by
  refine ⟨_, body.length, body, ⟨line, status, title, rfl⟩, ?_, rfl⟩
  simp only [statusLine, headers, List.append_assoc]

/-! The bytes behind the iovecs. -/

theorem writeBuf_bytes (c : HttpConn) (memory : Nat → Int → UInt8) (len : Nat) :
    (Iovec.bytes ⟨⟨.writeBuf, 0⟩, len⟩).map (c.byteAt memory) = (List.range len).map c.writeBuf := by
  rw [Iovec.bytes, List.map_map]
  apply List.map_congr_left
  intro index _
  simp [byteAt, Pointer.move]

theorem formatted_empty {c : HttpConn} (start : c.writeIdx = 0) : c.formatted = [] := by
  simp [formatted, start]

theorem sendBuffer_contents {text : List UInt8} {c : HttpConn} {result : HttpConn × Bool}
    (start : c.writeIdx = 0) (prints : Prints text c result) (memory : Nat → Int → UInt8) :
    ((sendBuffer result).1.contents memory).flatten = text ∧
      (sendBuffer result).1.bytesToSend = ((sendBuffer result).1.iov.map Iovec.len).sum := by
  have whole := prints.formatted
  rw [formatted_empty start, List.nil_append] at whole
  obtain ⟨sent, same⟩ : ∃ sent, sent = (sendBuffer result).1 := ⟨_, rfl⟩
  have parts : sent.iov = [⟨⟨.writeBuf, 0⟩, result.1.writeIdx⟩] ∧
      sent.writeBuf = result.1.writeBuf ∧ sent.bytesToSend = result.1.writeIdx := by
    rw [same, sendBuffer, if_pos prints.ok]
    exact ⟨rfl, rfl, rfl⟩
  rw [← same, contents, parts.1, parts.2.2]
  refine ⟨?_, by simp⟩
  rw [List.map_singleton, List.flatten_singleton, writeBuf_bytes, parts.2.1]
  exact whole

theorem sendFile_contents {c : HttpConn} (start : c.writeIdx = 0) (memory : Nat → Int → UInt8) :
    ∃ body, body.length = c.fileStat.size ∧
      ((sendFile c).1.contents memory).flatten = fileHeader c.linger c.fileStat.size ++ body ∧
      ((sendFile c).1.iov.map Iovec.len).sum =
        (fileHeader c.linger c.fileStat.size).length + c.fileStat.size := by
  have header := fileHeader_prints start
  have position := header.writeIdx
  have whole := header.formatted
  rw [formatted_empty start, List.nil_append] at whole
  rw [start, Nat.zero_add] at position
  obtain ⟨printed, same⟩ : ∃ printed, printed = (addHeaders (addStatusLine c 200 ok200Title).1
    (toInt (addStatusLine c 200 ok200Title).1.fileStat.size)).1 := ⟨_, rfl⟩
  have size : printed.fileStat.size = c.fileStat.size := by
    rw [same, header.appends.frame]
  obtain ⟨sent, same'⟩ : ∃ sent, sent = (sendFile c).1 := ⟨_, rfl⟩
  have parts : sent.iov = [⟨⟨.writeBuf, 0⟩, printed.writeIdx⟩,
      ⟨⟨.mapping printed.fileAddress, 0⟩, printed.fileStat.size⟩] ∧
      sent.writeBuf = printed.writeBuf := by
    rw [same', sendFile, same]
    exact ⟨rfl, rfl⟩
  rw [← same] at whole position
  rw [← same', contents, parts.1]
  refine ⟨(Iovec.bytes ⟨⟨.mapping printed.fileAddress, 0⟩, printed.fileStat.size⟩).map
    (sent.byteAt memory), ?_, ?_, ?_⟩
  · rw [List.length_map, Iovec.bytes_length, size]
  · rw [List.map_cons, List.map_singleton, List.flatten_cons, List.flatten_singleton, writeBuf_bytes,
      parts.2]
    exact congrArg (· ++ _) whole
  · simp [position, size]

/-! The length of a header. -/

/-- The largest file whose length, with the header, an `int` holds. -/
def sizeMost (linger : Bool) : Nat := 2147483647 - if linger then 69 else 64

theorem decimal_length_natCast (size : Nat) : (decimal size).length = (Nat.repr size).length := by
  rw [decimal, bytes_length]
  rfl

theorem fileHeader_length_eq (linger : Bool) (size : Nat) (fits : FitsInt size) :
    (fileHeader linger size).length = (if linger then 59 else 54) + (Nat.repr size).length := by
  have texts : (statusLine 200 ok200Title).length = 17 ∧ (bytes "Content-Length:").length = 15 ∧
      (bytes "\r\n").length = 2 ∧ (bytes "Connection:").length = 11 ∧
      (bytes "keep-alive").length = 10 ∧ (bytes "close").length = 5 := by decide
  simp only [fileHeader, headers, List.length_append, toInt_of_fits fits, decimal_length_natCast, texts]
  cases linger <;> simp only [if_true, Bool.false_eq_true, if_false, texts] <;> omega

theorem answer_fits_iff (linger : Bool) (size : Nat) :
    ((fileHeader linger size).length + size : Int) ≤ intMax ↔ size ≤ sizeMost linger := by
  have top : intMax = 2147483647 := rfl
  by_cases small : FitsInt size
  · have length := fileHeader_length_eq linger size small
    have digits : (Nat.repr size).length ≤ 10 ↔ size < 10 ^ 10 := Nat.length_repr_le_iff (by decide)
    have fewer : (Nat.repr size).length ≤ 9 ↔ size < 10 ^ 9 := Nat.length_repr_le_iff (by decide)
    have upper := small.2
    rw [sizeMost]
    cases linger
    · simp only [Bool.false_eq_true, if_false] at length ⊢
      omega
    · simp only [if_true] at length ⊢
      omega
  · have large : intMax < (size : Int) := by
      simp only [FitsInt, intMin] at small
      omega
    rw [sizeMost]
    omega

/-! Pages and files. -/

theorem addPage_prints {c : HttpConn} {status : Int} {title content : List UInt8}
    (start : c.writeIdx = 0)
    (room : (statusLine status title).length + content.length + 54 < writeBufferSize) :
    Prints (statusLine status title ++ headers c.linger content.length ++ content) c
      (addPage c status title content) := by
  have fits : FitsInt content.length := by
    have bound : writeBufferSize = 1024 := rfl
    simp only [FitsInt, intMin, intMax]
    omega
  have header : Prints (statusLine status title ++ headers c.linger content.length) c
      (addHeaders (addStatusLine c status title).1 content.length) :=
    header_prints fits (by omega)
  have short := headers_length c.linger fits
  have position := header.writeIdx
  rw [start, Nat.zero_add, List.length_append] at position
  simp only [addPage, toInt_of_fits fits]
  exact header.then (addResponse_prints _ content (by omega))

theorem page_framed {c : HttpConn} {status : Int} {title content : List UInt8}
    (start : c.writeIdx = 0)
    (room : (statusLine status title).length + content.length + 54 < writeBufferSize)
    (line : IsLine (bytes "HTTP/1.0 " ++ decimal status ++ bytes " " ++ title))
    (memory : Nat → Int → UInt8) :
    Framed c.linger ((sendBuffer (addPage c status title content)).1.contents memory).flatten ∧
      (sendBuffer (addPage c status title content)).1.bytesToSend =
        ((sendBuffer (addPage c status title content)).1.iov.map Iovec.len).sum := by
  obtain ⟨whole, amount⟩ := sendBuffer_contents start (addPage_prints start room) memory
  rw [whole]
  exact ⟨framed_of_parts line, amount⟩

theorem file_framed_iff {c : HttpConn} (start : c.writeIdx = 0) (memory : Nat → Int → UInt8) :
    Framed c.linger ((sendFile c).1.contents memory).flatten ∧
        (sendFile c).1.bytesToSend = ((sendFile c).1.iov.map Iovec.len).sum ↔
      c.fileStat.size ≤ sizeMost c.linger := by
  obtain ⟨body, length, whole, sum⟩ := sendFile_contents start memory
  have amount := sendFile_bytesToSend start
  have top : intMax = 2147483647 := rfl
  rw [whole, sum, amount, ← answer_fits_iff]
  constructor
  · rintro ⟨_, same⟩
    have upper := (toInt_fits ((fileHeader c.linger c.fileStat.size).length + c.fileStat.size)).2
    omega
  · intro small
    have fits : FitsInt ((fileHeader c.linger c.fileStat.size).length + c.fileStat.size) := by
      simp only [FitsInt, intMin]
      omega
    have fits' : FitsInt c.fileStat.size := by
      simp only [FitsInt, intMin]
      omega
    refine ⟨?_, ?_⟩
    · rw [fileHeader, toInt_of_fits fits', ← length]
      exact framed_of_parts (by decide +kernel)
    · rw [toInt_of_fits fits, Int.natCast_add]

/-- A response that `process_write` prepares from an empty write buffer is framed and
counted as `bytes_to_send` says unless it has a file too long for an `int`. -/
theorem processWrite_framed_iff {c : HttpConn} {ret : HttpCode} (start : c.writeIdx = 0)
    (prepared : (processWrite c ret).2 = true) (memory : Nat → Int → UInt8) :
    Framed c.linger ((processWrite c ret).1.contents memory).flatten ∧
        (processWrite c ret).1.bytesToSend = ((processWrite c ret).1.iov.map Iovec.len).sum ↔
      (ret = .fileRequest → c.fileStat.size ≤ sizeMost c.linger) := by
  have page {status : Int} {title content : List UInt8}
      (room : (statusLine status title).length + content.length + 54 < writeBufferSize)
      (line : IsLine (bytes "HTTP/1.0 " ++ decimal status ++ bytes " " ++ title)) :=
    page_framed start room line memory
  cases ret with
  | internalError => exact iff_of_true (page (by decide) (by decide +kernel)) (by simp)
  | noResource => exact iff_of_true (page (by decide) (by decide +kernel)) (by simp)
  | forbiddenRequest => exact iff_of_true (page (by decide) (by decide +kernel)) (by simp)
  | fileRequest =>
      simp only [processWrite, true_imp_iff]
      by_cases some' : c.fileStat.size ≠ 0
      · rw [if_pos some']
        exact file_framed_iff start memory
      · have small : c.fileStat.size ≤ sizeMost c.linger := by omega
        rw [if_neg some']
        exact iff_of_true (page (by decide) (by decide +kernel)) small
  | noRequest => simp [processWrite] at prepared
  | getRequest => simp [processWrite] at prepared
  | badRequest => simp [processWrite] at prepared
  | closedConnection => simp [processWrite] at prepared

def smallFile : HttpConn :=
  { zeroed with linger := true, fileStat := ⟨0o100644, 4⟩, fileAddress := 4096 }

theorem processWrite_framed_iff_small :
    Framed true ((processWrite smallFile .fileRequest).1.contents fun _ _ => 97).flatten ∧
      (processWrite smallFile .fileRequest).1.bytesToSend =
        ((processWrite smallFile .fileRequest).1.iov.map Iovec.len).sum :=
  (processWrite_framed_iff rfl (by decide +kernel) fun _ _ => 97).mpr fun _ => by decide +kernel

def largeFile : HttpConn := { zeroed with fileStat := ⟨0o100644, 2 ^ 32 + 5⟩, fileAddress := 4096 }

theorem large_file_miscounted :
    (processWrite largeFile .fileRequest).2 = true ∧
      (processWrite largeFile .fileRequest).1.formatted =
        bytes "HTTP/1.0 200 OK\r\nContent-Length:5\r\nConnection:close\r\n\r\n" ∧
      (processWrite largeFile .fileRequest).1.iv1.len = 4294967301 ∧
      (processWrite largeFile .fileRequest).1.bytesToSend ≠
        ((processWrite largeFile .fileRequest).1.iov.map Iovec.len).sum := by
  decide +kernel

end StudyRecord.Http.HttpConn
