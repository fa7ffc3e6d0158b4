import StudyRecord.Http.DocRoot
import StudyRecord.Http.Slot

/-!
Whether the file that is looked up is the one that the URL names. `m_real_file` has room
for 198 bytes of the URL, and `strncpy` drops the others without a word.
-/

namespace StudyRecord.Http

open CString

def FileSystem.serves (fs : FileSystem) (path : List UInt8) : Bool := (fs.stat path).any FileStat.served

namespace HttpConn

def FitsName (c : HttpConn) (url : Nat) : Prop := docRoot.length + (c.str url).length < filenameLen

instance (c : HttpConn) (url : Nat) : Decidable (c.FitsName url) :=
  inferInstanceAs (Decidable (_ < _))

/-- What `do_request` should do with a URL: look up the file that it names, or refuse it. -/
structure NamesFile (c : HttpConn) (url : Nat) (fs : FileSystem) : Prop where
  terminated : ∃ index < filenameLen, (doRequest c fs).1.realFile index = 0
  complete : c.FitsName url → (doRequest c fs).1.realPath = docRoot ++ c.str url
  refused : ¬c.FitsName url → ∃ code, (doRequest c fs).2 = some code ∧ code ≠ .fileRequest

theorem cutUrl_of_fits {c : HttpConn} {url : Nat} (fits : c.FitsName url) :
    c.cutUrl url = c.str url := by
  refine List.take_of_length_le ?_
  have root : docRoot.length = 1 := rfl
  simp only [FitsName, root] at fits ⊢
  omega

theorem requestFile_code (c : HttpConn) (fs : FileSystem) :
    ∃ code, (requestFile c fs).2 = some code ∧
      (code = .fileRequest ↔ fs.serves c.realPath = true) := by
  simp only [requestFile, FileSystem.serves]
  cases fs.stat c.realPath with
  | none => exact ⟨.noResource, rfl, by simp⟩
  | some stat =>
      cases readable : stat.othersRead with
      | false => exact ⟨.forbiddenRequest, by simp [readable], by simp [FileStat.served, readable]⟩
      | true =>
          cases directory : stat.isDir with
          | false =>
              exact ⟨.fileRequest, by simp [readable, directory],
                by simp [FileStat.served, readable, directory]⟩
          | true =>
              exact ⟨.badRequest, by simp [readable, directory],
                by simp [FileStat.served, readable, directory]⟩

theorem doRequest_code {c : HttpConn} {url : Nat} (fs : FileSystem) (same : c.url = some url)
    (last : c.realFile (filenameLen - 1) = 0) :
    ∃ code, (doRequest c fs).2 = some code ∧
      (code = .fileRequest ↔ fs.serves (docRoot ++ c.cutUrl url) = true) := by
  have path : ({ c with realFile := buildRealFile c url } : HttpConn).realPath =
      docRoot ++ c.cutUrl url :=
    buildRealFile_string c url last
  have code := requestFile_code { c with realFile := buildRealFile c url } fs
  rw [path] at code
  rw [doRequest_eq]
  split
  · rename_i missing
    rw [same] at missing
    contradiction
  · rename_i other here
    obtain rfl : url = other := Option.some.inj (same.symm.trans here)
    exact code

theorem doRequest_terminated (c : HttpConn) (fs : FileSystem) (rooted : c.Rooted) :
    ∃ index < filenameLen, (doRequest c fs).1.realFile index = 0 :=
  ⟨filenameLen - 1, by decide, (doRequest_rooted c fs rooted).last⟩

theorem namesFile_iff {c : HttpConn} {url : Nat} (fs : FileSystem) (rooted : c.Rooted)
    (same : c.url = some url) :
    c.NamesFile url fs ↔
      c.FitsName url ∨ fs.serves (docRoot ++ c.cutUrl url) = false := by
  obtain ⟨code, result, served⟩ := doRequest_code fs same rooted.last
  constructor
  · intro names
    by_cases fits : c.FitsName url
    · exact .inl fits
    · obtain ⟨other, result', error⟩ := names.refused fits
      obtain rfl : code = other := Option.some.inj (result.symm.trans result')
      exact .inr (Bool.eq_false_iff.mpr (mt served.mpr error))
  · intro condition
    refine ⟨doRequest_terminated c fs rooted, fun fits => ?_, fun long => ?_⟩
    · rw [doRequest_realPath c fs url same rooted.last, cutUrl_of_fits fits]
    · have missing := condition.resolve_left long
      refine ⟨code, result, fun file => ?_⟩
      rw [served.mp file] at missing
      contradiction

def longRequest (letters : Nat) : List UInt8 :=
  bytes "GET /" ++ List.replicate letters 97 ++ bytes " HTTP/1.1\r\n\r\n"

def oneFile : FileSystem :=
  ⟨fun path => if path = bytes "./" ++ List.replicate 197 97 then some ⟨0o100644, 5⟩ else none,
    fun _ _ => 4096⟩

end HttpConn

end StudyRecord.Http
