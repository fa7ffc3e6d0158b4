import StudyRecord.Http.Slot

/-!
The file that a connection slot has mapped. `do_request` maps it, `write` takes the
mapping away when the response is out or cannot be sent, and a connection can be
closed at any time between the two.
-/

namespace StudyRecord.Http

open CString Machine

namespace Slot

/-- What is said of the mapping of a slot. The second iovec is the file of a
response that has one. -/
structure Sound (s : Slot) : Prop where
  atMostOne : s.live.length ≤ 1
  owned : s.conn.fileAddress ≠ 0 ↔ s.live ≠ []
  released : ∀ mapping ∈ s.live, mapping = s.conn.mapping
  response : s.conn.bytesToSend ≠ 0 → s.conn.ivCount = 2 →
    s.conn.iv1.base.region ≠ .mapping mapFailed
  closed : s.conn.sockfd = -1 → s.live = []

def closes (s : Slot) : Op → Bool
  | .accept _ _ => false
  | .read results => !(s.conn.read results).2
  | .process fs =>
      match s.conn.processRead fs with
      | (_, none) => false
      | (_, some .noRequest) => false
      | (c, some ret) => !(c.processWrite ret).2
  | .write _ => false
  | .close => true
  | .expire => true

def finds (s : Slot) : Op → Option Found
  | .process fs => s.conn.found fs
  | _ => none

/-- A step that does the mapping no harm: nothing is closed with a mapping, a file is
mapped only for an open slot that has none, and then without an error, and the length
of a mapping is not overwritten. -/
structure Clean (s : Slot) (op : Op) : Prop where
  closing : s.closes op = true → s.conn.fileAddress = 0
  mapping : ∀ file ∈ s.finds op, file.stat.served = true →
    s.conn.fileAddress = 0 ∧ s.conn.sockfd ≠ -1 ∧ file.address ≠ mapFailed
  length : ∀ file ∈ s.finds op, file.stat.served = false →
    s.conn.fileAddress = 0 ∨ file.stat.size = s.conn.fileStat.size

instance (s : Slot) (op : Op) : Decidable (s.Clean op) :=
  decidable_of_iff
    ((s.closes op = true → s.conn.fileAddress = 0) ∧
      (∀ file ∈ s.finds op, file.stat.served = true →
        s.conn.fileAddress = 0 ∧ s.conn.sockfd ≠ -1 ∧ file.address ≠ mapFailed) ∧
      ∀ file ∈ s.finds op, file.stat.served = false →
        s.conn.fileAddress = 0 ∨ file.stat.size = s.conn.fileStat.size)
    ⟨fun ⟨closing, mapping, length⟩ => ⟨closing, mapping, length⟩,
      fun ⟨closing, mapping, length⟩ => ⟨closing, mapping, length⟩⟩

/-! Every step. -/

structure Inv (s : Slot) : Prop where
  sound : s.Sound
  bounded : s.conn.Bounded
  real : ∀ mapping ∈ s.live, mapping.address ≠ mapFailed

theorem Sound.unmapped {s : Slot} (sound : s.Sound) (none : s.conn.fileAddress = 0) :
    s.live = [] := by
  by_contra owns
  exact sound.owned.mpr owns none

theorem Sound.mapped {s : Slot} (sound : s.Sound) (some : s.conn.fileAddress ≠ 0) :
    s.live = [s.conn.mapping] := by
  have owns := sound.owned.mp some
  have one := sound.atMostOne
  obtain ⟨mapping, rest, parts⟩ := List.exists_cons_of_ne_nil owns
  rw [parts, List.length_cons] at one
  have last : rest = [] := List.eq_nil_of_length_eq_zero (by omega)
  have this := sound.released mapping (by rw [parts]; exact List.mem_cons_self)
  rw [parts, last, this]

theorem Sound.munmapped {s : Slot} (sound : s.Sound) : s.munmapped = [] := by
  simp only [Slot.munmapped]
  split
  · rename_i some
    rw [sound.mapped some]
    simp
  · rename_i none
    exact sound.unmapped (not_not.mp none)

theorem closeConn_inv {s : Slot} (inv : s.Inv) (none : s.conn.fileAddress = 0) :
    s.closeConn.Inv := by
  have empty := inv.sound.unmapped none
  exact ⟨⟨inv.sound.atMostOne, inv.sound.owned, inv.sound.released, inv.sound.response,
    fun _ => empty⟩, inv.bounded.kept rfl rfl rfl rfl, inv.real⟩

theorem closeUnless_inv {s : Slot} {ok : Bool} (inv : s.Inv)
    (none : ok = false → s.conn.fileAddress = 0) : (s.closeUnless ok).Inv := by
  cases ok with
  | true => exact inv
  | false => exact closeConn_inv inv (none rfl)

theorem accept_inv {s : Slot} (inv : s.Inv) (sockfd timer : Nat) : (s.accept sockfd timer).Inv := by
  refine ⟨⟨inv.sound.atMostOne, inv.sound.owned, inv.sound.released, ?_, ?_⟩,
    (HttpConn.init_bounded { s.conn with sockfd := sockfd }).kept rfl rfl rfl rfl, inv.real⟩
  · intro sending
    exact absurd rfl sending
  · intro closed
    have number : (sockfd : Int) = -1 := closed
    omega

theorem read_inv {s : Slot} (inv : s.Inv) (results : List HttpConn.Recv)
    (none : (s.conn.read results).2 = false → s.conn.fileAddress = 0) :
    (s.read results).Inv := by
  obtain ⟨arrived, same, room⟩ := HttpConn.read_receive s.conn results
  simp only [read, same]
  refine closeUnless_inv (s := ⟨s.conn.receive arrived, s.live⟩) ?_ none
  exact ⟨⟨inv.sound.atMostOne, inv.sound.owned, inv.sound.released, inv.sound.response,
    inv.sound.closed⟩, HttpConn.receive_bounded s.conn arrived inv.bounded
      (room inv.bounded.capacity), inv.real⟩

theorem write_inv {s : Slot} (inv : s.Inv) (results : List Writev) : (s.write results).Inv := by
  have sent := HttpConn.write_sent s.conn results
  have nothing := HttpConn.write_nothing (c := s.conn) results
  have bounded := HttpConn.Call.run_bounded s.conn (.write results) inv.bounded
  have empty := inv.sound.munmapped
  simp only [HttpConn.Call.run] at bounded
  simp only [write]
  cases result : s.conn.write results with
  | mk c ending =>
      rw [result] at sent nothing bounded
      have response : c.bytesToSend ≠ 0 → c.ivCount = 2 →
          c.iv1.base.region ≠ .mapping mapFailed := by
        intro sending two
        rw [sent.region]
        exact inv.sound.response (fun idle => sending (nothing idle)) (sent.ivCount.symm.trans two)
      refine closeUnless_inv (s := ⟨c, if ending.unmaps then s.munmapped else s.live⟩) ?_ ?_
      · cases unmaps : ending.unmaps with
        | true =>
            have gone : c.fileAddress = 0 := by
              rw [sent.address, unmaps, if_pos rfl]
            simp only [if_true, empty]
            exact ⟨⟨by simp, by simp [gone], by simp, response, fun _ => rfl⟩, bounded, by simp⟩
        | false =>
            have kept : c.fileAddress = s.conn.fileAddress := by
              rw [sent.address, unmaps]
              rfl
            have mapping : c.mapping = s.conn.mapping := by
              rw [HttpConn.mapping, kept, sent.fileStat]
              rfl
            simp only [Bool.false_eq_true, if_false]
            refine ⟨⟨inv.sound.atMostOne, ?_, ?_, response, ?_⟩, bounded, inv.real⟩
            · rw [kept]
              exact inv.sound.owned
            · rw [mapping]
              exact inv.sound.released
            · rw [sent.sockfd]
              exact inv.sound.closed
      · intro failed
        rw [sent.address, sent.closing failed, if_pos rfl]

structure Parsed (s : Slot) (c : HttpConn) (ret : HttpCode) : Prop where
  inv : (Slot.mk c (s.mmapped c ret)).Inv
  file : ret = .fileRequest → c.fileAddress ≠ mapFailed ∧ c.fileStat.size ≠ 0
  other : ret ≠ .fileRequest → c.fileAddress = s.conn.fileAddress

theorem parsed_other {s : Slot} (inv : s.Inv) {c : HttpConn} {ret : HttpCode}
    (other : ret ≠ .fileRequest) (bounded : c.Bounded) (same : HttpConn.SameResponse s.conn c)
    (address : c.fileAddress = s.conn.fileAddress)
    (length : s.conn.fileAddress = 0 ∨ c.fileStat.size = s.conn.fileStat.size) :
    s.Parsed c ret := by
  have live : s.mmapped c ret = s.live := if_neg fun both => other both.1
  refine ⟨?_, fun file => absurd file other, fun _ => address⟩
  rw [live]
  refine ⟨⟨inv.sound.atMostOne, ?_, ?_, ?_, ?_⟩, bounded, inv.real⟩
  · rw [address]
    exact inv.sound.owned
  · intro mapping owned
    rcases length with none | size
    · rw [inv.sound.unmapped none] at owned
      contradiction
    · rw [inv.sound.released mapping owned, HttpConn.mapping, HttpConn.mapping, address, size]
  · rw [same.bytesToSend, same.ivCount, same.iv1]
    exact inv.sound.response
  · rw [same.sockfd]
    exact inv.sound.closed

theorem parsed_file {s : Slot} (inv : s.Inv) {c : HttpConn} (bounded : c.Bounded)
    (same : HttpConn.SameResponse s.conn c) (none : s.conn.fileAddress = 0)
    (isOpen : s.conn.sockfd ≠ -1) (mapped : c.fileAddress ≠ mapFailed)
    (valid : c.fileAddress ≠ 0 ∧ c.fileStat.size ≠ 0) : s.Parsed c .fileRequest := by
  have live : s.mmapped c .fileRequest = [c.mapping] := by
    rw [mmapped, if_pos ⟨rfl, mapped⟩, inv.sound.unmapped none]
  refine ⟨?_, fun _ => ⟨mapped, valid.2⟩, fun other => absurd rfl other⟩
  rw [live]
  refine ⟨⟨by simp, by simp [valid.1], ?_, ?_, ?_⟩, bounded, ?_⟩
  · intro mapping member
    exact List.mem_singleton.mp member
  · rw [same.bytesToSend, same.ivCount, same.iv1]
    exact inv.sound.response
  · intro closed
    exact absurd (same.sockfd.symm.trans closed) isOpen
  · intro mapping member
    rw [List.mem_singleton.mp member]
    exact mapped

theorem found_documented {c : HttpConn} {fs : FileSystem} (documented : fs.Documented) {file : Found}
    (found : c.found fs = some file) (mapped : file.address ≠ mapFailed) :
    file.address ≠ 0 ∧ file.stat.size ≠ 0 := by
  obtain ⟨path, _, looked⟩ := Option.bind_eq_some_iff.mp found
  obtain ⟨stat, _, same⟩ := Option.map_eq_some_iff.mp looked
  rw [← same] at mapped ⊢
  exact documented path stat.size mapped

theorem process_parsed {s : Slot} (inv : s.Inv) {fs : FileSystem} (documented : fs.Documented)
    (clean : s.Clean (.process fs)) {c : HttpConn} {ret : HttpCode}
    (result : s.conn.processRead fs = (c, some ret)) : s.Parsed c ret := by
  have looked := HttpConn.processRead_looked s.conn fs inv.bounded.ordered
  have same := HttpConn.processRead_response s.conn fs inv.bounded.ordered
  have bounded := HttpConn.processRead_bounded s.conn fs inv.bounded
  rw [result] at looked same bounded
  cases found : s.conn.found fs with
  | none =>
      rw [found] at looked
      obtain ⟨other, mapping⟩ := looked
      exact parsed_other inv (fun file => other (congrArg some file)) bounded same
        (congrArg Mapping.address mapping) (Or.inr (congrArg Mapping.length mapping))
  | some file =>
      rw [found] at looked
      obtain ⟨stat, rest⟩ := looked
      cases served : file.stat.served with
      | true =>
          rw [served, if_pos rfl] at rest
          obtain ⟨verdict, address⟩ := rest
          obtain ⟨none, isOpen, mapped⟩ := clean.mapping file found served
          have valid := found_documented documented found mapped
          rw [← address] at mapped valid
          rw [← stat] at valid
          rw [Option.some.inj verdict]
          exact parsed_file inv bounded same none isOpen mapped valid
      | false =>
          rw [served, if_neg Bool.false_ne_true] at rest
          obtain ⟨address, ret', verdict, other, _⟩ := rest
          rw [← Option.some.inj verdict] at other
          have length := clean.length file found served
          rw [← stat] at length
          exact parsed_other inv other bounded same address length

theorem Parsed.respond {s : Slot} {c : HttpConn} {ret : HttpCode} (parsed : s.Parsed c ret)
    (closing : (c.processWrite ret).2 = false → s.conn.fileAddress = 0) :
    ((Slot.mk (c.processWrite ret).1 (s.mmapped c ret)).closeUnless (c.processWrite ret).2).Inv := by
  have sound := parsed.inv.sound
  have response := HttpConn.processWrite_response c ret
  have frame := HttpConn.processWrite_frame c ret
  have file := HttpConn.processWrite_file (c := c)
  cases written : c.processWrite ret with
  | mk next ok =>
      rw [written] at response frame closing
      have frame : HttpConn.ResponseFrame c next := frame
      refine closeUnless_inv (s := ⟨next, s.mmapped c ret⟩) ?_ ?_
      · refine ⟨⟨sound.atMostOne, ?_, ?_, ?_, ?_⟩, ?_, parsed.inv.real⟩
        · rw [frame]
          exact sound.owned
        · rw [frame]
          exact sound.released
        · intro sending two
          rcases response two with ⟨isFile, region⟩ | same
          · rw [region]
            intro failed
            exact (parsed.file isFile).1 (Region.mapping.inj failed)
          · rw [same.iv1]
            exact sound.response (same.bytesToSend ▸ sending) (same.ivCount ▸ two)
        · rw [frame]
          exact sound.closed
        · rw [frame]
          exact parsed.inv.bounded.kept rfl rfl rfl rfl
      · intro failed
        by_cases isFile : ret = .fileRequest
        · have sent := file (parsed.file isFile).2
          rw [← isFile, written] at sent
          rw [failed] at sent
          contradiction
        · have address := parsed.other isFile
          rw [frame]
          exact address.trans (closing failed)

theorem process_inv {s next : Slot} (inv : s.Inv) {fs : FileSystem} (documented : fs.Documented)
    (clean : s.Clean (.process fs)) (taken : s.process fs = .ok next) : next.Inv := by
  have closing := clean.closing
  simp only [closes] at closing
  simp only [process] at taken
  cases result : s.conn.processRead fs with
  | mk c verdict =>
      rw [result] at taken closing
      cases verdict with
      | none => contradiction
      | some ret =>
          have parsed := process_parsed inv documented clean result
          by_cases waiting : ret = .noRequest
          · rw [waiting] at parsed
            simp only [waiting, if_true, Except.ok.injEq] at taken
            rw [← taken]
            exact parsed.inv
          · simp only [waiting, if_false, Except.ok.injEq] at taken
            rw [← taken]
            apply parsed.respond
            intro failed
            apply closing
            cases ret with
            | noRequest => contradiction
            | _ => simp only [failed, Bool.not_false]

/-! A step that is not clean. -/

structure Answered (s : Slot) (fs : FileSystem) (c : HttpConn) (ret : HttpCode) (next : Slot) :
    Prop where
  taken : s.process fs = .ok next
  live : next.live = s.mmapped c ret
  mapping : next.conn.mapping = c.mapping
  sockfd : c.sockfd = -1 → next.conn.sockfd = -1
  closed : s.closes (.process fs) = true → next.conn.sockfd = -1

theorem process_answered {s : Slot} {fs : FileSystem} {c : HttpConn} {ret : HttpCode}
    (result : s.conn.processRead fs = (c, some ret)) : ∃ next, s.Answered fs c ret next := by
  have closes : s.closes (.process fs) = true → ret ≠ .noRequest ∧ (c.processWrite ret).2 = false := by
    simp only [Slot.closes, result]
    cases ret with
    | noRequest => simp
    | _ => simp
  have frame := HttpConn.processWrite_frame c ret
  by_cases waiting : ret = .noRequest
  · refine ⟨⟨c, s.mmapped c ret⟩, ?_, rfl, rfl, id, fun closing => absurd waiting (closes closing).1⟩
    simp only [process, result, if_pos waiting]
  · cases written : c.processWrite ret with
    | mk sent ok =>
        rw [written] at frame closes
        have frame : HttpConn.ResponseFrame c sent := frame
        have sockfd : sent.sockfd = c.sockfd := by rw [frame]
        have mapping : sent.mapping = c.mapping := by
          rw [frame]
          rfl
        refine ⟨(Slot.mk sent (s.mmapped c ret)).closeUnless ok, ?_, ?_, ?_, ?_, ?_⟩
        · simp only [process, result, if_neg waiting, written]
        · cases ok <;> rfl
        · cases ok
          · exact mapping
          · exact mapping
        · intro closed
          cases ok
          · rfl
          · exact sockfd.trans closed
        · intro closing
          have failed : ok = false := (closes closing).2
          rw [failed]
          rfl

theorem mmapped_empty {s : Slot} {c : HttpConn} {ret : HttpCode} (empty : s.mmapped c ret = []) :
    s.live = [] := by
  simp only [mmapped] at empty
  split at empty
  · contradiction
  · exact empty

theorem address_zero {s : Slot} (inv : s.Inv) (empty : s.live = []) : s.conn.fileAddress = 0 := by
  by_contra some
  exact inv.sound.owned.mp some empty

theorem closing_clean {s : Slot} (inv : s.Inv) {fs : FileSystem}
    (sound : ∀ next, s.process fs = .ok next → next.Sound)
    (closes : s.closes (.process fs) = true) : s.conn.fileAddress = 0 := by
  cases result : s.conn.processRead fs with
  | mk c verdict =>
      cases verdict with
      | none => simp [Slot.closes, result] at closes
      | some ret =>
          obtain ⟨next, answered⟩ := process_answered result
          have empty := (sound next answered.taken).closed (answered.closed closes)
          rw [answered.live] at empty
          exact address_zero inv (mmapped_empty empty)

theorem mapping_clean {s : Slot} (inv : s.Inv) {fs : FileSystem}
    (sound : ∀ next, s.process fs = .ok next → next.Sound) {file : Found}
    (found : s.conn.found fs = some file) (served : file.stat.served = true) :
    s.conn.fileAddress = 0 ∧ s.conn.sockfd ≠ -1 ∧ file.address ≠ mapFailed := by
  have looked := HttpConn.processRead_looked s.conn fs inv.bounded.ordered
  have same := HttpConn.processRead_response s.conn fs inv.bounded.ordered
  cases result : s.conn.processRead fs with
  | mk c verdict =>
      rw [result, found] at looked
      rw [result] at same
      obtain ⟨_, rest⟩ := looked
      rw [served, if_pos rfl] at rest
      obtain ⟨verdictFile, address⟩ := rest
      have verdictFile : verdict = some .fileRequest := verdictFile
      have address : c.fileAddress = file.address := address
      rw [verdictFile] at result
      obtain ⟨next, answered⟩ := process_answered result
      have good := sound next answered.taken
      have nextAddress : next.conn.fileAddress = file.address :=
        (congrArg Mapping.address answered.mapping).trans address
      have mapped : file.address ≠ mapFailed := by
        intro failed
        have live : next.live = s.live := by
          rw [answered.live, mmapped, if_neg]
          intro both
          exact both.2 (address.trans failed)
        have owned : next.conn.fileAddress ≠ 0 := by
          rw [nextAddress, failed]
          decide
        have here := good.mapped owned
        rw [live] at here
        apply inv.real next.conn.mapping
        · rw [here]
          exact List.mem_singleton_self _
        · exact nextAddress.trans failed
      have live : next.live = c.mapping :: s.live := by
        rw [answered.live, mmapped, if_pos ⟨rfl, address ▸ mapped⟩]
      refine ⟨?_, ?_, mapped⟩
      · have one := good.atMostOne
        rw [live, List.length_cons] at one
        exact address_zero inv (List.eq_nil_of_length_eq_zero (by omega))
      · intro closed
        have empty := good.closed (answered.sockfd (same.sockfd.trans closed))
        rw [live] at empty
        contradiction

theorem length_clean {s : Slot} (inv : s.Inv) {fs : FileSystem}
    (sound : ∀ next, s.process fs = .ok next → next.Sound) {file : Found}
    (found : s.conn.found fs = some file) (refused : file.stat.served = false) :
    s.conn.fileAddress = 0 ∨ file.stat.size = s.conn.fileStat.size := by
  have looked := HttpConn.processRead_looked s.conn fs inv.bounded.ordered
  cases result : s.conn.processRead fs with
  | mk c verdict =>
      rw [result, found] at looked
      obtain ⟨stat, rest⟩ := looked
      rw [refused, if_neg Bool.false_ne_true] at rest
      obtain ⟨_, ret, verdictOther, other, _⟩ := rest
      have verdictOther : verdict = some ret := verdictOther
      have stat : c.fileStat = file.stat := stat
      rw [verdictOther] at result
      obtain ⟨next, answered⟩ := process_answered result
      have good := sound next answered.taken
      by_cases none : s.conn.fileAddress = 0
      · exact Or.inl none
      · have live : next.live = [s.conn.mapping] := by
          rw [answered.live, mmapped, if_neg fun both => other both.1]
          exact inv.sound.mapped none
        have released := good.released s.conn.mapping (by rw [live]; exact List.mem_singleton_self _)
        rw [answered.mapping] at released
        have size : s.conn.fileStat.size = c.fileStat.size := congrArg Mapping.length released
        rw [stat] at size
        exact Or.inr size.symm

theorem clean_of_quiet {s : Slot} {op : Op} (closing : s.closes op = true → s.conn.fileAddress = 0)
    (finds : s.finds op = none) : s.Clean op := by
  refine ⟨closing, ?_, ?_⟩
  · intro file found
    rw [finds] at found
    contradiction
  · intro file found
    rw [finds] at found
    contradiction

theorem clean_of_sound {s : Slot} (inv : s.Inv) (op : Op)
    (sound : ∀ next, step s op = .ok next → next.Sound) : s.Clean op := by
  cases op with
  | accept sockfd timer => exact clean_of_quiet (fun closes => absurd closes Bool.false_ne_true) rfl
  | write results => exact clean_of_quiet (fun closes => absurd closes Bool.false_ne_true) rfl
  | close => exact clean_of_quiet (fun _ => address_zero inv ((sound _ rfl).closed rfl)) rfl
  | expire => exact clean_of_quiet (fun _ => address_zero inv ((sound _ rfl).closed rfl)) rfl
  | process fs =>
      exact ⟨closing_clean inv sound, fun _ found served => mapping_clean inv sound found served,
        fun _ found refused => length_clean inv sound found refused⟩
  | read results =>
      refine clean_of_quiet (fun closes => ?_) rfl
      simp only [Slot.closes, Bool.not_eq_true'] at closes
      have good := sound _ rfl
      simp only [read, closes] at good
      exact address_zero inv (good.closed rfl)

theorem step_inv {s next : Slot} (inv : s.Inv) {op : Op} (documented : op.Documented)
    (clean : s.Clean op) (taken : step s op = .ok next) : next.Inv := by
  cases op with
  | accept sockfd timer =>
      rw [← Except.ok.inj taken]
      exact accept_inv inv sockfd timer
  | read results =>
      rw [← Except.ok.inj taken]
      apply read_inv inv results
      intro failed
      apply clean.closing
      rw [Slot.closes, failed]
      rfl
  | process fs => exact process_inv inv documented clean taken
  | write results =>
      rw [← Except.ok.inj taken]
      exact write_inv inv results
  | close =>
      rw [← Except.ok.inj taken]
      exact closeConn_inv inv (clean.closing rfl)
  | expire =>
      rw [← Except.ok.inj taken]
      exact closeConn_inv inv (clean.closing rfl)

/-! Whole runs. -/

theorem accepted_inv {c : HttpConn} (unset : c.fileAddress = 0) (sockfd timer : Nat) :
    (accepted c sockfd timer).Inv := by
  have none : (accepted c sockfd timer).conn.fileAddress = 0 := unset
  refine ⟨⟨Nat.zero_le 1, ?_, ?_, ?_, fun _ => rfl⟩, ?_, ?_⟩
  · rw [none]
    exact ⟨fun some => absurd rfl some, fun owns => absurd rfl owns⟩
  · intro mapping member
    contradiction
  · intro sending
    exact absurd rfl sending
  · exact (HttpConn.init_bounded { c with sockfd := sockfd }).kept rfl rfl rfl rfl
  · intro mapping member
    contradiction

/-- Whatever happens to a slot, its mapping is looked after in exactly the runs that
start without an address and whose steps are clean. -/
theorem mapping_sound_iff (c : HttpConn) (sockfd timer : Nat) (ops : List Op)
    (documented : ∀ op ∈ ops, op.Documented) :
    Runs.Always step Sound (accepted c sockfd timer) ops ↔
      c.fileAddress = 0 ∧ Runs.Along step Clean (accepted c sockfd timer) ops := by
  have along : Runs.Along step (fun _ op => op.Documented) (accepted c sockfd timer) ops :=
    Runs.along_of_forall ops _ fun op member _ => documented op member
  have clean (unset : c.fileAddress = 0) :
      Runs.Always step Sound (accepted c sockfd timer) ops ↔
        Runs.Along step Clean (accepted c sockfd timer) ops := by
    have holds : ∀ s : Slot, s.Inv → s.Sound := fun _ inv => inv.sound
    refine Runs.always_iff_along holds ?_ ?_ ops (accepted_inv unset sockfd timer) along
    · intro s op next inv documented clean taken
      exact step_inv inv documented clean taken
    · intro s op inv _ unclean
      by_contra missing
      push Not at missing
      exact unclean (clean_of_sound inv op missing)
  constructor
  · intro always
    have start : (accepted c sockfd timer).Sound := by
      cases ops with
      | nil => exact always
      | cons => exact always.1
    have unset : c.fileAddress = 0 := by
      by_contra some
      exact start.owned.mp some rfl
    exact ⟨unset, (clean unset).mp always⟩
  · rintro ⟨unset, met⟩
    exact (clean unset).mpr met

def oneFile : FileSystem where
  stat := fun _ => some ⟨0o100644, 3⟩
  mmap := fun _ size => if size = 0 then mapFailed else 4096

theorem oneFile_documented : oneFile.Documented := by
  intro path size mapped
  simp only [oneFile] at mapped ⊢
  split at mapped
  · contradiction
  · rename_i nonempty
    simp [nonempty]

theorem mapping_sound_iff_sent :
    Runs.Always step Sound (accepted HttpConn.zeroed 5 0)
      [.read [.data (bytes "GET /a HTTP/1.0\r\n\r\n")], .process oneFile, .write [.sent 20],
        .write [.sent 200], .close] := by
  refine (mapping_sound_iff HttpConn.zeroed 5 0 _ ?_).mpr ⟨rfl, by decide +kernel⟩
  simp [Op.Documented, oneFile_documented]

/-- The same request, closed by the peer before it is sent: the closed slot still owns
the mapping. -/
theorem closed_slot_leaks :
    let ops : List Op :=
      [.read [.data (bytes "GET /a HTTP/1.0\r\n\r\n")], .process oneFile, .close]
    (∀ op ∈ ops, op.Documented) ∧ ¬Runs.Always step Sound (accepted HttpConn.zeroed 5 0) ops := by
  refine ⟨by simp [Op.Documented, oneFile_documented], fun always => ?_⟩
  have closed := (Runs.always_final _ always rfl).closed
  revert closed
  decide +kernel

end Slot

end StudyRecord.Http
