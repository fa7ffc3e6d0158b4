import Mathlib.Data.List.Perm.Subperm
import StudyRecord.Timer.TimeWheel

/-!
The lists of the wheel. Every timer that is allocated stands in the list of its
slot and nowhere else; each operation keeps that, and none of them faults.
-/

namespace StudyRecord.Timer.TimeWheel

open LinkedList Machine

variable {T : Type}

def dataOf (wheel : TimeWheel T) (timer : Nat) : Option (TwTimer T) :=
  (wheel.heap timer).map Node.data

def userDataOf (wheel : TimeWheel T) (timer : Nat) : Option (Option T) :=
  (wheel.dataOf timer).map TwTimer.userData

/-- The lists of the slots are `content`. A loose timer may be on its way from one
slot to another. -/
structure Holds (wheel : TimeWheel T) (content : Nat → List Nat) (loose : Option Nat) : Prop where
  cur : wheel.curSlot < wheelSlots
  linked : ∀ slot, slot < wheelSlots → Linked wheel.heap (wheel.slots slot) (content slot)
  placed : ∀ slot, slot < wheelSlots → ∀ timer ∈ content slot, some timer ≠ loose →
    (wheel.dataOf timer).map TwTimer.timeSlot = some slot
  listed : ∀ timer data, wheel.dataOf timer = some data → some timer ≠ loose →
    data.timeSlot < wheelSlots ∧ timer ∈ content data.timeSlot
  allocated : ∀ timer data, wheel.dataOf timer = some data → timer < wheel.fresh

def Valid (wheel : TimeWheel T) : Prop := ∃ content, Holds wheel content none

structure SameTimers (before after : TimeWheel T) : Prop where
  data : ∀ timer, after.dataOf timer = before.dataOf timer
  curSlot : after.curSlot = before.curSlot
  fresh : after.fresh = before.fresh

theorem empty_valid : (empty : TimeWheel T).Valid := by
  refine ⟨fun _ => [], ?_, ?_, ?_, ?_, ?_⟩
  · exact Nat.succ_pos _
  · intro slot _
    exact Linked.nil _
  · intro slot _ timer member
    simp at member
  · intro timer data live
    simp [dataOf, empty] at live
  · intro timer data live
    simp [dataOf, empty] at live

theorem dataOf_node {wheel : TimeWheel T} {timer : Nat} {data : TwTimer T}
    (live : wheel.dataOf timer = some data) :
    ∃ node, wheel.heap timer = some node ∧ node.data = data := by
  simpa only [dataOf, Option.map_eq_some_iff] using live

theorem Holds.apart {wheel : TimeWheel T} {content : Nat → List Nat} {loose : Option Nat}
    (holds : wheel.Holds content loose) {slot other timer : Nat} (bound : slot < wheelSlots)
    (bound' : other < wheelSlots) (different : slot ≠ other) (settled : some timer ≠ loose)
    (member : timer ∈ content slot) : timer ∉ content other := by
  intro twice
  have here := holds.placed slot bound timer member settled
  have there := holds.placed other bound' timer twice settled
  rw [here, Option.some.injEq] at there
  exact different there

theorem Holds.mem_iff {wheel : TimeWheel T} {content : Nat → List Nat}
    (holds : wheel.Holds content none) {slot timer : Nat} {data : TwTimer T} (bound : slot < wheelSlots)
    (live : wheel.dataOf timer = some data) : timer ∈ content slot ↔ data.timeSlot = slot := by
  constructor
  · intro member
    have place := holds.placed slot bound timer member (by simp)
    simpa [live] using place
  · rintro rfl
    exact (holds.listed timer data live (by simp)).2

theorem Holds.absent {wheel : TimeWheel T} {content : Nat → List Nat} {loose : Option Nat}
    (holds : wheel.Holds content loose) {slot timer : Nat} (bound : slot < wheelSlots)
    (gone : wheel.dataOf timer = none) : timer ∉ content slot := by
  intro member
  obtain ⟨node, live⟩ := (holds.linked slot bound).live member
  simp [dataOf, live] at gone

theorem Holds.unallocated {wheel : TimeWheel T} {content : Nat → List Nat} {loose : Option Nat}
    (holds : wheel.Holds content loose) : wheel.dataOf wheel.fresh = none := by
  cases live : wheel.dataOf wheel.fresh with
  | none => rfl
  | some data => exact absurd (holds.allocated _ _ live) (Nat.lt_irrefl _)

theorem Holds.relink {wheel : TimeWheel T} {content : Nat → List Nat} {loose : Option Nat}
    (holds : wheel.Holds content loose) {heap : Heap (TwTimer T)} {slot : Nat} {head : Option Nat}
    {items touched : List Nat} (bound : slot < wheelSlots) (linked : Linked heap head items)
    (relinked : Relinked wheel.heap heap touched)
    (away : ∀ other, other < wheelSlots → other ≠ slot → ∀ timer ∈ content other, timer ∉ touched)
    (inside : ∀ timer ∈ items, some timer ≠ loose → timer ∈ content slot)
    (kept : ∀ timer ∈ content slot, some timer ≠ loose → timer ∈ items) :
    Holds { wheel with heap := heap, slots := Function.update wheel.slots slot head }
      (Function.update content slot items) loose := by
  have data (timer : Nat) : (heap timer).map Node.data = wheel.dataOf timer := relinked.data timer
  refine ⟨holds.cur, ?_, ?_, ?_, ?_⟩
  · intro other bound'
    by_cases same : other = slot
    · subst same
      simpa only [Function.update_self] using linked
    · simp only [Function.update_of_ne same]
      exact (holds.linked other bound').congr fun timer member =>
        relinked.outside timer (away other bound' same timer member)
  · intro other bound' timer member settled
    rw [dataOf, data]
    by_cases same : other = slot
    · subst same
      rw [Function.update_self] at member
      exact holds.placed other bound' timer (inside timer member settled) settled
    · rw [Function.update_of_ne same] at member
      exact holds.placed other bound' timer member settled
  · intro timer found live settled
    rw [dataOf, data] at live
    obtain ⟨bound', member⟩ := holds.listed timer found live settled
    refine ⟨bound', ?_⟩
    by_cases same : found.timeSlot = slot
    · rw [same, Function.update_self]
      exact kept timer (same ▸ member) settled
    · rw [Function.update_of_ne same]
      exact member
  · intro timer found live
    rw [dataOf, data] at live
    exact holds.allocated timer found live

theorem Holds.loosen {wheel : TimeWheel T} {content : Nat → List Nat}
    (holds : wheel.Holds content none) (timer : Nat) : wheel.Holds content (some timer) :=
  ⟨holds.cur, holds.linked,
    fun slot bound item listed _ => holds.placed slot bound item listed (by simp),
    fun item data found _ => holds.listed item data found (by simp), holds.allocated⟩

theorem delTimerSup_spec {wheel : TimeWheel T} {content : Nat → List Nat}
    (holds : wheel.Holds content none) {slot timer : Nat} {before after : List Nat}
    (bound : slot < wheelSlots) (split : content slot = before ++ timer :: after) :
    ∃ result, wheel.delTimerSup timer = some result ∧
      result.Holds (Function.update content slot (before ++ after)) (some timer) ∧
      SameTimers wheel result ∧
      ∀ other, other < wheelSlots →
        timer ∉ Function.update content slot (before ++ after) other := by
  have linked := holds.linked slot bound
  have member : timer ∈ content slot := by simp [split]
  have place := holds.placed slot bound timer member (by simp)
  obtain ⟨node, live⟩ := linked.live member
  have here : node.data.timeSlot = slot := by simpa [dataOf, live] using place
  rw [split] at linked
  obtain ⟨heap, made, relisted, relinked⟩ := linked.unlink
  have absent : timer ∉ before ++ after := by
    have nodup := linked.nodup
    rw [List.nodup_middle] at nodup
    exact (List.nodup_cons.mp nodup).1
  refine ⟨{ wheel with heap := heap, slots := Function.update wheel.slots slot (before ++ after).head? },
    ?_, ?_, ⟨relinked.data, rfl, rfl⟩, ?_⟩
  · simp only [delTimerSup, live, Option.bind_eq_bind, Option.bind_some, here, made]
    rfl
  · refine (holds.loosen timer).relink bound relisted relinked ?_ ?_ ?_
    · intro other bound' different item listed touched
      have there : item ∈ content slot := by
        rw [split]
        simp only [List.mem_append, List.mem_cons] at touched ⊢
        tauto
      exact holds.apart bound' bound different (by simp) listed there
    · intro item listed _
      rw [split]
      simp only [List.mem_append, List.mem_cons] at listed ⊢
      tauto
    · intro item listed settled
      have different : item ≠ timer := by simpa using settled
      rw [split] at listed
      simp only [List.mem_append, List.mem_cons] at listed ⊢
      tauto
  · intro other bound' listed
    by_cases same : other = slot
    · rw [same, Function.update_self] at listed
      exact absent listed
    · rw [Function.update_of_ne same] at listed
      exact holds.apart bound' bound same (by simp) listed member

theorem insert_spec {wheel : TimeWheel T} {content : Nat → List Nat} {timer ts : Nat}
    (holds : wheel.Holds content (some timer)) {data : TwTimer T}
    (live : wheel.heap timer = some ⟨none, none, data⟩) (bound : ts < wheelSlots)
    (absent : ∀ slot, slot < wheelSlots → timer ∉ content slot) :
    ∃ result, wheel.insert timer ts = some result ∧
      result.Holds (Function.update content ts (timer :: content ts)) (some timer) ∧
      SameTimers wheel result := by
  obtain ⟨heap, made, relisted, relinked⟩ :=
    (holds.linked ts bound).pushFront (absent ts bound) live
  refine ⟨{ wheel with heap := heap, slots := Function.update wheel.slots ts (some timer) },
    ?_, ?_, ⟨relinked.data, rfl, rfl⟩⟩
  · simp only [insert, made, Option.bind_eq_bind, Option.bind_some]
    rfl
  · refine holds.relink bound relisted relinked ?_ ?_ ?_
    · intro other bound' different item listed touched
      rcases List.mem_cons.mp touched with rfl | there
      · exact absent other bound' listed
      · have settled : some item ≠ some timer := by
          intro same
          rw [Option.some.injEq] at same
          exact absent other bound' (same ▸ listed)
        exact holds.apart bound' bound different settled listed there
    · intro item listed settled
      rcases List.mem_cons.mp listed with rfl | there
      · simp at settled
      · exact there
    · intro item listed _
      exact List.mem_cons_of_mem timer listed

theorem Holds.reserve {wheel : TimeWheel T} {content : Nat → List Nat} {loose : Option Nat}
    (holds : wheel.Holds content loose) :
    Holds { wheel with fresh := wheel.fresh + 1 } content loose :=
  ⟨holds.cur, holds.linked, holds.placed, holds.listed,
    fun item data live => Nat.lt_succ_of_lt (holds.allocated item data live)⟩

theorem dataOf_changed (wheel : TimeWheel T) {heap : Heap (TwTimer T)} {timer : Nat}
    {node : Node (TwTimer T)} (changed : Changed wheel.heap heap timer node) :
    dataOf { wheel with heap := heap } = Function.update wheel.dataOf timer (some node.data) := by
  funext other
  by_cases same : other = timer
  · subst same
    simp [dataOf, changed.here]
  · simp [dataOf, Function.update_of_ne same, changed.elsewhere other same]

theorem Holds.change_loose {wheel : TimeWheel T} {content : Nat → List Nat} {timer : Nat}
    (holds : wheel.Holds content (some timer))
    (absent : ∀ slot, slot < wheelSlots → timer ∉ content slot) {heap : Heap (TwTimer T)}
    {node : Node (TwTimer T)} (changed : Changed wheel.heap heap timer node)
    (allocated : timer < wheel.fresh) : Holds { wheel with heap := heap } content (some timer) := by
  have payload := dataOf_changed wheel changed
  refine ⟨holds.cur, ?_, ?_, ?_, ?_⟩
  · intro slot bound
    apply (holds.linked slot bound).congr
    intro item listed
    apply changed.elsewhere
    rintro rfl
    exact absent slot bound listed
  · intro slot bound item listed settled
    rw [payload, Function.update_of_ne (by simpa using settled)]
    exact holds.placed slot bound item listed settled
  · intro item found live settled
    rw [payload, Function.update_of_ne (by simpa using settled)] at live
    exact holds.listed item found live settled
  · intro item found live
    rw [payload] at live
    by_cases same : item = timer
    · rw [same]
      exact allocated
    · rw [Function.update_of_ne same] at live
      exact holds.allocated item found live

theorem Holds.settle {wheel : TimeWheel T} {content : Nat → List Nat} {timer : Nat}
    (holds : wheel.Holds content (some timer)) {heap : Heap (TwTimer T)}
    {node : Node (TwTimer T)} {data : TwTimer T} (live : wheel.heap timer = some node)
    (changed : Changed wheel.heap heap timer { node with data := data })
    (bound : data.timeSlot < wheelSlots) (member : timer ∈ content data.timeSlot)
    (only : ∀ slot, slot < wheelSlots → timer ∈ content slot → slot = data.timeSlot) :
    Holds { wheel with heap := heap } content none := by
  have payload := dataOf_changed wheel changed
  refine ⟨holds.cur, ?_, ?_, ?_, ?_⟩
  · intro slot bound'
    exact (holds.linked slot bound').change_data live changed
  · intro slot bound' item listed _
    rw [payload]
    by_cases same : item = timer
    · subst same
      rw [Function.update_self, Option.map_some, only slot bound' listed]
    · rw [Function.update_of_ne same]
      exact holds.placed slot bound' item listed (by simpa using same)
  · intro item found live' _
    rw [payload] at live'
    by_cases same : item = timer
    · subst same
      rw [Function.update_self, Option.some.injEq] at live'
      subst live'
      exact ⟨bound, member⟩
    · rw [Function.update_of_ne same] at live'
      exact holds.listed item found live' (by simpa using same)
  · intro item found live'
    rw [payload] at live'
    by_cases same : item = timer
    · subst same
      exact holds.allocated item node.data (by simp [dataOf, live])
    · rw [Function.update_of_ne same] at live'
      exact holds.allocated item found live'

theorem dataOf_free (wheel : TimeWheel T) (timer : Nat) :
    (wheel.free timer).dataOf = Function.update wheel.dataOf timer none := by
  funext other
  by_cases same : other = timer
  · subst same
    simp [dataOf, free]
  · simp [dataOf, free, Function.update_of_ne same]

theorem Holds.free {wheel : TimeWheel T} {content : Nat → List Nat} {timer : Nat}
    (holds : wheel.Holds content (some timer))
    (absent : ∀ slot, slot < wheelSlots → timer ∉ content slot) :
    (wheel.free timer).Holds content none := by
  have payload := dataOf_free wheel timer
  have different {slot item : Nat} (bound : slot < wheelSlots) (listed : item ∈ content slot) :
      item ≠ timer := by
    rintro rfl
    exact absent slot bound listed
  refine ⟨holds.cur, ?_, ?_, ?_, ?_⟩
  · intro slot bound
    apply (holds.linked slot bound).congr
    intro item listed
    simp [TimeWheel.free, Function.update_of_ne (different bound listed)]
  · intro slot bound item listed _
    have apart := different bound listed
    rw [payload, Function.update_of_ne apart]
    exact holds.placed slot bound item listed (by simpa using apart)
  · intro item found live _
    rw [payload] at live
    by_cases same : item = timer
    · simp [same] at live
    · rw [Function.update_of_ne same] at live
      exact holds.listed item found live (by simpa using same)
  · intro item found live
    rw [payload] at live
    by_cases same : item = timer
    · simp [same] at live
    · rw [Function.update_of_ne same] at live
      exact holds.allocated item found live

theorem SameTimers.free {before after : TimeWheel T} (same : SameTimers before after) (timer : Nat) :
    (after.free timer).dataOf = Function.update before.dataOf timer none := by
  rw [dataOf_free]
  funext other
  by_cases here : other = timer
  · simp [here]
  · rw [Function.update_of_ne here, Function.update_of_ne here, same.data]

def Listed (wheel : TimeWheel T) (timer : Nat) : Prop :=
  ∃ slot items, slot < wheelSlots ∧ Linked wheel.heap (wheel.slots slot) items ∧ timer ∈ items

theorem Valid.listed_iff {wheel : TimeWheel T} (valid : wheel.Valid) (timer : Nat) :
    wheel.Listed timer ↔ (wheel.dataOf timer).isSome := by
  obtain ⟨content, holds⟩ := valid
  constructor
  · rintro ⟨slot, items, bound, linked, member⟩
    obtain ⟨node, live⟩ := linked.live member
    simp [dataOf, live]
  · intro live
    obtain ⟨data, live⟩ := Option.isSome_iff_exists.mp live
    obtain ⟨bound, member⟩ := holds.listed timer data live (by simp)
    exact ⟨data.timeSlot, content data.timeSlot, bound, holds.linked _ bound, member⟩

/-! The functions of the wheel. -/

theorem addTimer_spec {wheel : TimeWheel T} (valid : wheel.Valid) (timeout : Int)
    (notNegative : 0 ≤ timeout) :
    ∃ result, wheel.addTimer timeout = some (result, some wheel.fresh) ∧ result.Valid ∧
      wheel.dataOf wheel.fresh = none ∧
      result.dataOf = Function.update wheel.dataOf wheel.fresh
        (some ⟨(ticksOf timeout / wheelSlots : Nat),
          (wheel.curSlot + ticksOf timeout % wheelSlots) % wheelSlots, none⟩) ∧
      result.curSlot = wheel.curSlot ∧ result.fresh = wheel.fresh + 1 := by
  obtain ⟨content, holds⟩ := valid
  have unused := holds.unallocated
  have absent (slot : Nat) (bound : slot < wheelSlots) : wheel.fresh ∉ content slot :=
    holds.absent bound unused
  let ts := (wheel.curSlot + ticksOf timeout % wheelSlots) % wheelSlots
  let data : TwTimer T := ⟨(ticksOf timeout / wheelSlots : Nat), ts, none⟩
  let node : Node (TwTimer T) := ⟨none, none, data⟩
  let grown : TimeWheel T :=
    { wheel with heap := Function.update wheel.heap wheel.fresh (some node), fresh := wheel.fresh + 1 }
  have changed : Changed wheel.heap grown.heap wheel.fresh node :=
    ⟨Function.update_self .., fun other different => Function.update_of_ne different ..⟩
  have payload : grown.dataOf = Function.update wheel.dataOf wheel.fresh (some data) :=
    dataOf_changed wheel changed
  have bound : ts < wheelSlots := Nat.mod_lt _ (by decide)
  have grownHolds : grown.Holds content (some wheel.fresh) :=
    (holds.loosen wheel.fresh).reserve.change_loose absent changed (Nat.lt_succ_self _)
  obtain ⟨result, made, resultHolds, same⟩ := insert_spec grownHolds changed.here bound absent
  refine ⟨result, ?_, ⟨Function.update content ts (wheel.fresh :: content ts), ?_⟩, unused, ?_,
    same.curSlot, same.fresh⟩
  · have notBelow : ¬timeout < 0 := by omega
    simp only [addTimer, notBelow, if_false, Option.bind_eq_bind]
    rw [show insert grown wheel.fresh ts = some result from made]
    rfl
  · have live : result.dataOf wheel.fresh = some data := by
      rw [same.data, payload, Function.update_self]
    obtain ⟨node', live', isData⟩ := dataOf_node live
    have stays : Changed result.heap result.heap wheel.fresh { node' with data := data } :=
      ⟨by rw [live', ← isData], fun _ _ => rfl⟩
    refine resultHolds.settle live' stays bound (by simp [data]) ?_
    intro slot bound' member
    by_contra different
    rw [Function.update_of_ne different] at member
    exact absent slot bound' member
  · funext other
    rw [same.data, payload]

theorem Holds.split {wheel : TimeWheel T} {content : Nat → List Nat}
    (holds : wheel.Holds content none) {timer : Nat} {data : TwTimer T}
    (live : wheel.dataOf timer = some data) :
    data.timeSlot < wheelSlots ∧ ∃ before after, content data.timeSlot = before ++ timer :: after := by
  obtain ⟨bound, member⟩ := holds.listed timer data live (by simp)
  exact ⟨bound, List.append_of_mem member⟩

theorem delTimer_spec {wheel : TimeWheel T} (valid : wheel.Valid) {timer : Nat} {data : TwTimer T}
    (live : wheel.dataOf timer = some data) :
    ∃ result, wheel.delTimer timer = some result ∧ result.Valid ∧
      result.dataOf = Function.update wheel.dataOf timer none ∧
      result.curSlot = wheel.curSlot ∧ result.fresh = wheel.fresh := by
  obtain ⟨content, holds⟩ := valid
  obtain ⟨bound, before, after, split⟩ := holds.split live
  obtain ⟨middle, made, loose, same, absent⟩ := delTimerSup_spec holds bound split
  refine ⟨middle.free timer, ?_, ⟨_, loose.free absent⟩, ?_, same.curSlot, same.fresh⟩
  · simp only [delTimer, made, Option.bind_eq_bind, Option.bind_some]
    rfl
  · exact same.free timer

theorem adjustTimer_spec {wheel : TimeWheel T} (valid : wheel.Valid) {timer : Nat}
    {data : TwTimer T} (live : wheel.dataOf timer = some data) (timeout : Int)
    (notNegative : 0 ≤ timeout) :
    ∃ result, wheel.adjustTimer timer timeout = some result ∧ result.Valid ∧
      result.dataOf = Function.update wheel.dataOf timer (some
        { data with
          rotation := toInt (data.rotation + (ticksOf timeout / wheelSlots : Nat))
          timeSlot := (data.timeSlot + ticksOf timeout % wheelSlots) % wheelSlots }) ∧
      result.curSlot = wheel.curSlot ∧ result.fresh = wheel.fresh := by
  obtain ⟨content, holds⟩ := valid
  obtain ⟨bound, before, after, split⟩ := holds.split live
  obtain ⟨removed, made, loose, same, absent⟩ := delTimerSup_spec holds bound split
  obtain ⟨node, liveNode, isData⟩ := dataOf_node live
  have liveRemoved : removed.dataOf timer = some data := by rw [same.data, live]
  obtain ⟨nodeRemoved, liveNode', isData'⟩ := dataOf_node liveRemoved
  -- the pointers are cleared, which no list sees
  obtain ⟨heap, cleared, changed⟩ :=
    change_spec liveNode' fun node => { node with prev := none, next := none }
  have payload := dataOf_changed removed changed
  have sameData (other : Nat) : dataOf { removed with heap := heap } other = removed.dataOf other := by
    rw [payload]
    by_cases here : other = timer
    · rw [here, Function.update_self, liveRemoved, isData']
    · rw [Function.update_of_ne here]
  have clearedHolds := loose.change_loose absent changed (loose.allocated timer data liveRemoved)
  have target : (data.timeSlot + ticksOf timeout % wheelSlots) % wheelSlots < wheelSlots :=
    Nat.mod_lt _ (by decide)
  obtain ⟨inserted, made', insertedHolds, same'⟩ := insert_spec clearedHolds changed.here target absent
  have liveInserted : inserted.dataOf timer = some data := by
    rw [same'.data, sameData, liveRemoved]
  obtain ⟨nodeInserted, liveNode'', isData''⟩ := dataOf_node liveInserted
  obtain ⟨final, assigned, changed'⟩ := change_spec liveNode'' fun node =>
    { node with
      data := { node.data with
        rotation := toInt (node.data.rotation + (ticksOf timeout / wheelSlots : Nat))
        timeSlot := (data.timeSlot + ticksOf timeout % wheelSlots) % wheelSlots } }
  refine ⟨{ inserted with heap := final }, ?_, ⟨_, insertedHolds.settle liveNode'' changed' target ?_ ?_⟩,
    ?_, ?_, ?_⟩
  · have notBelow : ¬timeout < 0 := by omega
    simp only [adjustTimer, notBelow, if_false, liveNode, Option.bind_eq_bind, Option.bind_some, made,
      cleared, isData, made', assigned]
    rfl
  · simp
  · intro slot bound' member
    by_contra different
    rw [Function.update_of_ne different] at member
    exact absent slot bound' member
  · rw [dataOf_changed inserted changed', isData'']
    funext other
    by_cases here : other = timer
    · rw [here, Function.update_self, Function.update_self]
    · rw [Function.update_of_ne here, Function.update_of_ne here, same'.data, sameData, same.data]
  · exact same'.curSlot.trans same.curSlot
  · exact same'.fresh.trans same.fresh

theorem setUserData_spec {wheel : TimeWheel T} (valid : wheel.Valid) {timer : Nat}
    {data : TwTimer T} (live : wheel.dataOf timer = some data) (user : T) :
    ∃ result, wheel.setUserData timer user = some result ∧ result.Valid ∧
      result.dataOf =
        Function.update wheel.dataOf timer (some { data with userData := some user }) ∧
      result.curSlot = wheel.curSlot ∧ result.fresh = wheel.fresh := by
  obtain ⟨content, holds⟩ := valid
  obtain ⟨bound, before, after, split⟩ := holds.split live
  obtain ⟨node, liveNode, isData⟩ := dataOf_node live
  obtain ⟨heap, assigned, changed⟩ := change_spec liveNode fun node =>
    { node with data := { node.data with userData := some user } }
  rw [isData] at changed
  refine ⟨{ wheel with heap := heap }, ?_, ⟨content, ?_⟩, dataOf_changed wheel changed, rfl, rfl⟩
  · simp only [setUserData, assigned, Option.bind_eq_bind, Option.bind_some]
    rfl
  · refine (holds.loosen timer).settle liveNode changed bound (by simp [split]) ?_
    intro slot bound' member
    exact ((holds.mem_iff bound' live).mp member).symm

/-! The tick. -/

def visit (data : TwTimer T) : Option (TwTimer T) :=
  if data.rotation > 0 then some { data with rotation := data.rotation - 1 } else none

def due (wheel : TimeWheel T) (timer : Nat) : Option (Nat × Option T) :=
  (wheel.dataOf timer).bind fun data =>
    if data.rotation > 0 then none else some (timer, data.userData)

theorem due_eq_some {wheel : TimeWheel T} {timer : Nat} {user : Option T} :
    wheel.due timer = some (timer, user) ↔
      ∃ data, wheel.dataOf timer = some data ∧ ¬data.rotation > 0 ∧ data.userData = user := by
  simp only [due, Option.bind_eq_some_iff]
  constructor
  · rintro ⟨data, live, stopped⟩
    split at stopped
    · simp at stopped
    · rename_i none
      exact ⟨data, live, none, by simpa using stopped⟩
  · rintro ⟨data, live, stopped, rfl⟩
    exact ⟨data, live, by rw [if_neg stopped]⟩

theorem due_fst {wheel : TimeWheel T} {timer : Nat} {pair : Nat × Option T}
    (isDue : wheel.due timer = some pair) : pair.1 = timer := by
  simp only [due, Option.bind_eq_some_iff] at isDue
  obtain ⟨data, live, stopped⟩ := isDue
  split at stopped
  · simp at stopped
  · rw [Option.some.injEq] at stopped
    rw [← stopped]

theorem due_sublist (wheel : TimeWheel T) (timers : List Nat) :
    ((timers.filterMap wheel.due).map Prod.fst).Sublist timers := by
  induction timers with
  | nil => simp
  | cons timer rest ih =>
      simp only [List.filterMap_cons]
      split
      · exact ih.cons timer
      · rename_i pair isDue
        have named : pair.1 = timer := due_fst isDue
        rw [List.map_cons, named]
        exact ih.cons_cons timer

theorem due_eq (wheel : TimeWheel T) {timer : Nat} {data : TwTimer T}
    (live : wheel.dataOf timer = some data) :
    wheel.due timer = if data.rotation > 0 then none else some (timer, data.userData) := by
  rw [due, live, Option.bind_some]

theorem tickPass_spec {wheel : TimeWheel T} {content : Nat → List Nat} {kept rest : List Nat}
    {tmp : Nat} (holds : wheel.Holds content none)
    (split : content wheel.curSlot = kept ++ tmp :: rest) :
    ∃ next content' kept', wheel.tickPass tmp = some (next, rest.head?, (wheel.due tmp).toList) ∧
      next.Holds content' none ∧ content' wheel.curSlot = kept' ++ rest ∧
      next.dataOf = Function.update wheel.dataOf tmp ((wheel.dataOf tmp).bind visit) ∧
      next.curSlot = wheel.curSlot ∧ next.fresh = wheel.fresh := by
  have bound := holds.cur
  have linked := holds.linked wheel.curSlot bound
  rw [split] at linked
  obtain ⟨data, cell⟩ := linked.cell kept tmp rest rfl
  have live : wheel.dataOf tmp = some data := by simp [dataOf, cell]
  have here : data.timeSlot = wheel.curSlot := (holds.mem_iff bound live).mp (by simp [split])
  rw [wheel.due_eq live, live, Option.bind_some, visit]
  by_cases more : data.rotation > 0
  · obtain ⟨heap, assigned, changed⟩ := change_spec cell fun node =>
      { node with data := { node.data with rotation := node.data.rotation - 1 } }
    have settled : Holds { wheel with heap := heap } content none := by
      refine (holds.loosen tmp).settle cell changed (here ▸ bound) (by simp [here, split]) ?_
      intro slot bound' member
      exact ((holds.mem_iff bound' live).mp member).symm
    refine ⟨{ wheel with heap := heap }, content, kept ++ [tmp], ?_, settled, by simp [split], ?_,
      rfl, rfl⟩
    · simp only [tickPass, cell, Option.bind_eq_bind, Option.bind_some, more, if_true, assigned]
      rfl
    · rw [dataOf_changed wheel changed, if_pos more]
  · obtain ⟨removed, unlinked, loose, same, gone⟩ := delTimerSup_spec holds bound split
    refine ⟨removed.free tmp, _, kept, ?_, loose.free gone, Function.update_self .., ?_,
      same.curSlot, same.fresh⟩
    · simp only [tickPass, cell, Option.bind_eq_bind, Option.bind_some, more, if_false, unlinked]
      rfl
    · rw [same.free, if_neg more]

theorem tickLoop_spec (todo kept : List Nat) (fuel : Nat) (fired : List (Nat × Option T))
    {wheel : TimeWheel T} {content : Nat → List Nat} (holds : wheel.Holds content none)
    (split : content wheel.curSlot = kept ++ todo) (enough : todo.length ≤ fuel) :
    ∃ result, tickLoop fuel todo.head? fired wheel =
        some (result, fired ++ todo.filterMap wheel.due) ∧
      result.Valid ∧ result.curSlot = wheel.curSlot ∧ result.fresh = wheel.fresh ∧
      ∀ timer, result.dataOf timer =
        if timer ∈ todo then (wheel.dataOf timer).bind visit else wheel.dataOf timer := by
  induction todo generalizing kept fuel fired wheel content with
  | nil =>
      refine ⟨wheel, ?_, ⟨content, holds⟩, rfl, rfl, by simp⟩
      cases fuel <;> simp [tickLoop]
  | cons tmp rest ih =>
      obtain ⟨fuel, rfl⟩ : ∃ less, fuel = less + 1 := ⟨fuel - 1, by simp at enough; omega⟩
      have nodup := (holds.linked wheel.curSlot holds.cur).nodup
      rw [split] at nodup
      have absent : tmp ∉ rest := by
        have tail := (List.nodup_append.mp nodup).2.1
        exact (List.nodup_cons.mp tail).1
      obtain ⟨next, content', kept', passed, holds', split', payload, cur, freshSame⟩ :=
        tickPass_spec holds split
      rw [← cur] at split'
      obtain ⟨result, made, valid, cur', fresh', payload'⟩ :=
        ih kept' fuel (fired ++ (wheel.due tmp).toList) holds' split' (by simpa using enough)
      have sameDue : rest.filterMap next.due = rest.filterMap wheel.due := by
        apply List.filterMap_congr
        intro timer member
        have different : timer ≠ tmp := fun same => absent (same ▸ member)
        rw [due, due, payload, Function.update_of_ne different]
      refine ⟨result, ?_, valid, cur'.trans cur, fresh'.trans freshSame, ?_⟩
      · rw [List.head?_cons, tickLoop_succ, passed, Option.bind_some]
        refine made.trans ?_
        rw [sameDue, List.append_assoc]
        cases isDue : wheel.due tmp <;> simp [isDue]
      · intro timer
        rw [payload' timer, payload]
        by_cases first : timer = tmp
        · subst first
          simp [absent]
        · simp [first]

theorem Holds.length_le {wheel : TimeWheel T} {content : Nat → List Nat}
    (holds : wheel.Holds content none) {slot : Nat} (bound : slot < wheelSlots) :
    (content slot).length ≤ wheel.fresh := by
  have linked := holds.linked slot bound
  have inside : content slot ⊆ List.range wheel.fresh := by
    intro timer member
    obtain ⟨node, live⟩ := linked.live member
    exact List.mem_range.mpr (holds.allocated timer node.data (by simp [dataOf, live]))
  have shorter := (linked.nodup.subperm inside).length_le
  simpa using shorter

theorem tick_spec {wheel : TimeWheel T} (valid : wheel.Valid) :
    ∃ result fired, wheel.tick = some (result, fired) ∧ result.Valid ∧
      result.curSlot = (wheel.curSlot + 1) % wheelSlots ∧ result.fresh = wheel.fresh ∧
      (fired.map Prod.fst).Nodup ∧
      (∀ timer user, (timer, user) ∈ fired ↔ ∃ data, wheel.dataOf timer = some data ∧
        data.timeSlot = wheel.curSlot ∧ ¬data.rotation > 0 ∧ data.userData = user) ∧
      ∀ timer, result.dataOf timer = (wheel.dataOf timer).bind fun data =>
        if data.timeSlot = wheel.curSlot then visit data else some data := by
  obtain ⟨content, holds⟩ := valid
  have bound := holds.cur
  have linked := holds.linked wheel.curSlot bound
  obtain ⟨result, made, ⟨content', holds'⟩, cur, freshSame, payload⟩ :=
    tickLoop_spec (content wheel.curSlot) [] wheel.fresh [] holds rfl (holds.length_le bound)
  have next : (wheel.curSlot + 1) % wheelSlots < wheelSlots := Nat.mod_lt _ (by decide)
  refine ⟨{ result with curSlot := (wheel.curSlot + 1) % wheelSlots },
    (content wheel.curSlot).filterMap wheel.due, ?_, ⟨content', ?_⟩, rfl, freshSame, ?_, ?_, ?_⟩
  · rw [tick, linked.first, made]
    simp [cur]
  · exact ⟨next, holds'.linked, holds'.placed, holds'.listed, holds'.allocated⟩
  · exact (due_sublist wheel _).nodup linked.nodup
  · intro timer user
    simp only [List.mem_filterMap]
    constructor
    · rintro ⟨other, member, isDue⟩
      obtain rfl : timer = other := due_fst isDue
      obtain ⟨data, live, stopped, same⟩ := due_eq_some.mp isDue
      exact ⟨data, live, (holds.mem_iff bound live).mp member, stopped, same⟩
    · rintro ⟨data, live, here, stopped, same⟩
      exact ⟨timer, (holds.mem_iff bound live).mpr here, due_eq_some.mpr ⟨data, live, stopped, same⟩⟩
  · intro timer
    have same : dataOf { result with curSlot := (wheel.curSlot + 1) % wheelSlots } timer =
        result.dataOf timer := rfl
    rw [same, payload timer]
    cases live : wheel.dataOf timer with
    | none => simp
    | some data =>
        simp only [holds.mem_iff bound live, Option.bind_some]

end StudyRecord.Timer.TimeWheel
