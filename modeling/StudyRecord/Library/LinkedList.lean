import Mathlib.Data.List.Induction
import Mathlib.Data.List.Nodup
import Mathlib.Logic.Function.Basic

/-!
Intrusive doubly linked lists in a heap. A node is reached through its address;
dereferencing an address that holds no node is a fault.
-/

namespace StudyRecord.LinkedList

structure Node (Data : Type) where
  prev : Option Nat
  next : Option Nat
  data : Data

abbrev Heap (Data : Type) := Nat → Option (Node Data)

section Lists

variable {Data : Type}

def change (heap : Heap Data) (address : Nat) (assign : Node Data → Node Data) :
    Option (Heap Data) :=
  match heap address with
  | none => none
  | some node => some (Function.update heap address (some (assign node)))

def pushFront (heap : Heap Data) (head : Option Nat) (item : Nat) :
    Option (Heap Data × Option Nat) :=
  match head with
  | none => some (heap, some item)
  | some first => do
      let heap ← change heap item fun node => { node with next := some first }
      let heap ← change heap first fun node => { node with prev := some item }
      return (heap, some item)

/-- A node is taken out of the list at `head`. Its own pointers stay as they are. -/
def unlink (heap : Heap Data) (head : Option Nat) (item : Nat) :
    Option (Heap Data × Option Nat) := do
  let node ← heap item
  if head = some item then
    match node.next with
    | none => return (heap, none)
    | some next =>
        let heap ← change heap next fun node => { node with prev := none }
        return (heap, some next)
  else
    let before ← node.prev
    let heap ← change heap before fun other => { other with next := node.next }
    match node.next with
    | none => return (heap, head)
    | some next =>
        let heap ← change heap next fun other => { other with prev := node.prev }
        return (heap, head)

/-- The list at `head` runs through these addresses, and every node points to its neighbours. -/
structure Linked (heap : Heap Data) (head : Option Nat) (items : List Nat) : Prop where
  first : head = items.head?
  nodup : items.Nodup
  cell : ∀ before item after, items = before ++ item :: after →
    ∃ data, heap item = some ⟨before.getLast?, after.head?, data⟩

def Visits (heap : Heap Data) (link : Node Data → Option Nat) : Option Nat → List Nat → Prop
  | start, [] => start = none
  | start, item :: rest =>
      start = some item ∧ ∃ node, heap item = some node ∧ Visits heap link (link node) rest

theorem Visits.congr {heap result : Heap Data} {link : Node Data → Option Nat}
    {start : Option Nat} {items : List Nat} (visits : Visits heap link start items)
    (same : ∀ item ∈ items, result item = heap item) : Visits result link start items := by
  induction items generalizing start with
  | nil => exact visits
  | cons item rest ih =>
      obtain ⟨first, node, cell, later⟩ := visits
      refine ⟨first, node, (same item (by simp)).trans cell, ih later ?_⟩
      exact fun other member => same other (by simp [member])

structure Relinked (heap result : Heap Data) (items : List Nat) : Prop where
  data : ∀ address, (result address).map Node.data = (heap address).map Node.data
  outside : ∀ address, address ∉ items → result address = heap address

structure Changed (heap result : Heap Data) (address : Nat) (node : Node Data) : Prop where
  here : result address = some node
  elsewhere : ∀ other, other ≠ address → result other = heap other

theorem change_spec {heap : Heap Data} {address : Nat} {node : Node Data}
    (live : heap address = some node) (assign : Node Data → Node Data) :
    ∃ result, change heap address assign = some result ∧
      Changed heap result address (assign node) :=
  ⟨Function.update heap address (some (assign node)), by simp [change, live],
    Function.update_self .., fun _ different => Function.update_of_ne different ..⟩

theorem Relinked.refl (heap : Heap Data) (items : List Nat) : Relinked heap heap items :=
  ⟨fun _ => rfl, fun _ _ => rfl⟩

theorem Relinked.trans {heap middle result : Heap Data} {items : List Nat}
    (early : Relinked heap middle items) (late : Relinked middle result items) :
    Relinked heap result items :=
  ⟨fun address => (late.data address).trans (early.data address),
    fun address outside => (late.outside address outside).trans (early.outside address outside)⟩

theorem Changed.relinked {heap result : Heap Data} {address : Nat} {node node' : Node Data}
    {items : List Nat} (changed : Changed heap result address node')
    (live : heap address = some node) (same : node'.data = node.data) (member : address ∈ items) :
    Relinked heap result items := by
  constructor
  · intro other
    by_cases here : other = address
    · rw [here, changed.here, live, Option.map_some, Option.map_some, same]
    · rw [changed.elsewhere other here]
  · intro other outside
    apply changed.elsewhere
    rintro rfl
    exact outside member

theorem Linked.nil (heap : Heap Data) : Linked heap none [] :=
  ⟨rfl, List.nodup_nil, by simp⟩

theorem Linked.congr {heap result : Heap Data} {head : Option Nat} {items : List Nat}
    (linked : Linked heap head items) (same : ∀ item ∈ items, result item = heap item) :
    Linked result head items := by
  refine ⟨linked.first, linked.nodup, ?_⟩
  intro before item after split
  obtain ⟨data, cell⟩ := linked.cell before item after split
  exact ⟨data, by rw [same item (by simp [split]), cell]⟩

theorem Linked.live {heap : Heap Data} {head : Option Nat} {items : List Nat}
    (linked : Linked heap head items) {item : Nat} (member : item ∈ items) :
    ∃ node, heap item = some node := by
  obtain ⟨before, after, split⟩ := List.append_of_mem member
  obtain ⟨data, cell⟩ := linked.cell before item after split
  exact ⟨_, cell⟩

theorem Linked.change_data {heap result : Heap Data} {head : Option Nat} {items : List Nat}
    (linked : Linked heap head items) {address : Nat} {node : Node Data} {data : Data}
    (live : heap address = some node)
    (changed : Changed heap result address { node with data := data }) :
    Linked result head items := by
  refine ⟨linked.first, linked.nodup, ?_⟩
  intro before item after split
  obtain ⟨data', cell⟩ := linked.cell before item after split
  by_cases same : item = address
  · subst same
    rw [live, Option.some.injEq] at cell
    exact ⟨data, by rw [changed.here, cell]⟩
  · exact ⟨data', by rw [changed.elsewhere item same, cell]⟩

theorem Linked.cons {heap result : Heap Data} {head : Option Nat} {items : List Nat}
    (linked : Linked heap head items) {item : Nat} {data : Data} (apart : item ∉ items)
    (front : result item = some ⟨none, items.head?, data⟩)
    (second : ∀ first rest, items = first :: rest →
      ∃ data, result first = some ⟨some item, rest.head?, data⟩)
    (others : ∀ other ∈ items.tail, result other = heap other) :
    Linked result (some item) (item :: items) := by
  refine ⟨rfl, List.nodup_cons.mpr ⟨apart, linked.nodup⟩, ?_⟩
  intro before other after split
  cases before with
  | nil =>
      obtain ⟨rfl, rfl⟩ := List.cons.inj split
      exact ⟨data, front⟩
  | cons skipped before =>
      obtain ⟨rfl, behind⟩ := List.cons.inj split
      cases before with
      | nil =>
          obtain ⟨data', cell⟩ := second other after behind
          exact ⟨data', cell⟩
      | cons head' before =>
          obtain ⟨data', cell⟩ := linked.cell (head' :: before) other after behind
          refine ⟨data', ?_⟩
          rw [others other (by simp [behind]), cell]
          simp [List.getLast?_cons]

theorem Linked.pushFront {heap : Heap Data} {head : Option Nat} {items : List Nat}
    (linked : Linked heap head items) {item : Nat} {data : Data} (apart : item ∉ items)
    (live : heap item = some ⟨none, none, data⟩) :
    ∃ result, LinkedList.pushFront heap head item = some (result, some item) ∧
      Linked result (some item) (item :: items) ∧ Relinked heap result (item :: items) := by
  cases items with
  | nil =>
      have empty : head = none := linked.first
      refine ⟨heap, by simp [LinkedList.pushFront, empty], ?_, .refl _ _⟩
      exact linked.cons apart live (by simp) (by simp)
  | cons first rest =>
      have start : head = some first := linked.first
      obtain ⟨firstData, firstCell⟩ := linked.cell [] first rest rfl
      have different : first ≠ item := fun same => apart (by simp [same])
      obtain ⟨middle, made, changed⟩ := change_spec live fun node => { node with next := some first }
      have firstCell' := (changed.elsewhere first different).trans firstCell
      obtain ⟨result, made', changed'⟩ :=
        change_spec firstCell' fun node => { node with prev := some item }
      refine ⟨result, ?_, ?_, ?_⟩
      · simp only [LinkedList.pushFront, start, made, made', Option.bind_eq_bind, Option.bind_some]
        rfl
      · apply linked.cons apart
        · rw [changed'.elsewhere item different.symm, changed.here]
          rfl
        · intro other after split
          obtain ⟨rfl, rfl⟩ := List.cons.inj split
          exact ⟨firstData, changed'.here⟩
        · intro other member
          have notFirst : other ≠ first := by
            rintro rfl
            exact (List.nodup_cons.mp linked.nodup).1 member
          have notItem : other ≠ item := by
            rintro rfl
            exact apart (List.mem_cons_of_mem _ member)
          rw [changed'.elsewhere other notFirst, changed.elsewhere other notItem]
      · exact (changed.relinked live rfl (by simp)).trans
          (changed'.relinked firstCell' rfl (by simp))

theorem Linked.remove {heap result : Heap Data} {head : Option Nat} {before after : List Nat}
    {item : Nat} (linked : Linked heap head (before ++ item :: after))
    (left : ∀ init last, before = init ++ [last] →
      ∃ data, result last = some ⟨init.getLast?, after.head?, data⟩)
    (right : ∀ next rest, after = next :: rest →
      ∃ data, result next = some ⟨before.getLast?, rest.head?, data⟩)
    (others : ∀ other ∈ before ++ after, some other ≠ before.getLast? → some other ≠ after.head? →
      result other = heap other) :
    Linked result (before ++ after).head? (before ++ after) := by
  have nodup := linked.nodup
  have whole : (before ++ after).Nodup :=
    nodup.sublist (List.append_sublist_append_left before |>.mpr (List.sublist_cons_self item after))
  refine ⟨rfl, whole, ?_⟩
  intro front other back split
  rcases List.append_eq_append_iff.mp split with ⟨middle, rfl, behind⟩ | ⟨middle, rfl, behind⟩
  · -- the node lies behind the one that went
    cases middle with
    | nil =>
        obtain ⟨data, cell⟩ := right other back (by simpa using behind)
        exact ⟨data, by simpa using cell⟩
    | cons next middle =>
        obtain ⟨data, cell⟩ := linked.cell (before ++ item :: next :: middle) other back
          (by simp [behind])
        subst behind
        have member : other ∈ before ++ (next :: middle ++ other :: back) := by simp
        rw [others other member ?_ ?_, cell]
        · exact ⟨data, by simp [List.getLast?_append, List.getLast?_cons]⟩
        · intro last
          have early := List.mem_of_getLast? last.symm
          exact (List.disjoint_of_nodup_append whole) early (by simp)
        · intro isNext
          obtain rfl : other = next := by simpa using isNext
          have tail := (List.nodup_append.mp whole).2.1
          exact (List.nodup_cons.mp tail).1 (by simp)
  · cases middle with
    | nil =>
        obtain ⟨data, cell⟩ := right other back (by simpa using behind.symm)
        exact ⟨data, by simpa using cell⟩
    | cons same middle =>
        obtain ⟨rfl, rfl⟩ := List.cons.inj behind
        cases middle with
        | nil =>
            obtain ⟨data, cell⟩ := left front other rfl
            exact ⟨data, by simpa using cell⟩
        | cons next middle =>
            obtain ⟨data, cell⟩ := linked.cell front other (next :: middle ++ item :: after) (by simp)
            have member : other ∈ front ++ other :: next :: middle ++ after := by simp
            have distinct : (other :: (next :: middle ++ after)).Nodup := by
              have tail := (List.nodup_append.mp (by simpa using whole :
                (front ++ (other :: next :: middle ++ after)).Nodup)).2.1
              exact tail
            rw [others other member ?_ ?_, cell]
            · exact ⟨data, by simp⟩
            · intro last
              rw [List.getLast?_append, List.getLast?_cons_cons] at last
              have later : other ∈ next :: middle := List.mem_of_getLast? (by
                simpa [List.getLast?_cons] using last.symm)
              exact (List.nodup_cons.mp distinct).1 (List.mem_append_left _ later)
            · intro isHead
              have later := List.mem_of_mem_head? (Option.mem_def.mpr isHead.symm)
              exact (List.nodup_cons.mp distinct).1 (List.mem_append_right _ later)

theorem Linked.insert {heap result : Heap Data} {head : Option Nat} {before after : List Nat}
    {item : Nat} {data : Data} (linked : Linked heap head (before ++ after))
    (apart : item ∉ before ++ after)
    (here : result item = some ⟨before.getLast?, after.head?, data⟩)
    (left : ∀ init last, before = init ++ [last] →
      ∃ data, result last = some ⟨init.getLast?, some item, data⟩)
    (right : ∀ next rest, after = next :: rest →
      ∃ data, result next = some ⟨some item, rest.head?, data⟩)
    (others : ∀ other ∈ before ++ after, some other ≠ before.getLast? → some other ≠ after.head? →
      result other = heap other) :
    Linked result (before ++ item :: after).head? (before ++ item :: after) := by
  have nodup := linked.nodup
  have whole : (before ++ item :: after).Nodup := by
    rw [List.nodup_middle]
    exact List.nodup_cons.mpr ⟨apart, nodup⟩
  refine ⟨rfl, whole, ?_⟩
  intro front other back split
  rcases List.append_eq_append_iff.mp split with ⟨middle, rfl, behind⟩ | ⟨middle, rfl, behind⟩
  · cases middle with
    | nil =>
        obtain ⟨rfl, rfl⟩ := List.cons.inj (by simpa using behind)
        exact ⟨data, by simpa using here⟩
    | cons same middle =>
        -- the node lies behind the new one
        obtain ⟨rfl, rfl⟩ := List.cons.inj behind
        cases middle with
        | nil =>
            obtain ⟨data', cell⟩ := right other back rfl
            exact ⟨data', by simpa using cell⟩
        | cons next middle =>
            obtain ⟨data', cell⟩ := linked.cell (before ++ next :: middle) other back (by simp)
            refine ⟨data', ?_⟩
            rw [others other (by simp) ?_ ?_, cell]
            · simp [List.getLast?_append, List.getLast?_cons]
            · intro last
              exact List.disjoint_of_nodup_append nodup (List.mem_of_getLast? last.symm) (by simp)
            · intro isNext
              obtain rfl : other = next := by simpa using isNext
              have tail := (List.nodup_append.mp nodup).2.1
              exact (List.nodup_cons.mp tail).1 (by simp)
  · cases middle with
    | nil =>
        obtain ⟨rfl, rfl⟩ := List.cons.inj (by simpa using behind)
        exact ⟨data, by simpa using here⟩
    | cons same middle =>
        obtain ⟨rfl, rfl⟩ := List.cons.inj behind
        cases middle with
        | nil =>
            obtain ⟨data', cell⟩ := left front other rfl
            exact ⟨data', by simpa using cell⟩
        | cons next middle =>
            obtain ⟨data', cell⟩ := linked.cell front other (next :: middle ++ after) (by simp)
            have distinct : (other :: (next :: middle ++ after)).Nodup :=
              (List.nodup_append.mp (by simpa using nodup :
                (front ++ (other :: next :: middle ++ after)).Nodup)).2.1
            refine ⟨data', ?_⟩
            rw [others other (by simp) ?_ ?_, cell]
            · simp
            · intro last
              rw [List.getLast?_append, List.getLast?_cons_cons] at last
              have later : other ∈ next :: middle := List.mem_of_getLast? (by
                simpa [List.getLast?_cons] using last.symm)
              exact (List.nodup_cons.mp distinct).1 (List.mem_append_left _ later)
            · intro isHead
              have later := List.mem_of_mem_head? (Option.mem_def.mpr isHead.symm)
              exact (List.nodup_cons.mp distinct).1 (List.mem_append_right _ later)

theorem Linked.visits_from {heap : Heap Data} {head : Option Nat} {before after : List Nat}
    (linked : Linked heap head (before ++ after)) : Visits heap Node.next after.head? after := by
  induction after generalizing before with
  | nil => rfl
  | cons item after ih =>
      obtain ⟨data, cell⟩ := linked.cell before item after rfl
      have later : Linked heap head (before ++ [item] ++ after) := by simpa using linked
      exact ⟨rfl, _, cell, ih later⟩

theorem Linked.visits_back {heap : Heap Data} {head : Option Nat} {before after : List Nat}
    (linked : Linked heap head (before ++ after)) :
    Visits heap Node.prev before.getLast? before.reverse := by
  induction before using List.reverseRecOn generalizing after with
  | nil => rfl
  | append_singleton before item ih =>
      obtain ⟨data, cell⟩ := linked.cell before item after (by simp)
      rw [List.reverse_append, List.getLast?_append, List.getLast?_singleton]
      have earlier : Linked heap head (before ++ item :: after) := by simpa using linked
      exact ⟨rfl, _, cell, ih earlier⟩

theorem Linked.next_cell {heap : Heap Data} {head : Option Nat} {before rest : List Nat}
    {item next : Nat} (linked : Linked heap head (before ++ item :: next :: rest)) :
    ∃ data, heap next = some ⟨some item, rest.head?, data⟩ := by
  obtain ⟨data, cell⟩ := linked.cell (before ++ [item]) next rest (by simp)
  exact ⟨data, by simpa using cell⟩

theorem Linked.next_prev {heap : Heap Data} {head : Option Nat} {items : List Nat}
    (linked : Linked heap head items) {item next : Nat} {node : Node Data} (member : item ∈ items)
    (live : heap item = some node) (points : node.next = some next) :
    ∃ node', heap next = some node' ∧ node'.prev = some item := by
  obtain ⟨before, after, rfl⟩ := List.append_of_mem member
  obtain ⟨data, cell⟩ := linked.cell before item after rfl
  rw [live, Option.some.injEq] at cell
  rw [cell] at points
  obtain ⟨rest, rfl⟩ := List.head?_eq_some_iff.mp points
  obtain ⟨data', cell'⟩ := linked.next_cell
  exact ⟨_, cell', rfl⟩

theorem Linked.prev_next {heap : Heap Data} {head : Option Nat} {items : List Nat}
    (linked : Linked heap head items) {item prev : Nat} {node : Node Data} (member : item ∈ items)
    (live : heap item = some node) (points : node.prev = some prev) :
    ∃ node', heap prev = some node' ∧ node'.next = some item := by
  obtain ⟨before, after, rfl⟩ := List.append_of_mem member
  obtain ⟨data, cell⟩ := linked.cell before item after rfl
  rw [live, Option.some.injEq] at cell
  rw [cell] at points
  obtain ⟨init, rfl⟩ := List.getLast?_eq_some_iff.mp points
  obtain ⟨data', cell'⟩ := linked.cell init prev (item :: after) (by simp)
  exact ⟨_, cell', rfl⟩

theorem Linked.unlink_first {heap : Heap Data} {head : Option Nat} {after : List Nat} {item : Nat}
    (linked : Linked heap head (item :: after)) :
    ∃ result, LinkedList.unlink heap head item = some (result, after.head?) ∧
      Linked result after.head? after ∧ Relinked heap result after := by
  obtain ⟨itemData, itemCell⟩ := linked.cell [] item after rfl
  have isHead : head = some item := linked.first
  cases after with
  | nil =>
      refine ⟨heap, ?_, .nil heap, .refl _ _⟩
      simp [LinkedList.unlink, itemCell, isHead]
  | cons next rest =>
      have linked' : Linked heap head ([] ++ item :: next :: rest) := linked
      obtain ⟨nextData, cell⟩ := linked'.next_cell
      obtain ⟨result, made, changed⟩ := change_spec cell fun node => { node with prev := none }
      refine ⟨result, ?_, ?_, changed.relinked cell rfl (by simp)⟩
      · simp only [LinkedList.unlink, itemCell, isHead, Option.bind_eq_bind, Option.bind_some,
          if_true, List.head?_cons, made]
        rfl
      · refine linked'.remove (by simp) ?_ ?_
        · intro next' rest' split
          obtain ⟨rfl, rfl⟩ := List.cons.inj split
          exact ⟨nextData, changed.here⟩
        · intro other _ _ notNext
          exact changed.elsewhere other (by simpa using notNext)

theorem Linked.unlink_later {heap : Heap Data} {head : Option Nat} {init after : List Nat}
    {last item : Nat} (linked : Linked heap head (init ++ [last] ++ item :: after)) :
    ∃ result, LinkedList.unlink heap head item = some (result, (init ++ [last] ++ after).head?) ∧
      Linked result (init ++ [last] ++ after).head? (init ++ [last] ++ after) ∧
      Relinked heap result (init ++ [last] ++ after) := by
  obtain ⟨itemData, itemCell⟩ := linked.cell (init ++ [last]) item after rfl
  have nodup := linked.nodup
  have whole := nodup.sublist
    ((List.append_sublist_append_left (init ++ [last])).mpr (List.sublist_cons_self item after))
  have notHead : head ≠ some item := by
    intro isHead
    have first := linked.first.symm.trans isHead
    have early : item ∈ init ++ [last] := by
      cases init with
      | nil => simpa using Option.some.inj first.symm
      | cons front init => simp [Option.some.inj first.symm]
    exact (List.disjoint_of_nodup_append nodup) early (by simp)
  have itemCell' : heap item = some ⟨some last, after.head?, itemData⟩ := by
    simpa using itemCell
  have sameHead : head = (init ++ [last] ++ after).head? := by
    rw [linked.first]
    cases init <;> simp
  obtain ⟨lastData, lastCell⟩ := linked.cell init last (item :: after) (by simp)
  obtain ⟨middle, made, changed⟩ :=
    change_spec lastCell fun other => { other with next := after.head? }
  have left (result : Heap Data) (kept : result last = middle last) (init' : List Nat)
      (last' : Nat) (split : init ++ [last] = init' ++ [last']) :
      ∃ data, result last' = some ⟨init'.getLast?, after.head?, data⟩ := by
    obtain ⟨rfl, rfl⟩ : init = init' ∧ last = last' := by simpa using split
    exact ⟨lastData, kept.trans changed.here⟩
  cases after with
  | nil =>
      refine ⟨middle, ?_, ?_, changed.relinked lastCell rfl (by simp)⟩
      · rw [← sameHead]
        simp only [LinkedList.unlink, itemCell', notHead, Option.bind_eq_bind, Option.bind_some,
          if_false, made]
        rfl
      · refine linked.remove (left middle rfl) (by simp) ?_
        intro other _ notLast _
        exact changed.elsewhere other (by simpa using notLast)
  | cons next rest =>
      have notLast : next ≠ last := by
        rintro rfl
        exact List.disjoint_of_nodup_append whole (by simp) (List.mem_cons_self ..)
      obtain ⟨nextData, cell⟩ := linked.next_cell
      have cell' := (changed.elsewhere next notLast).trans cell
      obtain ⟨result, made', changed'⟩ :=
        change_spec cell' fun other => { other with prev := some last }
      refine ⟨result, ?_, ?_, (changed.relinked lastCell rfl (by simp)).trans
        (changed'.relinked cell' rfl (by simp))⟩
      · rw [← sameHead]
        simp only [List.head?_cons] at itemCell' made
        simp only [LinkedList.unlink, itemCell', notHead, Option.bind_eq_bind, Option.bind_some,
          if_false, made, made']
        rfl
      · refine linked.remove (left result (changed'.elsewhere last notLast.symm)) ?_ ?_
        · intro next' rest' split
          obtain ⟨rfl, rfl⟩ := List.cons.inj split
          exact ⟨nextData, by simpa using changed'.here⟩
        · intro other _ notLast' notNext
          rw [changed'.elsewhere other (by simpa using notNext),
            changed.elsewhere other (by simpa using notLast')]

theorem Linked.unlink {heap : Heap Data} {head : Option Nat} {before after : List Nat} {item : Nat}
    (linked : Linked heap head (before ++ item :: after)) :
    ∃ result, LinkedList.unlink heap head item = some (result, (before ++ after).head?) ∧
      Linked result (before ++ after).head? (before ++ after) ∧
      Relinked heap result (before ++ after) := by
  have ends : before = [] ∨ ∃ init last, before = init ++ [last] := by
    simpa only [List.concat_eq_append] using List.eq_nil_or_concat before
  rcases ends with rfl | ⟨init, last, rfl⟩
  · exact linked.unlink_first
  · exact linked.unlink_later

end Lists

end StudyRecord.LinkedList
