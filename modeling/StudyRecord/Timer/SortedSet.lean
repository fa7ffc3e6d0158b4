import StudyRecord.Timer.SortedList
import Mathlib.Data.List.Sort

/-!
The timer list as a sorted set. Each operation is described on the sequence of the
addresses in the list; the links, both ends and the order follow the sequence.
-/

namespace StudyRecord.SortedList

open LinkedList Runs

section Shape

variable {F T : Type}

def expireOf (heap : Heap (UtilTimer F T)) (timer : Nat) : Int :=
  (heap timer).elim 0 fun node => node.data.absoluteExpire

structure Shape (list : TimerList F T) (items : List Nat) : Prop where
  linked : Linked list.heap list.head items
  tail : list.tail = items.getLast?

theorem expireOf_relinked {heap result : Heap (UtilTimer F T)} {items : List Nat}
    (relinked : Relinked heap result items) (timer : Nat) :
    expireOf result timer = expireOf heap timer := by
  have same := relinked.data timer
  simp only [expireOf]
  cases found : heap timer <;> cases found' : result timer <;>
    simp only [found, found', Option.map_none, Option.map_some, reduceCtorEq,
      Option.some.injEq] at same
  · rfl
  · simp only [Option.elim_some, same]

theorem firstAbove_spec {heap : Heap (UtilTimer F T)} {head : Option Nat} {before after : List Nat}
    (linked : Linked heap head (before ++ after)) (expire : Int) (fuel : Nat)
    (enough : after.length ≤ fuel) :
    TimerList.firstAbove heap expire fuel after.head? =
      some (after.dropWhile fun timer => expireOf heap timer < expire).head? := by
  induction after generalizing before fuel with
  | nil => cases fuel <;> rfl
  | cons timer after ih =>
      cases fuel with
      | zero => simp at enough
      | succ fuel =>
          obtain ⟨data, cell⟩ := linked.cell before timer after rfl
          have here : expireOf heap timer = data.absoluteExpire := by simp [expireOf, cell]
          have later : Linked heap head (before ++ [timer] ++ after) := by simpa using linked
          simp only [List.head?_cons, TimerList.firstAbove, cell, Option.bind_eq_bind,
            Option.bind_some]
          by_cases below : data.absoluteExpire < expire
          · rw [if_pos below, List.dropWhile_cons_of_pos (by simpa [here] using below)]
            exact ih later fuel (by simpa using enough)
          · rw [if_neg below, List.dropWhile_cons_of_neg (by simpa [here] using below)]
            rfl

structure Between (heap result : Heap (UtilTimer F T)) (before after : List Nat) (timer : Nat) :
    Prop where
  linked : Linked result (before ++ timer :: after).head? (before ++ timer :: after)
  relinked : Relinked heap result (before ++ timer :: after)

theorem insert_front {list : TimerList F T} {first : Nat} {rest : List Nat} {timer : Nat}
    {node : Node (UtilTimer F T)} (shape : Shape list (first :: rest))
    (apart : timer ∉ first :: rest) (live : list.heap timer = some node) :
    ∃ heap₁ heap₂ heap₃,
      change list.heap first (fun node => { node with prev := some timer }) = some heap₁ ∧
      change heap₁ timer (fun node => { node with next := some first }) = some heap₂ ∧
      change heap₂ timer (fun node => { node with prev := none }) = some heap₃ ∧
      Between list.heap heap₃ [] (first :: rest) timer := by
  obtain ⟨firstData, firstCell⟩ := shape.linked.cell [] first rest rfl
  have different : timer ≠ first := fun same => apart (by simp [same])
  obtain ⟨heap₁, made₁, changed₁⟩ := change_spec firstCell fun node => { node with prev := some timer }
  have live₁ := (changed₁.elsewhere timer different).trans live
  obtain ⟨heap₂, made₂, changed₂⟩ := change_spec live₁ fun node => { node with next := some first }
  obtain ⟨heap₃, made₃, changed₃⟩ := change_spec changed₂.here fun node => { node with prev := none }
  have outside (other : Nat) (notTimer : other ≠ timer) : heap₃ other = heap₁ other := by
    rw [changed₃.elsewhere other notTimer, changed₂.elsewhere other notTimer]
  refine ⟨heap₁, heap₂, heap₃, made₁, made₂, made₃, ?_, ?_⟩
  · have linked : Linked list.heap list.head ([] ++ first :: rest) := shape.linked
    refine linked.insert apart changed₃.here (by simp) ?_ ?_
    · intro next rest' split
      obtain ⟨rfl, rfl⟩ := List.cons.inj split
      exact ⟨firstData, by rw [outside first different.symm, changed₁.here]⟩
    · intro other member _ notFirst
      have notTimer : other ≠ timer := by
        rintro rfl
        exact apart member
      rw [outside other notTimer, changed₁.elsewhere other (by simpa using notFirst)]
  · exact ((changed₁.relinked firstCell rfl (by simp)).trans
      (changed₂.relinked live₁ rfl (by simp))).trans
      (changed₃.relinked changed₂.here rfl (by simp))

theorem insert_middle {list : TimerList F T} {init rest : List Nat} {pre above timer : Nat}
    {node : Node (UtilTimer F T)} (shape : Shape list (init ++ [pre] ++ above :: rest))
    (apart : timer ∉ init ++ [pre] ++ above :: rest) (live : list.heap timer = some node) :
    ∃ aboveNode heap₁ heap₂ heap₃ heap₄,
      list.heap above = some aboveNode ∧ aboveNode.prev = some pre ∧
      change list.heap pre (fun node => { node with next := some timer }) = some heap₁ ∧
      change heap₁ timer (fun node => { node with next := some above }) = some heap₂ ∧
      change heap₂ above (fun node => { node with prev := some timer }) = some heap₃ ∧
      change heap₃ timer (fun node => { node with prev := some pre }) = some heap₄ ∧
      Between list.heap heap₄ (init ++ [pre]) (above :: rest) timer := by
  have nodup := shape.linked.nodup
  obtain ⟨aboveData, aboveCell⟩ := shape.linked.cell (init ++ [pre]) above rest rfl
  obtain ⟨preData, preCell⟩ := shape.linked.cell init pre (above :: rest) (by simp)
  have notPre : timer ≠ pre := fun same => apart (by simp [same])
  have notAbove : timer ≠ above := fun same => apart (by simp [same])
  have different : above ≠ pre := by
    rintro rfl
    exact List.disjoint_of_nodup_append nodup (by simp) (List.mem_cons_self ..)
  obtain ⟨heap₁, made₁, changed₁⟩ := change_spec preCell fun node => { node with next := some timer }
  have live₁ := (changed₁.elsewhere timer notPre).trans live
  obtain ⟨heap₂, made₂, changed₂⟩ := change_spec live₁ fun node => { node with next := some above }
  have aboveCell₂ : heap₂ above = some ⟨some pre, rest.head?, aboveData⟩ := by
    rw [changed₂.elsewhere above notAbove.symm, changed₁.elsewhere above different, aboveCell]
    simp
  obtain ⟨heap₃, made₃, changed₃⟩ :=
    change_spec aboveCell₂ fun node => { node with prev := some timer }
  have live₃ := (changed₃.elsewhere timer notAbove).trans changed₂.here
  obtain ⟨heap₄, made₄, changed₄⟩ := change_spec live₃ fun node => { node with prev := some pre }
  refine ⟨⟨some pre, rest.head?, aboveData⟩, heap₁, heap₂, heap₃, heap₄, by simpa using aboveCell,
    rfl, made₁, made₂, made₃, made₄, ?_, ?_⟩
  · refine shape.linked.insert apart (by simpa using changed₄.here) ?_ ?_ ?_
    · intro init' last split
      obtain ⟨rfl, rfl⟩ : init = init' ∧ pre = last := by simpa using split
      refine ⟨preData, ?_⟩
      rw [changed₄.elsewhere pre notPre.symm, changed₃.elsewhere pre different.symm,
        changed₂.elsewhere pre notPre.symm, changed₁.here]
    · intro next rest' split
      obtain ⟨rfl, rfl⟩ := List.cons.inj split
      exact ⟨aboveData, by rw [changed₄.elsewhere above notAbove.symm, changed₃.here]⟩
    · intro other member notLast notNext
      have notTimer : other ≠ timer := by
        rintro rfl
        exact apart member
      rw [changed₄.elsewhere other notTimer, changed₃.elsewhere other (by simpa using notNext),
        changed₂.elsewhere other notTimer, changed₁.elsewhere other (by simpa using notLast)]
  · exact (((changed₁.relinked preCell rfl (by simp)).trans
      (changed₂.relinked live₁ rfl (by simp))).trans
      (changed₃.relinked aboveCell₂ rfl (by simp))).trans
      (changed₄.relinked live₃ rfl (by simp))

theorem insert_back {list : TimerList F T} {init : List Nat} {last timer : Nat}
    {node : Node (UtilTimer F T)} (shape : Shape list (init ++ [last]))
    (apart : timer ∉ init ++ [last]) (live : list.heap timer = some node) :
    ∃ heap₁ heap₂ heap₃,
      change list.heap last (fun node => { node with next := some timer }) = some heap₁ ∧
      change heap₁ timer (fun node => { node with prev := some last }) = some heap₂ ∧
      change heap₂ timer (fun node => { node with next := none }) = some heap₃ ∧
      Between list.heap heap₃ (init ++ [last]) [] timer := by
  obtain ⟨lastData, lastCell⟩ := shape.linked.cell init last [] rfl
  have different : timer ≠ last := fun same => apart (by simp [same])
  obtain ⟨heap₁, made₁, changed₁⟩ := change_spec lastCell fun node => { node with next := some timer }
  have live₁ := (changed₁.elsewhere timer different).trans live
  obtain ⟨heap₂, made₂, changed₂⟩ := change_spec live₁ fun node => { node with prev := some last }
  obtain ⟨heap₃, made₃, changed₃⟩ := change_spec changed₂.here fun node => { node with next := none }
  have outside (other : Nat) (notTimer : other ≠ timer) : heap₃ other = heap₁ other := by
    rw [changed₃.elsewhere other notTimer, changed₂.elsewhere other notTimer]
  refine ⟨heap₁, heap₂, heap₃, made₁, made₂, made₃, ?_, ?_⟩
  · have linked : Linked list.heap list.head (init ++ [last] ++ []) := by simpa using shape.linked
    refine linked.insert (by simpa using apart) (by simpa using changed₃.here) ?_ (by simp) ?_
    · intro init' last' split
      obtain ⟨rfl, rfl⟩ : init = init' ∧ last = last' := by simpa using split
      exact ⟨lastData, by rw [outside last different.symm, changed₁.here]⟩
    · intro other member notLast _
      have notTimer : other ≠ timer := by
        rintro rfl
        exact apart (by simpa using member)
      rw [outside other notTimer, changed₁.elsewhere other (by simpa using notLast)]
  · exact ((changed₁.relinked lastCell rfl (by simp)).trans
      (changed₂.relinked live₁ rfl (by simp))).trans
      (changed₃.relinked changed₂.here rfl (by simp))

structure Same (list result : TimerList F T) (items : List Nat) : Prop where
  relinked : Relinked list.heap result.heap items
  allocated : result.allocated = list.allocated

def placed (heap : Heap (UtilTimer F T)) (expire : Int) (timer : Nat) (items : List Nat) :
    List Nat :=
  items.takeWhile (fun other => expireOf heap other < expire) ++
    timer :: items.dropWhile (fun other => expireOf heap other < expire)

theorem addTimer_spec {list : TimerList F T} {items : List Nat} {timer : Nat}
    {node : Node (UtilTimer F T)} (shape : Shape list items) (apart : timer ∉ items)
    (live : list.heap timer = some node)
    (single : items = [] → node.prev = none ∧ node.next = none)
    (enough : items.length ≤ list.allocated) :
    ∃ result, list.addTimer (some timer) = some result ∧
      Shape result (placed list.heap node.data.absoluteExpire timer items) ∧
      Same list result (placed list.heap node.data.absoluteExpire timer items) := by
  cases items with
  | nil =>
      have empty : list.head = none := shape.linked.first
      obtain ⟨noPrev, noNext⟩ := single rfl
      have cell : list.heap timer = some ⟨none, none, node.data⟩ := by
        obtain ⟨prev, next, data⟩ := node
        simp only at noPrev noNext
        rw [live, noPrev, noNext]
      refine ⟨{ list with head := some timer, tail := some timer }, ?_, ⟨?_, rfl⟩, .refl _ _, rfl⟩
      · simp only [TimerList.addTimer, empty]
      · exact (Linked.nil list.heap).cons (by simp) cell (by simp) (by simp)
  | cons first rest =>
      have start : list.head = some first := shape.linked.first
      obtain ⟨firstData, firstCell⟩ := shape.linked.cell [] first rest rfl
      have here : expireOf list.heap first = firstData.absoluteExpire := by
        simp [expireOf, firstCell]
      by_cases above : firstData.absoluteExpire ≥ node.data.absoluteExpire
      · have notBelow : ¬expireOf list.heap first < node.data.absoluteExpire := by omega
        obtain ⟨heap₁, heap₂, heap₃, made₁, made₂, made₃, between⟩ :=
          insert_front shape apart live
        have place : placed list.heap node.data.absoluteExpire timer (first :: rest) =
            [] ++ timer :: first :: rest := by
          simp [placed, notBelow]
        rw [place]
        refine ⟨{ list with heap := heap₃, head := some timer }, ?_, ⟨between.linked, ?_⟩,
          between.relinked, rfl⟩
        · simp only [TimerList.addTimer, start, firstCell, live, Option.bind_eq_bind,
            Option.bind_some, if_pos above, made₁, made₂, made₃]
          rfl
        · rw [shape.tail, List.nil_append, List.getLast?_cons_cons]
      · have below : expireOf list.heap first < node.data.absoluteExpire := by omega
        have linked : Linked list.heap list.head ([] ++ first :: rest) := shape.linked
        have found := firstAbove_spec linked node.data.absoluteExpire list.allocated enough
        rw [List.head?_cons] at found
        have parts : (first :: rest).takeWhile
              (fun other => decide (expireOf list.heap other < node.data.absoluteExpire)) ++
            (first :: rest).dropWhile
              (fun other => decide (expireOf list.heap other < node.data.absoluteExpire)) =
            first :: rest := List.takeWhile_append_dropWhile
        have nonempty : (first :: rest).takeWhile
            (fun other => decide (expireOf list.heap other < node.data.absoluteExpire)) ≠ [] := by
          rw [List.takeWhile_cons_of_pos (by simpa using below)]
          simp
        simp only [placed]
        generalize (first :: rest).takeWhile _ = before at parts nonempty ⊢
        generalize (first :: rest).dropWhile _ = after at parts found ⊢
        obtain ⟨init, last, rfl⟩ : ∃ init last, before = init ++ [last] := by
          rcases List.eq_nil_or_concat before with empty | ends
          · exact absurd empty nonempty
          · simpa only [List.concat_eq_append] using ends
        have keepsHead (result : Option Nat) (next : List Nat)
            (same : result = (init ++ [last] ++ next).head?) : list.head = result := by
          have front := congrArg List.head? parts
          rw [start, same]
          cases init <;> simpa using front.symm
        rw [← parts] at shape apart
        cases after with
        | nil =>
            rw [List.append_nil] at shape apart
            obtain ⟨heap₁, heap₂, heap₃, made₁, made₂, made₃, between⟩ :=
              insert_back shape apart live
            have tail : list.tail = some last := by simpa using shape.tail
            refine ⟨{ list with heap := heap₃, tail := some timer }, ?_, ⟨?_, by simp⟩,
              between.relinked, rfl⟩
            · simp only [TimerList.addTimer, start, firstCell, live, Option.bind_eq_bind,
                Option.bind_some, if_neg above, found, List.head?_nil, tail, made₁, made₂, made₃]
              rfl
            · rw [keepsHead _ [timer] rfl]
              exact between.linked
        | cons next after =>
            obtain ⟨nextNode, heap₁, heap₂, heap₃, heap₄, nextCell, prev, made₁, made₂, made₃, made₄,
              between⟩ := insert_middle shape apart live
            refine ⟨{ list with heap := heap₄ }, ?_, ⟨?_, ?_⟩, between.relinked, rfl⟩
            · simp only [TimerList.addTimer, start, firstCell, live, Option.bind_eq_bind,
                Option.bind_some, if_neg above, found, List.head?_cons, nextCell, prev, made₁, made₂,
                made₃, made₄]
              rfl
            · rw [keepsHead _ (timer :: next :: after) rfl]
              exact between.linked
            · rw [shape.tail]
              simp [List.getLast?_append, List.getLast?_cons_cons]

theorem notLast_of_nodup {before after : List Nat} {timer next : Nat}
    (nodup : (before ++ timer :: next :: after).Nodup) :
    (before ++ timer :: next :: after).getLast? ≠ some timer := by
  intro last
  have tail := (List.nodup_append.mp nodup).2.1
  rw [List.getLast?_append, List.getLast?_cons_cons] at last
  have later : timer ∈ next :: after := List.mem_of_getLast? (by
    simpa [List.getLast?_cons] using last)
  exact (List.nodup_cons.mp tail).1 later

theorem delTimerSup_spec {list : TimerList F T} {before after : List Nat} {timer : Nat}
    (shape : Shape list (before ++ timer :: after)) :
    ∃ result, list.delTimerSup (some timer) = some result ∧ Shape result (before ++ after) ∧
      Same list result (before ++ after) := by
  have nodup := shape.linked.nodup
  obtain ⟨data, cell⟩ := shape.linked.cell before timer after rfl
  obtain ⟨heap, removed, linked, relinked⟩ := shape.linked.unlink
  refine ⟨{ list with heap, head := (before ++ after).head?, tail := (before ++ after).getLast? },
    ?_, ⟨linked, rfl⟩, relinked, rfl⟩
  simp only [unlink, cell, Option.bind_eq_bind, Option.bind_some] at removed
  have first := shape.linked.first
  have last := shape.tail
  rcases List.eq_nil_or_concat before with rfl | ⟨init, pre, rfl⟩
  · simp only [List.nil_append, List.head?_cons] at first last removed ⊢
    rw [if_pos first] at removed
    cases after with
    | nil =>
        simp only [List.head?_nil] at removed
        obtain ⟨rfl, _⟩ := Prod.mk.inj (Option.some.inj removed)
        have same : list.head = list.tail := by rw [first, last]; rfl
        simp only [TimerList.delTimerSup, if_pos first, if_pos same]
        rfl
    | cons next rest =>
        have notLast : list.tail ≠ some timer := by
          have nodup' : ([] ++ timer :: next :: rest).Nodup := nodup
          rw [last]
          exact notLast_of_nodup nodup'
        have different : list.head ≠ list.tail := by
          rw [first]
          exact notLast.symm
        simp only [List.head?_cons, Option.bind_eq_some_iff] at removed
        obtain ⟨heap', made, same⟩ := removed
        obtain ⟨rfl, _⟩ := Prod.mk.inj (Option.some.inj same)
        simp only [TimerList.delTimerSup, if_pos first, if_neg different, cell, List.head?_cons,
          Option.bind_eq_bind, Option.bind_some, made]
        rw [List.getLast?_cons_cons] at last
        rw [← last]
        rfl
  · rw [List.concat_eq_append] at nodup cell first last removed ⊢
    have notFirst : list.head ≠ some timer := by
      rw [first]
      intro isFirst
      have early : timer ∈ init ++ [pre] := by
        cases init with
        | nil => simpa using isFirst.symm
        | cons front init => simp [Option.some.inj isFirst]
      exact List.disjoint_of_nodup_append nodup early (by simp)
    have stays : list.head = (init ++ [pre] ++ after).head? := by
      rw [first]
      cases init <;> simp
    have before : (init ++ [pre]).getLast? = some pre := by simp
    rw [before] at cell
    simp only [if_neg notFirst, before, Option.bind_some, Option.bind_eq_some_iff] at removed
    obtain ⟨heap', made, removed⟩ := removed
    cases after with
    | nil =>
        simp only [List.head?_nil] at cell made removed
        obtain ⟨rfl, _⟩ := Prod.mk.inj (Option.some.inj removed)
        have isLast : list.tail = some timer := by rw [last]; simp
        simp only [TimerList.delTimerSup, if_neg notFirst, if_pos isLast, cell,
          Option.bind_eq_bind, Option.bind_some, made]
        rw [← stays, List.append_nil, before]
        rfl
    | cons next rest =>
        have notLast : list.tail ≠ some timer := by
          rw [last]
          exact notLast_of_nodup nodup
        simp only [List.head?_cons, Option.bind_eq_some_iff] at cell made removed
        obtain ⟨heap'', made', removed⟩ := removed
        obtain ⟨rfl, _⟩ := Prod.mk.inj (Option.some.inj removed)
        simp only [TimerList.delTimerSup, if_neg notFirst, if_neg notLast, cell,
          Option.bind_eq_bind, Option.bind_some, made, made']
        rw [List.getLast?_append, List.getLast?_cons_cons, ← List.getLast?_append] at last
        rw [← stays, ← last]
        rfl

end Shape

section Contents

variable {F T : Type}

abbrev Timers (F T : Type) := Nat → Option (UtilTimer F T)

def contents (list : TimerList F T) : Timers F T := fun timer => (list.heap timer).map Node.data

/-- What an operation is for: timers come, go, change their expiry, and go when they have expired. -/
def Op.on (timers : Timers F T) : Op F T → Timers F T
  | .add timer data => Function.update timers timer (some data)
  | .del timer => Function.update timers timer none
  | .adjust timer expire =>
      Function.update timers timer
        ((timers timer).map fun data => { data with absoluteExpire := expire })
  | .tick cur => fun timer => (timers timer).filter fun data => cur < data.absoluteExpire

structure Holds (list : TimerList F T) (items : List Nat) : Prop where
  shape : Shape list items
  live : ∀ timer, timer ∈ items ↔ list.heap timer ≠ none
  enough : items.length ≤ list.allocated
  sorted : items.Pairwise fun first second =>
    expireOf list.heap first ≤ expireOf list.heap second

theorem contents_relinked {list result : TimerList F T} {items : List Nat}
    (same : Same list result items) : contents result = contents list :=
  funext same.relinked.data

theorem placed_eq {heap : Heap (UtilTimer F T)} {timer : Nat} {node : Node (UtilTimer F T)}
    (live : heap timer = some node) (items : List Nat) :
    placed heap node.data.absoluteExpire timer items =
      items.orderedInsert (fun first second => expireOf heap first ≤ expireOf heap second) timer := by
  have here : expireOf heap timer = node.data.absoluteExpire := by simp [expireOf, live]
  rw [List.orderedInsert_eq_take_drop, placed]
  simp only [here, Int.not_le]

theorem placed_sorted {heap : Heap (UtilTimer F T)} {timer : Nat} {node : Node (UtilTimer F T)}
    (live : heap timer = some node) {items : List Nat}
    (sorted : items.Pairwise fun first second => expireOf heap first ≤ expireOf heap second) :
    (placed heap node.data.absoluteExpire timer items).Pairwise fun first second =>
      expireOf heap first ≤ expireOf heap second := by
  have total : Std.Total fun first second => expireOf heap first ≤ expireOf heap second :=
    ⟨fun _ _ => Int.le_total _ _⟩
  have trans : IsTrans Nat fun first second => expireOf heap first ≤ expireOf heap second :=
    ⟨fun _ _ _ => Int.le_trans⟩
  rw [placed_eq live]
  exact sorted.orderedInsert _ _

theorem placed_perm (heap : Heap (UtilTimer F T)) (expire : Int) (timer : Nat) (items : List Nat) :
    (placed heap expire timer items).Perm (timer :: items) := by
  have parts : items.takeWhile (fun other => decide (expireOf heap other < expire)) ++
      items.dropWhile (fun other => decide (expireOf heap other < expire)) = items :=
    List.takeWhile_append_dropWhile
  refine List.perm_middle.trans ?_
  rw [parts]

theorem expireOf_contents {list : TimerList F T} {timer : Nat} {data : UtilTimer F T}
    (here : contents list timer = some data) : expireOf list.heap timer = data.absoluteExpire := by
  obtain ⟨node, found, rfl⟩ := Option.map_eq_some_iff.mp here
  simp [expireOf, found]

theorem live_iff_contents {list : TimerList F T} (timer : Nat) :
    list.heap timer ≠ none ↔ contents list timer ≠ none := by
  simp [contents]

theorem Holds.apart {list : TimerList F T} {before after : List Nat} {timer : Nat}
    (holds : Holds list (before ++ timer :: after)) : timer ∉ before ++ after := by
  have nodup := holds.shape.linked.nodup
  rw [List.nodup_middle] at nodup
  exact (List.nodup_cons.mp nodup).1

theorem insert_holds {list : TimerList F T} {items : List Nat} {timer : Nat}
    {node : Node (UtilTimer F T)} (shape : Shape list items) (found : list.heap timer = some node)
    (single : items = [] → node.prev = none ∧ node.next = none) (apart : timer ∉ items)
    (live : ∀ other, other = timer ∨ other ∈ items ↔ list.heap other ≠ none)
    (enough : items.length + 1 ≤ list.allocated)
    (sorted : items.Pairwise fun first second =>
      expireOf list.heap first ≤ expireOf list.heap second) :
    ∃ result items', list.addTimer (some timer) = some result ∧ Holds result items' ∧
      contents result = contents list := by
  obtain ⟨result, added, shape', same⟩ := addTimer_spec shape apart found single (by omega)
  have perm := placed_perm list.heap node.data.absoluteExpire timer items
  have kept := contents_relinked same
  refine ⟨result, _, added, ⟨shape', ?_, ?_, ?_⟩, kept⟩
  · intro other
    rw [perm.mem_iff, List.mem_cons, live other, live_iff_contents, live_iff_contents, kept]
  · rw [perm.length_eq, same.allocated]
    exact enough
  · refine (placed_sorted found sorted).imp fun {first second} ordered => ?_
    rw [expireOf_relinked same.relinked, expireOf_relinked same.relinked]
    exact ordered

theorem add_spec {list : TimerList F T} {items : List Nat} (holds : Holds list items)
    {timer : Nat} (unused : list.heap timer = none) (data : UtilTimer F T) :
    ∃ result items', (list.newTimer timer data).addTimer (some timer) = some result ∧
      Holds result items' ∧ contents result = Function.update (contents list) timer (some data) := by
  have apart : timer ∉ items := fun member => (holds.live timer).mp member unused
  have others (other : Nat) (member : other ∈ items) :
      (list.newTimer timer data).heap other = list.heap other := by
    refine Function.update_of_ne ?_ _ _
    rintro rfl
    exact apart member
  have shape : Shape (list.newTimer timer data) items :=
    ⟨holds.shape.linked.congr others, holds.shape.tail⟩
  have found : (list.newTimer timer data).heap timer = some ⟨none, none, data⟩ :=
    Function.update_self ..
  obtain ⟨result, items', added, holds', kept⟩ := insert_holds shape found (fun _ => ⟨rfl, rfl⟩) apart
    (fun other => by
      by_cases same : other = timer
      · simp [same, found]
      · have elsewhere : (list.newTimer timer data).heap other = list.heap other :=
          Function.update_of_ne same _ _
        simp [same, elsewhere, holds.live other])
    (by have enough := holds.enough; simp only [TimerList.newTimer]; omega)
    (holds.sorted.imp_of_mem fun {first second} early late ordered => by
      simpa only [expireOf, others first early, others second late] using ordered)
  refine ⟨result, items', added, holds', ?_⟩
  rw [kept]
  funext other
  by_cases same : other = timer
  · subst same
    simp [contents, found]
  · simp [contents, TimerList.newTimer, same]

theorem del_spec {list : TimerList F T} {before after : List Nat} {timer : Nat}
    (holds : Holds list (before ++ timer :: after)) :
    ∃ result, list.delTimer (some timer) = some result ∧ Holds result (before ++ after) ∧
      contents result = Function.update (contents list) timer none ∧
      result.allocated = list.allocated := by
  obtain ⟨middle, removed, shape, same⟩ := delTimerSup_spec holds.shape
  have apart := holds.apart
  have kept := contents_relinked same
  have others (other : Nat) (notTimer : other ≠ timer) :
      (middle.freeTimer (some timer)).heap other = middle.heap other :=
    Function.update_of_ne notTimer _ _
  have notTimer (other : Nat) (member : other ∈ before ++ after) : other ≠ timer := by
    rintro rfl
    exact apart member
  have after' : contents (middle.freeTimer (some timer)) =
      Function.update (contents list) timer none := by
    funext other
    by_cases here : other = timer
    · subst here
      simp [contents, TimerList.freeTimer]
    · rw [Function.update_of_ne here, ← kept]
      simp only [contents, others other here]
  refine ⟨middle.freeTimer (some timer), ?_, ⟨⟨?_, shape.tail⟩, ?_, ?_, ?_⟩, after', same.allocated⟩
  · simp only [TimerList.delTimer, removed, Option.bind_eq_bind, Option.bind_some]
    rfl
  · exact shape.linked.congr fun other member => others other (notTimer other member)
  · intro other
    rw [live_iff_contents, after']
    by_cases here : other = timer
    · subst here
      simp only [Function.update_self, ne_eq, not_true_eq_false, iff_false]
      exact apart
    · rw [Function.update_of_ne here, ← live_iff_contents, ← holds.live other]
      simp [here]
  · have enough := holds.enough
    simp only [TimerList.freeTimer, same.allocated, List.length_append, List.length_cons] at enough ⊢
    omega
  · have rest := holds.sorted.sublist
      ((List.append_sublist_append_left before).mpr (List.sublist_cons_self timer after))
    refine rest.imp_of_mem fun {first second} early late ordered => ?_
    rw [← expireOf_relinked same.relinked, ← expireOf_relinked same.relinked] at ordered
    simpa only [expireOf, others first (notTimer first early),
      others second (notTimer second late)] using ordered

theorem adjust_spec {list : TimerList F T} {before after : List Nat} {timer : Nat}
    (holds : Holds list (before ++ timer :: after)) (expire : Int) :
    ∃ middle result items', list.setExpire timer expire = some middle ∧
      middle.adjustTimer (some timer) = some result ∧ Holds result items' ∧
      contents result = Function.update (contents list) timer
        ((contents list timer).map fun data => { data with absoluteExpire := expire }) := by
  obtain ⟨data, cell⟩ := holds.shape.linked.cell before timer after rfl
  obtain ⟨heap, made, changed⟩ := change_spec cell fun node =>
    { node with data := { node.data with absoluteExpire := expire } }
  have shape : Shape { list with heap } (before ++ timer :: after) :=
    ⟨holds.shape.linked.change_data cell changed, holds.shape.tail⟩
  obtain ⟨middle, removed, shape', same⟩ := delTimerSup_spec shape
  have apart := holds.apart
  have found : middle.heap timer = some ⟨before.getLast?, after.head?, { data with absoluteExpire := expire }⟩ :=
    (same.relinked.outside timer apart).trans changed.here
  have notTimer (other : Nat) (member : other ∈ before ++ after) : other ≠ timer := by
    rintro rfl
    exact apart member
  have kept := contents_relinked same
  have adjusted : contents { list with heap } = Function.update (contents list) timer
      ((contents list timer).map fun data => { data with absoluteExpire := expire }) := by
    funext other
    by_cases here : other = timer
    · subst here
      simp [contents, changed.here, cell]
    · simp [contents, changed.elsewhere other here, here]
  obtain ⟨result, items', added, holds', kept'⟩ := insert_holds shape' found
    (fun empty => by
      obtain ⟨rfl, rfl⟩ := List.append_eq_nil_iff.mp empty
      exact ⟨rfl, rfl⟩)
    apart
    (fun other => by
      rw [live_iff_contents, kept, adjusted]
      by_cases here : other = timer
      · subst here
        simp [contents, cell]
      · rw [Function.update_of_ne here, ← live_iff_contents, ← holds.live other]
        simp [here])
    (by
      have enough := holds.enough
      simp only [same.allocated, List.length_append, List.length_cons] at enough ⊢
      omega)
    (by
      have rest := holds.sorted.sublist
        ((List.append_sublist_append_left before).mpr (List.sublist_cons_self timer after))
      refine rest.imp_of_mem fun {first second} early late ordered => ?_
      rw [expireOf_relinked same.relinked, expireOf_relinked same.relinked]
      simpa only [expireOf, changed.elsewhere first (notTimer first early),
        changed.elsewhere second (notTimer second late)] using ordered)
  refine ⟨{ list with heap }, result, items', ?_, ?_, holds', ?_⟩
  · simp only [TimerList.setExpire, made, Option.bind_eq_bind, Option.bind_some]
    rfl
  · simp only [TimerList.adjustTimer, removed, Option.bind_eq_bind, Option.bind_some]
    exact added
  · rw [kept', kept, adjusted]

structure Fires (timers : Timers F T) (cur : Int) (fired : List (Nat × UtilTimer F T)) : Prop where
  exact : ∀ timer data, (timer, data) ∈ fired ↔
    timers timer = some data ∧ data.absoluteExpire ≤ cur
  once : (fired.map Prod.fst).Nodup
  ordered : fired.Pairwise fun first second => first.2.absoluteExpire ≤ second.2.absoluteExpire

theorem Holds.empty {list : TimerList F T} (holds : Holds list []) (timer : Nat) :
    contents list timer = none := by
  by_contra some
  have member := (holds.live timer).mpr ((live_iff_contents timer).mpr some)
  simp at member

theorem Holds.later {list : TimerList F T} {first : Nat} {rest : List Nat}
    {data : UtilTimer F T} (holds : Holds list (first :: rest))
    (here : contents list first = some data) {timer : Nat} {other : UtilTimer F T}
    (found : contents list timer = some other) : data.absoluteExpire ≤ other.absoluteExpire := by
  have member : timer ∈ first :: rest := by
    rw [holds.live, live_iff_contents, found]
    simp
  rcases List.mem_cons.mp member with rfl | behind
  · obtain rfl : data = other := Option.some.inj (here.symm.trans found)
    exact Int.le_refl _
  · have ordered := List.rel_of_pairwise_cons holds.sorted behind
    rwa [expireOf_contents here, expireOf_contents found] at ordered

theorem tickLoop_spec (cur : Int) {items : List Nat} {list : TimerList F T}
    (holds : Holds list items) (fuel : Nat) (enough : items.length ≤ fuel)
    (earlier : List (Nat × UtilTimer F T)) :
    ∃ result fired left, TimerList.tickLoop cur fuel earlier list = some (result, earlier ++ fired) ∧
      Holds result left ∧ contents result = Op.on (contents list) (.tick cur) ∧
      Fires (contents list) cur fired := by
  induction items generalizing list fuel earlier with
  | nil =>
      have none : list.head = none := holds.shape.linked.first
      refine ⟨list, [], [], ?_, holds, ?_, ?_, by simp, .nil⟩
      · rw [TimerList.tickLoop, none, List.append_nil]
      · funext timer
        simp [Op.on, holds.empty timer]
      · intro timer data
        simp [holds.empty timer]
  | cons first rest ih =>
      have start : list.head = some first := holds.shape.linked.first
      obtain ⟨data, cell⟩ := holds.shape.linked.cell [] first rest rfl
      have here : contents list first = some data := by simp [contents, cell]
      by_cases early : cur < data.absoluteExpire
      · -- nothing behind the first timer has expired either
        refine ⟨list, [], first :: rest, ?_, holds, ?_, ?_, by simp, .nil⟩
        · rw [TimerList.tickLoop, start]
          simp only [cell, Option.bind_eq_bind, Option.bind_some, if_pos early, List.append_nil]
          rfl
        · funext timer
          cases found : contents list timer with
          | none => simp [Op.on, found]
          | some other =>
              have later := holds.later here found
              have above : cur < other.absoluteExpire := by omega
              simp [Op.on, found, Option.filter, above]
        · intro timer other
          simp only [List.not_mem_nil, false_iff, not_and, Int.not_le]
          intro found
          have later := holds.later here found
          omega
      · cases fuel with
        | zero => simp at enough
        | succ fuel =>
            have holds' : Holds list ([] ++ first :: rest) := holds
            obtain ⟨middle, deleted, behind, kept, _⟩ := del_spec holds'
            obtain ⟨result, fired, left, looped, final, ticked, fires⟩ :=
              ih behind fuel (by simpa using enough) (earlier ++ [(first, data)])
            have apart : first ∉ rest := holds'.apart
            refine ⟨result, (first, data) :: fired, left, ?_, final, ?_, ?_, ?_, ?_⟩
            · rw [TimerList.tickLoop, start]
              simp only [cell, Option.bind_eq_bind, Option.bind_some, if_neg early, deleted, looped,
                List.append_assoc, List.singleton_append]
            · rw [ticked, kept]
              funext timer
              by_cases same : timer = first
              · subst same
                simp [Op.on, here, Option.filter, early]
              · simp [Op.on, same]
            · intro timer other
              rw [List.mem_cons, Prod.mk.injEq, fires.exact, kept]
              by_cases same : timer = first
              · subst same
                rw [here]
                simp only [true_and, Function.update_self, reduceCtorEq, false_and, or_false,
                  Option.some.injEq]
                constructor
                · rintro rfl
                  exact ⟨rfl, by omega⟩
                · exact fun both => both.1.symm
              · rw [Function.update_of_ne same]
                simp [same]
            · refine List.nodup_cons.mpr ⟨?_, fires.once⟩
              intro again
              obtain ⟨entry, member, same⟩ := List.mem_map.mp again
              have gone := ((fires.exact entry.1 entry.2).mp member).1
              rw [same, kept, Function.update_self] at gone
              contradiction
            · refine List.pairwise_cons.mpr ⟨?_, fires.ordered⟩
              intro entry member
              have found := ((fires.exact entry.1 entry.2).mp member).1
              rw [kept] at found
              have listed : contents list entry.1 = some entry.2 := by
                by_cases same : entry.1 = first
                · rw [same, Function.update_self] at found
                  contradiction
                · rwa [Function.update_of_ne same] at found
              exact holds.later here listed

theorem tick_spec {list : TimerList F T} {items : List Nat} (holds : Holds list items) (cur : Int) :
    ∃ result fired left, list.tick cur = some (result, fired) ∧ Holds result left ∧
      contents result = Op.on (contents list) (.tick cur) ∧ Fires (contents list) cur fired := by
  obtain ⟨result, fired, left, looped, rest⟩ :=
    tickLoop_spec cur holds list.allocated holds.enough []
  exact ⟨result, fired, left, looped, rest⟩

end Contents

section Runs

variable {F T : Type}

theorem step_spec {list : TimerList F T} {items : List Nat} (holds : Holds list items)
    {op : Op F T} (legal : Legal list op) :
    ∃ result items', step list op = .ok result ∧ Holds result items' ∧
      contents result = op.on (contents list) := by
  cases op with
  | add timer data =>
      obtain ⟨result, items', added, holds', kept⟩ := add_spec holds legal data
      exact ⟨result, items', by simp only [step, apply, added], holds', kept⟩
  | del timer =>
      obtain ⟨before, after, rfl⟩ := List.append_of_mem ((holds.live timer).mpr legal)
      obtain ⟨result, deleted, holds', kept, _⟩ := del_spec holds
      exact ⟨result, _, by simp only [step, apply, deleted], holds', kept⟩
  | adjust timer expire =>
      obtain ⟨before, after, rfl⟩ := List.append_of_mem ((holds.live timer).mpr legal)
      obtain ⟨middle, result, items', changed, adjusted, holds', kept⟩ := adjust_spec holds expire
      refine ⟨result, items', ?_, holds', kept⟩
      simp only [step, apply, changed, adjusted, Option.bind_eq_bind, Option.bind_some]
  | tick cur =>
      obtain ⟨result, fired, left, ticked, holds', kept, _⟩ := tick_spec holds cur
      refine ⟨result, left, ?_, holds', kept⟩
      simp only [step, apply, ticked, Option.bind_eq_bind, Option.bind_some]
      rfl

theorem run_spec {list : TimerList F T} {items : List Nat} (holds : Holds list items)
    (ops : List (Op F T)) (legal : Along step Legal list ops) :
    ∃ final items', run step list ops = .ok final ∧ Holds final items' ∧
      contents final = ops.foldl Op.on (contents list) := by
  induction ops generalizing list items with
  | nil => exact ⟨list, items, rfl, holds, rfl⟩
  | cons op ops ih =>
      obtain ⟨next, items', taken, holds', kept⟩ := step_spec holds legal.1
      obtain ⟨final, last, ran, holds'', kept'⟩ := ih holds' (legal.2 next taken)
      refine ⟨final, last, ?_, holds'', ?_⟩
      · simp only [run, taken]
        exact ran
      · rw [kept', kept, List.foldl_cons]

theorem empty_holds : Holds (TimerList.empty : TimerList F T) [] :=
  ⟨⟨.nil _, rfl⟩, by simp [TimerList.empty], Nat.le_refl _, .nil⟩

/-- After any operations both directions of the list visit the same timers in opposite orders,
which are the timers that were added and have not gone, sorted by their expiry; and a tick
fires the expired ones, in order, and takes just these out. -/
theorem sorted_set_of_timers (ops : List (Op F T)) (legal : Along step Legal TimerList.empty ops) :
    ∃ final items, run step TimerList.empty ops = .ok final ∧
      Visits final.heap Node.next final.head items ∧
      Visits final.heap Node.prev final.tail items.reverse ∧
      items.Nodup ∧ (∀ timer, timer ∈ items ↔ contents final timer ≠ none) ∧
      contents final = ops.foldl Op.on (fun _ => none) ∧
      (items.Pairwise fun first second =>
        expireOf final.heap first ≤ expireOf final.heap second) ∧
      ∀ cur, ∃ result fired, final.tick cur = some (result, fired) ∧
        Fires (contents final) cur fired ∧
        contents result = fun timer =>
          (contents final timer).filter fun data => cur < data.absoluteExpire := by
  obtain ⟨final, items, ran, holds, kept⟩ := run_spec empty_holds ops legal
  have whole : Linked final.heap final.head (items ++ []) := by
    simpa using holds.shape.linked
  have forward : Visits final.heap Node.next items.head? items :=
    Linked.visits_from (show Linked final.heap final.head ([] ++ items) from holds.shape.linked)
  refine ⟨final, items, ran, ?_, ?_, holds.shape.linked.nodup, ?_, kept, holds.sorted, ?_⟩
  · rw [holds.shape.linked.first]
    exact forward
  · rw [holds.shape.tail]
    exact whole.visits_back
  · intro timer
    rw [holds.live, live_iff_contents]
  · intro cur
    obtain ⟨result, fired, _, ticked, _, gone, fires⟩ := tick_spec holds cur
    exact ⟨result, fired, ticked, fires, gone⟩

theorem sorted_set_of_timers_example :
    ∃ final : TimerList Nat Nat, ∃ items, run step TimerList.empty
        [.add 1 ⟨20, 0, some 5⟩, .add 2 ⟨10, 0, none⟩, .add 3 ⟨10, 0, none⟩, .adjust 3 20] =
        .ok final ∧ Visits final.heap Node.next final.head items ∧
        Visits final.heap Node.prev final.tail items.reverse := by
  obtain ⟨final, items, ran, forward, back, _⟩ := sorted_set_of_timers
    [.add 1 ⟨20, 0, some 5⟩, .add 2 ⟨10, 0, none⟩, .add 3 ⟨10, 0, none⟩, .adjust 3 20]
    (by decide +kernel)
  exact ⟨final, items, ran, forward, back⟩

end Runs

end StudyRecord.SortedList
