import Mathlib.Algebra.Ring.Int.Defs
import Mathlib.Data.List.Basic
import Mathlib.Data.List.TakeWhile

/-!
Byte buffers and the C library functions that read strings out of them.
A string function looks at a buffer only through the bytes up to the first NUL,
so each of them is a function of that list of bytes.
-/

namespace StudyRecord.CString

abbrev Buffer := Nat → UInt8

def bytes (text : String) : List UInt8 :=
  text.toList.map fun char => UInt8.ofNat char.toNat

theorem bytes_length (text : String) : (bytes text).length = text.length := by
  rw [bytes, List.length_map, String.length_toList]

def store (buffer : Buffer) (index : Nat) (byte : UInt8) : Buffer :=
  fun position => if position = index then byte else buffer position

/-- An assignment through a computed index. A negative one is in front of the array and leaves the
buffer alone, whatever else it changes. -/
def storeInt (buffer : Buffer) (index : Int) (byte : UInt8) : Buffer :=
  if 0 ≤ index then store buffer index.toNat byte else buffer

def copyIn (buffer : Buffer) (start : Nat) (data : List UInt8) : Buffer :=
  fun position =>
    if start ≤ position ∧ position < start + data.length then data.getD (position - start) 0
    else buffer position

def memset (buffer : Buffer) (byte : UInt8) (size : Nat) : Buffer :=
  fun position => if position < size then byte else buffer position

def stringFrom (buffer : Buffer) : Nat → Nat → List UInt8
  | 0, _ => []
  | room + 1, start =>
      if buffer start = 0 then [] else buffer start :: stringFrom buffer room (start + 1)

/-- The C string that starts at `start`, cut at the end of an array of `capacity` bytes. -/
def stringAt (capacity : Nat) (buffer : Buffer) (start : Nat) : List UInt8 :=
  stringFrom buffer (capacity - start) start

def stringReads (capacity : Nat) (buffer : Buffer) (start : Nat) : List Nat :=
  List.range' start ((stringAt capacity buffer start).length + 1)

/-! The functions of `string.h` and `stdlib.h`, on the bytes before the terminator. -/

def strpbrk (accept text : List UInt8) : Option Nat :=
  text.findIdx? fun byte => accept.contains byte

def strspn (accept text : List UInt8) : Nat :=
  (text.takeWhile fun byte => accept.contains byte).length

def strchr (byte : UInt8) (text : List UInt8) : Option Nat :=
  text.findIdx? fun candidate => candidate == byte

def strstr (needle : List UInt8) : List UInt8 → Option Nat
  | [] => if needle.isEmpty then some 0 else none
  | byte :: rest =>
      if needle.isPrefixOf (byte :: rest) then some 0 else (strstr needle rest).map (· + 1)

def tolower (byte : UInt8) : UInt8 :=
  if 65 ≤ byte ∧ byte ≤ 90 then byte + 32 else byte

def strcasecmpZero (first second : List UInt8) : Bool :=
  first.map tolower == second.map tolower

def strncasecmpZero (first second : List UInt8) (count : Nat) : Bool :=
  (first.take count).map tolower == (second.take count).map tolower

def isspace (byte : UInt8) : Bool := byte == 32 || (9 ≤ byte && byte ≤ 13)

def isdigit (byte : UInt8) : Bool := 48 ≤ byte && byte ≤ 57

def digitsValue (text : List UInt8) : Nat :=
  (text.takeWhile isdigit).foldl (fun value byte => value * 10 + (byte.toNat - 48)) 0

/-- `atol`: blanks, a sign, digits; a value outside `long` becomes the nearest `long`. -/
def atol (text : List UInt8) : Int :=
  match text.dropWhile isspace with
  | 45 :: rest => max (-(2 ^ 63)) (-(digitsValue rest : Int))
  | 43 :: rest => min (2 ^ 63 - 1) (digitsValue rest : Int)
  | rest => min (2 ^ 63 - 1) (digitsValue rest : Int)

/-! Stores and copies. -/

@[simp] theorem store_self (buffer : Buffer) (index : Nat) (byte : UInt8) :
    store buffer index byte index = byte := by
  simp [store]

theorem store_other (buffer : Buffer) {index position : Nat} (byte : UInt8)
    (different : position ≠ index) : store buffer index byte position = buffer position := by
  simp [store, different]

theorem store_zero (buffer : Buffer) (index position : Nat) (zero : buffer position = 0) :
    store buffer index 0 position = 0 := by
  by_cases same : position = index
  · simp [same]
  · rw [store_other buffer 0 same, zero]

theorem storeInt_zero (buffer : Buffer) (target : Int) (index : Nat) (zero : buffer index = 0) :
    storeInt buffer target 0 index = 0 := by
  simp only [storeInt]
  split
  · exact store_zero _ _ _ zero
  · exact zero

theorem store_nul (buffer : Buffer) (target index : Nat) :
    store buffer target 0 index = buffer index ∨ store buffer target 0 index = 0 := by
  by_cases same : index = target
  · right
    rw [same, store_self]
  · left
    rw [store_other buffer 0 same]

theorem storeInt_nul (buffer : Buffer) (target : Int) (index : Nat) :
    storeInt buffer target 0 index = buffer index ∨ storeInt buffer target 0 index = 0 := by
  simp only [storeInt]
  split
  · exact store_nul buffer _ index
  · exact Or.inl rfl

theorem copyIn_below (buffer : Buffer) {start position : Nat} (data : List UInt8)
    (below : position < start) : copyIn buffer start data position = buffer position := by
  have outside : ¬(start ≤ position ∧ position < start + data.length) := by omega
  simp [copyIn, outside]

theorem copyIn_inside (buffer : Buffer) {start offset : Nat} (data : List UInt8)
    (inside : offset < data.length) :
    copyIn buffer start data (start + offset) = data[offset] := by
  have bounds : start ≤ start + offset ∧ start + offset < start + data.length := by omega
  simp [copyIn, bounds, inside]

theorem copyIn_above (buffer : Buffer) {start position : Nat} (data : List UInt8)
    (above : start + data.length ≤ position) :
    copyIn buffer start data position = buffer position := by
  have outside : ¬(start ≤ position ∧ position < start + data.length) := by omega
  simp [copyIn, outside]

theorem copyIn_store (buffer : Buffer) {start index : Nat} (data : List UInt8) (byte : UInt8)
    (below : index < start) :
    copyIn (store buffer index byte) start data = store (copyIn buffer start data) index byte := by
  funext position
  by_cases same : position = index
  · subst position
    simp [copyIn_below _ data below]
  · simp only [copyIn, store, same, if_false]

theorem copyIn_nil (buffer : Buffer) (start : Nat) : copyIn buffer start [] = buffer := by
  funext position
  have outside : ¬(start ≤ position ∧ position < start + ([] : List UInt8).length) := by
    simp
  simp only [copyIn, outside, if_false]

theorem copyIn_copyIn (buffer : Buffer) (start : Nat) (first second : List UInt8) :
    copyIn (copyIn buffer start first) (start + first.length) second =
      copyIn buffer start (first ++ second) := by
  funext position
  by_cases below : position < start
  · rw [copyIn_below _ _ (by omega), copyIn_below _ _ below, copyIn_below _ _ below]
  by_cases inFirst : position < start + first.length
  · rw [copyIn_below _ _ inFirst]
    obtain ⟨offset, rfl⟩ := Nat.exists_eq_add_of_le (Nat.not_lt.mp below)
    have bound : offset < first.length := by omega
    rw [copyIn_inside _ _ bound, copyIn_inside _ _ (by simp; omega), List.getElem_append_left bound]
  by_cases inSecond : position < start + first.length + second.length
  · obtain ⟨offset, rfl⟩ := Nat.exists_eq_add_of_le (Nat.not_lt.mp inFirst)
    have bound : offset < second.length := by omega
    have whole : first.length + offset < (first ++ second).length := by simp; omega
    rw [copyIn_inside _ _ bound, Nat.add_assoc, copyIn_inside _ _ whole,
      List.getElem_append_right (by omega)]
    simp
  · rw [copyIn_above _ _ (by omega), copyIn_above _ _ (by omega),
      copyIn_above _ _ (by simp; omega)]

/-! Strings with a terminator inside the array. -/

theorem stringFrom_bound (buffer : Buffer) (room start final : Nat)
    (lower : start ≤ final) (zero : buffer final = 0) :
    start + (stringFrom buffer room start).length ≤ final := by
  induction room generalizing start with
  | zero => simpa [stringFrom] using lower
  | succ room ih =>
      simp only [stringFrom]
      split
      · simpa using lower
      · rename_i nonzero
        have different : start ≠ final := by
          intro same
          exact nonzero (same ▸ zero)
        have tail := ih (start + 1) (by omega)
        simp only [List.length_cons]
        omega

theorem stringAt_bound {capacity : Nat} {buffer : Buffer} {start final : Nat}
    (lower : start ≤ final) (zero : buffer final = 0) :
    start + (stringAt capacity buffer start).length ≤ final :=
  stringFrom_bound buffer _ start final lower zero

theorem stringFrom_congr (first second : Buffer) (room start final : Nat)
    (lower : start ≤ final) (zero : first final = 0)
    (agree : ∀ position, start ≤ position → position ≤ final → first position = second position) :
    stringFrom first room start = stringFrom second room start := by
  induction room generalizing start with
  | zero => rfl
  | succ room ih =>
      simp only [stringFrom, agree start (Nat.le_refl _) lower]
      split
      · rfl
      · rename_i nonzero
        have different : start ≠ final := by
          intro same
          subst start
          exact nonzero (by rw [← agree final (Nat.le_refl _) (Nat.le_refl _), zero])
        rw [ih (start + 1) (by omega) (fun position low high => agree position (by omega) high)]

theorem stringAt_congr (capacity : Nat) {first second : Buffer} {start final : Nat}
    (lower : start ≤ final) (zero : first final = 0)
    (agree : ∀ position, start ≤ position → position ≤ final → first position = second position) :
    stringAt capacity first start = stringAt capacity second start :=
  stringFrom_congr first second _ start final lower zero agree

theorem stringAt_copyIn (capacity : Nat) (buffer : Buffer) (data : List UInt8)
    {start final index : Nat} (lower : index ≤ final) (zero : buffer final = 0)
    (behind : final < start) :
    stringAt capacity (copyIn buffer start data) index = stringAt capacity buffer index := by
  symm
  apply stringAt_congr capacity lower zero
  intro position _ high
  rw [copyIn_below _ _ (by omega)]

theorem stringFrom_solid (buffer : Buffer) (room start : Nat) :
    ∀ byte ∈ stringFrom buffer room start, byte ≠ 0 := by
  induction room generalizing start with
  | zero => simp [stringFrom]
  | succ room ih =>
      simp only [stringFrom]
      split
      · simp
      · rename_i nonzero
        simp only [List.forall_mem_cons]
        exact ⟨nonzero, ih (start + 1)⟩

theorem stringFrom_end (buffer : Buffer) (room start : Nat)
    (short : (stringFrom buffer room start).length < room) :
    buffer (start + (stringFrom buffer room start).length) = 0 := by
  induction room generalizing start with
  | zero => contradiction
  | succ room ih =>
      simp only [stringFrom] at short ⊢
      split
      · rename_i zero
        exact zero
      · rename_i nonzero
        rw [if_neg nonzero, List.length_cons] at short
        have later := ih (start + 1) (by omega)
        rw [List.length_cons, Nat.add_comm _ 1, ← Nat.add_assoc]
        exact later

theorem strspn_le (accept text : List UInt8) : strspn accept text ≤ text.length := by
  exact (List.takeWhile_prefix _).length_le

theorem strpbrk_lt {accept text : List UInt8} {offset : Nat}
    (found : strpbrk accept text = some offset) : offset < text.length :=
  (List.findIdx?_eq_some_iff_getElem.mp found).1

theorem strchr_lt {byte : UInt8} {text : List UInt8} {offset : Nat}
    (found : strchr byte text = some offset) : offset < text.length :=
  (List.findIdx?_eq_some_iff_getElem.mp found).1

/-! Searches, by the parts of the string that they separate. -/

theorem strpbrk_append {accept before after : List UInt8} {byte : UInt8}
    (clear : ∀ other ∈ before, other ∉ accept) (found : byte ∈ accept) :
    strpbrk accept (before ++ byte :: after) = some before.length := by
  have inside : before.length < (before ++ byte :: after).length := by
    rw [List.length_append, List.length_cons]
    omega
  refine List.findIdx?_eq_some_iff_getElem.mpr ⟨inside, by simp [found], fun index below => ?_⟩
  rw [List.getElem_append_left below]
  simp [clear before[index] (List.getElem_mem below)]

theorem strpbrk_split {accept text : List UInt8} {offset : Nat}
    (found : strpbrk accept text = some offset) :
    ∃ byte, text = text.take offset ++ byte :: text.drop (offset + 1) ∧ byte ∈ accept ∧
      ∀ other ∈ text.take offset, other ∉ accept := by
  obtain ⟨inside, here, earlier⟩ := List.findIdx?_eq_some_iff_getElem.mp found
  refine ⟨text[offset], ?_, by simpa using here, fun other member => ?_⟩
  · rw [List.getElem_cons_drop, List.take_append_drop]
  · obtain ⟨index, below, rfl⟩ := List.getElem_of_mem member
    have early : index < offset := by
      rw [List.length_take] at below
      omega
    have missed := earlier index early
    rw [List.getElem_take]
    simpa using missed

theorem strspn_append {accept before after : List UInt8}
    (inside : ∀ byte ∈ before, byte ∈ accept) (stops : ∀ byte ∈ after.head?, byte ∉ accept) :
    strspn accept (before ++ after) = before.length := by
  have first : before.takeWhile (fun byte => accept.contains byte) = before :=
    List.takeWhile_eq_self_iff.mpr fun byte member => by simp [inside byte member]
  rw [strspn, List.takeWhile_append, first, if_pos rfl, List.length_append]
  cases after with
  | nil => rfl
  | cons byte after =>
      have missed : byte ∉ accept := stops byte rfl
      simp [missed]

theorem strspn_split (accept text : List UInt8) :
    (∀ byte ∈ text.take (strspn accept text), byte ∈ accept) ∧
      ∀ byte ∈ (text.drop (strspn accept text)).head?, byte ∉ accept := by
  induction text with
  | nil => simp [strspn]
  | cons byte text ih =>
      by_cases inside : byte ∈ accept
      · have size : strspn accept (byte :: text) = strspn accept text + 1 := by
          simp [strspn, inside]
        rw [size, List.take_succ_cons, List.drop_succ_cons]
        exact ⟨List.forall_mem_cons.mpr ⟨inside, ih.1⟩, ih.2⟩
      · have size : strspn accept (byte :: text) = 0 := by
          simp [strspn, inside]
        rw [size]
        simp [inside]

/-! Tokens and the gaps between them. -/

def past (accept text : List UInt8) : List UInt8 := text.drop (strspn accept text)

def Gap (accept gap : List UInt8) : Prop := gap ≠ [] ∧ ∀ byte ∈ gap, byte ∈ accept

theorem split_gap {accept text : List UInt8} {offset : Nat}
    (found : strpbrk accept text = some offset) :
    ∃ gap, text = text.take offset ++ gap ++ past accept (text.drop (offset + 1)) ∧
      Gap accept gap ∧ (∀ byte ∈ text.take offset, byte ∉ accept) ∧
      ∀ byte ∈ (past accept (text.drop (offset + 1))).head?, byte ∉ accept := by
  obtain ⟨byte, split, isBlank, clear⟩ := strpbrk_split found
  obtain ⟨more, stops⟩ := strspn_split accept (text.drop (offset + 1))
  refine ⟨byte :: (text.drop (offset + 1)).take (strspn accept (text.drop (offset + 1))), ?_,
    ⟨List.cons_ne_nil _ _, List.forall_mem_cons.mpr ⟨isBlank, more⟩⟩, clear, stops⟩
  rw [past, List.append_assoc, List.cons_append, List.take_append_drop]
  exact split

theorem join_gap {accept token gap rest : List UInt8} (clear : ∀ byte ∈ token, byte ∉ accept)
    (between : Gap accept gap) (stops : ∀ byte ∈ rest.head?, byte ∉ accept) :
    strpbrk accept (token ++ gap ++ rest) = some token.length ∧
      (token ++ gap ++ rest).take token.length = token ∧
      past accept ((token ++ gap ++ rest).drop (token.length + 1)) = rest := by
  obtain ⟨nonempty, inside⟩ := between
  cases gap with
  | nil => contradiction
  | cons byte gap =>
      obtain ⟨isBlank, more⟩ := List.forall_mem_cons.mp inside
      rw [List.append_assoc, List.cons_append]
      refine ⟨strpbrk_append clear isBlank, List.take_left, ?_⟩
      have behind : (token ++ byte :: (gap ++ rest)).drop (token.length + 1) = gap ++ rest := by
        rw [← List.drop_drop, List.drop_left, List.drop_succ_cons, List.drop_zero]
      rw [behind, past, strspn_append more stops, List.drop_left]

theorem strcasecmpZero_length {text name : List UInt8} (same : strcasecmpZero text name = true) :
    text.length = name.length := by
  have lengths := congrArg List.length (beq_iff_eq.mp same)
  simpa using lengths

theorem clear_of_caseless {accept text name : List UInt8} (same : strcasecmpZero text name = true)
    (kept : ∀ byte ∈ accept, tolower byte = byte)
    (clear : ∀ byte ∈ name.map tolower, byte ∉ accept) : ∀ byte ∈ text, byte ∉ accept := by
  intro byte member isBlank
  have lower : tolower byte ∈ name.map tolower := by
    rw [← beq_iff_eq.mp same]
    exact List.mem_map_of_mem member
  rw [kept byte isBlank] at lower
  exact clear byte lower isBlank

/-! Numbers that have been printed. -/

theorem isdigit_ofNat {char : Char} (digit : char.isDigit = true) :
    isdigit (UInt8.ofNat char.toNat) = true ∧ (UInt8.ofNat char.toNat).toNat = char.toNat := by
  rw [Char.isDigit, Bool.and_eq_true, decide_eq_true_eq, decide_eq_true_eq] at digit
  have lower : 48 ≤ char.toNat := digit.1
  have upper : char.toNat ≤ 57 := digit.2
  have value : (UInt8.ofNat char.toNat).toNat = char.toNat := UInt8.toNat_ofNat_of_lt' (by
    show char.toNat < 256
    omega)
  refine ⟨?_, value⟩
  rw [isdigit, Bool.and_eq_true, decide_eq_true_eq, decide_eq_true_eq, UInt8.le_iff_toNat_le,
    UInt8.le_iff_toNat_le, value]
  exact ⟨lower, upper⟩

theorem bytes_repr (number : Nat) : ∀ byte ∈ bytes number.repr, isdigit byte = true := by
  intro byte member
  rw [bytes, Nat.toList_repr] at member
  obtain ⟨char, inside, rfl⟩ := List.mem_map.mp member
  exact (isdigit_ofNat (Nat.isDigit_of_mem_toDigits (Nat.succ_pos 9) (Nat.le_refl 10) inside)).1

theorem digitsValue_repr (number : Nat) : digitsValue (bytes number.repr) = number := by
  rw [digitsValue, List.takeWhile_eq_self_iff.mpr (bytes_repr number), bytes, Nat.toList_repr,
    List.foldl_map]
  refine Eq.trans ?_ (@Nat.ofDigitChars_ten_toDigits number)
  rw [Nat.ofDigitChars_eq_foldl]
  refine List.foldl_ext _ _ _ fun value char member => ?_
  rw [(isdigit_ofNat (Nat.isDigit_of_mem_toDigits (Nat.succ_pos 9) (Nat.le_refl 10) member)).2,
    Nat.mul_comm]
  rfl

theorem atol_repr (number : Nat) : atol (bytes number.repr) = min (2 ^ 63 - 1) (number : Int) := by
  have digits := bytes_repr number
  have value := digitsValue_repr number
  obtain ⟨first, rest, same⟩ : ∃ first rest, bytes number.repr = first :: rest := by
    refine List.exists_cons_of_ne_nil fun empty => ?_
    rw [bytes, Nat.toList_repr, List.map_eq_nil_iff] at empty
    exact Nat.toDigits_ne_nil empty
  rw [same] at digits value
  have digit := digits first List.mem_cons_self
  have space : isspace first = false := by
    revert digit
    simp only [isdigit, isspace, Bool.and_eq_true, decide_eq_true_eq, Bool.or_eq_false_iff,
      Bool.and_eq_false_iff, beq_eq_false_iff_ne, decide_eq_false_iff_not]
    rintro ⟨lower, _⟩
    rw [UInt8.le_iff_toNat_le] at lower
    have big : 48 ≤ first.toNat := lower
    refine ⟨?_, .inr ?_⟩
    · rintro rfl
      contradiction
    · rw [UInt8.le_iff_toNat_le]
      show ¬first.toNat ≤ 13
      omega
  rw [same, atol, List.dropWhile_cons, if_neg (by rw [space]; simp)]
  split
  · rename_i rest' shape
    obtain ⟨rfl, _⟩ := List.cons.inj shape
    contradiction
  · rename_i rest' shape
    obtain ⟨rfl, _⟩ := List.cons.inj shape
    contradiction
  · rw [value]

/-! Prefixes in any spelling. -/

theorem strncasecmpZero_append {text rest name : List UInt8}
    (same : strcasecmpZero text name = true) :
    strncasecmpZero (text ++ rest) name name.length = true := by
  rw [strncasecmpZero, ← strcasecmpZero_length same, List.take_left, strcasecmpZero_length same,
    List.take_length]
  exact same

theorem strncasecmpZero_split {text name : List UInt8}
    (same : strncasecmpZero text name name.length = true) :
    strcasecmpZero (text.take name.length) name = true ∧ name.length ≤ text.length := by
  rw [strncasecmpZero, List.take_length] at same
  have lengths := strcasecmpZero_length same
  rw [List.length_take] at lengths
  exact ⟨same, by omega⟩

theorem strncasecmpZero_shorter {text rest name : List UInt8} {early count : Nat}
    (inText : early ≤ text.length) (inCount : early ≤ count)
    (differ : strncasecmpZero text name early = false) :
    strncasecmpZero (text ++ rest) name count = false := by
  rw [Bool.eq_false_iff] at differ ⊢
  intro same
  have shorter := congrArg (List.take early) (beq_iff_eq.mp same)
  rw [← List.map_take, ← List.map_take, List.take_take, List.take_take, Nat.min_eq_left inCount,
    List.take_append_of_le_length inText] at shorter
  exact differ (beq_iff_eq.mpr shorter)

theorem strchr_split {byte : UInt8} {text : List UInt8} {offset : Nat}
    (found : strchr byte text = some offset) :
    text = text.take offset ++ byte :: text.drop (offset + 1) ∧ byte ∉ text.take offset := by
  obtain ⟨inside, here, earlier⟩ := List.findIdx?_eq_some_iff_getElem.mp found
  refine ⟨?_, fun member => ?_⟩
  · have same : text[offset] = byte := beq_iff_eq.mp here
    rw [← same, List.getElem_cons_drop, List.take_append_drop]
  · obtain ⟨index, below, same⟩ := List.getElem_of_mem member
    rw [List.length_take] at below
    have missed := earlier index (by omega)
    rw [List.getElem_take] at same
    exact missed (beq_iff_eq.mpr same)

theorem strchr_append {byte : UInt8} {before after : List UInt8} (clear : byte ∉ before) :
    strchr byte (before ++ byte :: after) = some before.length := by
  have inside : before.length < (before ++ byte :: after).length := by
    rw [List.length_append, List.length_cons]
    omega
  refine List.findIdx?_eq_some_iff_getElem.mpr ⟨inside, by simp, fun index below => ?_⟩
  rw [List.getElem_append_left below, beq_iff_eq]
  intro same
  exact clear (same ▸ List.getElem_mem below)

theorem strchr_none {byte : UInt8} {text : List UInt8} :
    strchr byte text = none ↔ byte ∉ text := by
  rw [strchr, List.findIdx?_eq_none_iff]
  constructor
  · intro missed member
    simpa using missed byte member
  · intro clear other member
    rw [beq_eq_false_iff_ne]
    rintro rfl
    exact clear member

theorem strstr_append {first : UInt8} {needle before after : List UInt8} (clear : first ∉ before) :
    strstr (first :: needle) (before ++ (first :: needle) ++ after) = some before.length := by
  induction before with
  | nil =>
      have here : (first :: needle).isPrefixOf ((first :: needle) ++ after) = true :=
        List.isPrefixOf_iff_prefix.mpr (List.prefix_append _ after)
      exact if_pos here
  | cons byte before ih =>
      rw [List.mem_cons, not_or] at clear
      have other : (first :: needle).isPrefixOf (byte :: before ++ (first :: needle) ++ after) =
          false := by
        rw [List.cons_append, List.cons_append, List.isPrefixOf_cons_cons,
          beq_eq_false_iff_ne.mpr clear.1, Bool.false_and]
      rw [List.cons_append, List.cons_append] at other ⊢
      rw [strstr, other, if_neg Bool.false_ne_true, ih clear.2]
      rfl

/-! A terminated string that lies in a buffer. -/

structure Written (capacity : Nat) (buffer : Buffer) (start : Nat) (text : List UInt8) : Prop where
  fits : start + text.length < capacity
  content : ∀ index (inside : index < text.length), buffer (start + index) = text[index]
  terminator : buffer (start + text.length) = 0
  nonzero : ∀ byte ∈ text, byte ≠ 0

theorem stringFrom_written {buffer : Buffer} {room start : Nat} {text : List UInt8}
    (space : text.length < room)
    (content : ∀ index (inside : index < text.length), buffer (start + index) = text[index])
    (terminator : buffer (start + text.length) = 0) (nonzero : ∀ byte ∈ text, byte ≠ 0) :
    stringFrom buffer room start = text := by
  induction text generalizing room start with
  | nil =>
      obtain ⟨room, rfl⟩ : ∃ less, room = less + 1 := ⟨room - 1, by simp at space; omega⟩
      have zero : buffer start = 0 := terminator
      simp only [stringFrom, zero, if_true]
  | cons byte text ih =>
      obtain ⟨room, rfl⟩ : ∃ less, room = less + 1 := ⟨room - 1, by simp at space; omega⟩
      have here : buffer start = byte := content 0 (by simp)
      have solid : byte ≠ 0 := nonzero byte List.mem_cons_self
      simp only [stringFrom, here, solid, if_false]
      congr 1
      apply ih
      · rw [List.length_cons] at space
        omega
      · intro index inside
        have later := content (index + 1) (by rw [List.length_cons]; omega)
        rw [show start + 1 + index = start + (index + 1) by omega]
        exact later
      · rw [show start + 1 + text.length = start + (byte :: text).length by
          rw [List.length_cons]
          omega]
        exact terminator
      · exact fun other member => nonzero other (List.mem_cons_of_mem _ member)

theorem Written.string {capacity start : Nat} {buffer : Buffer} {text : List UInt8}
    (written : Written capacity buffer start text) : stringAt capacity buffer start = text :=
  have fits := written.fits
  stringFrom_written (by omega) written.content written.terminator written.nonzero

theorem stringAt_overwritten_iff (buffer : Buffer) {capacity : Nat} {data : List UInt8}
    (fits : data.length < capacity) :
    stringAt capacity (copyIn buffer 0 data) 0 = data ↔
      (∀ byte ∈ data, byte ≠ 0) ∧ buffer data.length = 0 := by
  have behind : copyIn buffer 0 data (0 + data.length) = buffer (0 + data.length) :=
    copyIn_above _ _ (Nat.le_refl _)
  rw [Nat.zero_add] at behind
  constructor
  · intro same
    have solid := stringFrom_solid (copyIn buffer 0 data) capacity 0
    have stops := stringFrom_end (copyIn buffer 0 data) capacity 0
    have whole : stringFrom (copyIn buffer 0 data) capacity 0 = data := same
    rw [whole, Nat.zero_add] at stops
    rw [whole] at solid
    exact ⟨solid, behind ▸ stops fits⟩
  · rintro ⟨solid, zero⟩
    exact Written.string ⟨by omega, fun index inside => copyIn_inside _ _ inside,
      by rw [Nat.zero_add, behind, zero], solid⟩

theorem Written.drop {capacity start : Nat} {buffer : Buffer} {text : List UInt8}
    (written : Written capacity buffer start text) {count : Nat} (inside : count ≤ text.length) :
    Written capacity buffer (start + count) (text.drop count) := by
  have fits := written.fits
  have size : (text.drop count).length = text.length - count := List.length_drop
  refine ⟨by omega, fun index below => ?_, ?_, fun byte member => ?_⟩
  · rw [List.getElem_drop, Nat.add_assoc]
    exact written.content (count + index) (by omega)
  · rw [size, show start + count + (text.length - count) = start + text.length by omega]
    exact written.terminator
  · exact written.nonzero byte (List.mem_of_mem_drop member)

theorem Written.cut {capacity start : Nat} {buffer : Buffer} {text : List UInt8}
    (written : Written capacity buffer start text) {count : Nat} (inside : count < text.length) :
    Written capacity (store buffer (start + count) 0) start (text.take count) ∧
      Written capacity (store buffer (start + count) 0) (start + count + 1)
        (text.drop (count + 1)) := by
  have fits := written.fits
  have size : (text.take count).length = count := List.length_take_of_le (Nat.le_of_lt inside)
  have behind := written.drop (show count + 1 ≤ text.length from inside)
  rw [← Nat.add_assoc] at behind
  constructor
  · refine ⟨by omega, fun index below => ?_, ?_, fun byte member => ?_⟩
    · rw [store_other _ _ (by omega), List.getElem_take]
      exact written.content index (by omega)
    · rw [size, store_self]
    · exact written.nonzero byte (List.mem_of_mem_take member)
  · refine ⟨behind.fits, fun index below => ?_, ?_, behind.nonzero⟩
    · rw [store_other _ _ (by omega)]
      exact behind.content index below
    · rw [store_other _ _ (by omega)]
      exact behind.terminator

theorem Written.congr {capacity start : Nat} {first second : Buffer} {text : List UInt8}
    (written : Written capacity first start text)
    (agree : ∀ position, start ≤ position → position ≤ start + text.length →
      second position = first position) : Written capacity second start text := by
  refine ⟨written.fits, fun index inside => ?_, ?_, written.nonzero⟩
  · rw [agree _ (by omega) (by omega)]
    exact written.content index inside
  · rw [agree _ (by omega) (by omega)]
    exact written.terminator

theorem Written.bound {capacity start final : Nat} {buffer : Buffer} {text : List UInt8}
    (written : Written capacity buffer start text) (lower : start ≤ final)
    (zero : buffer final = 0) : start + text.length ≤ final := by
  rw [← written.string]
  exact stringAt_bound lower zero

/-- A line as the string functions see it. -/
def cString (line : List UInt8) : List UInt8 := line.takeWhile fun byte => byte ≠ 0

theorem cString_length (line : List UInt8) : (cString line).length ≤ line.length :=
  (List.takeWhile_prefix _).length_le

theorem cString_of_nonzero {line : List UInt8} (nonzero : ∀ byte ∈ line, byte ≠ 0) :
    cString line = line :=
  List.takeWhile_eq_self_iff.mpr fun byte member => by simp [nonzero byte member]

theorem written_line {capacity start : Nat} {buffer : Buffer} {text : List UInt8}
    (fits : start + text.length < capacity)
    (content : ∀ index (inside : index < text.length), buffer (start + index) = text[index])
    (terminator : buffer (start + text.length) = 0) :
    Written capacity buffer start (cString text) := by
  have short := cString_length text
  refine ⟨by omega, fun index inside => ?_, ?_, fun byte member => ?_⟩
  · rw [content index (by omega)]
    exact ((List.takeWhile_prefix _).getElem inside).symm
  · by_cases whole : (cString text).length < text.length
    · have stop := List.head?_dropWhile_not (fun byte : UInt8 => byte ≠ 0) text
      have parts : cString text ++ (text.dropWhile fun byte => byte ≠ 0) = text :=
        List.takeWhile_append_dropWhile
      have split : (cString text ++ (text.dropWhile fun byte => byte ≠ 0))[(cString text).length]? =
          (text.dropWhile fun byte => byte ≠ 0).head? := by
        rw [List.getElem?_append_right (le_refl _), Nat.sub_self, List.head?_eq_getElem?]
      rw [parts, List.getElem?_eq_getElem whole] at split
      rw [← split] at stop
      rw [content _ whole]
      simpa using stop
    · rw [show (cString text).length = text.length by omega]
      exact terminator
  · simpa using List.mem_takeWhile_imp member

theorem written_received (buffer : Buffer) {capacity : Nat} (data : List UInt8)
    (fits : data.length < capacity) :
    Written capacity (copyIn (memset buffer 0 capacity) 0 data) 0
      (data.takeWhile fun byte => byte ≠ 0) := by
  refine written_line (by omega) (fun index inside => copyIn_inside _ _ inside) ?_
  rw [copyIn_above _ _ (Nat.le_refl _), memset, if_pos (by omega)]

end StudyRecord.CString
