import BitTorrent.Utils.Text

/-! # Slices of strings

Rust measures and cuts a `str` in bytes.  A cut inside a character, or past the end, is a panic; here
it gives nothing.
-/

namespace BitTorrent

open List

/-- `str::len`. -/
def byteLen (value : Text) : Nat := (utf8 value).length

/-- `str::is_char_boundary`. -/
def isCharBoundary (value : Text) (index : Nat) : Bool :=
  match (utf8 value)[index]? with
  | some byte => !isContinuation byte
  | none => decide (index = byteLen value)

/-- The two sides of a byte index. -/
def splitAtByte : Text → Nat → Option (Text × Text)
  | value, 0 => some ([], value)
  | [], _ + 1 => none
  | letter :: rest, index + 1 =>
    if index + 1 < letter.utf8Size then none
    else (splitAtByte rest (index + 1 - letter.utf8Size)).map fun parts => (letter :: parts.1, parts.2)

/-- `&value[start..stop]`. -/
def sliceStr (value : Text) (start stop : Nat) : Option Text :=
  (splitAtByte value stop).bind fun parts => (splitAtByte parts.1 start).map Prod.snd

/-- The index lies in the string, and inside one of its characters. -/
def CutsInside (value : Text) (index : Nat) : Prop := index ≤ byteLen value ∧ isCharBoundary value index = false

instance (value : Text) (index : Nat) : Decidable (CutsInside value index) := inferInstanceAs (Decidable (_ ∧ _))

/-- `str::eq_ignore_ascii_case`. -/
def eqIgnoreAsciiCase (left right : Text) : Bool := left.map Char.toLower = right.map Char.toLower

/-- `value.len() >= n && value[..n].eq_ignore_ascii_case(name)`, where `n` is the length of the name. -/
def hasName (name value : Text) : Option Bool :=
  if byteLen name ≤ byteLen value then
    (splitAtByte value (byteLen name)).map fun parts => eqIgnoreAsciiCase parts.1 name
  else some false

/-- The pieces of a list that end with a separator, and what is behind the last one. -/
def splitInclusive {α : Type} [DecidableEq α] (separator : α) : List α → List (List α)
  | [] => []
  | item :: rest =>
    if item = separator then [item] :: splitInclusive separator rest
    else
      match splitInclusive separator rest with
      | [] => [[item]]
      | line :: lines => (item :: line) :: lines

section Boundaries

variable {value front back : Text} {letter : Char} {index : Nat}

@[simp]
theorem byteLen_nil : byteLen [] = 0 := rfl

@[simp]
theorem byteLen_cons : byteLen (letter :: value) = letter.utf8Size + byteLen value := by
  simp [byteLen]

theorem isContinuation_ofNat {code : Nat} (small : code < 256) :
    isContinuation (UInt8.ofNat code) = decide (128 ≤ code ∧ code ≤ 191) := by
  simp [isContinuation, UInt8.le_iff_toNat_le, Nat.mod_eq_of_lt small]

/-- Of the bytes of a character, those after the first are continuations. -/
theorem utf8EncodeChar_continuation {byte : UInt8} (there : (String.utf8EncodeChar letter)[index]? = some byte) :
    isContinuation byte = decide (0 < index) := by
  rw [String.utf8EncodeChar] at there
  split at there
  case isTrue =>
    match index with
    | 0 => cases there; rw [isContinuation_ofNat (by omega), decide_eq_decide]; omega
    | _ + 1 => simp at there
  case isFalse =>
    split at there
    case isTrue =>
      match index with
      | 0 | 1 => cases there; rw [isContinuation_ofNat (by omega), decide_eq_decide]; omega
      | _ + 2 => simp at there
    case isFalse =>
      split at there
      case isTrue =>
        match index with
        | 0 | 1 | 2 => cases there; rw [isContinuation_ofNat (by omega), decide_eq_decide]; omega
        | _ + 3 => simp at there
      case isFalse =>
        match index with
        | 0 | 1 | 2 | 3 => cases there; rw [isContinuation_ofNat (by omega), decide_eq_decide]; omega
        | _ + 4 => simp at there

theorem isCharBoundary_cons_lt (inside : index < letter.utf8Size) :
    isCharBoundary (letter :: value) index = decide (index = 0) := by
  have short : index < (String.utf8EncodeChar letter).length := by simpa using inside
  have there : (utf8 (letter :: value))[index]? = some (String.utf8EncodeChar letter)[index] := by
    rw [utf8_cons, getElem?_append_left short, getElem?_eq_getElem short]
  rw [isCharBoundary, there]
  simp only [utf8EncodeChar_continuation (getElem?_eq_getElem short)]
  cases index <;> rfl

theorem isCharBoundary_cons_ge (past : letter.utf8Size ≤ index) :
    isCharBoundary (letter :: value) index = isCharBoundary value (index - letter.utf8Size) := by
  have there : (utf8 (letter :: value))[index]? = (utf8 value)[index - letter.utf8Size]? := by
    rw [utf8_cons, getElem?_append_right (by simpa using past), String.length_utf8EncodeChar]
  have ends : index = letter.utf8Size + byteLen value ↔ index - letter.utf8Size = byteLen value := by omega
  rw [isCharBoundary, isCharBoundary, there, byteLen_cons]
  simp only [ends]

theorem isCharBoundary_zero : isCharBoundary value 0 = true := by
  cases value with
  | nil => rfl
  | cons letter rest => exact isCharBoundary_cons_lt (Char.utf8Size_pos letter)

theorem splitAtByte_isSome (value : Text) (index : Nat) :
    (splitAtByte value index).isSome = isCharBoundary value index := by
  induction value generalizing index with
  | nil => cases index <;> rfl
  | cons letter rest ih =>
    cases index with
    | zero => rw [splitAtByte, isCharBoundary_zero]; rfl
    | succ index =>
      rw [splitAtByte]
      split
      case isTrue inside => rw [isCharBoundary_cons_lt inside]; rfl
      case isFalse past => rw [Option.isSome_map, ih, isCharBoundary_cons_ge (Nat.not_lt.mp past)]

theorem splitAtByte_eq_none : splitAtByte value index = none ↔ isCharBoundary value index = false := by
  rw [← splitAtByte_isSome, Option.isSome_eq_false_iff, Option.isNone_iff_eq_none]

theorem splitAtByte_append (front back : Text) : splitAtByte (front ++ back) (byteLen front) = some (front, back) := by
  induction front with
  | nil => cases back <;> rfl
  | cons letter front ih =>
    obtain ⟨size, sized⟩ := Nat.exists_eq_succ_of_ne_zero (Nat.ne_of_gt (Char.utf8Size_pos letter))
    have positive : byteLen (letter :: front) = size + byteLen front + 1 := by
      rw [byteLen_cons, sized]
      omega
    have behind : size + byteLen front + 1 - letter.utf8Size = byteLen front := by omega
    rw [positive, cons_append, splitAtByte, if_neg (by omega), behind, ih]
    rfl

theorem split_of_splitAtByte (cut : splitAtByte value index = some (front, back)) :
    value = front ++ back ∧ byteLen front = index := by
  induction value generalizing index front with
  | nil =>
    cases index with
    | zero =>
      cases cut
      exact ⟨rfl, rfl⟩
    | succ index => cases cut
  | cons letter rest ih =>
    cases index with
    | zero =>
      cases cut
      exact ⟨rfl, rfl⟩
    | succ index =>
      rw [splitAtByte] at cut
      obtain ⟨past, cut⟩ := Option.ite_none_left_eq_some.mp cut
      obtain ⟨parts, later, shape⟩ := Option.map_eq_some_iff.mp cut
      cases shape
      obtain ⟨whole, size⟩ := ih later
      refine ⟨by rw [whole, cons_append], ?_⟩
      rw [byteLen_cons, size]
      omega

theorem isCharBoundary_append (inside : index ≤ byteLen front) :
    isCharBoundary (front ++ back) index = isCharBoundary front index := by
  rcases Nat.lt_or_eq_of_le inside with short | rfl
  · rw [isCharBoundary, isCharBoundary, utf8_append, getElem?_append_left short]
    rw [getElem?_eq_getElem short]
  · have whole := splitAtByte_append front []
    rw [append_nil] at whole
    rw [← splitAtByte_isSome, ← splitAtByte_isSome, splitAtByte_append, whole]
    rfl

theorem sliceStr_eq_none {start stop : Nat} (ordered : start ≤ stop) :
    sliceStr value start stop = none ↔ isCharBoundary value start = false ∨ isCharBoundary value stop = false := by
  rw [sliceStr]
  cases cut : splitAtByte value stop with
  | none => simp [splitAtByte_eq_none.mp cut]
  | some parts =>
    obtain ⟨whole, size⟩ := split_of_splitAtByte cut
    have bounded : isCharBoundary value stop = true := by rw [← splitAtByte_isSome, cut]; rfl
    rw [Option.bind_some, Option.map_eq_none_iff, splitAtByte_eq_none, bounded, whole,
      isCharBoundary_append (ordered.trans_eq size.symm)]
    simp

theorem hasName_eq_none {name : Text} : hasName name value = none ↔ CutsInside value (byteLen name) := by
  rw [hasName, CutsInside]
  split
  case isTrue long => rw [Option.map_eq_none_iff, splitAtByte_eq_none, and_iff_right long]
  case isFalse short => simp [short]

end Boundaries

end BitTorrent
