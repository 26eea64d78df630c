import BitTorrent.Basic
import Mathlib.Tactic

/-! # Text

A Rust `String` is the list of its characters.  Here are its UTF-8 bytes and the conversions
and decimal numerals that the parsers and builders of torrents use.
-/

namespace BitTorrent

open List

-- A name for the proof makes tests of membership in different modules the same term.
instance : LawfulBEq Bytes := inferInstance

/-- The bytes of an ASCII literal of the source. -/
def ascii (text : String) : Bytes := text.toList.map fun letter => UInt8.ofNat letter.toNat

abbrev Text := List Char

instance : LawfulBEq Text := inferInstance

def text (literal : String) : Text := literal.toList

def utf8 (value : Text) : Bytes := value.flatMap String.utf8EncodeChar

@[simp]
theorem utf8_nil : utf8 [] = [] := rfl

@[simp]
theorem utf8_cons (letter : Char) (rest : Text) :
    utf8 (letter :: rest) = String.utf8EncodeChar letter ++ utf8 rest := rfl

@[simp]
theorem utf8_append (left right : Text) : utf8 (left ++ right) = utf8 left ++ utf8 right :=
  flatMap_append

/-- The character at the front of some bytes. -/
def decodeChar? (bytes : Bytes) : Option Char := bytes.toByteArray.utf8DecodeChar? 0

theorem decodeChar?_encode (letter : Char) (rest : Bytes) :
    decodeChar? (String.utf8EncodeChar letter ++ rest) = some letter := by
  rw [decodeChar?, toByteArray_append]
  exact ByteArray.utf8DecodeChar?_utf8EncodeChar_append

variable {letter : Char} {bytes : Bytes}

theorem decodeChar?_eq_some :
    decodeChar? bytes = some letter ↔ ∃ rest, bytes = String.utf8EncodeChar letter ++ rest := by
  constructor
  · intro decoded
    have encoded := String.toByteArray_utf8EncodeChar_of_utf8DecodeChar?_eq_some decoded
    have front : String.utf8EncodeChar letter = bytes.take letter.utf8Size := by
      have lists := congrArg (fun array => array.data.toList) encoded
      simpa using lists
    exact ⟨bytes.drop letter.utf8Size, by rw [front, take_append_drop]⟩
  · intro shape
    obtain ⟨rest, rfl⟩ := shape
    exact decodeChar?_encode letter rest

def isContinuation (byte : UInt8) : Bool := decide (0x80 ≤ byte ∧ byte ≤ 0xBF)

/-- Whether a byte may follow the first byte of a sequence of three or four. -/
def secondFits (lead second : UInt8) : Bool :=
  if lead = 0xE0 then decide (0xA0 ≤ second ∧ second ≤ 0xBF)
  else if lead = 0xED then decide (0x80 ≤ second ∧ second ≤ 0x9F)
  else if lead = 0xF0 then decide (0x90 ≤ second ∧ second ≤ 0xBF)
  else if lead = 0xF4 then decide (0x80 ≤ second ∧ second ≤ 0x8F)
  else isContinuation second

/-- The bytes at the front of an invalid input that become one replacement character. -/
def invalidLength : Bytes → Nat
  | lead :: second :: rest =>
    if 0xE0 ≤ lead ∧ lead ≤ 0xF4 ∧ secondFits lead second then
      if 0xF0 ≤ lead ∧ rest.head?.any isContinuation then 3 else 2
    else 1
  | _ => 1

theorem invalidLength_pos (bytes : Bytes) : 0 < invalidLength bytes := by
  simp only [invalidLength]
  split
  case h_1 => split <;> [split; skip] <;> decide
  case h_2 => decide

/-- `String::from_utf8_lossy`. -/
def fromUtf8Lossy (bytes : Bytes) : Text :=
  match bytes with
  | [] => []
  | byte :: rest =>
    match decodeChar? (byte :: rest) with
    | some letter => letter :: fromUtf8Lossy ((byte :: rest).drop letter.utf8Size)
    | none => '�' :: fromUtf8Lossy ((byte :: rest).drop (invalidLength (byte :: rest)))
termination_by bytes.length
decreasing_by
  · have positive := Char.utf8Size_pos letter
    simp only [length_drop, length_cons]
    omega
  · have positive := invalidLength_pos (byte :: rest)
    simp only [length_drop, length_cons]
    omega

/-- `str::from_utf8`. -/
def fromUtf8 (bytes : Bytes) : Option Text :=
  match bytes with
  | [] => some []
  | byte :: rest =>
    match decodeChar? (byte :: rest) with
    | some letter => (fromUtf8 ((byte :: rest).drop letter.utf8Size)).map (letter :: ·)
    | none => none
termination_by bytes.length
decreasing_by
  have positive := Char.utf8Size_pos letter
  simp only [length_drop, length_cons]
  omega

theorem utf8EncodeChar_ne_nil (letter : Char) : String.utf8EncodeChar letter ≠ [] := by
  intro empty
  have length := String.length_utf8EncodeChar letter
  rw [empty, length_nil] at length
  exact absurd length.symm (Nat.ne_of_gt (Char.utf8Size_pos letter))

variable {value : Text} {digits front : Bytes} {limit : Nat} {literal : String} {first : UInt8}

theorem utf8_ne_nil (nonempty : value ≠ []) : utf8 value ≠ [] := by
  cases value with
  | nil => exact absurd rfl nonempty
  | cons letter rest => exact fun empty => utf8EncodeChar_ne_nil letter (append_eq_nil_iff.mp empty).1

theorem drop_utf8EncodeChar (letter : Char) (rest : Bytes) :
    (String.utf8EncodeChar letter ++ rest).drop letter.utf8Size = rest := by
  rw [← String.length_utf8EncodeChar, drop_left]

theorem fromUtf8Lossy_ne_nil (nonempty : bytes ≠ []) : fromUtf8Lossy bytes ≠ [] := by
  obtain ⟨byte, rest, rfl⟩ := exists_cons_of_ne_nil nonempty
  rw [fromUtf8Lossy]
  split
  case h_1 => exact cons_ne_nil _ _
  case h_2 => exact cons_ne_nil _ _

theorem fromUtf8Lossy_encode (letter : Char) (rest : Bytes) :
    fromUtf8Lossy (String.utf8EncodeChar letter ++ rest) = letter :: fromUtf8Lossy rest := by
  obtain ⟨byte, more, encoded⟩ := exists_cons_of_ne_nil (utf8EncodeChar_ne_nil letter)
  have whole : String.utf8EncodeChar letter ++ rest = byte :: (more ++ rest) := by rw [encoded, cons_append]
  rw [whole, fromUtf8Lossy, ← whole, decodeChar?_encode]
  simp only [drop_utf8EncodeChar]

@[simp]
theorem fromUtf8Lossy_utf8 (value : Text) : fromUtf8Lossy (utf8 value) = value := by
  induction value with
  | nil => rw [utf8_nil, fromUtf8Lossy]
  | cons letter rest ih => rw [utf8_cons, fromUtf8Lossy_encode, ih]

theorem utf8_injective : Function.Injective utf8 := by
  intro left right same
  have read := congrArg fromUtf8Lossy same
  rwa [fromUtf8Lossy_utf8, fromUtf8Lossy_utf8] at read

@[simp]
theorem fromUtf8_utf8 (value : Text) : fromUtf8 (utf8 value) = some value := by
  induction value with
  | nil => rw [utf8_nil, fromUtf8]
  | cons letter rest ih =>
    obtain ⟨byte, more, encoded⟩ := exists_cons_of_ne_nil (utf8EncodeChar_ne_nil letter)
    have whole : utf8 (letter :: rest) = byte :: (more ++ utf8 rest) := by
      rw [utf8_cons, encoded, cons_append]
    rw [whole, fromUtf8, ← whole, utf8_cons, decodeChar?_encode]
    simp only [drop_utf8EncodeChar, ih, Option.map_some]

theorem fromUtf8Lossy_of_fromUtf8 (valid : fromUtf8 bytes = some value) : fromUtf8Lossy bytes = value := by
  induction bytes using fromUtf8.induct generalizing value with
  | case1 =>
    rw [fromUtf8] at valid
    cases valid
    rw [fromUtf8Lossy]
  | case2 byte rest letter decoded ih =>
    rw [fromUtf8, decoded] at valid
    obtain ⟨tail, later, rfl⟩ := Option.map_eq_some_iff.mp valid
    rw [fromUtf8Lossy, decoded]
    simp only [ih later]
  | case3 byte rest invalid =>
    rw [fromUtf8, invalid] at valid
    cases valid

/-- `char::is_whitespace`. -/
def isWhiteSpace (letter : Char) : Bool :=
  let code := letter.toNat
  decide (9 ≤ code ∧ code ≤ 13 ∨ code = 32 ∨ code = 0x85 ∨ code = 0xA0 ∨ code = 0x1680 ∨
    0x2000 ≤ code ∧ code ≤ 0x200A ∨ code = 0x2028 ∨ code = 0x2029 ∨ code = 0x202F ∨ code = 0x205F ∨
    code = 0x3000)

def trim (value : Text) : Text :=
  ((value.dropWhile isWhiteSpace).reverse.dropWhile isWhiteSpace).reverse

theorem dropWhile_of_none {α : Type} {drops : α → Bool} {values : List α} (kept : ∀ value ∈ values, drops value = false) :
    values.dropWhile drops = values := by
  cases values with
  | nil => rfl
  | cons value rest => exact dropWhile_cons_of_neg (by rw [kept value mem_cons_self]; decide)

theorem trim_of_solid (solid : ∀ letter ∈ value, isWhiteSpace letter = false) : trim value = value := by
  rw [trim, dropWhile_of_none solid, dropWhile_of_none fun letter member => solid letter (mem_reverse.mp member),
    reverse_reverse]

/-- `replace('\\', "/")`. -/
def forwardSlashes (value : Text) : Text := value.map fun letter => if letter = '\\' then '/' else letter

theorem forwardSlashes_append (left right : Text) :
    forwardSlashes (left ++ right) = forwardSlashes left ++ forwardSlashes right :=
  map_append

theorem forwardSlashes_length (value : Text) : (forwardSlashes value).length = value.length := length_map _

theorem forwardSlashes_eq_self (slashed : '\\' ∉ value) : forwardSlashes value = value := by
  have fixed : ∀ letter ∈ value, (if letter = '\\' then '/' else letter) = id letter := by
    intro letter member
    refine if_neg fun same => slashed ?_
    rw [← same]
    exact member
  rw [forwardSlashes, map_congr_left fixed, map_id]

theorem backslash_not_mem_forwardSlashes (value : Text) : '\\' ∉ forwardSlashes value := by
  rw [forwardSlashes, mem_map]
  rintro ⟨letter, _, same⟩
  split at same
  case isTrue => cases same
  case isFalse other => exact other same

theorem forwardSlashes_idem (value : Text) : forwardSlashes (forwardSlashes value) = forwardSlashes value :=
  forwardSlashes_eq_self (backslash_not_mem_forwardSlashes value)

theorem mem_forwardSlashes_iff (slash : letter ≠ '/') (backslash : letter ≠ '\\') :
    letter ∈ forwardSlashes value ↔ letter ∈ value := by
  rw [forwardSlashes, mem_map]
  constructor
  · intro found
    obtain ⟨other, member, same⟩ := found
    split at same
    case isTrue => exact absurd same.symm slash
    case isFalse => exact same ▸ member
  · intro member
    exact ⟨letter, member, if_neg backslash⟩

theorem head_forwardSlashes :
    (forwardSlashes value).head? = some '/' ↔ value.head? = some '/' ∨ value.head? = some '\\' := by
  cases value with
  | nil => simp [forwardSlashes]
  | cons letter rest =>
    rw [forwardSlashes, map_cons, head?_cons, head?_cons]
    simp only [Option.some.injEq]
    constructor
    · intro same
      split at same
      case isTrue back => exact .inr back
      case isFalse => exact .inl same
    · intro either
      rcases either with rfl | rfl
      · rfl
      · rfl

theorem splitOn_forwardSlashes (value : Text) :
    (forwardSlashes value).splitOn '/' = value.splitOnP fun letter => letter = '/' ∨ letter = '\\' := by
  induction value with
  | nil => rfl
  | cons letter rest ih =>
    rw [splitOn] at ih
    rw [forwardSlashes, map_cons, splitOn, splitOnP_cons_eq_if_modifyHead,
      splitOnP_cons_eq_if_modifyHead, ← ih, forwardSlashes]
    by_cases separator : letter = '/' ∨ letter = '\\'
    · rcases separator with rfl | rfl
      · rfl
      · rfl
    · have other : letter ≠ '/' := fun same => separator (.inl same)
      rw [if_neg fun same => separator (.inr same), if_neg (by simpa using other), if_neg (by simpa using separator)]

/-- `join("/")`. -/
def joinSlash (segments : List Text) : Text := ['/'].intercalate segments

theorem intercalate_cons_flatMap {α : Type} (separator : α) (segment : List α) (segments : List (List α)) :
    [separator].intercalate (segment :: segments) = segment ++ segments.flatMap fun next => separator :: next := by
  induction segments generalizing segment with
  | nil => rw [intercalate_singleton, flatMap_nil, append_nil]
  | cons next segments ih =>
    rw [intercalate_cons_cons, ih next, flatMap_cons, append_assoc]
    rfl

theorem mem_intercalate {α : Type} {mark value : α} {parts : List (List α)} (member : value ∈ [mark].intercalate parts) :
    value = mark ∨ ∃ part ∈ parts, value ∈ part := by
  cases parts with
  | nil => cases member
  | cons part parts =>
    rw [intercalate_cons_flatMap, mem_append, mem_flatMap] at member
    rcases member with first | ⟨next, known, inside⟩
    · exact .inr ⟨part, mem_cons_self, first⟩
    · exact (mem_cons.mp inside).imp_right fun rest => ⟨next, mem_cons_of_mem _ known, rest⟩

theorem joinSlash_cons (segment : Text) (segments : List Text) :
    joinSlash (segment :: segments) = segment ++ segments.flatMap fun next => '/' :: next :=
  intercalate_cons_flatMap '/' segment segments

def isDigit (byte : UInt8) : Bool := decide (48 ≤ byte ∧ byte ≤ 57)

theorem ne_of_isDigit {other : UInt8} (digit : isDigit first = true) (sign : isDigit other = false) :
    first ≠ other := by
  intro same
  rw [same, sign] at digit
  cases digit

theorem takeWhile_append_stop {α : Type} {keep : α → Bool} {front : List α} {stop : α} {rest : List α}
    (kept : front.all keep = true) (stops : keep stop = false) :
    (front ++ stop :: rest).takeWhile keep = front ∧ (front ++ stop :: rest).dropWhile keep = stop :: rest := by
  have all : ∀ value ∈ front, keep value = true := all_eq_true.mp kept
  constructor
  · rw [takeWhile_append_of_pos all, takeWhile_cons_of_neg (by simp [stops]), append_nil]
  · rw [dropWhile_append_of_pos all, dropWhile_cons_of_neg (by simp [stops])]

/-- The value of a nonempty string of decimal digits. -/
def decimalValue (digits : Bytes) : Option Nat :=
  if digits.isEmpty || !digits.all isDigit then none
  else some (digits.foldl (fun value digit => value * 10 + (digit.toNat - 48)) 0)

/-- `str::parse` for an unsigned type with values below `limit`. -/
def parseUnsigned (limit : Nat) (text : Bytes) : Option Nat :=
  let digits :=
    match text with
    | 43 :: digits => digits
    | digits => digits
  (decimalValue digits).filter fun value => decide (value < limit)

theorem parseUnsigned_lt {value : Nat} {text : Bytes} (parsed : parseUnsigned limit text = some value) :
    value < limit := by
  have kept := (Option.filter_eq_some_iff.mp parsed).2
  exact of_decide_eq_true kept

/-- The text of a `ParseIntError`. -/
def parseIntMessage (limit : Nat) (text : Bytes) : String :=
  let digits :=
    match text with
    | 43 :: digits => digits
    | digits => digits
  if text.isEmpty then "cannot parse integer from empty string"
  else if (decimalValue (digits.takeWhile isDigit)).any fun value => decide (limit ≤ value) then
    "number too large to fit in target type"
  else "invalid digit found in string"

def parseNumber (limit : Nat) (text : Bytes) : Result Nat :=
  match parseUnsigned limit text with
  | some value => .ok value
  | none => .error (.parse (parseIntMessage limit text))

theorem parseNumber_eq_ok {size : Nat} :
    parseNumber limit bytes = .ok size ↔ parseUnsigned limit bytes = some size := by
  rw [parseNumber]
  cases parseUnsigned limit bytes with
  | none => simp
  | some found => simp

/-- Whether `str::parse::<i64>` accepts a text without a plus sign. -/
def parsesAsI64 (text : Bytes) : Bool :=
  match text with
  | 45 :: digits => (decimalValue digits).any fun value => decide (value ≤ 2 ^ 63)
  | digits => (decimalValue digits).any fun value => decide (value < 2 ^ 63)

/-- `str::parse::<i64>`. -/
def parseI64 (text : Bytes) : Option Int :=
  match text with
  | 45 :: digits => ((decimalValue digits).filter fun value => decide (value ≤ 2 ^ 63)).map fun value => -Int.ofNat value
  | 43 :: digits => ((decimalValue digits).filter fun value => decide (value < 2 ^ 63)).map Int.ofNat
  | digits => ((decimalValue digits).filter fun value => decide (value < 2 ^ 63)).map Int.ofNat

/-- `to_string` of an unsigned number. -/
def numeral (value : Nat) : Text := Nat.toDigits 10 value

def decimal (value : Nat) : Bytes := utf8 (numeral value)

theorem numeral_isDigit {value : Nat} (member : letter ∈ numeral value) : 48 ≤ letter.toNat ∧ letter.toNat ≤ 57 := by
  have digit := Nat.isDigit_of_mem_toDigits (by decide) (by decide) member
  simp only [Char.isDigit, Bool.and_eq_true, decide_eq_true_eq] at digit
  exact digit

theorem not_mem_numeral {value : Nat} (outside : ¬(48 ≤ letter.toNat ∧ letter.toNat ≤ 57)) : letter ∉ numeral value :=
  fun member => outside (numeral_isDigit member)

theorem utf8EncodeChar_ascii (small : letter.toNat ≤ 127) :
    String.utf8EncodeChar letter = [UInt8.ofNat letter.toNat] := by
  have size : letter.utf8Size = 1 := Char.utf8Size_eq_one_iff.mpr small
  rw [String.utf8EncodeChar_eq_singleton size]
  rfl

theorem utf8_ascii (small : ∀ letter ∈ value, letter.toNat ≤ 127) :
    utf8 value = value.map fun letter => UInt8.ofNat letter.toNat := by
  induction value with
  | nil => rfl
  | cons letter rest ih =>
    rw [utf8_cons, utf8EncodeChar_ascii (small letter mem_cons_self),
      ih fun other member => small other (mem_cons_of_mem _ member)]
    rfl

section

variable (small : literal.toList.all (fun letter => letter.toNat ≤ 127) = true)
include small

theorem utf8_text : utf8 (text literal) = ascii literal :=
  utf8_ascii fun letter member => of_decide_eq_true (all_eq_true.mp small letter member)

theorem fromUtf8Lossy_ascii : fromUtf8Lossy (ascii literal) = text literal := by
  rw [← utf8_text small, fromUtf8Lossy_utf8]

end

theorem decimal_eq (value : Nat) : decimal value = (numeral value).map fun letter => UInt8.ofNat letter.toNat :=
  utf8_ascii fun _ member => (numeral_isDigit member).2.trans (by decide)

theorem numeral_injective : Function.Injective numeral := by
  intro left right same
  have value := congrArg (fun letters => Nat.ofDigitChars 10 letters 0) same
  simpa [numeral] using value

theorem numeral_ne_nil (value : Nat) : numeral value ≠ [] := Nat.toDigits_ne_nil

theorem decimal_ne_nil (value : Nat) : decimal value ≠ [] := by
  rw [decimal_eq]
  simpa using numeral_ne_nil value

theorem decimal_length (value : Nat) : (decimal value).length = (numeral value).length := by
  rw [decimal_eq, length_map]

theorem decimal_all_isDigit (value : Nat) : (decimal value).all isDigit = true := by
  rw [decimal_eq, all_map, all_eq_true]
  intro letter member
  obtain ⟨lower, upper⟩ := numeral_isDigit member
  have size : letter.toNat % 256 = letter.toNat := Nat.mod_eq_of_lt (by omega)
  simp [isDigit, UInt8.le_iff_toNat_le, size, lower, upper]

theorem foldl_numeral {letters : Text} (digits : ∀ letter ∈ letters, letter.toNat ≤ 57) (start : Nat) :
    (letters.map fun letter => UInt8.ofNat letter.toNat).foldl
      (fun value digit => value * 10 + (digit.toNat - 48)) start = Nat.ofDigitChars 10 letters start := by
  induction letters generalizing start with
  | nil => rfl
  | cons letter rest ih =>
    have size : letter.toNat % 256 = letter.toNat :=
      Nat.mod_eq_of_lt ((digits letter mem_cons_self).trans_lt (by decide))
    rw [map_cons, foldl_cons, Nat.ofDigitChars_cons, ih fun other member =>
      digits other (mem_cons_of_mem _ member)]
    simp [size, Nat.mul_comm]

@[simp]
theorem decimalValue_decimal (value : Nat) : decimalValue (decimal value) = some value := by
  have nonempty : (decimal value).isEmpty = false := by simpa using decimal_ne_nil value
  rw [decimalValue, nonempty, decimal_all_isDigit, decimal_eq, foldl_numeral fun _ member => (numeral_isDigit member).2]
  simp [numeral]

theorem decimal_head_isDigit {value : Nat} {rest : Bytes} (shape : decimal value = first :: rest) :
    isDigit first = true := by
  have digits := decimal_all_isDigit value
  rw [shape, all_cons, Bool.and_eq_true] at digits
  exact digits.1

theorem digits_of_decimalValue {value : Nat} (known : decimalValue digits = some value) :
    digits ≠ [] ∧ digits.all isDigit = true := by
  rw [decimalValue] at known
  split at known
  case isTrue => cases known
  case isFalse digits => simpa using digits

theorem parseUnsigned_of_decimalValue {value : Nat} (limit : Nat) (known : decimalValue digits = some value) :
    parseUnsigned limit digits = (some value).filter fun value => decide (value < limit) := by
  obtain ⟨nonempty, all⟩ := digits_of_decimalValue known
  obtain ⟨first, rest, shape⟩ := exists_cons_of_ne_nil nonempty
  rw [shape, all_cons, Bool.and_eq_true] at all
  have unsigned : first ≠ 43 := ne_of_isDigit all.1 (by decide)
  rw [← known, shape]
  simp [parseUnsigned, unsigned]

theorem parseUnsigned_decimal_filter (limit value : Nat) :
    parseUnsigned limit (decimal value) = (some value).filter fun value => decide (value < limit) :=
  parseUnsigned_of_decimalValue limit (decimalValue_decimal value)

theorem parseUnsigned_decimal {value : Nat} (small : value < limit) :
    parseUnsigned limit (decimal value) = some value := by
  rw [parseUnsigned_decimal_filter]
  simp [small]

theorem parseNumber_decimal {value found : Nat} (parsed : parseNumber limit (decimal value) = .ok found) :
    found = value := by
  rw [parseNumber, parseUnsigned_decimal_filter] at parsed
  split at parsed
  case h_1 kept =>
    cases parsed
    exact (Option.some.inj (Option.filter_eq_some_iff.mp kept).1).symm
  case h_2 => cases parsed

theorem parsesAsI64_decimal (value : Nat) : parsesAsI64 (decimal value) = decide (value < 2 ^ 63) := by
  obtain ⟨first, rest, shape⟩ := exists_cons_of_ne_nil (decimal_ne_nil value)
  have digit := decimal_head_isDigit shape
  have unsigned : first ≠ 45 := ne_of_isDigit digit (by decide)
  have digits : parsesAsI64 (decimal value) =
      (decimalValue (decimal value)).any fun value => decide (value < 2 ^ 63) := by
    rw [shape]
    simp [parsesAsI64, unsigned]
  rw [digits, decimalValue_decimal, Option.any_some]

/-- Decimal digits without a leading zero. -/
structure Canonical (digits : Bytes) : Prop where
  nonempty : digits ≠ []
  allDigits : digits.all isDigit = true
  leading : digits.head? = some 48 → digits = [48]

theorem isDigit_iff {byte : UInt8} : isDigit byte = true ↔ 48 ≤ byte.toNat ∧ byte.toNat ≤ 57 := by
  simp [isDigit, UInt8.le_iff_toNat_le]

/-- The numbers of decimal digits, the last one first. -/
def digitNumbers (digits : Bytes) : List Nat := (digits.map fun digit => digit.toNat - 48).reverse

theorem digitNumbers_lt (allDigits : digits.all isDigit = true) : ∀ number ∈ digitNumbers digits, number < 10 := by
  intro number member
  obtain ⟨digit, inside, rfl⟩ := mem_map.mp (mem_reverse.mp member)
  have range := isDigit_iff.mp (all_eq_true.mp allDigits digit inside)
  omega

theorem ofDigits_digitNumbers {value : Nat} (known : decimalValue digits = some value) :
    Nat.ofDigits 10 (digitNumbers digits) = value := by
  obtain ⟨-, known⟩ := Option.ite_none_left_eq_some.mp known
  rw [← Option.some.inj known, Nat.ofDigits_eq_foldr, digitNumbers, foldr_reverse, foldl_map]
  simp only [Nat.cast_id, Nat.mul_comm, Nat.add_comm]

theorem head_toDigits {radix value : Nat} (base : 1 < radix) (positive : value ≠ 0) :
    (Nat.toDigits radix value).head? ≠ some '0' := by
  induction value using Nat.strong_induction_on with
  | _ value ih =>
    rw [Nat.toDigits_eq_if base]
    split
    case isTrue => simpa using positive
    case isFalse large =>
      rw [head?_append_of_ne_nil _ Nat.toDigits_ne_nil]
      exact ih (value / radix) (Nat.div_lt_self (by omega) base) (Nat.div_pos (by omega) (by omega)).ne'

theorem decimal_head_ne_zero {value : Nat} (positive : value ≠ 0) : (decimal value).head? ≠ some 48 := by
  have other := head_toDigits (show 1 < 10 by decide) positive
  obtain ⟨letter, rest, shape⟩ := exists_cons_of_ne_nil (numeral_ne_nil value)
  obtain ⟨_, upper⟩ := numeral_isDigit (show letter ∈ numeral value from shape ▸ mem_cons_self)
  rw [← numeral, shape] at other
  rw [decimal_eq, shape]
  intro zero
  have code := congrArg UInt8.toNat (Option.some.inj zero)
  rw [UInt8.toNat_ofNat', Nat.mod_eq_of_lt (by omega)] at code
  exact other (congrArg some (Char.toNat_inj.mp code))

theorem canonical_decimal (value : Nat) : Canonical (decimal value) := by
  refine ⟨decimal_ne_nil value, decimal_all_isDigit value, fun leading => ?_⟩
  by_cases zero : value = 0
  · rw [zero]
    rfl
  · exact absurd leading (decimal_head_ne_zero zero)

theorem digits_eq {value : Nat} (canonical : Canonical digits) (leading : digits.head? ≠ some 48)
    (known : decimalValue digits = some value) : Nat.digits 10 value = digitNumbers digits := by
  rw [← ofDigits_digitNumbers known]
  apply Nat.digits_ofDigits 10 (by decide) _ (digitNumbers_lt canonical.allDigits)
  obtain ⟨first, rest, rfl⟩ := exists_cons_of_ne_nil canonical.nonempty
  have range := isDigit_iff.mp (all_eq_true.mp canonical.allDigits first mem_cons_self)
  have other : first.toNat ≠ 48 := fun same => leading (congrArg some (UInt8.toNat_inj.mp same))
  simp only [digitNumbers, map_cons, reverse_cons, getLast_append_singleton]
  omega

theorem eq_decimal {value : Nat} (canonical : Canonical digits)
    (known : decimalValue digits = some value) : digits = decimal value := by
  have back {digits : Bytes} (allDigits : digits.all isDigit = true) :
      (digitNumbers digits).reverse.map (fun number => UInt8.ofNat (48 + number)) = digits := by
    rw [digitNumbers, reverse_reverse, map_map]
    refine (map_congr_left fun digit member => ?_).trans (map_id _)
    obtain ⟨low, _⟩ := isDigit_iff.mp (all_eq_true.mp allDigits digit member)
    rw [Function.comp_apply, Nat.add_sub_cancel' low, UInt8.ofNat_toNat, id]
  by_cases leading : digits.head? = some 48
  · rw [canonical.leading leading] at known ⊢
    cases known
    rfl
  · have own := digits_eq canonical leading known
    have positive : value ≠ 0 := by
      rintro rfl
      exact canonical.nonempty (by simpa [digitNumbers] using own)
    have same := digits_eq (canonical_decimal value) (decimal_head_ne_zero positive) (decimalValue_decimal value)
    rw [← back canonical.allDigits, ← own, same, back (decimal_all_isDigit value)]

section Splitting

variable {α : Type} {separator : α}

theorem mem_of_mem_splitOn [BEq α] [LawfulBEq α] {letter : α} {value segment : List α}
    (piece : segment ∈ value.splitOn separator) (member : letter ∈ segment) : letter ∈ value ∧ letter ≠ separator := by
  induction value generalizing segment with
  | nil =>
    rw [splitOn_nil, mem_singleton] at piece
    rw [piece] at member
    cases member
  | cons first rest ih =>
    rw [splitOn_cons_eq_if_modifyHead] at piece
    split at piece
    case isTrue =>
      rcases mem_cons.mp piece with rfl | later
      · cases member
      · exact (ih later member).imp_left (mem_cons_of_mem _)
    case isFalse other =>
      obtain ⟨head, tail, shape⟩ := exists_cons_of_ne_nil (splitOn_ne_nil separator rest)
      rw [shape] at ih piece
      rcases mem_cons.mp piece with rfl | later
      · rcases mem_cons.mp member with rfl | inside
        · exact ⟨mem_cons_self, by simpa using other⟩
        · exact (ih mem_cons_self inside).imp_left (mem_cons_of_mem _)
      · exact (ih (mem_cons_of_mem _ later) member).imp_left (mem_cons_of_mem _)

/-- Splitting at two kinds of separators is splitting at one and then at the other. -/
theorem splitOnP_or (first second : α → Bool) (value : List α) :
    value.splitOnP (fun letter => first letter || second letter) =
      (value.splitOnP first).flatMap fun segment => segment.splitOnP second := by
  induction value with
  | nil => rfl
  | cons letter rest ih =>
    obtain ⟨head, tail, shape⟩ := exists_cons_of_ne_nil (splitOnP_ne_nil first rest)
    obtain ⟨part, parts, inner⟩ := exists_cons_of_ne_nil (splitOnP_ne_nil second head)
    rw [splitOnP_cons_eq_if_modifyHead, splitOnP_cons_eq_if_modifyHead, ih, shape]
    cases separator : first letter with
    | true => simp [splitOnP_nil, inner]
    | false => cases other : second letter <;> simp [splitOnP_cons_eq_if_modifyHead, other, inner]

theorem splitOn_append_of_not_mem [BEq α] [LawfulBEq α] {front : List α} (absent : separator ∉ front) (rest : List α) :
    (front ++ rest).splitOn separator = (rest.splitOn separator).modifyHead (front ++ ·) := by
  obtain ⟨head, tail, shape⟩ := exists_cons_of_ne_nil (splitOn_ne_nil separator rest)
  rw [shape]
  induction front with
  | nil => exact shape
  | cons letter front ih =>
    obtain ⟨different, absent⟩ := ne_and_not_mem_of_not_mem_cons absent
    rw [cons_append, splitOn_cons_eq_if_modifyHead, if_neg (by simpa using Ne.symm different), ih absent]
    rfl

theorem utf8EncodeChar_high (large : 127 < letter.toNat) {byte : UInt8}
    (member : byte ∈ String.utf8EncodeChar letter) : 128 ≤ byte.toNat := by
  have small : ¬letter.val.toNat ≤ 127 := Nat.not_le.mpr large
  rw [String.utf8EncodeChar, if_neg small] at member
  repeat' split at member
  all_goals
    simp only [mem_cons, not_mem_nil, or_false] at member
    rcases member with rfl | rfl | rfl | rfl
  all_goals
    rw [UInt8.toNat_ofNat']
    omega

theorem mem_utf8EncodeChar {mark : Char} (small : mark.toNat ≤ 127) :
    UInt8.ofNat mark.toNat ∈ String.utf8EncodeChar letter ↔ letter = mark := by
  have size : (UInt8.ofNat mark.toNat).toNat = mark.toNat := by
    rw [UInt8.toNat_ofNat']
    omega
  constructor
  · intro member
    rcases Nat.lt_or_ge 127 letter.toNat with large | ascii
    · have high := utf8EncodeChar_high large member
      omega
    · rw [utf8EncodeChar_ascii ascii, mem_singleton] at member
      have codes := congrArg UInt8.toNat member
      rw [size, UInt8.toNat_ofNat', Nat.mod_eq_of_lt (by omega)] at codes
      exact Char.toNat_inj.mp codes.symm
  · intro same
    rw [same, utf8EncodeChar_ascii small]
    exact mem_cons_self

theorem splitOn_utf8 {mark : Char} (small : mark.toNat ≤ 127) (value : Text) :
    (utf8 value).splitOn (UInt8.ofNat mark.toNat) = (value.splitOn mark).map utf8 := by
  induction value with
  | nil => rfl
  | cons letter rest ih =>
    rw [utf8_cons, splitOn_cons_eq_if_modifyHead]
    by_cases separator : letter = mark
    · rw [separator, utf8EncodeChar_ascii small, singleton_append, splitOn_cons_eq_if_modifyHead,
        if_pos (beq_self_eq_true _), if_pos (beq_self_eq_true _), ih]
      rfl
    · have absent : UInt8.ofNat mark.toNat ∉ String.utf8EncodeChar letter :=
        fun member => separator ((mem_utf8EncodeChar small).mp member)
      obtain ⟨head, tail, shape⟩ := exists_cons_of_ne_nil (splitOn_ne_nil mark rest)
      rw [splitOn_append_of_not_mem absent, ih, shape, if_neg (by simpa using separator)]
      rfl

end Splitting

section Lossy

/-- An ASCII byte is no continuation, so it ends what comes before it. -/
theorem decodeChar?_append_slash (nonempty : front ≠ []) (invalid : decodeChar? front = none)
    (rest : Bytes) : decodeChar? (front ++ 47 :: rest) = none := by
  rw [Option.eq_none_iff_forall_not_mem]
  intro letter decoded
  obtain ⟨more, shape⟩ := decodeChar?_eq_some.mp decoded
  rcases append_eq_append_iff.mp shape with ⟨extra, encoded, tail⟩ | ⟨extra, inside, _⟩
  · cases extra with
    | nil =>
      rw [append_nil] at encoded
      have valid := decodeChar?_encode letter []
      rw [append_nil, encoded, invalid] at valid
      cases valid
    | cons byte extra =>
      obtain ⟨rfl, _⟩ := cons.inj tail
      have member : (47 : UInt8) ∈ String.utf8EncodeChar letter := by
        rw [encoded]
        exact mem_append_right _ mem_cons_self
      have slash : letter = '/' := (@mem_utf8EncodeChar letter '/' (by decide)).mp member
      rw [slash, utf8EncodeChar_ascii (by decide)] at encoded
      have length := congrArg length encoded
      have positive := length_pos_of_ne_nil nonempty
      rw [length_singleton, length_append, length_cons] at length
      omega
  · rw [inside, decodeChar?_encode] at invalid
    cases invalid

theorem invalidLength_append_slash (nonempty : front ≠ []) (rest : Bytes) :
    invalidLength (front ++ 47 :: rest) = invalidLength front ∧ invalidLength front ≤ front.length := by
  match front, nonempty with
  | [lead], _ =>
    have other : secondFits lead 47 = false := by
      simp only [secondFits]
      repeat' split
      all_goals decide
    refine ⟨?_, by simp [invalidLength]⟩
    simp [invalidLength, other]
  | lead :: second :: [], _ =>
    have other : isContinuation 47 = false := by decide
    constructor
    · simp [invalidLength, other]
    · simp only [invalidLength, head?_nil, Option.any_none]
      repeat' split
      all_goals simp
  | lead :: second :: third :: more, _ =>
    refine ⟨rfl, ?_⟩
    simp only [invalidLength]
    repeat' split
    all_goals simp

theorem fromUtf8Lossy_slash (front rest : Bytes) :
    fromUtf8Lossy (front ++ 47 :: rest) = fromUtf8Lossy front ++ '/' :: fromUtf8Lossy rest := by
  induction front using fromUtf8Lossy.induct with
  | case1 =>
    rw [fromUtf8Lossy.eq_1]
    exact fromUtf8Lossy_encode '/' rest
  | case2 byte more letter decoded ih =>
    obtain ⟨later, shape⟩ := decodeChar?_eq_some.mp decoded
    rw [shape, drop_utf8EncodeChar] at ih
    rw [shape, append_assoc, fromUtf8Lossy_encode, fromUtf8Lossy_encode, ih, cons_append]
  | case3 byte more invalid ih =>
    obtain ⟨same, fits⟩ := invalidLength_append_slash (cons_ne_nil byte more) rest
    have whole := decodeChar?_append_slash (cons_ne_nil byte more) invalid rest
    rw [cons_append] at same whole ⊢
    rw [fromUtf8Lossy, whole, fromUtf8Lossy, invalid]
    dsimp only
    rw [same, ← cons_append, drop_append_of_le_length fits, ih, cons_append]

end Lossy

end BitTorrent
