import BitTorrent.Utils.StrSlice

/-! # Hexadecimal digits

`to_hex` of `utils/util.rs` and the readers of hexadecimal digits.
-/

namespace BitTorrent

open List

/-- A byte as a character of Latin-1, Rust's `byte as char`. -/
def byteChar (byte : UInt8) : Char := Char.ofNat byte.toNat

def hexDigit (upper : Bool) (value : Nat) : Char :=
  if value < 10 then Char.ofNat (48 + value) else Char.ofNat ((if upper then 55 else 87) + value)

/-- Two digits, of which the letters are capitals if `upper`. -/
def hexByte (upper : Bool) (byte : UInt8) : Text := [hexDigit upper (byte.toNat / 16), hexDigit upper (byte.toNat % 16)]

def toHex (bytes : Bytes) : Text := bytes.flatMap (hexByte false)

/-- `to_digit(16)` of the character with this code. -/
def hexValue (digit : UInt8) : Option Nat :=
  if 48 ≤ digit ∧ digit ≤ 57 then some (digit.toNat - 48)
  else if 97 ≤ digit ∧ digit ≤ 102 then some (digit.toNat - 87)
  else if 65 ≤ digit ∧ digit ≤ 70 then some (digit.toNat - 55)
  else none

def hexCharsToByte (first second : UInt8) : Option UInt8 := do
  let high ← hexValue first
  let low ← hexValue second
  return UInt8.ofNat (high * 16 + low)

/-- The bytes of the digits of a text, two and two. -/
def hexPairs : Bytes → Option Bytes
  | first :: second :: rest => do
      let byte ← hexCharsToByte first second
      let bytes ← hexPairs rest
      return byte :: bytes
  | _ => some []

/-- `u8::from_str_radix` of two bytes, which may be a plus sign and a digit. -/
def hexPairValue : Bytes → Option UInt8
  | [43, digit] => (hexValue digit).map UInt8.ofNat
  | [first, second] => hexCharsToByte first second
  | _ => none

/-- The loop of `from_hex` over the offsets of the pairs. -/
def fromHexPairs (hex : Text) : List Nat → Outcome Bytes
  | [] => .ok []
  | offset :: rest =>
    match sliceStr hex offset (offset + 2) with
    | none => .panic
    | some pair =>
      match hexPairValue (utf8 pair) with
      | none => .err (.parse "invalid digit found in string")
      | some byte => (fromHexPairs hex rest).map (byte :: ·)

def fromHex (hex : Text) : Outcome Bytes :=
  if byteLen hex % 2 ≠ 0 then .err (.parse "Hex string must have an even length")
  else fromHexPairs hex (range' 0 (byteLen hex / 2) 2)

section Facts

theorem hexValue_hexDigit (upper : Bool) {value : Nat} (small : value < 16) :
    hexValue (UInt8.ofNat (hexDigit upper value).toNat) = some value := by
  cases upper <;> interval_cases value <;> decide

theorem hexDigit_ascii (upper : Bool) {value : Nat} (small : value < 16) : (hexDigit upper value).toNat ≤ 127 := by
  cases upper <;> interval_cases value <;> decide

theorem hexByte_ascii (upper : Bool) (byte : UInt8) {letter : Char} (member : letter ∈ hexByte upper byte) :
    letter.toNat ≤ 127 := by
  have size := UInt8.toNat_lt byte
  rcases mem_pair.mp member with rfl | rfl
  · exact hexDigit_ascii upper (by omega)
  · exact hexDigit_ascii upper (by omega)

theorem utf8_hexByte (upper : Bool) (byte : UInt8) :
    utf8 (hexByte upper byte) =
      [UInt8.ofNat (hexDigit upper (byte.toNat / 16)).toNat, UInt8.ofNat (hexDigit upper (byte.toNat % 16)).toNat] :=
  utf8_ascii fun _ => hexByte_ascii upper byte

theorem hexCharsToByte_hexByte (upper : Bool) (byte : UInt8) :
    hexCharsToByte (UInt8.ofNat (hexDigit upper (byte.toNat / 16)).toNat)
      (UInt8.ofNat (hexDigit upper (byte.toNat % 16)).toNat) = some byte := by
  have size := UInt8.toNat_lt byte
  have whole : byte.toNat / 16 * 16 + byte.toNat % 16 = byte.toNat := by omega
  rw [hexCharsToByte, hexValue_hexDigit upper (by omega), hexValue_hexDigit upper (by omega)]
  simp only [Option.pure_def, Option.bind_eq_bind, Option.bind_some, whole, UInt8.ofNat_toNat]

theorem hexPairs_toHex (bytes : Bytes) : hexPairs (utf8 (toHex bytes)) = some bytes := by
  induction bytes with
  | nil => rfl
  | cons byte rest ih =>
    rw [toHex, flatMap_cons, utf8_append, utf8_hexByte]
    change hexPairs (_ :: _ :: utf8 (toHex rest)) = _
    rw [hexPairs, hexCharsToByte_hexByte, ih]
    rfl

theorem hexPairs_length {digits bytes : Bytes} {count : Nat} (even : digits.length = count * 2)
    (read : hexPairs digits = some bytes) : bytes.length = count := by
  induction count generalizing digits bytes with
  | zero =>
    rw [Nat.zero_mul, length_eq_zero_iff] at even
    cases even
    cases read
    rfl
  | succ count ih =>
    match digits, even with
    | first :: second :: rest, even =>
      rw [hexPairs, Option.bind_eq_bind, Option.bind_eq_some_iff] at read
      obtain ⟨byte, _, read⟩ := read
      rw [Option.bind_eq_bind, Option.bind_eq_some_iff] at read
      obtain ⟨others, tail, read⟩ := read
      cases read
      rw [length_cons, ih _ tail]
      rw [length_cons, length_cons] at even
      omega
    | [_], even =>
      rw [length_singleton] at even
      omega
    | [], even =>
      rw [length_nil] at even
      omega

theorem utf8_toHex_length (bytes : Bytes) : (utf8 (toHex bytes)).length = bytes.length * 2 := by
  induction bytes with
  | nil => rfl
  | cons byte rest ih =>
    rw [toHex] at ih ⊢
    rw [flatMap_cons, utf8_append, utf8_hexByte, length_append, ih]
    simp only [length_cons, length_nil]
    omega

end Facts

section Slices

variable {hex : Text}

/-- The two bytes at an offset are a string and two digits. -/
def PairReads (hex : Text) (offset : Nat) : Prop :=
  ((sliceStr hex offset (offset + 2)).bind fun pair => hexPairValue (utf8 pair)).isSome = true

/-- All pairs in front of a character are digits, and a pair ends inside this character. -/
def HexCut (hex : Text) : Prop :=
  byteLen hex % 2 = 0 ∧ ∃ pair, (∀ earlier < pair, PairReads hex (2 * earlier)) ∧ CutsInside hex (2 * pair + 2)

theorem fromHexPairs_cons_panic {offset : Nat} {rest : List Nat} :
    fromHexPairs hex (offset :: rest) = .panic ↔
      sliceStr hex offset (offset + 2) = none ∨ PairReads hex offset ∧ fromHexPairs hex rest = .panic := by
  rw [fromHexPairs, PairReads]
  cases sliceStr hex offset (offset + 2) with
  | none => simp
  | some pair =>
    cases value : hexPairValue (utf8 pair) with
    | none => simp [value]
    | some byte => simp [value, Outcome.map_eq_panic]

theorem fromHexPairs_panic {start count : Nat} :
    fromHexPairs hex (range' start count 2) = .panic ↔
      ∃ pair < count, (∀ earlier < pair, PairReads hex (start + 2 * earlier)) ∧
        sliceStr hex (start + 2 * pair) (start + 2 * pair + 2) = none := by
  induction count generalizing start with
  | zero => simp [fromHexPairs]
  | succ count ih =>
    have shifted : ∀ pair, start + 2 + 2 * pair = start + 2 * (pair + 1) := by omega
    rw [range'_succ, fromHexPairs_cons_panic, ih]
    simp only [shifted]
    constructor
    · intro panics
      rcases panics with cut | ⟨first, pair, inside, reads, cut⟩
      · exact ⟨0, Nat.succ_pos count, fun _ impossible => absurd impossible (Nat.not_lt_zero _), cut⟩
      · refine ⟨pair + 1, Nat.succ_lt_succ inside, fun earlier before => ?_, cut⟩
        cases earlier with
        | zero => exact first
        | succ earlier => exact reads earlier (Nat.lt_of_succ_lt_succ before)
    · intro panics
      obtain ⟨pair, inside, reads, cut⟩ := panics
      cases pair with
      | zero => exact .inl cut
      | succ pair =>
        exact .inr ⟨reads 0 (Nat.succ_pos pair), pair, Nat.lt_of_succ_lt_succ inside,
          fun earlier before => reads (earlier + 1) (Nat.succ_lt_succ before), cut⟩

theorem boundary_of_pairReads {offset : Nat} (reads : PairReads hex offset) : isCharBoundary hex (offset + 2) = true := by
  rw [PairReads, Option.isSome_iff_exists] at reads
  obtain ⟨byte, reads⟩ := reads
  obtain ⟨pair, cut, _⟩ := Option.bind_eq_some_iff.mp reads
  by_contra inside
  rw [Bool.not_eq_true] at inside
  have none := (sliceStr_eq_none (Nat.le_add_right offset 2)).mpr (.inr inside)
  rw [cut] at none
  cases none

/-- `from_hex` panics exactly if a pair of bytes that it reaches ends inside a character. -/
theorem fromHex_panic : fromHex hex = .panic ↔ HexCut hex := by
  rw [fromHex, HexCut]
  split
  case isTrue odd => simp [odd]
  case isFalse even =>
    rw [fromHexPairs_panic, and_iff_right (not_not.mp even)]
    simp only [Nat.zero_add, CutsInside]
    refine exists_congr fun pair => ?_
    constructor
    · intro panics
      obtain ⟨inside, reads, cut⟩ := panics
      refine ⟨reads, by omega, ((sliceStr_eq_none (Nat.le_add_right _ 2)).mp cut).resolve_left ?_⟩
      cases pair with
      | zero => simp [isCharBoundary_zero]
      | succ pair => simp [boundary_of_pairReads (reads pair (Nat.lt_succ_self pair)), Nat.mul_succ]
    · intro panics
      obtain ⟨reads, inside, cut⟩ := panics
      exact ⟨by omega, reads, (sliceStr_eq_none (Nat.le_add_right _ 2)).mpr (.inr cut)⟩

end Slices

end BitTorrent
