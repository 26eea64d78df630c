import BitTorrent.Library.BigEndian
import BitTorrent.Utils.StrSlice

/-! # Addresses as text

`Display` and `FromStr` of the IP addresses of the standard library.
-/

namespace BitTorrent

open List

abbrev Ipv4Addr := List.Vector UInt8 4

/-- The octets of an address. -/
abbrev Ipv6Addr := List.Vector UInt8 16

namespace IpText

section Writing

def dotted (octets : Bytes) : Text := ['.'].intercalate (octets.map fun octet => numeral octet.toNat)

def ipv4Text (address : Ipv4Addr) : Text := dotted address.toList

def segmentsOf : Bytes → List Nat
  | high :: low :: rest => (high.toNat * 256 + low.toNat) :: segmentsOf rest
  | _ => []

structure Span where
  start : Nat
  len : Nat

/-- The first of the longest runs of zeros. -/
def longestZeros : List Nat → Nat → Span → Span → Span
  | [], _, _, longest => longest
  | segment :: rest, index, current, longest =>
    if segment = 0 then
      let current : Span := ⟨if current.len = 0 then index else current.start, current.len + 1⟩
      longestZeros rest (index + 1) current (if longest.len < current.len then current else longest)
    else longestZeros rest (index + 1) ⟨0, 0⟩ longest

/-- Groups of hexadecimal digits between colons. -/
def groupsText (segments : List Nat) : Text := [':'].intercalate (segments.map (Nat.toDigits 16))

def toIpv4Mapped (address : Ipv6Addr) : Option Ipv4Addr :=
  if address.toList.take 12 = replicate 10 0 ++ [255, 255] then some (address.drop 12) else none

def ipv6Text (address : Ipv6Addr) : Text :=
  match toIpv4Mapped address with
  | some mapped => text "::ffff:" ++ ipv4Text mapped
  | none =>
    let segments := segmentsOf address.toList
    let zeroes := longestZeros segments 0 ⟨0, 0⟩ ⟨0, 0⟩
    if 1 < zeroes.len then
      groupsText (segments.take zeroes.start) ++ text "::" ++ groupsText (segments.drop (zeroes.start + zeroes.len))
    else groupsText segments

end Writing

section Reading

/-- `char::to_digit`. -/
def toDigit (radix : Nat) (letter : Char) : Option Nat :=
  let code := letter.toNat
  let value :=
    if 48 ≤ code ∧ code ≤ 57 then some (code - 48)
    else if 97 ≤ code ∧ code ≤ 122 then some (code - 87)
    else if 65 ≤ code ∧ code ≤ 90 then some (code - 55)
    else none
  value.filter fun value => decide (value < radix)

def digitsValue (radix : Nat) (digits : Text) : Nat :=
  digits.foldl (fun value digit => value * radix + (toDigit radix digit).getD 0) 0

/-- The digits at the front, at most `maxDigits` of them, as a number below `limit`. -/
def readNumber (radix maxDigits : Nat) (allowZeroPrefix : Bool) (limit : Nat) (input : Text) : Option (Nat × Text) :=
  let digits := input.takeWhile fun letter => (toDigit radix letter).isSome
  if digits = [] ∨ maxDigits < digits.length then none
  else if !allowZeroPrefix && decide (digits.head? = some '0') && decide (1 < digits.length) then none
  else if digitsValue radix digits < limit then
    some (digitsValue radix digits, input.dropWhile fun letter => (toDigit radix letter).isSome)
  else none

/-- What comes first at the front, and behind a separator later. -/
def readSeparator {α : Type} (separator : Char) (index : Nat) (read : Text → Option (α × Text)) (input : Text) :
    Option (α × Text) :=
  if index = 0 then read input
  else
    match input with
    | letter :: rest => if letter = separator then read rest else none
    | [] => none

/-- The octets of an address from the `index`-th on. -/
def readOctets : Nat → Nat → Text → Option (Bytes × Text)
  | 0, _, input => some ([], input)
  | count + 1, index, input => do
      let (octet, input) ← readSeparator '.' index (readNumber 10 3 false 256) input
      let (octets, input) ← readOctets count (index + 1) input
      return (UInt8.ofNat octet :: octets, input)

def readIpv4 (input : Text) : Option (Bytes × Text) := readOctets 4 0 input

/-- Groups up to a number of them, of which the last two may be written as an IPv4 address. -/
def readGroups : Nat → Text → List Nat → List Nat × Bool × Text
  | 0, input, groups => (groups, false, input)
  | left + 1, input, groups =>
    match if left = 0 then none else readSeparator ':' groups.length readIpv4 input with
    | some (octets, input) => (groups ++ segmentsOf octets, true, input)
    | none =>
      match readSeparator ':' groups.length (readNumber 16 4 true 65536) input with
      | some (group, input) => readGroups left input (groups ++ [group])
      | none => (groups, false, input)

/-- The rest of an address with two colons, which stand for all the groups that are missing. -/
def readShortened (head : List Nat) : Text → Option (List Nat × Text)
  | ':' :: ':' :: input =>
    let (tail, _, input) := readGroups (8 - (head.length + 1)) input []
    some (head ++ replicate (8 - head.length - tail.length) 0 ++ tail, input)
  | _ => none

def readIpv6 (input : Text) : Option (List Nat × Text) :=
  let (head, headIpv4, input) := readGroups 8 input []
  if head.length = 8 then some (head, input) else if headIpv4 then none else readShortened head input

/-- The octets that were read, if there is nothing behind them. -/
def whole {size : Nat} (read : Option (Bytes × Text)) : Option (List.Vector UInt8 size) :=
  match read with
  | some (octets, []) => if fits : octets.length = size then some ⟨octets, fits⟩ else none
  | _ => none

def parseIpv4 (input : Text) : Option Ipv4Addr := if 15 < byteLen input then none else whole (readIpv4 input)

def parseIpv6 (input : Text) : Option Ipv6Addr :=
  whole ((readIpv6 input).map fun read => (read.1.flatMap (BigEndian.toBytes 2), read.2))

end Reading

section Digits

variable {radix value : Nat}

theorem toDigit_digitChar (few : radix ≤ 16) (small : value < radix) : toDigit radix value.digitChar = some value := by
  have bounded : value < 16 := small.trans_le few
  interval_cases value <;> simp [toDigit, Nat.digitChar, small]

section

variable (base : 1 < radix) (few : radix ≤ 16)
include base few

theorem toDigits_isSome {letter : Char}
    (member : letter ∈ Nat.toDigits radix value) : (toDigit radix letter).isSome = true := by
  induction value using Nat.strong_induction_on with
  | _ value ih =>
    rw [Nat.toDigits_eq_if base] at member
    split at member
    case isTrue small =>
      rw [mem_singleton.mp member, toDigit_digitChar few small]
      rfl
    case isFalse large =>
      rcases mem_append.mp member with earlier | last
      · exact ih (value / radix) (Nat.div_lt_self (by omega) base) earlier
      · rw [mem_singleton.mp last, toDigit_digitChar few (Nat.mod_lt _ (by omega))]
        rfl

theorem digitsValue_toDigits : digitsValue radix (Nat.toDigits radix value) = value := by
  induction value using Nat.strong_induction_on with
  | _ value ih =>
    rw [Nat.toDigits_eq_if base]
    split
    case isTrue small => simp [digitsValue, toDigit_digitChar few small]
    case isFalse large =>
      have upper := ih (value / radix) (Nat.div_lt_self (by omega) base)
      rw [digitsValue] at upper
      rw [digitsValue, foldl_append, upper, foldl_cons, foldl_nil,
        toDigit_digitChar few (Nat.mod_lt _ (by omega)), Option.getD_some, Nat.div_add_mod']

end

end Digits

section Octets

theorem numeral_octet (octet : UInt8) :
    (∀ letter ∈ numeral octet.toNat, (toDigit 10 letter).isSome = true) ∧ numeral octet.toNat ≠ [] ∧
      (numeral octet.toNat).length ≤ 3 ∧
      ((numeral octet.toNat).head? = some '0' → (numeral octet.toNat).length ≤ 1) ∧
      digitsValue 10 (numeral octet.toNat) = octet.toNat := by
  refine ⟨fun letter => toDigits_isSome (by decide) (by decide), Nat.toDigits_ne_nil,
    (Nat.length_toDigits_le_iff (by decide) (by decide)).mpr (octet.toNat_lt.trans (by decide)), ?_,
    digitsValue_toDigits (by decide) (by decide)⟩
  intro zero
  rcases Nat.eq_zero_or_pos octet.toNat with none | positive
  · rw [none]
    exact Nat.le_refl 1
  · exact absurd zero (head_toDigits (by decide) positive.ne')

/-- The octets behind the first. -/
def later (octets : Bytes) : Text := octets.flatMap fun octet => '.' :: numeral octet.toNat

theorem readNumber_octet (octet : UInt8) (octets : Bytes) :
    readNumber 10 3 false 256 (numeral octet.toNat ++ later octets) = some (octet.toNat, later octets) := by
  obtain ⟨digits, nonempty, short, leading, value⟩ := numeral_octet octet
  have taken : (numeral octet.toNat ++ later octets).takeWhile (fun letter => (toDigit 10 letter).isSome) =
      numeral octet.toNat := by
    rw [takeWhile_append_of_pos digits]
    cases octets <;> simp [later, toDigit]
  have dropped : (numeral octet.toNat ++ later octets).dropWhile (fun letter => (toDigit 10 letter).isSome) = later octets := by
    rw [dropWhile_append_of_pos digits]
    cases octets <;> simp [later, toDigit]
  rw [readNumber]
  simp only [taken, dropped, value]
  rw [if_neg (not_or.mpr ⟨nonempty, Nat.not_lt.mpr short⟩), if_neg, if_pos octet.toNat_lt]
  simpa using leading

theorem readOctets_later (octets : Bytes) (index : Nat) :
    readOctets octets.length (index + 1) (later octets) = some (octets, []) := by
  induction octets generalizing index with
  | nil => rfl
  | cons octet octets ih =>
    have front : later (octet :: octets) = '.' :: (numeral octet.toNat ++ later octets) := rfl
    rw [front, length_cons, readOctets, readSeparator, if_neg (Nat.succ_ne_zero index)]
    simp only [if_true, readNumber_octet, ih, Option.bind_eq_bind, Option.bind_some, UInt8.ofNat_toNat, Option.pure_def]

theorem dotted_cons (octet : UInt8) (octets : Bytes) : dotted (octet :: octets) = numeral octet.toNat ++ later octets := by
  rw [dotted, map_cons, intercalate_cons_flatMap, flatMap_map, later]

theorem readIpv4_ipv4Text (address : Ipv4Addr) : readIpv4 (ipv4Text address) = some (address.toList, []) := by
  obtain ⟨first, octets, shape⟩ := exists_cons_of_length_eq_add_one address.toList_length
  have three : octets.length + 1 = 4 := by rw [← length_cons, ← shape, address.toList_length]
  rw [ipv4Text, shape, dotted_cons, readIpv4, ← three, readOctets, readSeparator.eq_def, if_pos rfl, readNumber_octet]
  simp only [Option.bind_eq_bind, Option.bind_some, readOctets_later, UInt8.ofNat_toNat, Option.pure_def]

theorem mem_dotted {octets : Bytes} {letter : Char} (member : letter ∈ dotted octets) :
    letter = '.' ∨ ∃ octet : UInt8, letter ∈ numeral octet.toNat := by
  refine (mem_intercalate member).imp_right ?_
  rintro ⟨part, known, digit⟩
  obtain ⟨octet, _, rfl⟩ := mem_map.mp known
  exact ⟨octet, digit⟩

theorem dotted_length (octets : Bytes) : (dotted octets).length ≤ 4 * octets.length - 1 := by
  cases octets with
  | nil => exact Nat.le_refl 0
  | cons first octets =>
    have each : (later octets).length ≤ 4 * octets.length := by
      induction octets with
      | nil => exact Nat.le_refl 0
      | cons octet octets ih =>
        have short := (numeral_octet octet).2.2.1
        simp only [later, flatMap_cons, length_append, length_cons] at ih ⊢
        omega
    have short := (numeral_octet first).2.2.1
    rw [dotted_cons, length_append, length_cons]
    omega

theorem byteLen_ipv4Text (address : Ipv4Addr) : byteLen (ipv4Text address) ≤ 15 := by
  have ascii : ∀ letter ∈ ipv4Text address, letter.toNat ≤ 127 := by
    intro letter member
    rcases mem_dotted member with rfl | ⟨octet, digit⟩
    · decide
    · exact (numeral_isDigit digit).2.trans (by decide)
  have short := dotted_length address.toList
  rw [address.toList_length] at short
  rw [byteLen, utf8_ascii ascii, length_map]
  exact short

theorem parseIpv4_ipv4Text (address : Ipv4Addr) : parseIpv4 (ipv4Text address) = some address := by
  rw [parseIpv4, if_neg (Nat.not_lt.mpr (byteLen_ipv4Text address)), readIpv4_ipv4Text, whole, dif_pos address.toList_length]
  rfl

end Octets

end IpText

end BitTorrent
