import BitTorrent.Library.Parsing
import BitTorrent.Utils.Bencode

/-! # The language of the bencode decoder

The words of bencode with their trees, by the nesting that is allowed, and that the decoder reads
exactly these words.
-/

namespace BitTorrent.Bencode

open Parsing List

/-- The canonical text of an integer. -/
def integerText (value : Int) : Bytes :=
  if value < 0 then 45 :: decimal value.natAbs else decimal value.natAbs

def IsI64 (value : Int) : Prop := -2 ^ 63 ≤ value ∧ value < 2 ^ 63

/-- A string with its length in front. -/
def StringWord : Language UInt8 Bytes := fun word bytes =>
  bytes.length ≤ maxStringLen ∧ word = decimal bytes.length ++ 58 :: bytes

/-- An integer after the leading `i`. -/
def IntegerWord : Language UInt8 Bytes := fun word digits =>
  ∃ value, IsI64 value ∧ digits = integerText value ∧ word = digits ++ [101]

/-- The words with at most `depth` levels of nesting. -/
def Word : Nat → Language UInt8 BNode
  | 0, _, _ => False
  | _ + 1, word, .number digits => ∃ body, IntegerWord body digits ∧ word = 105 :: body
  | _ + 1, word, .string bytes => StringWord word bytes
  | depth + 1, word, .list items => ∃ body, Many 101 (Word depth) body items ∧ word = 108 :: body
  | depth + 1, word, .dictionary entries =>
    ∃ body, Many 101 (Seq StringWord (Word depth)) body entries ∧ word = 100 :: body

theorem decimal_length_le {value digits : Nat} (positive : 0 < digits) (small : value < 10 ^ digits) :
    (decimal value).length ≤ digits := by
  rw [decimal_length, numeral, Nat.length_toDigits_le_iff (by decide) positive]
  exact small

variable {digits : Bytes}

theorem decimalValue_of_canonical (canonical : Canonical digits) :
    ∃ value, decimalValue digits = some value ∧ digits = decimal value := by
  have known : ∃ value, decimalValue digits = some value := by
    rw [decimalValue, canonical.allDigits, if_neg (by simpa using canonical.nonempty)]
    exact ⟨_, rfl⟩
  obtain ⟨value, known⟩ := known
  exact ⟨value, known, eq_decimal canonical known⟩

theorem canonical_iff (allDigits : digits.all isDigit = true) :
    (digits.isEmpty || (digits.head? == some 48 && digits != [48])) = false ↔ Canonical digits := by
  simp only [Bool.or_eq_false_iff, Bool.and_eq_false_iff, isEmpty_eq_false_iff, bne_eq_false_iff_eq, beq_eq_false_iff_ne]
  constructor
  · rintro ⟨nonempty, leading⟩
    exact ⟨nonempty, allDigits, fun zero => leading.resolve_left fun other => other zero⟩
  · intro canonical
    exact ⟨canonical.nonempty, Decidable.or_iff_not_imp_left.mpr fun zero => canonical.leading (not_not.mp zero)⟩

theorem decodeString_finish_eq_ok {lengthBytes after bytes rest : Bytes} (allDigits : lengthBytes.all isDigit = true) :
    decodeString.finish lengthBytes after = .ok (bytes, rest) ↔
      bytes.length ≤ maxStringLen ∧ lengthBytes = decimal bytes.length ∧ ∃ byte, after = byte :: (bytes ++ rest) := by
  unfold decodeString.finish
  constructor
  · intro decoded
    split at decoded
    case isTrue => cases decoded
    case isFalse wellFormed =>
      obtain ⟨length, known, numeral⟩ := decimalValue_of_canonical ((canonical_iff allDigits).mp (by simpa using wellFormed))
      rw [known, Option.getD_some] at decoded
      split at decoded
      case isTrue => cases decoded
      case isFalse =>
        dsimp only at decoded
        split at decoded
        case isTrue => cases decoded
        case isFalse small =>
          split at decoded
          case h_1 => cases decoded
          case h_2 byte body =>
            obtain ⟨enough, decoded⟩ := guard_eq_ok.mp decoded
            cases decoded
            have size : (body.take length).length = length := by
              rw [length_take]
              omega
            rw [size, take_append_drop]
            exact ⟨by omega, numeral, byte, rfl⟩
  · rintro ⟨small, rfl, byte, rfl⟩
    have wellFormed := (canonical_iff allDigits).mpr (canonical_decimal _)
    have short : (decimal bytes.length).length ≤ 10 := decimal_length_le (by decide) (small.trans_lt (by decide))
    rw [if_neg (by rw [wellFormed]; decide), if_neg (by omega), decimalValue_decimal, Option.getD_some,
      if_neg (by omega)]
    dsimp only
    rw [if_neg (by rw [length_append]; omega), take_left, drop_left]

theorem reads_decodeString : Reads decodeString StringWord := by
  intro input bytes rest
  have parts := @List.takeWhile_append_dropWhile _ isDigit input
  have allDigits : (input.takeWhile isDigit).all isDigit = true := all_takeWhile
  constructor
  · intro decoded
    rw [decodeString] at decoded
    split at decoded
    case h_1 byte after shape =>
      obtain ⟨colon, decoded⟩ := guard_eq_ok.mp decoded
      obtain ⟨small, numeral, found, body⟩ := (decodeString_finish_eq_ok allDigits).mp decoded
      rw [shape] at body
      cases body
      rw [shape, not_not.mp colon, numeral] at parts
      exact ⟨decimal bytes.length ++ 58 :: bytes, ⟨small, rfl⟩, by rw [← parts, append_assoc, cons_append]⟩
    case h_2 shape =>
      obtain ⟨_, _, found, body⟩ := (decodeString_finish_eq_ok allDigits).mp decoded
      rw [shape] at body
      cases body
  · rintro ⟨word, ⟨small, rfl⟩, rfl⟩
    obtain ⟨front, back⟩ := @takeWhile_append_stop _ isDigit (decimal bytes.length) 58 (bytes ++ rest)
      (decimal_all_isDigit _) (by decide)
    rw [append_assoc, cons_append, decodeString, front, back]
    exact (decodeString_finish_eq_ok (decimal_all_isDigit _)).mpr ⟨small, rfl, 58, rfl⟩

theorem integerText_of_parse (parses : parsesAsI64 digits = true)
    (leading : digits.head? = some 48 → digits.length ≤ 1) (minus : digits.take 2 ≠ [45, 48]) :
    ∃ value, IsI64 value ∧ digits = integerText value := by
  unfold parsesAsI64 at parses
  split at parses
  case h_1 _ digits =>
    obtain ⟨value, known, parses⟩ := (Option.any_eq_true _ _).mp parses
    rw [decide_eq_true_eq] at parses
    obtain ⟨nonempty, allDigits⟩ := digits_of_decimalValue known
    have zero : digits.head? ≠ some 48 := by
      intro zero
      obtain ⟨rest, rfl⟩ := head?_eq_some_iff.mp zero
      exact minus rfl
    have numeral := eq_decimal ⟨nonempty, allDigits, fun zero_ => absurd zero_ zero⟩ known
    have positive : 0 < value := by
      rcases Nat.eq_zero_or_pos value with rfl | positive
      · rw [numeral] at zero
        exact absurd rfl zero
      · exact positive
    refine ⟨-value, ⟨by omega, by omega⟩, ?_⟩
    rw [integerText, if_pos (by omega), Int.natAbs_neg, Int.natAbs_natCast, ← numeral]
  case h_2 _ other =>
    obtain ⟨value, known, parses⟩ := (Option.any_eq_true _ _).mp parses
    rw [decide_eq_true_eq] at parses
    obtain ⟨nonempty, allDigits⟩ := digits_of_decimalValue known
    have canonical : Canonical digits := by
      refine ⟨nonempty, allDigits, fun zero => ?_⟩
      obtain ⟨rest, rfl⟩ := head?_eq_some_iff.mp zero
      have short := leading zero
      rw [length_cons] at short
      have none : rest = [] := length_eq_zero_iff.mp (by omega)
      rw [none]
    refine ⟨value, ⟨by omega, by omega⟩, ?_⟩
    exact eq_decimal canonical known

theorem parse_integerText {value : Int} (range : IsI64 value) :
    parsesAsI64 (integerText value) = true ∧ (integerText value).length ≤ 20 ∧
      (integerText value).all isNumberByte = true ∧ integerText value ≠ [] ∧
      ((integerText value).head? = some 48 → (integerText value).length ≤ 1) ∧
      (integerText value).take 2 ≠ [45, 48] := by
  obtain ⟨lower, upper⟩ := range
  have numberBytes := decimal_isNumberByte value.natAbs
  have short : (decimal value.natAbs).length ≤ 19 :=
    decimal_length_le (by decide) (show value.natAbs < 10 ^ 19 by omega)
  rw [integerText]
  split
  case isTrue negative =>
    have zero := decimal_head_ne_zero (show value.natAbs ≠ 0 by omega)
    refine ⟨?_, ?_, ?_, cons_ne_nil _ _, ?_, ?_⟩
    · rw [parsesAsI64, decimalValue_decimal, Option.any_some, decide_eq_true_eq]
      omega
    · rw [length_cons]
      omega
    · rw [all_cons, numberBytes]
      rfl
    · intro head
      exact absurd (Option.some.inj head) (by decide)
    · intro front
      obtain ⟨first, rest, shape⟩ := exists_cons_of_ne_nil (decimal_ne_nil value.natAbs)
      rw [shape] at front zero
      have digit : first = 48 := (cons.inj (cons.inj front).2).1
      rw [digit] at zero
      exact zero rfl
  case isFalse =>
    refine ⟨?_, by omega, numberBytes, decimal_ne_nil _, ?_, ?_⟩
    · rw [parsesAsI64_decimal, decide_eq_true_eq]
      omega
    · intro zero
      rw [(canonical_decimal _).leading zero]
      exact Nat.le_refl 1
    · intro front
      obtain ⟨first, rest, shape⟩ := exists_cons_of_ne_nil (decimal_ne_nil value.natAbs)
      have digit := decimal_head_isDigit shape
      rw [shape] at front
      have minus : first = 45 := (cons.inj front).1
      rw [minus] at digit
      cases digit

theorem reads_readInteger : Reads readInteger IntegerWord := by
  intro input digits rest
  have parts := @List.takeWhile_append_dropWhile _ isNumberByte input
  constructor
  · intro read
    rw [readInteger] at read
    split at read
    case h_1 => cases read
    case h_2 byte after shape =>
      obtain ⟨stop, read⟩ := guard_eq_ok.mp read
      obtain ⟨_, read⟩ := guard_eq_ok.mp read
      obtain ⟨checks, read⟩ := guard_eq_ok.mp read
      cases read
      simp only [Bool.or_eq_true, Bool.and_eq_true, beq_iff_eq, decide_eq_true_eq, Bool.not_eq_true', not_or,
        Bool.not_eq_false] at checks
      obtain ⟨⟨⟨-, leading⟩, minus⟩, parses⟩ := checks
      obtain ⟨value, range, numeral⟩ := integerText_of_parse parses
        (fun zero => Nat.le_of_not_lt fun long => leading ⟨zero, long⟩) minus
      rw [shape, not_not.mp stop] at parts
      refine ⟨_, ⟨value, range, numeral, rfl⟩, ?_⟩
      rw [append_assoc, singleton_append]
      exact parts.symm
  · rintro ⟨word, ⟨value, range, rfl, rfl⟩, rfl⟩
    obtain ⟨parses, short, numberBytes, nonempty, leading, minus⟩ := parse_integerText range
    obtain ⟨front, back⟩ := @takeWhile_append_stop _ isNumberByte (integerText value) 101 rest numberBytes (by decide)
    rw [append_assoc, singleton_append, readInteger, front, back]
    dsimp only
    rw [if_neg (by decide), if_neg (by omega), if_neg]
    simp only [Bool.or_eq_true, Bool.and_eq_true, beq_iff_eq, decide_eq_true_eq, Bool.not_eq_true', not_or,
      Bool.not_eq_false, List.isEmpty_iff]
    exact ⟨⟨⟨nonempty, fun zero => absurd zero.2 (Nat.not_lt.mpr (leading zero.1))⟩, minus⟩, parses⟩

section

variable (decode : Bytes → Result (BNode × Bytes)) (rounds : Nat) (input : Bytes)
include decode rounds input

theorem decodeItems_eq :
    decodeItems decode rounds input = manyUntil 101 (.bencode .unexpectedEnd) decode rounds input := by
  induction rounds generalizing input with
  | zero => rfl
  | succ rounds ih => simp only [decodeItems, manyUntil, ih]

theorem decodeEntries_eq :
    decodeEntries decode rounds input = manyUntil 101 (.bencode .unexpectedEnd) (fun input => do
      let (key, input) ← decodeString input
      let (value, input) ← decode input
      return ((key, value), input)) rounds input := by
  induction rounds generalizing input with
  | zero => rfl
  | succ rounds ih =>
    simp only [decodeEntries, manyUntil, ih]
    split
    case isTrue => rfl
    case isFalse =>
      cases decodeString input with
      | error reason => rfl
      | ok found =>
        obtain ⟨key, input⟩ := found
        simp only [bind, Except.bind]
        cases decode input with
        | error reason => rfl
        | ok found => rfl

end

theorem stringWord_head {word bytes : Bytes} (member : StringWord word bytes) :
    ∃ first rest, word = first :: rest ∧ isDigit first = true := by
  obtain ⟨-, rfl⟩ := member
  obtain ⟨first, rest, shape⟩ := exists_cons_of_ne_nil (decimal_ne_nil bytes.length)
  exact ⟨first, rest ++ 58 :: bytes, by rw [shape, cons_append], decimal_head_isDigit shape⟩

theorem avoids_word (depth : Nat) : Avoids 101 (Word depth) := by
  intro word node member
  cases depth with
  | zero => cases member
  | succ depth =>
    cases node with
    | number digits =>
      obtain ⟨body, _, rfl⟩ := member
      exact ⟨105, body, rfl, by decide⟩
    | string bytes =>
      obtain ⟨first, rest, rfl, digit⟩ := stringWord_head member
      exact ⟨first, rest, rfl, ne_of_isDigit digit (by decide)⟩
    | list items =>
      obtain ⟨body, _, rfl⟩ := member
      exact ⟨108, body, rfl, by decide⟩
    | dictionary entries =>
      obtain ⟨body, _, rfl⟩ := member
      exact ⟨100, body, rfl, by decide⟩

theorem avoids_entry (depth : Nat) : Avoids 101 (Seq StringWord (Word depth)) := by
  intro word entry within
  obtain ⟨front, back, member, _, rfl⟩ := within
  obtain ⟨first, rest, rfl, digit⟩ := stringWord_head member
  exact ⟨first, rest ++ back, rfl, ne_of_isDigit digit (by decide)⟩

variable {node : BNode}

section Decoder

variable {depth : Nat} (reads : Reads (decodeBNode depth) (Word depth))
include reads

theorem reads_decodeItems :
    Reads (fun input => decodeItems (decodeBNode depth) (input.length + 1) input) (Many 101 (Word depth)) := by
  simp only [decodeItems_eq]
  exact reads.manyUntil (avoids_word depth)

theorem reads_decodeEntries :
    Reads (fun input => decodeEntries (decodeBNode depth) (input.length + 1) input)
      (Many 101 (Seq StringWord (Word depth))) := by
  simp only [decodeEntries_eq]
  exact (reads_decodeString.seq reads).manyUntil (avoids_entry depth)

/-- What is decoded was a word: the branches of the decoder are the kinds of values. -/
theorem word_of_decodeBNode {input rest : Bytes} (decoded : decodeBNode (depth + 1) input = .ok (node, rest)) :
    ∃ word, Word (depth + 1) word node ∧ input = word ++ rest := by
  cases input with
  | nil => cases decoded
  | cons byte input =>
    rw [decodeBNode] at decoded
    split at decoded
    case isTrue dictionary =>
      obtain ⟨⟨found, after⟩, loop, done⟩ := bind_eq_ok.mp decoded
      cases done
      obtain ⟨body, member, rfl⟩ := (reads_decodeEntries reads _ _ _).mp loop
      exact ⟨100 :: body, ⟨body, member, rfl⟩, by rw [dictionary, cons_append]⟩
    case isFalse =>
      split at decoded
      case isTrue list =>
        obtain ⟨⟨found, after⟩, loop, done⟩ := bind_eq_ok.mp decoded
        cases done
        obtain ⟨body, member, rfl⟩ := (reads_decodeItems reads _ _ _).mp loop
        exact ⟨108 :: body, ⟨body, member, rfl⟩, by rw [list, cons_append]⟩
      case isFalse =>
        split at decoded
        case isTrue integer =>
          obtain ⟨⟨digits, after⟩, read, done⟩ := bind_eq_ok.mp decoded
          cases done
          obtain ⟨body, member, rfl⟩ := (reads_readInteger _ _ _).mp read
          exact ⟨105 :: body, ⟨body, member, rfl⟩, by rw [integer, cons_append]⟩
        case isFalse =>
          split at decoded
          case isTrue =>
            obtain ⟨⟨bytes, after⟩, read, done⟩ := bind_eq_ok.mp decoded
            cases done
            exact (reads_decodeString _ _ _).mp read
          case isFalse => cases decoded

theorem decodeBNode_word {word : Bytes} (member : Word (depth + 1) word node) (rest : Bytes) :
    decodeBNode (depth + 1) (word ++ rest) = .ok (node, rest) := by
  cases node with
  | number digits =>
    obtain ⟨body, integer, rfl⟩ := member
    rw [cons_append, decodeBNode, if_neg (by decide), if_neg (by decide), if_pos rfl, decodeInteger,
      reads_readInteger.run integer]
    rfl
  | string bytes =>
    obtain ⟨first, more, shape, digit⟩ := stringWord_head member
    have read := reads_decodeString.run member rest
    have notDictionary : first ≠ 100 := ne_of_isDigit digit (by decide)
    have notList : first ≠ 108 := ne_of_isDigit digit (by decide)
    have notInteger : first ≠ 105 := ne_of_isDigit digit (by decide)
    rw [shape, cons_append] at read ⊢
    rw [decodeBNode, if_neg notDictionary, if_neg notList, if_neg notInteger, if_pos digit, read]
    rfl
  | list values =>
    obtain ⟨body, many, rfl⟩ := member
    have loop := (reads_decodeItems reads).run many rest
    rw [cons_append, decodeBNode, if_neg (by decide), if_pos rfl, loop]
    rfl
  | dictionary values =>
    obtain ⟨body, many, rfl⟩ := member
    have loop := (reads_decodeEntries reads).run many rest
    rw [cons_append, decodeBNode, if_pos rfl, loop]
    rfl

end Decoder

theorem reads_decodeBNode (depth : Nat) : Reads (decodeBNode depth) (Word depth) := by
  induction depth with
  | zero =>
    intro input node rest
    exact ⟨fun decoded => (nomatch decoded), fun ⟨_, member, _⟩ => member.elim⟩
  | succ depth ih =>
    intro input node rest
    constructor
    · exact word_of_decodeBNode ih
    · intro read
      obtain ⟨word, member, rfl⟩ := read
      exact decodeBNode_word ih member rest

variable {buffer : Bytes}

theorem decodePartial_eq_ok_iff {count : Nat} :
    decodePartial buffer = .ok (node, count) ↔ count ≤ buffer.length ∧ Word maxDepth (buffer.take count) node := by
  rw [decodePartial, bind_eq_ok]
  constructor
  · rintro ⟨⟨found, rest⟩, decoded, done⟩
    cases done
    obtain ⟨word, member, rfl⟩ := (reads_decodeBNode _ _ _ _).mp decoded
    rw [length_append, Nat.add_sub_cancel, take_left]
    exact ⟨Nat.le_add_right _ _, member⟩
  · rintro ⟨inside, member⟩
    have decoded := (reads_decodeBNode maxDepth).run member (buffer.drop count)
    rw [take_append_drop] at decoded
    refine ⟨(node, buffer.drop count), decoded, ?_⟩
    have size : buffer.length - (buffer.drop count).length = count := by
      rw [length_drop]
      omega
    simp only [size]
    rfl

theorem decode_eq_ok_iff : decode buffer = .ok node ↔ Word maxDepth buffer node := by
  rw [decode, bind_eq_ok]
  constructor
  · rintro ⟨⟨found, rest⟩, decoded, done⟩
    obtain ⟨word, member, rfl⟩ := (reads_decodeBNode _ _ _ _).mp decoded
    dsimp only at done
    obtain ⟨empty, done⟩ := guard_eq_ok.mp done
    cases done
    rw [not_not.mp empty, append_nil]
    exact member
  · intro member
    have decoded := (reads_decodeBNode maxDepth).run member []
    rw [append_nil] at decoded
    refine ⟨(node, []), decoded, ?_⟩
    rfl

theorem decode_iff_decodePartial : decode buffer = .ok node ↔ decodePartial buffer = .ok (node, buffer.length) := by
  rw [decode_eq_ok_iff, decodePartial_eq_ok_iff, take_length, and_iff_right (Nat.le_refl _)]

/-- The decoder accepts a word of bencode in front of anything, and nothing else. -/
theorem decodePartial_language (buffer : Bytes) :
    (∀ node count, decodePartial buffer = .ok (node, count) ↔
      count ≤ buffer.length ∧ Word maxDepth (buffer.take count) node) ∧
    (∀ first second count other, count ≤ buffer.length → Word maxDepth (buffer.take count) first →
      other ≤ buffer.length → Word maxDepth (buffer.take other) second → count = other ∧ first = second) ∧
    (∀ node count, decodePartial buffer = .ok (node, count) →
      ∀ rest, decodePartial (buffer.take count ++ rest) = .ok (node, count)) ∧
    ∀ node, decode buffer = .ok node ↔ decodePartial buffer = .ok (node, buffer.length) := by
  refine ⟨fun _ _ => decodePartial_eq_ok_iff, ?_, ?_, fun _ => decode_iff_decodePartial⟩
  · intro first second count other inside member inside_ also
    have left := decodePartial_eq_ok_iff.mpr ⟨inside, member⟩
    rw [decodePartial_eq_ok_iff.mpr ⟨inside_, also⟩] at left
    cases left
    exact ⟨rfl, rfl⟩
  · intro node count decoded rest
    obtain ⟨inside, member⟩ := decodePartial_eq_ok_iff.mp decoded
    have size : (buffer.take count).length = count := length_take_of_le inside
    refine decodePartial_eq_ok_iff.mpr ⟨?_, ?_⟩
    · rw [length_append, size]
      exact Nat.le_add_right _ _
    · rw [take_left' size]
      exact member

section Spelling

mutual

/-- The word of a tree. -/
def spell : BNode → Bytes
  | .dictionary entries => 100 :: spellEntries entries ++ [101]
  | .list items => 108 :: spellItems items ++ [101]
  | .number digits => 105 :: digits ++ [101]
  | .string bytes => encodeString bytes

def spellEntries : Entries → Bytes
  | [] => []
  | (key, value) :: entries => encodeString key ++ spell value ++ spellEntries entries

def spellItems : List BNode → Bytes
  | [] => []
  | item :: items => spell item ++ spellItems items

end

def spellPair (entry : Bytes × BNode) : Bytes := encodeString entry.1 ++ spell entry.2

theorem spell_dictionary (entries : Entries) :
    spell (.dictionary entries) = 100 :: entries.flatMap spellPair ++ [101] := by
  have each : spellEntries entries = entries.flatMap spellPair := by
    induction entries with
    | nil => rfl
    | cons entry entries ih => rw [spellEntries, ih, flatMap_cons, spellPair]
  rw [spell, each]

theorem spell_list (items : List BNode) : spell (.list items) = 108 :: items.flatMap spell ++ [101] := by
  have each : spellItems items = items.flatMap spell := by
    induction items with
    | nil => rfl
    | cons item items ih => rw [spellItems, ih, flatMap_cons]
  rw [spell, each]

/-- A tree with at most `depth` levels, short strings and canonical numbers. -/
def Proper : Nat → BNode → Prop
  | 0, _ => False
  | _ + 1, .number digits => ∃ value, IsI64 value ∧ digits = integerText value
  | _ + 1, .string bytes => bytes.length ≤ maxStringLen
  | depth + 1, .list items => ∀ item ∈ items, Proper depth item
  | depth + 1, .dictionary entries => ∀ entry ∈ entries, entry.1.length ≤ maxStringLen ∧ Proper depth entry.2

theorem Proper.succ {depth : Nat} (proper : Proper depth node) : Proper (depth + 1) node := by
  induction depth generalizing node with
  | zero => cases proper
  | succ depth ih =>
    cases node with
    | number digits => exact proper
    | string bytes => exact proper
    | list items => exact fun item member => ih (proper item member)
    | dictionary entries => exact fun entry member => ⟨(proper entry member).1, ih (proper entry member).2⟩

theorem Proper.items {depth : Nat} {items : List BNode} (proper : Proper depth (.list items)) :
    ∀ item ∈ items, Proper depth item := by
  cases depth with
  | zero => cases proper
  | succ depth => exact fun item member => (proper item member).succ

theorem Proper.entries {depth : Nat} {entries : Entries} (proper : Proper depth (.dictionary entries)) :
    ∀ entry ∈ entries, entry.1.length ≤ maxStringLen ∧ Proper depth entry.2 := by
  cases depth with
  | zero => cases proper
  | succ depth => exact fun entry member => (proper entry member).imp_right Proper.succ

theorem renders_stringWord : Renders StringWord (fun bytes => bytes.length ≤ maxStringLen) encodeString :=
  fun _ _ => Iff.rfl

theorem renders_word (depth : Nat) : Renders (Word depth) (Proper depth) spell := by
  induction depth with
  | zero => exact fun _ _ => ⟨fun member => member.elim, fun rendered => rendered.1.elim⟩
  | succ depth ih =>
    intro word node
    cases node with
    | number digits =>
      constructor
      · intro member
        obtain ⟨_, ⟨value, range, text, rfl⟩, rfl⟩ := member
        exact ⟨⟨value, range, text⟩, rfl⟩
      · intro rendered
        obtain ⟨⟨value, range, text⟩, rfl⟩ := rendered
        exact ⟨digits ++ [101], ⟨value, range, text, rfl⟩, rfl⟩
    | string bytes =>
      exact renders_stringWord word bytes
    | list items =>
      rw [Word, Proper, spell_list, cons_append]
      constructor
      · intro member
        obtain ⟨body, many, rfl⟩ := member
        obtain ⟨each, rfl⟩ := (ih.many 101 body items).mp many
        exact ⟨each, rfl⟩
      · intro rendered
        obtain ⟨each, rfl⟩ := rendered
        exact ⟨_, (ih.many 101 _ items).mpr ⟨each, rfl⟩, rfl⟩
    | dictionary entries =>
      rw [Word, Proper, spell_dictionary, cons_append]
      constructor
      · intro member
        obtain ⟨body, many, rfl⟩ := member
        obtain ⟨each, rfl⟩ := ((renders_stringWord.seq ih).many 101 body entries).mp many
        exact ⟨each, rfl⟩
      · intro rendered
        obtain ⟨each, rfl⟩ := rendered
        exact ⟨_, ((renders_stringWord.seq ih).many 101 _ entries).mpr ⟨each, rfl⟩, rfl⟩

theorem decode_spell (proper : Proper maxDepth node) : decode (spell node) = .ok node :=
  decode_eq_ok_iff.mpr ((renders_word maxDepth _ node).mpr ⟨proper, rfl⟩)

theorem decode_eq_spell (decoded : decode buffer = .ok node) : Proper maxDepth node ∧ buffer = spell node :=
  (renders_word maxDepth buffer node).mp (decode_eq_ok_iff.mp decoded)

end Spelling

end BitTorrent.Bencode
