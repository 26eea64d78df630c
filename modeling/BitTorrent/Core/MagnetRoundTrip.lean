import BitTorrent.Core.Magnet
import Mathlib.Data.List.Destutter

/-! # Writing and reading magnet links

What `parse` makes of a link that `to_uri` has written.  Percent coding goes through the bytes of
a text and decoding makes a character of each byte, so a text comes back as its UTF-8 bytes read as
Latin-1.
-/

namespace BitTorrent

open MagnetQuery RangeRuns List

variable {letter : Char} {value : Text}

section Latin

/-- The characters with the codes of the UTF-8 bytes of a text. -/
def latin (value : Text) : Text := (utf8 value).map byteChar

def IsAscii (value : Text) : Prop := value.all (fun letter => decide (letter.toNat ≤ 127)) = true

instance (value : Text) : Decidable (IsAscii value) := inferInstanceAs (Decidable (_ = true))

theorem isAscii_iff : IsAscii value ↔ ∀ letter ∈ value, letter.toNat ≤ 127 := by
  simp only [IsAscii, all_eq_true, decide_eq_true_eq]

theorem byteChar_toNat (byte : UInt8) : (byteChar byte).toNat = byte.toNat := by
  have size := UInt8.toNat_lt byte
  have valid : byte.toNat.isValidChar := .inl (by omega)
  rw [byteChar, Char.ofNat, dif_pos valid]
  rfl

theorem byteChar_injective : Function.Injective byteChar := by
  intro left right same
  have codes := congrArg Char.toNat same
  rw [byteChar_toNat, byteChar_toNat] at codes
  exact UInt8.toNat_inj.mp codes

theorem byteChar_ascii (small : letter.toNat ≤ 127) : byteChar (UInt8.ofNat letter.toNat) = letter := by
  apply Char.toNat_inj.mp
  rw [byteChar_toNat, UInt8.toNat_ofNat', Nat.mod_eq_of_lt (by omega)]

theorem latin_injective : Function.Injective latin := by
  intro left right same
  exact utf8_injective (map_injective_iff.mpr byteChar_injective same)

theorem latin_ne_nil (nonempty : value ≠ []) : latin value ≠ [] := by
  intro none
  exact utf8_ne_nil nonempty (map_eq_nil_iff.mp none)

theorem latin_eq_self_iff : latin value = value ↔ IsAscii value := by
  rw [isAscii_iff]
  constructor
  · intro same letter member
    by_contra large
    have longer : value.length < (utf8 value).length := by
      obtain ⟨front, rest, rfl⟩ := append_of_mem member
      have atLeast : ∀ part : Text, part.length ≤ (utf8 part).length := by
        intro part
        induction part with
        | nil => exact Nat.le_refl 0
        | cons first others ih =>
          have positive := length_pos_of_ne_nil (utf8EncodeChar_ne_nil first)
          rw [utf8_cons, length_append, length_cons]
          omega
      have two : 1 < (String.utf8EncodeChar letter).length := by
        rw [String.length_utf8EncodeChar]
        have other : letter.utf8Size ≠ 1 := fun one => large (Char.utf8Size_eq_one_iff.mp one)
        have positive := Char.utf8Size_pos letter
        omega
      have before := atLeast front
      have after := atLeast rest
      rw [utf8_append, utf8_cons, length_append, length_append, length_append, length_cons]
      omega
    have lengths := congrArg length same
    rw [latin, length_map] at lengths
    omega
  · intro small
    rw [latin, utf8_ascii small, map_map]
    exact (map_congr_left fun letter member => byteChar_ascii (small letter member)).trans (map_id value)

end Latin

section Percent

variable {byte : UInt8}

theorem percentDecodeBytes_plain (other : byte ≠ 37) (noPlus : byte ≠ 43) (rest : Bytes) :
    percentDecodeBytes (byte :: rest) = byteChar byte :: percentDecodeBytes rest := by
  rw [percentDecodeBytes.eq_def]
  split
  case h_1 whole => cases whole
  case h_2 whole => exact absurd (cons.inj whole).1 other
  case h_3 whole => exact absurd (cons.inj whole).1 other
  case h_4 whole =>
    obtain ⟨rfl, rfl⟩ := cons.inj whole
    rw [if_neg noPlus]

theorem isUnreserved_plain (kept : isUnreserved byte = true) :
    byte.toNat ≤ 127 ∧ byte ≠ 37 ∧ byte ≠ 43 ∧ byte ≠ 38 := by
  simp only [isUnreserved, Bool.or_eq_true, decide_eq_true_eq, UInt8.le_iff_toNat_le, ← UInt8.toNat_inj, ne_eq,
    UInt8.reduceToNat] at kept ⊢
  omega

theorem hexDigit_unreserved (upper : Bool) {value : Nat} (small : value < 16) :
    ∃ code, isUnreserved code = true ∧ hexDigit upper value = byteChar code := by
  refine ⟨UInt8.ofNat (hexDigit upper value).toNat, ?_, (byteChar_ascii (hexDigit_ascii upper small)).symm⟩
  cases upper <;> interval_cases value <;> decide

theorem mem_hexByte {upper : Bool} (member : letter ∈ hexByte upper byte) :
    ∃ code, isUnreserved code = true ∧ letter = byteChar code := by
  have size := byte.toNat_lt
  rcases mem_pair.mp member with rfl | rfl
  · exact hexDigit_unreserved upper (by omega)
  · exact hexDigit_unreserved upper (by omega)

theorem mem_percentEncodeByte {bytes : Bytes} (member : letter ∈ bytes.flatMap percentEncodeByte) :
    letter = '%' ∨ ∃ code, isUnreserved code = true ∧ letter = byteChar code := by
  obtain ⟨byte, _, inside⟩ := mem_flatMap.mp member
  rw [percentEncodeByte] at inside
  split at inside
  case isTrue kept => exact .inr ⟨byte, kept, mem_singleton.mp inside⟩
  case isFalse => exact (mem_cons.mp inside).imp_right mem_hexByte

theorem byteChar_ne {mark code : UInt8} (reserved : isUnreserved mark = false) (kept : isUnreserved code = true) :
    byteChar mark ≠ byteChar code := by
  intro same
  rw [← byteChar_injective same, reserved] at kept
  cases kept

theorem not_mem_percentEncodeByte {mark : UInt8} (reserved : isUnreserved mark = false) (noPercent : mark ≠ 37)
    (bytes : Bytes) : byteChar mark ∉ bytes.flatMap percentEncodeByte := by
  intro member
  rcases mem_percentEncodeByte member with percent | ⟨code, kept, same⟩
  · exact noPercent (byteChar_injective percent)
  · exact byteChar_ne reserved kept same

theorem amp_not_mem_percentEncode (value : Text) : '&' ∉ percentEncode value :=
  not_mem_percentEncodeByte (show isUnreserved 38 = false by decide) (by decide) (utf8 value)

theorem utf8_percentEncodeByte (byte : UInt8) :
    isUnreserved byte = true ∧ utf8 (percentEncodeByte byte) = [byte] ∨
      ∃ first second, utf8 (percentEncodeByte byte) = [37, first, second] ∧ hexCharsToByte first second = some byte := by
  rw [percentEncodeByte]
  split
  case isTrue kept =>
    have small := (isUnreserved_plain kept).1
    refine .inl ⟨kept, ?_⟩
    rw [utf8_cons, utf8_nil, append_nil, utf8EncodeChar_ascii (by rw [byteChar_toNat]; exact small), byteChar_toNat,
      UInt8.ofNat_toNat]
  case isFalse =>
    have percent : utf8 ('%' :: hexByte true byte) = 37 :: utf8 (hexByte true byte) := rfl
    rw [percent, utf8_hexByte]
    exact .inr ⟨_, _, rfl, hexCharsToByte_hexByte true byte⟩

theorem percentDecodeBytes_encodeByte (byte : UInt8) (rest : Bytes) :
    percentDecodeBytes (utf8 (percentEncodeByte byte) ++ rest) = byteChar byte :: percentDecodeBytes rest := by
  rcases utf8_percentEncodeByte byte with ⟨kept, bytes⟩ | ⟨first, second, bytes, digits⟩
  · obtain ⟨_, noPercent, noPlus, _⟩ := isUnreserved_plain kept
    rw [bytes, singleton_append, percentDecodeBytes_plain noPercent noPlus]
  · rw [bytes, cons_append, cons_append, singleton_append, percentDecodeBytes, digits]

theorem percentDecode_percentEncode (value : Text) : percentDecode (percentEncode value) = latin value := by
  rw [percentDecode, percentEncode, latin]
  induction utf8 value with
  | nil => rfl
  | cons byte rest ih => rw [flatMap_cons, utf8_append, percentDecodeBytes_encodeByte, ih, map_cons]

theorem percentEncode_ne_nil (nonempty : value ≠ []) : percentEncode value ≠ [] := by
  intro none
  have read := percentDecode_percentEncode value
  rw [none] at read
  exact latin_ne_nil nonempty read.symm

theorem percentDecode_plain
    (plain : ∀ letter ∈ value, letter.toNat ≤ 127 ∧ letter ≠ '%' ∧ letter ≠ '+') : percentDecode value = value := by
  rw [percentDecode]
  induction value with
  | nil => rfl
  | cons letter rest ih =>
    obtain ⟨small, noPercent, noPlus⟩ := plain letter mem_cons_self
    have other : ∀ mark : Char, mark.toNat ≤ 127 → letter ≠ mark → UInt8.ofNat letter.toNat ≠ UInt8.ofNat mark.toNat := by
      intro mark ascii different same
      apply different
      rw [← byteChar_ascii small, same, byteChar_ascii ascii]
    rw [utf8_cons, utf8EncodeChar_ascii small, singleton_append,
      percentDecodeBytes_plain (other '%' (by decide) noPercent) (other '+' (by decide) noPlus), byteChar_ascii small,
      ih fun next member => plain next (mem_cons_of_mem _ member)]

end Percent

section Selection

theorem foldl_pushNew {α : Type} [DecidableEq α] {values added : List α} (distinct : (values ++ added).Nodup) :
    added.foldl pushNew values = values ++ added := by
  induction added generalizing values with
  | nil => rw [foldl_nil, append_nil]
  | cons value added ih =>
    have absent : value ∉ values := by
      intro member
      exact (nodup_append.mp distinct).2.2 value member value mem_cons_self rfl
    rw [foldl_cons, pushNew, if_neg absent, ih (by rwa [append_assoc]), append_assoc,
      singleton_append]

theorem numeral_solid {index : Nat} (member : letter ∈ numeral index) :
    isWhiteSpace letter = false ∧ letter ≠ '-' ∧ letter ≠ ',' ∧ letter ≠ '&' ∧ letter ≠ '%' ∧ letter ≠ '+' ∧
      letter.toNat ≤ 127 := by
  obtain ⟨lower, upper⟩ := numeral_isDigit member
  have other {mark : Char} (outside : ¬(48 ≤ mark.toNat ∧ mark.toNat ≤ 57)) : letter ≠ mark :=
    ne_of_mem_of_not_mem member (not_mem_numeral outside)
  refine ⟨?_, other (by decide), other (by decide), other (by decide), other (by decide), other (by decide), by omega⟩
  simp only [isWhiteSpace, decide_eq_false_iff_not]
  omega

theorem trim_numeral (index : Nat) : trim (numeral index) = numeral index :=
  trim_of_solid fun _ member => (numeral_solid member).1

variable {run : Nat × Nat}

theorem mem_showRun (member : letter ∈ showRun run) : letter = '-' ∨ ∃ index, letter ∈ numeral index := by
  rw [showRun] at member
  split at member
  case isTrue => exact .inr ⟨_, member⟩
  case isFalse =>
    rcases mem_append.mp member with first | rest
    · exact .inr ⟨_, first⟩
    · rcases mem_cons.mp rest with dash | last
      · exact .inl dash
      · exact .inr ⟨_, last⟩

theorem showRun_plain (member : letter ∈ showRun run) :
    isWhiteSpace letter = false ∧ letter ≠ ',' ∧ letter ≠ '&' ∧ letter ≠ '%' ∧ letter ≠ '+' ∧ letter.toNat ≤ 127 := by
  rcases mem_showRun member with rfl | ⟨index, digit⟩
  · decide
  · obtain ⟨solid, _, others⟩ := numeral_solid digit
    exact ⟨solid, others⟩

theorem selectPart_showRun (ordered : run.1 ≤ run.2) (small : run.2 < u64Size) (output : List Nat) :
    selectPart output (showRun run) = (numbers run).foldl pushNew output := by
  obtain ⟨first, last⟩ := run
  have parsed : ∀ index ≤ last, parseUnsigned u64Size (utf8 (numeral index)) = some index :=
    fun index bounded => parseUnsigned_decimal (Nat.lt_of_le_of_lt bounded small)
  have noDash : ∀ index, '-' ∉ numeral index := fun index member => (numeral_solid member).2.1 rfl
  rw [selectPart, trim_of_solid fun letter member => (showRun_plain member).1, showRun]
  by_cases same : first = last
  · cases same
    rw [if_pos rfl, if_neg (numeral_ne_nil first), if_neg (noDash first), parsed first (Nat.le_refl first)]
    simp only [numbers, Nat.add_sub_cancel_left, range'_one, foldl_cons, foldl_nil]
  · have before : ∀ letter ∈ numeral first, decide (letter ≠ '-') = true :=
      fun letter member => decide_eq_true (numeral_solid member).2.1
    have cut := @takeWhile_append_stop _ (fun letter : Char => decide (letter ≠ '-')) (numeral first) '-' (numeral last)
      (all_eq_true.mpr before) (by decide)
    rw [if_neg same, if_neg (by simp), if_pos (by simp), cut.1, cut.2, drop_one, tail_cons, trim_numeral,
      trim_numeral, parsed first ordered, parsed last (Nat.le_refl last)]
    exact if_pos ordered

variable {indices : List Nat}

theorem parseBep53_format (ordered : indices.Pairwise (· < ·))
    (small : ∀ index ∈ indices, index < u64Size) (nonempty : indices ≠ []) :
    parseBep53SelectOnly (formatBep53SelectOnly indices) [] = indices := by
  have sorted : indices.insertionSort (· ≤ ·) = indices :=
    (ordered.imp fun lower => Nat.le_of_lt lower).insertionSort_eq
  have chain : indices.IsChain (· ≠ ·) := (ordered.imp fun lower => Nat.ne_of_lt lower).isChain
  have parts : ∀ part ∈ (runs indices).map showRun, ',' ∉ part := by
    intro part member inside
    obtain ⟨run, _, rfl⟩ := mem_map.mp member
    exact (showRun_plain inside).2.1 rfl
  have some : (runs indices).map showRun ≠ [] := by
    rw [ne_eq, map_eq_nil_iff]
    exact runs_ne_nil nonempty
  have runs : ∀ output, (runs indices).foldl (fun output run => selectPart output (showRun run)) output =
      ((runs indices).flatMap numbers).foldl pushNew output := by
    intro output
    rw [foldl_flatMap]
    apply foldl_ext
    intro output run member
    exact selectPart_showRun (le_of_mem_runs member) (small _ (mem_of_mem_runs member).2) output
  have distinct : ([] ++ indices).Nodup := ordered.imp fun lower => Nat.ne_of_lt lower
  rw [parseBep53SelectOnly, formatBep53SelectOnly, sorted, destutter_of_isChain _ indices chain,
    splitOn_intercalate ',' parts some, foldl_map, runs, numbers_flatMap_runs, foldl_pushNew distinct,
    nil_append, sorted]

theorem format_plain (member : letter ∈ formatBep53SelectOnly indices) :
    letter ≠ '&' ∧ letter.toNat ≤ 127 ∧ letter ≠ '%' ∧ letter ≠ '+' := by
  rcases mem_intercalate member with rfl | ⟨part, known, inside⟩
  · decide
  · obtain ⟨run, _, rfl⟩ := mem_map.mp known
    obtain ⟨_, _, noAmp, noPercent, noPlus, small⟩ := showRun_plain inside
    exact ⟨noAmp, small, noPercent, noPlus⟩

end Selection

namespace MagnetQuery

variable {query : MagnetQuery}

theorem parseParameter_eq {key : Text} (plain : '=' ∉ key) :
    query.parseParameter (key ++ '=' :: value) = query.setParameter key value := by
  have before : key.all (fun letter => decide (letter ≠ '=')) = true :=
    all_eq_true.mpr fun letter member => decide_eq_true fun same => plain (same ▸ member)
  have cut := @takeWhile_append_stop _ (fun letter : Char => decide (letter ≠ '=')) key '=' value before (by decide)
  rw [parseParameter, cut.1, cut.2, drop_one, tail_cons]

theorem parseHexHashExact_toHex {hash : Bytes} {size : Nat} (length : hash.length = size) :
    parseHexHashExact (toHex hash) size = some hash := by
  rw [parseHexHashExact, utf8_toHex_length, length, if_neg (not_not.mpr rfl), hexPairs_toHex]

theorem parseParameter_xt (topic : Text) (nonempty : topic ≠ []) :
    query.parseParameter (text "xt=" ++ topic) = query.exactTopic topic :=
  (@parseParameter_eq topic query (text "xt") (by decide)).trans (if_neg nonempty)

theorem exactTopic_btih {hash : Bytes} (size : hash.length = 20) :
    query.parseParameter (text "xt=urn:btih:" ++ toHex hash) = .ok { query with v1InfoHash := some hash } := by
  have starts : (text "urn:btih:").isPrefixOf (text "urn:btih:" ++ toHex hash) = true :=
    isPrefixOf_iff_prefix.mpr (prefix_append _ _)
  refine (parseParameter_xt (text "urn:btih:" ++ toHex hash) (by simp [text])).trans ((if_pos starts).trans ?_)
  simp only [drop_left, parseHexHashExact_toHex size, Option.some_or]

theorem exactTopic_btmh (hash : Hash UInt8) :
    query.parseParameter (text "xt=urn:btmh:1220" ++ toHex hash.toList) = .ok { query with v2InfoHash := some hash } := by
  have other : (text "urn:btih:").isPrefixOf (text "urn:btmh:1220" ++ toHex hash.toList) ≠ true := Bool.false_ne_true
  have starts : (text "urn:btmh:1220").isPrefixOf (text "urn:btmh:1220" ++ toHex hash.toList) = true :=
    isPrefixOf_iff_prefix.mpr (prefix_append _ _)
  refine (parseParameter_xt (text "urn:btmh:1220" ++ toHex hash.toList) (by simp [text])).trans ?_
  refine (if_neg other).trans ((if_pos starts).trans ?_)
  simp only [drop_left, parseHexHashExact_toHex hash.toList_length, Option.bind_some, toHash_toList]

end MagnetQuery

namespace MagnetLink

/-- The links of the round trip. -/
structure WellFormed (link : MagnetLink) : Prop where
  infoHash : link.infoHash.length = 20
  trackers : link.trackers.Nodup ∧ ∀ url ∈ link.trackers, url ≠ []
  webSeeds : link.webSeeds.Nodup ∧ ∀ url ∈ link.webSeeds, url ≠ []
  exactSources : link.exactSources.Nodup ∧ ∀ url ∈ link.exactSources, url ≠ []
  acceptableSources : link.acceptableSources.Nodup ∧ ∀ url ∈ link.acceptableSources, url ≠ []
  selectOnly : link.selectOnly.Pairwise (· < ·) ∧ ∀ index ∈ link.selectOnly, index < u64Size

/-- A display name as it comes back; an empty one is passed over. -/
def shownName : Option Text → Option Text
  | some (letter :: rest) => some (latin (letter :: rest))
  | _ => none

def readBack (link : MagnetLink) : MagnetLink :=
  { link with
    displayName := shownName link.displayName
    trackers := link.trackers.map latin
    webSeeds := link.webSeeds.map latin
    exactSources := link.exactSources.map latin
    acceptableSources := link.acceptableSources.map latin }

variable {link : MagnetLink} {query : MagnetQuery} {values : List Text}

theorem topics_ne_nil (link : MagnetLink) : link.topics ≠ [] := by
  rw [topics, isV1Only]
  cases link.v2InfoHash with
  | none => simp
  | some v2 => simp

theorem amp_not_mem_toHex (bytes : Bytes) : '&' ∉ toHex bytes := by
  intro member
  obtain ⟨byte, _, inside⟩ := mem_flatMap.mp member
  obtain ⟨code, kept, same⟩ := mem_hexByte inside
  exact byteChar_ne (show isUnreserved 38 = false by decide) kept same

theorem amp_not_mem_encoded {key : String} (clean : '&' ∉ text key) :
    ∀ parameter ∈ values.map (encoded key), '&' ∉ parameter := by
  intro parameter member inside
  obtain ⟨value, _, rfl⟩ := mem_map.mp member
  rcases mem_append.mp inside with front | rest
  · exact clean front
  · rcases mem_cons.mp rest with equals | digits
    · cases equals
    · exact amp_not_mem_percentEncode value digits

theorem amp_not_mem_topics : ∀ parameter ∈ link.topics, '&' ∉ parameter := by
  have topic : ∀ (front : String) (bytes : Bytes), '&' ∉ text front → '&' ∉ text front ++ toHex bytes := by
    intro front bytes clean inside
    exact (mem_append.mp inside).elim clean (amp_not_mem_toHex bytes)
  intro parameter member
  have shapes : parameter = text "xt=urn:btih:" ++ toHex link.infoHash ∨
      ∃ v2 : Hash UInt8, parameter = text "xt=urn:btmh:1220" ++ toHex v2.toList := by
    rcases mem_append.mp member with first | second
    · split at first
      case isTrue => exact .inl (mem_singleton.mp first)
      case isFalse => cases first
    · split at second
      case h_1 v2 _ => exact .inr ⟨v2, mem_singleton.mp second⟩
      case h_2 =>
        split at second
        case isTrue => exact .inl (mem_singleton.mp second)
        case isFalse => cases second
  rcases shapes with rfl | ⟨v2, rfl⟩
  · exact topic _ _ (by decide)
  · exact topic _ _ (by decide)

theorem amp_not_mem_selection : ∀ parameter ∈ link.selection, '&' ∉ parameter := by
  intro parameter member inside
  rw [selection] at member
  split at member
  case isTrue => cases member
  case isFalse =>
    rw [mem_singleton.mp member] at inside
    rcases mem_append.mp inside with front | digits
    · exact absurd front (by decide)
    · exact (format_plain digits).1 rfl

theorem amp_not_mem_parameters : ∀ parameter ∈ link.parameters, '&' ∉ parameter := by
  have name : ∀ parameter ∈ (link.displayName.map (encoded "dn")).toList, '&' ∉ parameter := by
    rw [Option.toList_map]
    exact amp_not_mem_encoded (by decide)
  simp only [parameters, forall_mem_append]
  exact ⟨⟨⟨⟨⟨⟨amp_not_mem_topics, name⟩, amp_not_mem_encoded (by decide)⟩, amp_not_mem_encoded (by decide)⟩,
    amp_not_mem_encoded (by decide)⟩, amp_not_mem_encoded (by decide)⟩, amp_not_mem_selection⟩

theorem topics_read (size : link.infoHash.length = 20) :
    link.topics.foldlM parseParameter .empty = .ok { empty with
      v1InfoHash := if link.isV1Only || link.isHybrid then some link.infoHash else none
      v2InfoHash := link.v2InfoHash } := by
  rw [topics, isV1Only]
  cases found : link.v2InfoHash with
  | none =>
    simp only [Option.isNone_none, Bool.true_or, if_true, Bool.not_true, Bool.false_and, Bool.false_eq_true, if_false,
      append_nil, foldlM_cons, foldlM_nil, exactTopic_btih size]
    rfl
  | some v2 =>
    simp only [Option.isNone_some, Bool.false_or]
    cases link.isHybrid with
    | true =>
      simp only [if_true, singleton_append, foldlM_cons, foldlM_nil, bind, Except.bind,
        exactTopic_btih size, exactTopic_btmh]
      rfl
    | false =>
      simp only [Bool.false_eq_true, if_false, nil_append, foldlM_cons, foldlM_nil,
        exactTopic_btmh]
      rfl

theorem name_read (link : MagnetLink) (first : query.displayName = none) :
    (link.displayName.map (encoded "dn")).toList.foldlM parseParameter query =
      .ok { query with displayName := shownName link.displayName } := by
  obtain ⟨v1, v2, name, trackers, webSeeds, exactSources, acceptableSources, selectOnly⟩ := query
  cases first
  cases link.displayName with
  | none => rfl
  | some name =>
    rw [Option.map_some, Option.toList_some, foldlM_cons, encoded, parseParameter_eq (by decide)]
    cases name with
    | nil => rfl
    | cons letter rest =>
      rw [setParameter, if_neg (percentEncode_ne_nil (cons_ne_nil _ _)), if_neg (by decide), if_pos rfl,
        percentDecode_percentEncode]
      rfl

theorem selection_read (ordered : link.selectOnly.Pairwise (· < ·)) (small : ∀ index ∈ link.selectOnly, index < u64Size)
    (first : query.selectOnly = []) :
    link.selection.foldlM parseParameter query = .ok { query with selectOnly := link.selectOnly } := by
  rw [selection]
  by_cases none : link.selectOnly = []
  · rw [if_pos (.inl none), none, ← first]
    rfl
  · have read := parseBep53_format ordered small none
    have written : formatBep53SelectOnly link.selectOnly ≠ [] := fun empty => none (by rw [← read, empty]; rfl)
    have shape : text "so=" ++ formatBep53SelectOnly link.selectOnly =
        text "so" ++ '=' :: formatBep53SelectOnly link.selectOnly := rfl
    rw [if_neg (not_or.mpr ⟨none, written⟩), foldlM_cons, shape, parseParameter_eq (by decide),
      setParameter, if_neg written, if_neg (by decide), if_neg (by decide), if_neg (by decide),
      if_neg (by decide), if_neg (by decide), if_neg (by decide), if_pos rfl,
      percentDecode_plain fun letter member => (format_plain member).2, first, read]
    rfl

theorem texts_read (key : String) (plain : '=' ∉ text key) (field : List Text → MagnetQuery)
    (step : ∀ values value, value ≠ [] →
      (field values).setParameter (text key) value = .ok (field (pushNew values (percentDecode value))))
    (listed : values.Nodup ∧ ∀ value ∈ values, value ≠ []) :
    (values.map (encoded key)).foldlM parseParameter (field []) = .ok (field (values.map latin)) := by
  have run : ∀ (written known : List Text), (∀ value ∈ written, value ≠ []) →
      (written.map (encoded key)).foldlM parseParameter (field known) =
        .ok (field ((written.map latin).foldl pushNew known)) := by
    intro written
    induction written with
    | nil => exact fun _ _ => rfl
    | cons value written ih =>
      intro known nonempty
      obtain ⟨first, others⟩ := forall_mem_cons.mp nonempty
      rw [map_cons, foldlM_cons, encoded, parseParameter_eq plain,
        step known _ (percentEncode_ne_nil first), percentDecode_percentEncode, map_cons, foldl_cons]
      exact ih _ others
  have distinct : ([] ++ values.map latin).Nodup := listed.1.map latin_injective
  rw [run values [] listed.2, foldl_pushNew distinct, nil_append]

theorem foldlM_append_ok {first second : List Text} {start middle : MagnetQuery}
    (ran : first.foldlM parseParameter start = .ok middle) :
    (first ++ second).foldlM parseParameter start = second.foldlM parseParameter middle := by
  rw [foldlM_append, ran]
  rfl

theorem parameters_read (wellFormed : link.WellFormed) :
    link.parameters.foldlM parseParameter .empty = .ok {
      v1InfoHash := if link.isV1Only || link.isHybrid then some link.infoHash else none
      v2InfoHash := link.v2InfoHash
      displayName := shownName link.displayName
      trackers := link.trackers.map latin
      webSeeds := link.webSeeds.map latin
      exactSources := link.exactSources.map latin
      acceptableSources := link.acceptableSources.map latin
      selectOnly := link.selectOnly } := by
  have hashes := topics_read wellFormed.infoHash
  have name := (foldlM_append_ok hashes).trans (name_read link rfl)
  have trackers := (foldlM_append_ok name).trans (texts_read "tr" (by decide)
    (fun values => ⟨_, _, _, values, [], [], [], []⟩) (fun _ _ nonempty => if_neg nonempty) wellFormed.trackers)
  have webSeeds := (foldlM_append_ok trackers).trans (texts_read "ws" (by decide)
    (fun values => ⟨_, _, _, _, values, [], [], []⟩) (fun _ _ nonempty => if_neg nonempty) wellFormed.webSeeds)
  have exactSources := (foldlM_append_ok webSeeds).trans (texts_read "xs" (by decide)
    (fun values => ⟨_, _, _, _, _, values, [], []⟩) (fun _ _ nonempty => if_neg nonempty) wellFormed.exactSources)
  have sources := (foldlM_append_ok exactSources).trans (texts_read "as" (by decide)
    (fun values => ⟨_, _, _, _, _, _, values, []⟩) (fun _ _ nonempty => if_neg nonempty) wellFormed.acceptableSources)
  exact (foldlM_append_ok sources).trans (selection_read wellFormed.selectOnly.1 wellFormed.selectOnly.2 rfl)

theorem take_v2InfoHash {v2 : Hash UInt8} (size : link.infoHash.length = 20) (known : link.v2InfoHash = some v2)
    (single : link.isHybrid = false) : v2.toList.take 20 = link.infoHash := by
  simpa [isHybrid, known, size] using single

theorem parse_toUri (wellFormed : link.WellFormed) : parse link.toUri = .ok link.readBack := by
  have starts : (text "magnet:?").isPrefixOf link.toUri = true := isPrefixOf_iff_prefix.mpr (prefix_append _ _)
  have some : link.parameters ≠ [] := by
    simp only [parameters, append_assoc, ne_eq, append_eq_nil_iff, not_and]
    exact fun none => absurd none link.topics_ne_nil
  rw [parse, if_pos starts, toUri, drop_left, splitOn_intercalate '&' amp_not_mem_parameters some,
    parameters_read wellFormed]
  cases known : link.v2InfoHash with
  | none =>
    have first : (link.isV1Only || link.isHybrid) = true := by rw [isV1Only, known]; rfl
    rw [if_pos first, readBack, known]
    rfl
  | some v2 =>
    have later : link.isV1Only = false := by rw [isV1Only, known]; rfl
    rw [later, Bool.false_or, readBack, known]
    cases single : link.isHybrid with
    | true => rfl
    | false =>
      rw [← take_v2InfoHash wellFormed.infoHash known single]
      rfl

/-- A link is read back as it was, exactly when its texts are ASCII and its name is not empty. -/
theorem parse_toUri_eq_iff (wellFormed : link.WellFormed) :
    parse link.toUri = .ok link ↔
      link.displayName ≠ some [] ∧ (∀ name, link.displayName = some name → IsAscii name) ∧
        (∀ url ∈ link.trackers, IsAscii url) ∧ (∀ url ∈ link.webSeeds, IsAscii url) ∧
        (∀ url ∈ link.exactSources, IsAscii url) ∧ (∀ url ∈ link.acceptableSources, IsAscii url) := by
  have texts : ∀ values : List Text, values.map latin = values ↔ ∀ value ∈ values, IsAscii value := by
    intro values
    rw [← map_id values, map_map, map_inj_left]
    simp only [Function.comp_apply, id_eq, latin_eq_self_iff, map_id]
  have names : shownName link.displayName = link.displayName ↔
      link.displayName ≠ some [] ∧ ∀ name, link.displayName = some name → IsAscii name := by
    match link.displayName with
    | none => simp [shownName]
    | some [] => simp [shownName]
    | some (letter :: rest) => simp [shownName, latin_eq_self_iff]
  rw [parse_toUri wellFormed, Except.ok.injEq, ← and_assoc, ← names, ← texts, ← texts, ← texts, ← texts]
  constructor
  · intro same
    exact ⟨congrArg displayName same, congrArg trackers same, congrArg webSeeds same, congrArg exactSources same,
      congrArg acceptableSources same⟩
  · intro same
    obtain ⟨name, trackers, webSeeds, exactSources, sources⟩ := same
    rw [readBack, name, trackers, webSeeds, exactSources, sources]

/-- A hybrid link with two trackers and a selection of files. -/
def plainLink : MagnetLink where
  infoHash := replicate 20 1
  v2InfoHash := some zeroHash
  displayName := some (text "a b")
  trackers := [text "udp://t/a?b=c&d", text "u"]
  webSeeds := [text "w"]
  exactSources := []
  acceptableSources := []
  selectOnly := [0, 2, 3, 4]

theorem plainLink_wellFormed : plainLink.WellFormed := by
  refine ⟨rfl, ⟨by decide, by decide⟩, ⟨by decide, by decide⟩, ⟨by decide, by decide⟩, ⟨by decide, by decide⟩,
    ⟨by decide, by decide⟩⟩

theorem plainLink_read : parse plainLink.toUri = .ok plainLink := by
  refine (parse_toUri_eq_iff plainLink_wellFormed).mpr ⟨by decide, ?_, ?_, ?_, ?_, ?_⟩
  · intro name known
    cases known
    decide
  all_goals decide

/-- A link with a name in another alphabet. -/
def greekLink : MagnetLink := { plainLink with displayName := some ['α'] }

theorem greekLink_wellFormed : greekLink.WellFormed :=
  ⟨rfl, plainLink_wellFormed.trackers, plainLink_wellFormed.webSeeds, plainLink_wellFormed.exactSources,
    plainLink_wellFormed.acceptableSources, plainLink_wellFormed.selectOnly⟩

/-- The two bytes of the letter come back as two letters. -/
theorem greekLink_changed : greekLink.WellFormed ∧
    parse greekLink.toUri = .ok { greekLink with displayName := some ['Î', '±'] } ∧
    parse greekLink.toUri ≠ .ok greekLink := by
  have read : parse greekLink.toUri = .ok { greekLink with displayName := some ['Î', '±'] } := by
    rw [parse_toUri greekLink_wellFormed]
    rfl
  refine ⟨greekLink_wellFormed, read, ?_⟩
  rw [read]
  decide

end MagnetLink

end BitTorrent
