import BitTorrent.Utils.Text

/-! # Bencode

The decoder and the encoder of `utils/bencode.rs`.  A parser position is the list of the bytes that are left.
The nesting depth that is left is the structural argument of the decoder; the loops over the
entries of a node carry a bound on the number of rounds, of which the bytes left are enough.
-/

namespace BitTorrent

open List

inductive BNode where
  | dictionary (entries : List (Bytes × BNode))
  | list (items : List BNode)
  | number (digits : Bytes)
  | string (bytes : Bytes)

abbrev Entries := List (Bytes × BNode)

namespace BNode

def dictGet (node : BNode) (key : Bytes) : Option BNode :=
  match node with
  | .dictionary entries => (entries.find? fun entry => entry.1 == key).map Prod.snd
  | _ => none

def asNumberBytes : BNode → Option Bytes
  | .number digits => some digits
  | _ => none

def asString : BNode → Option Bytes
  | .string bytes => some bytes
  | _ => none

/-- The chain of conversions from a dictionary entry to an unsigned number. -/
def unsignedAt (node : BNode) (key : Bytes) (limit : Nat) : Option Nat :=
  (node.dictGet key).bind fun entry => entry.asNumberBytes.bind (parseUnsigned limit)

theorem unsignedAt_lt {node : BNode} {key : Bytes} {limit value : Nat}
    (found : node.unsignedAt key limit = some value) : value < limit := by
  obtain ⟨entry, _, asNumber⟩ := Option.bind_eq_some_iff.mp found
  obtain ⟨digits, _, parsed⟩ := Option.bind_eq_some_iff.mp asNumber
  exact parseUnsigned_lt parsed

/-- Induction over a tree, with one hypothesis for all children of a node. -/
@[elab_as_elim]
theorem nestedInduction {motive : BNode → Prop} (number : ∀ digits, motive (.number digits))
    (string : ∀ bytes, motive (.string bytes)) (list : ∀ items, (∀ item ∈ items, motive item) → motive (.list items))
    (dictionary : ∀ entries : Entries, (∀ entry ∈ entries, motive entry.2) → motive (.dictionary entries)) :
    ∀ node, motive node
  | .number digits => number digits
  | .string bytes => string bytes
  | .list items => list items fun item _ => nestedInduction number string list dictionary item
  | .dictionary entries => dictionary entries fun entry _ => nestedInduction number string list dictionary entry.2
  termination_by node => sizeOf node
  decreasing_by
    · have smaller := sizeOf_lt_of_mem ‹item ∈ items›
      rw [BNode.list.sizeOf_spec]
      omega
    · have smaller := sizeOf_lt_of_mem ‹entry ∈ entries›
      obtain ⟨key, value⟩ := entry
      rw [Prod.mk.sizeOf_spec] at smaller
      rw [BNode.dictionary.sizeOf_spec]
      dsimp only
      omega

theorem mem_of_dictGet {entries : Entries} {key : Bytes} {value : BNode}
    (found : (dictionary entries).dictGet key = some value) : (key, value) ∈ entries := by
  obtain ⟨⟨name, same⟩, search, rfl⟩ := Option.map_eq_some_iff.mp found
  have matching : name = key := by simpa using find?_some search
  exact matching ▸ mem_of_find?_eq_some search

end BNode

namespace Bencode

def maxDepth : Nat := 50

def maxStringLen : Nat := 16777216

def decodeString (input : Bytes) : Result (Bytes × Bytes) :=
  let lengthBytes := input.takeWhile isDigit
  let after := input.dropWhile isDigit
  match after with
  | byte :: _ => if byte ≠ 58 then .error (.bencode .invalidStringLength) else finish lengthBytes after
  | [] => finish lengthBytes after
where
  finish (lengthBytes after : Bytes) : Result (Bytes × Bytes) :=
    if lengthBytes.isEmpty || (lengthBytes.head? == some 48 && lengthBytes != [48]) then
      .error (.bencode .invalidStringLength)
    else if 10 < lengthBytes.length then .error (.bencode .stringTooLong)
    else
      let length := (decimalValue lengthBytes).getD 0
      if maxStringLen < length then .error (.bencode .stringTooLong)
      else
        match after with
        | [] => .error (.bencode .unexpectedEnd)
        | _ :: rest =>
          if rest.length < length then .error (.bencode .unexpectedEnd)
          else .ok (rest.take length, rest.drop length)

def isNumberByte (byte : UInt8) : Bool := isDigit byte || byte == 45

theorem decimal_isNumberByte (value : Nat) : (decimal value).all isNumberByte = true := by
  rw [all_eq_true]
  intro byte member
  rw [isNumberByte, all_eq_true.mp (decimal_all_isDigit value) byte member, Bool.true_or]

/-- The digits of an integer, after the leading `i`. -/
def readInteger (input : Bytes) : Result (Bytes × Bytes) :=
  let numberBytes := input.takeWhile isNumberByte
  match input.dropWhile isNumberByte with
  | [] => .error (.bencode .unterminatedInteger)
  | byte :: rest =>
    if byte ≠ 101 then .error (.bencode .invalidDigit)
    else if 20 < numberBytes.length then .error (.bencode .integerTooLong)
    else if numberBytes.isEmpty || (numberBytes.head? == some 48 && decide (1 < numberBytes.length)) ||
        numberBytes.take 2 == [45, 48] || !parsesAsI64 numberBytes then
      .error (.bencode .invalidIntegerFormat)
    else .ok (numberBytes, rest)

def decodeInteger (input : Bytes) : Result (BNode × Bytes) := do
  let (digits, input) ← readInteger input
  return (.number digits, input)

section Loops

variable (decode : Bytes → Result (BNode × Bytes))

def decodeEntries : Nat → Bytes → Result (Entries × Bytes)
  | 0, _ => .error (.bencode .unexpectedEnd)
  | rounds + 1, input =>
    if input.head? = some 101 then .ok ([], input.tail)
    else do
      let (key, input) ← decodeString input
      let (value, input) ← decode input
      let (entries, input) ← decodeEntries rounds input
      return ((key, value) :: entries, input)

def decodeItems : Nat → Bytes → Result (List BNode × Bytes)
  | 0, _ => .error (.bencode .unexpectedEnd)
  | rounds + 1, input =>
    if input.head? = some 101 then .ok ([], input.tail)
    else do
      let (item, input) ← decode input
      let (items, input) ← decodeItems rounds input
      return (item :: items, input)

end Loops

/-- `decode_bnode` with `depth` levels of nesting left. -/
def decodeBNode : Nat → Bytes → Result (BNode × Bytes)
  | 0, _ => .error (.bencode .nestingDepthExceeded)
  | _ + 1, [] => .error (.bencode .unexpectedEnd)
  | depth + 1, byte :: input =>
    if byte = 100 then do
      let (entries, input) ← decodeEntries (decodeBNode depth) (input.length + 1) input
      return (.dictionary entries, input)
    else if byte = 108 then do
      let (items, input) ← decodeItems (decodeBNode depth) (input.length + 1) input
      return (.list items, input)
    else if byte = 105 then decodeInteger input
    else if isDigit byte then do
      let (bytes, input) ← decodeString (byte :: input)
      return (.string bytes, input)
    else .error (.bencode (.invalidByte byte))

def encodeString (bytes : Bytes) : Bytes := decimal bytes.length ++ 58 :: bytes

def bytesLE : Bytes → Bytes → Bool
  | [], _ => true
  | _ :: _, [] => false
  | left :: lefts, right :: rights => decide (left < right) || (left == right && bytesLE lefts rights)

/-- A stable sort. -/
def sortByKey {α : Type} (entries : List (Bytes × α)) : List (Bytes × α) :=
  entries.insertionSort fun left right => bytesLE left.1 right.1 = true

def encodeEntry (entry : Bytes × Bytes) : Bytes := encodeString entry.1 ++ entry.2

mutual

def encode : BNode → Bytes
  | .dictionary entries => 100 :: (sortByKey (encodeValues entries)).flatMap encodeEntry ++ [101]
  | .list items => 108 :: encodeItems items ++ [101]
  | .number digits => 105 :: digits ++ [101]
  | .string bytes => encodeString bytes

def encodeValues : Entries → List (Bytes × Bytes)
  | [] => []
  | (key, value) :: entries => (key, encode value) :: encodeValues entries

def encodeItems : List BNode → Bytes
  | [] => []
  | item :: items => encode item ++ encodeItems items

end

variable {right left : Bytes}

theorem bytesLE_iff : bytesLE left right = true ↔ left ≤ right := by
  induction left generalizing right with
  | nil => simp [bytesLE]
  | cons first left ih =>
    cases right with
    | nil => simp [bytesLE]
    | cons second right => simp [bytesLE, ih, cons_le_cons_iff]

theorem bytesLE_refl (bytes : Bytes) : bytesLE bytes bytes = true := bytesLE_iff.mpr (List.le_refl bytes)

theorem bytesLE_antisymm (lower : bytesLE left right = true) (upper : bytesLE right left = true) : left = right :=
  List.le_antisymm (bytesLE_iff.mp lower) (bytesLE_iff.mp upper)

variable {α β : Type} {entries : List (Bytes × α)}

theorem mem_sortByKey {entry : Bytes × α} : entry ∈ sortByKey entries ↔ entry ∈ entries :=
  (perm_insertionSort _ _).mem_iff

theorem forall_mem_sortByKey {property : Bytes × α → Prop} :
    (∀ entry ∈ sortByKey entries, property entry) ↔ ∀ entry ∈ entries, property entry := by
  simp only [mem_sortByKey]

theorem sortByKey_of_sorted
    (sorted : entries.Pairwise fun left right => bytesLE left.1 right.1 = true) : sortByKey entries = entries :=
  sorted.insertionSort_eq

theorem sortByKey_map (convert : α → β) (entries : List (Bytes × α)) :
    sortByKey (entries.map fun entry => (entry.1, convert entry.2)) =
      (sortByKey entries).map fun entry => (entry.1, convert entry.2) := by
  symm
  apply map_insertionSort
  intro _ _ _ _
  exact Iff.rfl

theorem sortByKey_sorted (entries : List (Bytes × α)) :
    (sortByKey entries).Pairwise fun left right => bytesLE left.1 right.1 = true := by
  have total : Std.Total fun left right : Bytes × α => bytesLE left.1 right.1 = true := by
    refine ⟨fun left right => ?_⟩
    rw [bytesLE_iff, bytesLE_iff]
    exact List.le_total left.1 right.1
  have trans : IsTrans (Bytes × α) fun left right => bytesLE left.1 right.1 = true := by
    refine ⟨fun left middle right => ?_⟩
    rw [bytesLE_iff, bytesLE_iff, bytesLE_iff]
    exact List.le_trans
  exact pairwise_insertionSort _ _

theorem sortByKey_sortByKey (entries : List (Bytes × α)) : sortByKey (sortByKey entries) = sortByKey entries :=
  sortByKey_of_sorted (sortByKey_sorted entries)

def encodePair (entry : Bytes × BNode) : Bytes := encodeString entry.1 ++ encode entry.2

theorem encodeValues_eq (entries : Entries) :
    encodeValues entries = entries.map fun entry => (entry.1, encode entry.2) := by
  induction entries with
  | nil => rfl
  | cons entry entries ih => rw [encodeValues, ih, map_cons]

theorem encode_dictionary (entries : Entries) :
    encode (.dictionary entries) = 100 :: (sortByKey entries).flatMap encodePair ++ [101] := by
  rw [encode, encodeValues_eq, sortByKey_map, flatMap_map]
  rfl

theorem encodeItems_eq (items : List BNode) : encodeItems items = items.flatMap encode := by
  induction items with
  | nil => rfl
  | cons item items ih => rw [encodeItems, ih, flatMap_cons]

theorem encode_list (items : List BNode) : encode (.list items) = 108 :: items.flatMap encode ++ [101] := by
  rw [encode, encodeItems_eq]

/-- `Bencode::decode`. -/
def decode (buffer : Bytes) : Result BNode := do
  let (node, rest) ← decodeBNode maxDepth buffer
  if rest ≠ [] then .error (.bencode .trailingBytes) else return node

/-- The node and the number of bytes that it takes. -/
def decodePartial (buffer : Bytes) : Result (BNode × Nat) := do
  let (node, rest) ← decodeBNode maxDepth buffer
  return (node, buffer.length - rest.length)

end Bencode

end BitTorrent
