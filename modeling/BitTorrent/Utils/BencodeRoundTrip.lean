import BitTorrent.Utils.BencodeGrammar

/-! # Encoding and decoding bencode

The encoder writes the word of a tree after it has sorted the entries of each dictionary by key.
-/

namespace BitTorrent.Bencode

open Parsing

section Sorting

variable {α : Type}

theorem sortByKey_cons (entry : Bytes × α) (entries : List (Bytes × α)) :
    ∃ front back, sortByKey (entry :: entries) = front ++ entry :: back ∧ sortByKey entries = front ++ back ∧
      ∀ other ∈ front, bytesLE entry.1 other.1 = false := by
  refine ⟨_, _, List.orderedInsert_eq_take_drop _ entry (sortByKey entries), List.takeWhile_append_dropWhile.symm, ?_⟩
  intro other member
  have smaller := List.all_eq_true.mp List.all_takeWhile other member
  rwa [decide_eq_true_eq, Bool.not_eq_true] at smaller

theorem sortByKey_filter (entries : List (Bytes × α)) (key : Bytes) :
    (sortByKey entries).filter (fun entry => entry.1 = key) = entries.filter fun entry => entry.1 = key := by
  induction entries with
  | nil => rfl
  | cons entry entries ih =>
    obtain ⟨front, back, inserted, parts, smaller⟩ := sortByKey_cons entry entries
    rw [inserted, List.filter_append, List.filter_cons, List.filter_cons, ← ih, parts, List.filter_append]
    split
    case isTrue same =>
      have none : front.filter (fun entry => entry.1 = key) = [] := by
        rw [List.filter_eq_nil_iff]
        intro other member found
        rw [decide_eq_true_eq] at found same
        have less := smaller other member
        rw [found, ← same, bytesLE_refl] at less
        cases less
      rw [none, List.nil_append, List.nil_append]
    case isFalse => rfl

theorem dictGet_sortByKey (entries : Entries) (key : Bytes) :
    (BNode.dictionary (sortByKey entries)).dictGet key = (BNode.dictionary entries).dictGet key := by
  have filtered := sortByKey_filter entries key
  simp only [BNode.dictGet, beq_eq_decide, ← List.head?_filter, filtered]

end Sorting

mutual

/-- The tree with the entries of each dictionary sorted by key. -/
def sortKeys : BNode → BNode
  | .dictionary entries => .dictionary (sortByKey (sortKeysValues entries))
  | .list items => .list (sortKeysItems items)
  | .number digits => .number digits
  | .string bytes => .string bytes

def sortKeysValues : Entries → Entries
  | [] => []
  | (key, value) :: entries => (key, sortKeys value) :: sortKeysValues entries

def sortKeysItems : List BNode → List BNode
  | [] => []
  | item :: items => sortKeys item :: sortKeysItems items

end

mutual

/-- In every dictionary the keys do not decrease. -/
def KeysOrdered : BNode → Prop
  | .dictionary entries =>
    (entries.Pairwise fun left right => bytesLE left.1 right.1 = true) ∧ KeysOrderedValues entries
  | .list items => KeysOrderedItems items
  | .number _ => True
  | .string _ => True

def KeysOrderedValues : Entries → Prop
  | [] => True
  | (_, value) :: entries => KeysOrdered value ∧ KeysOrderedValues entries

def KeysOrderedItems : List BNode → Prop
  | [] => True
  | item :: items => KeysOrdered item ∧ KeysOrderedItems items

end

theorem sortKeysValues_eq (entries : Entries) :
    sortKeysValues entries = entries.map fun entry => (entry.1, sortKeys entry.2) := by
  induction entries with
  | nil => rfl
  | cons entry entries ih => rw [sortKeysValues, ih, List.map_cons]

theorem sortKeysItems_eq (items : List BNode) : sortKeysItems items = items.map sortKeys := by
  induction items with
  | nil => rfl
  | cons item items ih => rw [sortKeysItems, ih, List.map_cons]

theorem keysOrderedValues_iff (entries : Entries) :
    KeysOrderedValues entries ↔ ∀ entry ∈ entries, KeysOrdered entry.2 := by
  induction entries with
  | nil => simp [KeysOrderedValues]
  | cons entry entries ih => rw [KeysOrderedValues, ih, List.forall_mem_cons]

theorem keysOrderedItems_iff (items : List BNode) : KeysOrderedItems items ↔ ∀ item ∈ items, KeysOrdered item := by
  induction items with
  | nil => simp [KeysOrderedItems]
  | cons item items ih => rw [KeysOrderedItems, ih, List.forall_mem_cons]

variable {node : BNode}

theorem proper_sortKeys {depth : Nat} (proper : Proper depth node) : Proper depth (sortKeys node) := by
  induction depth generalizing node with
  | zero => cases proper
  | succ depth ih =>
    cases node with
    | number digits => exact proper
    | string bytes => exact proper
    | list items =>
      rw [sortKeys, sortKeysItems_eq]
      intro item member
      obtain ⟨original, known, rfl⟩ := List.mem_map.mp member
      exact ih (proper original known)
    | dictionary entries =>
      rw [sortKeys, sortKeysValues_eq]
      intro entry member
      obtain ⟨original, known, rfl⟩ := List.mem_map.mp (mem_sortByKey.mp member)
      exact ⟨(proper original known).1, ih (proper original known).2⟩

theorem encode_eq_spell (node : BNode) : encode node = spell (sortKeys node) := by
  induction node using BNode.nestedInduction with
  | number digits => rw [encode, sortKeys, spell]
  | string bytes => rw [encode, sortKeys, spell]
  | list items ih =>
    rw [encode_list, sortKeys, sortKeysItems_eq, spell_list, List.flatMap_map]
    have same : items.flatMap encode = items.flatMap fun item => spell (sortKeys item) := List.flatMap_congr ih
    rw [same]
  | dictionary entries ih =>
    rw [encode_dictionary, sortKeys, sortKeysValues_eq, sortByKey_map, spell_dictionary, List.flatMap_map]
    have same : (sortByKey entries).flatMap encodePair =
        (sortByKey entries).flatMap fun entry => spellPair (entry.1, sortKeys entry.2) := by
      apply List.flatMap_congr
      intro entry member
      rw [encodePair, ih entry (mem_sortByKey.mp member), spellPair]
    rw [same]

theorem word_encode {depth : Nat} (proper : Proper depth node) : Word depth (encode node) (sortKeys node) :=
  (renders_word depth _ _).mpr ⟨proper_sortKeys proper, encode_eq_spell node⟩

theorem map_eq_self_iff {α : Type} {change : α → α} {values : List α} :
    values.map change = values ↔ ∀ value ∈ values, change value = value := by
  induction values with
  | nil => simp
  | cons value values ih => rw [List.map_cons, List.cons.injEq, ih, List.forall_mem_cons]

theorem sortKeys_eq_iff (node : BNode) : sortKeys node = node ↔ KeysOrdered node := by
  induction node using BNode.nestedInduction with
  | number digits => exact ⟨fun _ => trivial, fun _ => rfl⟩
  | string bytes => exact ⟨fun _ => trivial, fun _ => rfl⟩
  | list items ih =>
    rw [sortKeys, sortKeysItems_eq, BNode.list.injEq, KeysOrdered, keysOrderedItems_iff, map_eq_self_iff]
    exact forall₂_congr ih
  | dictionary entries ih =>
    have values : (entries.map fun entry => (entry.1, sortKeys entry.2)) = entries ↔
        ∀ entry ∈ entries, KeysOrdered entry.2 := by
      rw [map_eq_self_iff]
      refine forall₂_congr fun entry member => ?_
      rw [← ih entry member, Prod.ext_iff, and_iff_right rfl]
    rw [sortKeys, sortKeysValues_eq, sortByKey_map, BNode.dictionary.injEq, KeysOrdered, keysOrderedValues_iff, ← values]
    constructor
    · intro same
      have sorted : entries.Pairwise fun left right => bytesLE left.1 right.1 = true := by
        rw [← same, List.pairwise_map]
        exact sortByKey_sorted entries
      rw [sortByKey_of_sorted sorted] at same
      exact ⟨sorted, same⟩
    · intro ordered
      rw [sortByKey_of_sorted ordered.1]
      exact ordered.2

theorem decode_sortKeys (proper : Proper maxDepth node) : decode (encode node) = .ok (sortKeys node) :=
  decode_eq_ok_iff.mpr (word_encode proper)

theorem encode_eq_iff_keysOrdered {buffer : Bytes} (decoded : decode buffer = .ok node) :
    encode node = buffer ↔ KeysOrdered node := by
  have member := decode_eq_ok_iff.mp decoded
  obtain ⟨proper, spelled⟩ := decode_eq_spell decoded
  have encoded := word_encode proper
  rw [← sortKeys_eq_iff node]
  constructor
  · intro same
    rw [same] at encoded
    exact ((reads_decodeBNode maxDepth).unique encoded member (@rfl _ (buffer ++ []))).1
  · intro same
    rw [encode_eq_spell node, same, spelled]

/-- Decoding undoes encoding up to the order of keys, and encoding undoes decoding where the keys
were in order. -/
theorem decode_encode :
    (∀ node, Proper maxDepth node → decode (encode node) = .ok (sortKeys node)) ∧
      ∀ buffer node, decode buffer = .ok node → (encode node = buffer ↔ KeysOrdered node) :=
  ⟨fun _ => decode_sortKeys, fun _ _ => encode_eq_iff_keysOrdered⟩

/-- Two entries with the same key and one with a smaller key. -/
theorem decode_encode_three_keys :
    decode (encode (.dictionary [([98], .number [49]), ([97], .string [120]), ([98], .list [])])) =
      .ok (.dictionary [([97], .string [120]), ([98], .number [49]), ([98], .list [])]) := by
  have proper : Proper maxDepth (.dictionary [([98], .number [49]), ([97], .string [120]), ([98], .list [])]) := by
    intro entry member
    simp only [List.mem_cons, List.not_mem_nil, or_false] at member
    rcases member with rfl | rfl | rfl
    · exact ⟨by decide, 1, by unfold IsI64; decide, by decide⟩
    · exact ⟨by decide, show 1 ≤ maxStringLen by decide⟩
    · exact ⟨by decide, fun _ inside => absurd inside List.not_mem_nil⟩
  exact decode_encode.1 _ proper

end BitTorrent.Bencode
