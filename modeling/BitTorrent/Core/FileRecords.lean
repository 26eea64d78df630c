import BitTorrent.Core.MetaInfo

/-! # The dictionary of the torrent parser

Under which keys the parser keeps the fields and the files of a torrent, and what a lookup finds
after files have been added.
-/

namespace BitTorrent

open List

section Keys

/-- Keys that the parser gives to the files of a torrent. -/
inductive FileKey : Text → Prop
  | number (fileNo : Nat) : FileKey (numeral fileNo)
  | root (fileNo : Nat) : FileKey (rootKey fileNo)
  | path (path : Text) : FileKey (rootPathKey path)

/-- Keys of the parser that are named in its source. -/
def namedKeys : List Text :=
  [text "announce", text "announce-list", text "comment", text "length", text "meta version", text "name",
    text "piece length", text "pieces", text "private", text "v1 info hash", text "v2 info hash",
    text "info hash"]

theorem numeral_head (fileNo : Nat) :
    (numeral fileNo).head?.any fun letter => decide (48 ≤ letter.toNat ∧ letter.toNat ≤ 57) := by
  obtain ⟨letter, rest, shape⟩ := exists_cons_of_ne_nil (numeral_ne_nil fileNo)
  have member : letter ∈ numeral fileNo := by rw [shape]; exact mem_cons_self
  rw [shape, head?_cons, Option.any_some]
  exact decide_eq_true (numeral_isDigit member)

theorem numeral_ne_of_head {key : Text} (fileNo : Nat)
    (other : (key.head?.any fun letter => decide (48 ≤ letter.toNat ∧ letter.toNat ≤ 57)) = false) :
    numeral fileNo ≠ key := by
  intro same
  rw [← same, numeral_head] at other
  contradiction

theorem numeral_not_mem {names : List Text} (fileNo : Nat)
    (others : ∀ name ∈ names, (name.head?.any fun letter => decide (48 ≤ letter.toNat ∧ letter.toNat ≤ 57)) = false) :
    numeral fileNo ∉ names :=
  fun member => numeral_ne_of_head fileNo (others _ member) rfl

theorem numeral_ne_rootKey (fileNo other : Nat) : numeral fileNo ≠ rootKey other :=
  numeral_ne_of_head fileNo rfl

theorem numeral_ne_rootPathKey (fileNo : Nat) (path : Text) : numeral fileNo ≠ rootPathKey path :=
  numeral_ne_of_head fileNo rfl

theorem rootKey_injective : Function.Injective rootKey := by
  intro left right same
  exact numeral_injective (append_cancel_left same)

theorem rootKey_ne_rootPathKey (fileNo : Nat) (path : Text) : rootKey fileNo ≠ rootPathKey path := by
  intro same
  exact numeral_ne_of_head fileNo rfl (append_cancel_left same)

theorem rootPathKey_eq_iff {left right : Text} :
    rootPathKey left = rootPathKey right ↔ normalPath left = normalPath right :=
  append_right_inj _

theorem FileKey.not_mem {names : List Text} {key : Text} (fileKey : FileKey key)
    (letters : ∀ name ∈ names, (name.head?.any fun letter => decide (48 ≤ letter.toNat ∧ letter.toNat ≤ 57)) = false)
    (starts : ∀ name ∈ names, (text "pieces_root_").isPrefixOf name = false) : key ∉ names := by
  have rootStart : ∀ rest, (text "pieces_root_").isPrefixOf (text "pieces_root_" ++ rest) = true := by
    intro rest
    exact isPrefixOf_iff_prefix.mpr (prefix_append _ _)
  intro known
  cases fileKey with
  | number fileNo => exact numeral_not_mem fileNo letters known
  | root fileNo =>
    have clash := (rootStart (numeral fileNo)).symm.trans (starts _ known)
    contradiction
  | path path =>
    have clash := (rootStart (text "path:" ++ normalPath path)).symm.trans (starts _ known)
    contradiction

theorem FileKey.not_named {key : Text} (fileKey : FileKey key) : key ∉ namedKeys :=
  fileKey.not_mem (by decide) (by decide)

end Keys

/-- What the parser keeps of one file. -/
structure FileRecord where
  path : Text
  piecesRoot : Option Bytes
  entry : Text

def FileRecord.ofLeaf (leaf : TreeFile) : FileRecord :=
  ⟨leaf.1, some leaf.2.2, '/' :: leaf.1 ++ '\x00' :: numeral leaf.2.1⟩

/-- The root that was written last under a path. -/
def lastRoot (path : Text) (records : List FileRecord) : Option Bytes :=
  records.reverse.findSome? fun record =>
    if normalPath record.path = normalPath path then record.piecesRoot else none

namespace MetaInfoFile

variable {file : MetaInfoFile} {key named : Text} {value : Bytes}

theorem get_insert_self : (file.insert key value).get key = some value := by
  rw [get, insert, lookup_cons_self]

theorem get_insert_of_ne (other : key ≠ named) : (file.insert named value).get key = file.get key := by
  rw [get, insert, lookup_cons, beq_eq_false_iff_ne.mpr other]
  rfl

def addRecord (file : MetaInfoFile) (item : FileRecord × Nat) : MetaInfoFile :=
  let file :=
    match item.1.piecesRoot with
    | some root => file.insertRoot item.1.path item.2 root
    | none => file
  file.insert (numeral item.2) (utf8 item.1.entry)

def addRecords (file : MetaInfoFile) (records : List FileRecord) : MetaInfoFile :=
  records.zipIdx.foldl addRecord file

theorem foldl_addTreeFile (file : MetaInfoFile) (leaves : List TreeFile) :
    leaves.zipIdx.foldl addTreeFile file = file.addRecords (leaves.map FileRecord.ofLeaf) := by
  rw [addRecords, zipIdx_map, foldl_map]
  rfl

theorem addRecords_append (file : MetaInfoFile) (records : List FileRecord) (record : FileRecord) :
    file.addRecords (records ++ [record]) = (file.addRecords records).addRecord (record, records.length) := by
  rw [addRecords, zipIdx_append, foldl_append, Nat.zero_add]
  rfl

variable {record : FileRecord} {records : List FileRecord} {fileNo : Nat}

theorem get_addRecord_number (index : Nat) :
    (file.addRecord (record, fileNo)).get (numeral index) =
      if index = fileNo then some (utf8 record.entry) else file.get (numeral index) := by
  split
  case isTrue same => rw [same, addRecord, get_insert_self]
  case isFalse other =>
    rw [addRecord, get_insert_of_ne fun same => other (numeral_injective same)]
    split
    case h_1 =>
      rw [insertRoot, get_insert_of_ne (numeral_ne_rootKey _ _), get_insert_of_ne (numeral_ne_rootPathKey _ _)]
    case h_2 => rfl

theorem get_addRecord_root (index : Nat) :
    (file.addRecord (record, fileNo)).get (rootKey index) =
      (if index = fileNo then record.piecesRoot else none).or (file.get (rootKey index)) := by
  rw [addRecord, get_insert_of_ne (numeral_ne_rootKey _ _).symm]
  cases record.piecesRoot with
  | none => rw [ite_self, Option.none_or]
  | some root =>
    dsimp only
    rw [insertRoot]
    split
    case isTrue same => rw [same, get_insert_self, Option.some_or]
    case isFalse other =>
      rw [get_insert_of_ne fun same => other (rootKey_injective same),
        get_insert_of_ne (rootKey_ne_rootPathKey _ _), Option.none_or]

theorem get_addRecord_path (path : Text) :
    (file.addRecord (record, fileNo)).get (rootPathKey path) =
      (if normalPath record.path = normalPath path then record.piecesRoot else none).or
        (file.get (rootPathKey path)) := by
  rw [addRecord, get_insert_of_ne (numeral_ne_rootPathKey _ _).symm]
  cases record.piecesRoot with
  | none => rw [ite_self, Option.none_or]
  | some root =>
    dsimp only
    rw [insertRoot, get_insert_of_ne (rootKey_ne_rootPathKey _ _).symm]
    split
    case isTrue same => rw [← rootPathKey_eq_iff.mpr same, get_insert_self, Option.some_or]
    case isFalse other =>
      rw [get_insert_of_ne fun same => other (rootPathKey_eq_iff.mp same.symm), Option.none_or]

theorem getElem?_concat_of_ne {α : Type} {records : List α} {index : Nat} (record : α) (other : index ≠ records.length) :
    (records ++ [record])[index]? = records[index]? := by
  rcases Nat.lt_or_gt_of_ne other with before | after
  · rw [getElem?_append_left before]
  · rw [getElem?_eq_none (Nat.le_of_lt after), getElem?_eq_none (by simp; omega)]

theorem get_addRecords_number (index : Nat) :
    (file.addRecords records).get (numeral index) =
      (records[index]?.map fun record => utf8 record.entry).or (file.get (numeral index)) := by
  induction records using reverseRecOn with
  | nil => rfl
  | append_singleton records record ih =>
    rw [addRecords_append, get_addRecord_number]
    split
    case isTrue same => rw [same, getElem?_concat_length]; rfl
    case isFalse other => rw [ih, getElem?_concat_of_ne record other]

theorem get_addRecords_root (index : Nat) :
    (file.addRecords records).get (rootKey index) =
      (records[index]?.bind FileRecord.piecesRoot).or (file.get (rootKey index)) := by
  induction records using reverseRecOn with
  | nil => rfl
  | append_singleton records record ih =>
    rw [addRecords_append, get_addRecord_root, ih]
    split
    case isTrue same =>
      rw [same, getElem?_concat_length, getElem?_eq_none (Nat.le_refl _)]
      rfl
    case isFalse other => rw [Option.none_or, getElem?_concat_of_ne record other]

theorem get_addRecords_path (path : Text) :
    (file.addRecords records).get (rootPathKey path) =
      (lastRoot path records).or (file.get (rootPathKey path)) := by
  induction records using reverseRecOn with
  | nil => rfl
  | append_singleton records record ih =>
    rw [addRecords_append, get_addRecord_path, ih, lastRoot, lastRoot, reverse_append,
      reverse_singleton, singleton_append, findSome?_cons, ← Option.or_assoc]
    congr 1
    cases if normalPath record.path = normalPath path then record.piecesRoot else none with
    | none => rfl
    | some root => rfl

theorem get_addRecord_other (other : ¬FileKey key) : (file.addRecord (record, fileNo)).get key = file.get key := by
  have different : ∀ {name : Text}, FileKey name → key ≠ name := fun fileKey same => other (same ▸ fileKey)
  rw [addRecord, get_insert_of_ne (different (.number fileNo))]
  split
  case h_1 => rw [insertRoot, get_insert_of_ne (different (.root fileNo)), get_insert_of_ne (different (.path _))]
  case h_2 => rfl

theorem get_addRecords_other (other : ¬FileKey key) : (file.addRecords records).get key = file.get key := by
  induction records using reverseRecOn with
  | nil => rfl
  | append_singleton records record ih => rw [addRecords_append, get_addRecord_other other, ih]

theorem numbered_le {count : Nat} (found : ∀ index < count, file.get (numeral index) ≠ none) :
    count ≤ file.metaInfoDict.length := by
  have distinct : ((range count).map numeral).Nodup := nodup_range.map numeral_injective
  have within : (range count).map numeral ⊆ file.metaInfoDict.map Prod.fst := by
    intro key member
    obtain ⟨index, inside, rfl⟩ := mem_map.mp member
    by_contra absent
    apply found index (mem_range.mp inside)
    rw [get, lookup_eq_none_iff]
    intro entry known
    apply bne_iff_ne.mpr
    intro same
    exact absent (same ▸ mem_map_of_mem known)
  have size := (subperm_of_subset distinct within).length_le
  rwa [length_map, length_range, length_map] at size

variable {digests : Digests}

theorem get_addInfoHash (raw : Bytes) (v1 : key ≠ text "v1 info hash") (v2 : key ≠ text "v2 info hash")
    (both : key ≠ text "info hash") : (file.addInfoHash digests raw).get key = file.get key := by
  rw [addInfoHash]
  split
  case isTrue => rw [get_insert_of_ne both, get_insert_of_ne v2, get_insert_of_ne v1]
  case isFalse =>
    split
    case isTrue => rw [get_insert_of_ne both, get_insert_of_ne v2]
    case isFalse => rw [get_insert_of_ne both, get_insert_of_ne v1]

end MetaInfoFile

end BitTorrent
