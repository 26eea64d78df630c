import BitTorrent.Library.PrefixFree
import BitTorrent.Utils.Bencode

/-! # The v2 file tree

`FileTreeNode` of `core/torrent_builder.rs`.  A `BTreeMap` is a list of its entries: wherever
one is written out its entries are sorted by key.
-/

namespace BitTorrent

open Bencode List

section Map

variable {κ α : Type} [BEq κ] {key : κ} {value : α} {entries : List (κ × α)}

/-- `BTreeMap::insert`. -/
def insertEntry (key : κ) (value : α) : List (κ × α) → List (κ × α)
  | [] => [(key, value)]
  | entry :: entries => if key == entry.1 then (key, value) :: entries else entry :: insertEntry key value entries

theorem insertEntry_absent (absent : entries.lookup key = none) :
    insertEntry key value entries = entries ++ [(key, value)] := by
  induction entries with
  | nil => rfl
  | cons entry entries ih =>
    rw [lookup_cons] at absent
    split at absent
    case h_1 => cases absent
    case h_2 other => rw [insertEntry, if_neg (by simp [other]), ih absent, cons_append]

variable [LawfulBEq κ]

theorem insertEntry_present {old : α} (present : entries.lookup key = some old) :
    ∃ before after, entries = before ++ (key, old) :: after ∧
      ∀ value, insertEntry key value entries = before ++ (key, value) :: after := by
  induction entries with
  | nil => cases present
  | cons entry entries ih =>
    rw [lookup_cons] at present
    split at present
    case h_1 same =>
      cases present
      exact ⟨[], entries, by rw [beq_iff_eq.mp same]; rfl, fun value => by rw [insertEntry, if_pos same]; rfl⟩
    case h_2 other =>
      obtain ⟨before, after, split, inserted⟩ := ih present
      exact ⟨entry :: before, after, by rw [split]; rfl,
        fun value => by rw [insertEntry, if_neg (by simp [other]), inserted]; rfl⟩

theorem mem_of_lookup {old : α} (present : entries.lookup key = some old) : (key, old) ∈ entries := by
  obtain ⟨before, after, split, _⟩ := insertEntry_present present
  rw [split]
  exact mem_append_right _ mem_cons_self

theorem mem_insertEntry {entry : κ × α} (member : entry ∈ insertEntry key value entries) :
    entry = (key, value) ∨ entry ∈ entries := by
  cases found : entries.lookup key with
  | none =>
    rw [insertEntry_absent found, mem_append, mem_singleton] at member
    exact member.symm
  | some old =>
    obtain ⟨before, after, split, inserted⟩ := insertEntry_present found
    rw [inserted, mem_append, mem_cons] at member
    rw [split, mem_append, mem_cons]
    rcases member with left | new | right
    · exact .inr (.inl left)
    · exact .inl new
    · exact .inr (.inr (.inr right))

theorem nodup_insertEntry (distinct : (entries.map Prod.fst).Nodup) :
    ((insertEntry key value entries).map Prod.fst).Nodup := by
  cases found : entries.lookup key with
  | none =>
    rw [insertEntry_absent found, map_append, map_singleton]
    refine distinct.append (nodup_singleton key) (disjoint_singleton.mpr ?_)
    intro member
    obtain ⟨entry, inside, rfl⟩ := mem_map.mp member
    exact bne_iff_ne.mp (lookup_eq_none_iff.mp found entry inside) rfl
  | some old =>
    obtain ⟨before, after, split, inserted⟩ := insertEntry_present found
    rw [split, map_append, map_cons] at distinct
    rw [inserted, map_append, map_cons]
    exact distinct

end Map

theorem subperm_map {α β : Type} (image : α → β) {part whole : List α} (within : part.Subperm whole) :
    (part.map image).Subperm (whole.map image) := by
  obtain ⟨reordered, same, sublist⟩ := within
  exact ⟨reordered.map image, same.map image, sublist.map image⟩

inductive FileTreeNode where
  | directory (entries : List (Text × FileTreeNode))
  | file (length : Nat) (piecesRoot : Hash UInt8)

abbrev Directory := List (Text × FileTreeNode)

namespace FileTreeNode

/-- `none` where the code is `unreachable`, at a file on the way to another. -/
def insertFile (length : Nat) (piecesRoot : Hash UInt8) : FileTreeNode → List Text → Option FileTreeNode
  | .directory entries, [fileName] =>
    some (.directory (insertEntry fileName (.file length piecesRoot) entries))
  | .directory entries, dirName :: segment :: segments => do
      let child ← insertFile length piecesRoot ((entries.lookup dirName).getD (.directory [])) (segment :: segments)
      return .directory (insertEntry dirName child entries)
  | _, _ => none

mutual

def toBNode : FileTreeNode → BNode
  | .directory entries => .dictionary (sortByKey (toEntries entries))
  | .file length piecesRoot =>
    .dictionary [([], .dictionary [(ascii "length", .number (decimal length)),
      (ascii "pieces root", .string piecesRoot.toList)])]

def toEntries : Directory → Entries
  | [] => []
  | (name, child) :: entries => (utf8 name, child.toBNode) :: toEntries entries

end

mutual

/-- Path, length and pieces root of the files of a tree, in the order in which it is written. -/
def leaves : FileTreeNode → List Text → List (Text × Nat × Bytes)
  | .directory entries, path => (sortByKey (leafLists entries path)).flatMap Prod.snd
  | .file length piecesRoot, path => [(joinSlash path, length, piecesRoot.toList)]

def leafLists : Directory → List Text → List (Bytes × List (Text × Nat × Bytes))
  | [], _ => []
  | (name, child) :: entries, path => (utf8 name, child.leaves (path ++ [name])) :: leafLists entries path

end

def nested (name : Text) (file : List Text × Nat × Hash UInt8) : List Text × Nat × Hash UInt8 :=
  (name :: file.1, file.2)

mutual

/-- Path, length and pieces root of the files of a tree, in the order of its entries. -/
def files : FileTreeNode → List (List Text × Nat × Hash UInt8)
  | .directory entries => entryFiles entries
  | .file length piecesRoot => [([], length, piecesRoot)]

def entryFiles : Directory → List (List Text × Nat × Hash UInt8)
  | [] => []
  | (name, child) :: entries => child.files.map (nested name) ++ entryFiles entries

end

/-- No name in the tree is empty. -/
inductive Named : FileTreeNode → Prop
  | file (length : Nat) (piecesRoot : Hash UInt8) : Named (.file length piecesRoot)
  | directory {entries : Directory} (names : ∀ entry ∈ entries, entry.1 ≠ [])
      (children : ∀ entry ∈ entries, Named entry.2) : Named (.directory entries)

/-- No directory of the tree has two entries of one name. -/
inductive Distinct : FileTreeNode → Prop
  | file (length : Nat) (piecesRoot : Hash UInt8) : Distinct (.file length piecesRoot)
  | directory {entries : Directory} (names : (entries.map Prod.fst).Nodup)
      (children : ∀ entry ∈ entries, Distinct entry.2) : Distinct (.directory entries)

section Facts

variable {entries : Directory} {path : List Text} {length : Nat} {piecesRoot : Hash UInt8}

theorem toEntries_eq (entries : Directory) :
    toEntries entries = entries.map fun entry => (utf8 entry.1, entry.2.toBNode) := by
  induction entries with
  | nil => rfl
  | cons entry entries ih => rw [toEntries, ih, map_cons]

theorem leafLists_eq (entries : Directory) (path : List Text) :
    leafLists entries path = entries.map fun entry => (utf8 entry.1, entry.2.leaves (path ++ [entry.1])) := by
  induction entries with
  | nil => rfl
  | cons entry entries ih => rw [leafLists, ih, map_cons]

theorem entryFiles_eq (entries : Directory) :
    entryFiles entries = entries.flatMap fun entry => entry.2.files.map (nested entry.1) := by
  induction entries with
  | nil => rfl
  | cons entry entries ih => rw [entryFiles, ih, flatMap_cons]

/-- A file as it is written nested a directory. -/
def leafBelow (path : List Text) (file : List Text × Nat × Hash UInt8) : Text × Nat × Bytes :=
  (joinSlash (path ++ file.1), file.2.1, file.2.2.toList)

theorem leafBelow_nested (path : List Text) (name : Text) (file : List Text × Nat × Hash UInt8) :
    leafBelow path (nested name file) = leafBelow (path ++ [name]) file := by
  rw [leafBelow, leafBelow, nested, append_assoc, singleton_append]

mutual

theorem leaves_perm_files : ∀ (node : FileTreeNode) (path : List Text),
    (node.leaves path).Perm (node.files.map (leafBelow path))
  | .directory entries, path => by
      rw [leaves, leafLists_eq]
      refine ((perm_insertionSort _ _).flatMap_right _).trans ?_
      rw [flatMap_map]
      exact entryLeaves_perm_files entries path
  | .file length piecesRoot, path => by
      rw [leaves, files, map_singleton, leafBelow, append_nil]

theorem entryLeaves_perm_files : ∀ (entries : Directory) (path : List Text),
    (entries.flatMap fun entry => entry.2.leaves (path ++ [entry.1])).Perm
      ((entryFiles entries).map (leafBelow path))
  | [], _ => .refl _
  | (name, child) :: entries, path => by
      rw [flatMap_cons, entryFiles, map_append, map_map]
      refine ((leaves_perm_files child (path ++ [name])).trans (.of_eq ?_)).append
        (entryLeaves_perm_files entries path)
      exact map_congr_left fun file _ => (leafBelow_nested path name file).symm

end

/-- The files of a directory apart from those below one name, which alone an insertion changes. -/
theorem files_insertEntry (entries : Directory) (name : Text) :
    ∃ others : List (List Text × Nat × Hash UInt8),
      (directory entries).files.Perm
        (((entries.lookup name).getD (.directory [])).files.map (nested name) ++ others) ∧
      ∀ child, (directory (insertEntry name child entries)).files.Perm (child.files.map (nested name) ++ others) := by
  cases found : entries.lookup name with
  | none =>
    refine ⟨(directory entries).files, .refl _, ?_⟩
    intro child
    rw [insertEntry_absent found, files, files, entryFiles_eq, flatMap_append, flatMap_singleton,
      ← entryFiles_eq]
    exact perm_append_comm
  | some old =>
    obtain ⟨before, after, split, inserted⟩ := insertEntry_present found
    have focused : ∀ child, (directory (before ++ (name, child) :: after)).files.Perm
        (child.files.map (nested name) ++ entryFiles (before ++ after)) := by
      intro child
      rw [files, entryFiles_eq, entryFiles_eq]
      refine (perm_middle.flatMap_right _).trans ?_
      rw [flatMap_cons]
    refine ⟨entryFiles (before ++ after), ?_, ?_⟩
    · rw [split]
      exact focused old
    · intro child
      rw [inserted]
      exact focused child

variable {segments : List Text} {node after : FileTreeNode}

theorem files_insertFile (inserted : node.insertFile length piecesRoot segments = some after) :
    ∃ kept : List (List Text × Nat × Hash UInt8),
      after.files.Perm ((segments, length, piecesRoot) :: kept) ∧ kept.Subperm node.files ∧
        ((∀ file ∈ node.files, ¬segments <+: file.1) → kept.Perm node.files) := by
  induction segments generalizing node after with
  | nil =>
    cases node with
    | file => cases inserted
    | directory => cases inserted
  | cons name segments ih =>
    cases node with
    | file => cases inserted
    | directory entries =>
      obtain ⟨others, old, new⟩ := files_insertEntry entries name
      cases segments with
      | nil =>
        cases inserted
        refine ⟨others, new _, ?_, ?_⟩
        · exact (sublist_append_right _ _).subperm.trans old.symm.subperm
        · intro clear
          refine Perm.trans (.of_eq ?_) old.symm
          rw [eq_comm, append_left_eq_self, map_eq_nil_iff, eq_nil_iff_forall_not_mem]
          intro file member
          refine clear (nested name file) (old.mem_iff.mpr ?_) ⟨file.1, rfl⟩
          exact mem_append_left _ (mem_map_of_mem member)
      | cons segment segments =>
        rw [insertFile, Option.bind_eq_bind, Option.bind_eq_some_iff] at inserted
        obtain ⟨child, deeper, rebuilt⟩ := inserted
        cases rebuilt
        obtain ⟨kept, grown, within, all⟩ := ih deeper
        refine ⟨kept.map (nested name) ++ others, ?_, ?_, ?_⟩
        · exact (new child).trans ((grown.map (nested name)).append_right others)
        · exact ((subperm_map (nested name) within).append (.refl others)).trans old.symm.subperm
        · intro clear
          refine (((all ?_).map (nested name)).append_right others).trans old.symm
          intro file member beyond
          refine clear (nested name file) (old.mem_iff.mpr ?_) (cons_prefix_cons.mpr ⟨rfl, beyond⟩)
          exact mem_append_left _ (mem_map_of_mem member)

/-- A file is refused only where the way to it goes through another file. -/
theorem exists_insertFile (nonempty : segments ≠ []) (clear : ∀ file ∈ node.files, ¬file.1 <+: segments) :
    ∃ after, node.insertFile length piecesRoot segments = some after := by
  induction segments generalizing node with
  | nil => exact absurd rfl nonempty
  | cons name segments ih =>
    cases node with
    | file size root => exact absurd nil_prefix (clear ([], size, root) mem_cons_self)
    | directory entries =>
      cases segments with
      | nil => exact ⟨_, rfl⟩
      | cons segment segments =>
        obtain ⟨others, old, _⟩ := files_insertEntry entries name
        obtain ⟨child, deeper⟩ : ∃ child, ((entries.lookup name).getD (.directory [])).insertFile length piecesRoot
            (segment :: segments) = some child := by
          apply ih (cons_ne_nil _ _)
          intro file member beyond
          refine clear (nested name file) (old.mem_iff.mpr ?_) (cons_prefix_cons.mpr ⟨rfl, beyond⟩)
          exact mem_append_left _ (mem_map_of_mem member)
        rw [insertFile, deeper]
        exact ⟨_, rfl⟩

theorem leaves_insertFile (inserted : node.insertFile length piecesRoot segments = some after) :
    ∃ kept : List (Text × Nat × Bytes),
      (after.leaves path).Perm ((joinSlash (path ++ segments), length, piecesRoot.toList) :: kept) ∧
        kept.Subperm (node.leaves path) := by
  obtain ⟨kept, grown, within, _⟩ := files_insertFile inserted
  refine ⟨kept.map (leafBelow path), ?_, ?_⟩
  · exact (leaves_perm_files after path).trans (grown.map (leafBelow path))
  · exact (subperm_map (leafBelow path) within).trans (leaves_perm_files node path).symm.subperm

/-- What an insertion changes at every directory on its way holds of the whole tree. -/
theorem insertFile_preserves {holds : FileTreeNode → Prop} (added : holds (.file length piecesRoot))
    (lookup : ∀ entries name, holds (.directory entries) → holds ((entries.lookup name).getD (.directory [])))
    (insert : ∀ entries name child, name ∈ segments → holds (.directory entries) → holds child →
      holds (.directory (insertEntry name child entries)))
    (before : holds node) (inserted : node.insertFile length piecesRoot segments = some after) : holds after := by
  induction segments generalizing node after with
  | nil =>
    cases node with
    | file => cases inserted
    | directory => cases inserted
  | cons name segments ih =>
    cases node with
    | file => cases inserted
    | directory entries =>
      cases segments with
      | nil =>
        cases inserted
        exact insert entries name _ mem_cons_self before added
      | cons segment segments =>
        rw [insertFile, Option.bind_eq_bind, Option.bind_eq_some_iff] at inserted
        obtain ⟨child, deeper, rebuilt⟩ := inserted
        cases rebuilt
        have grown : holds child := ih
          (fun entries other child member => insert entries other child (mem_cons_of_mem _ member))
          (lookup entries name before) deeper
        exact insert entries name child mem_cons_self before grown

theorem named_empty : Named (.directory []) := .directory (by simp) (by simp)

theorem distinct_empty : Distinct (.directory []) := .directory nodup_nil (by simp)

theorem of_lookup {holds : FileTreeNode → Prop} (name : Text)
    (empty : holds (.directory [])) (children : ∀ entry ∈ entries, holds entry.2) :
    holds ((entries.lookup name).getD (.directory [])) := by
  cases found : entries.lookup name with
  | none => exact empty
  | some child => exact children (name, child) (mem_of_lookup found)

theorem named_insertFile (named : Named node) (nonempty : ∀ segment ∈ segments, segment ≠ [])
    (inserted : node.insertFile length piecesRoot segments = some after) : Named after := by
  refine insertFile_preserves (.file length piecesRoot) ?_ ?_ named inserted
  · intro entries name named
    cases named with
    | directory names children => exact of_lookup name named_empty children
  · intro entries name child member named newNamed
    cases named with
    | directory names children =>
      apply Named.directory
      · intro entry inside
        rcases mem_insertEntry inside with rfl | old
        · exact nonempty name member
        · exact names entry old
      · intro entry inside
        rcases mem_insertEntry inside with rfl | old
        · exact newNamed
        · exact children entry old

theorem distinct_insertFile (distinct : Distinct node)
    (inserted : node.insertFile length piecesRoot segments = some after) : Distinct after := by
  refine insertFile_preserves (.file length piecesRoot) ?_ ?_ distinct inserted
  · intro entries name distinct
    cases distinct with
    | directory names children => exact of_lookup name distinct_empty children
  · intro entries name child _ distinct newDistinct
    cases distinct with
    | directory names children =>
      apply Distinct.directory (nodup_insertEntry names)
      intro entry inside
      rcases mem_insertEntry inside with rfl | old
      · exact newDistinct
      · exact children entry old

theorem Distinct.prefixFree (distinct : Distinct node) : PrefixFree (node.files.map Prod.fst) := by
  induction distinct with
  | file length piecesRoot => exact pairwise_singleton _ _
  | @directory entries names children ih =>
    rw [files, entryFiles_eq, map_flatMap, PrefixFree, pairwise_flatMap]
    constructor
    · intro entry member
      rw [map_map, pairwise_map]
      refine (pairwise_map.mp (ih entry member)).imp ?_
      intro left right apart
      simp only [Incomparable, Function.comp_apply, nested, cons_prefix_cons, true_and]
      exact apart
    · refine (pairwise_map.mp names).imp ?_
      intro left right other leftPath leftMember rightPath rightMember
      rw [map_map, mem_map] at leftMember rightMember
      obtain ⟨leftFile, _, rfl⟩ := leftMember
      obtain ⟨rightFile, _, rfl⟩ := rightMember
      simp only [Incomparable, Function.comp_apply, nested, cons_prefix_cons, not_and]
      exact ⟨fun same => absurd same other, fun same => absurd same.symm other⟩

end Facts

end FileTreeNode

end BitTorrent
