import BitTorrent.Core.DeclaredFiles
import BitTorrent.Core.BuilderEntries
import BitTorrent.Utils.BencodeRoundTrip

/-! # The dictionaries of a built torrent

What the three formats of the builder write, and the files that stand in it.
-/

namespace BitTorrent

open Bencode MetaInfoFile BNode List

namespace FileTreeNode

def writtenLeaf (leaf : Text × Nat × Bytes) : Leaf :=
  (leaf.1, [(ascii "length", .number (decimal leaf.2.1)), (ascii "pieces root", .string leaf.2.2)])

theorem leafFile_writtenLeaf {leaf : TreeFile} (small : leaf.2.1 < u64Size) : leafFile (writtenLeaf leaf) = leaf := by
  obtain ⟨path, length, root⟩ := leaf
  have parsed := parseUnsigned_decimal small
  have read : leafFile (writtenLeaf (path, length, root)) =
      (path, (parseUnsigned u64Size (decimal length)).getD 0, root) := rfl
  rw [read, parsed]
  rfl

theorem leavesOf_toBNode {node : FileTreeNode} (named : node.Named) (path : List Text) :
    leavesOf path node.toBNode = (node.leaves path).map writtenLeaf := by
  induction named generalizing path with
  | file length root => rfl
  | @directory entries names children ih =>
    rw [toBNode, leavesOf, leavesOfEntries_eq, sorted_toEntries, leaves_inOrder, flatMap_map, map_flatMap]
    apply flatMap_congr
    intro item member
    obtain ⟨entry, present, rfl⟩ := mem_map.mp (mem_sortByKey.mp member)
    rw [entryLeaves, if_neg (utf8_ne_nil (names entry present)), fromUtf8Lossy_utf8]
    exact ih entry present (path ++ [entry.1])

end FileTreeNode

/-- The fields that the parser finds in the entry of a file. -/
def MetaInfoFile.fieldsOf (entry : V1File) : FileFields where
  length := numeral entry.content.length
  md5sum := []
  pathSegments := entry.segments
  piecesRoot := entry.piecesRoot.map List.Vector.toList

def FileRecord.ofEntry (entry : V1File) : FileRecord :=
  ⟨joinSlash entry.segments, entry.piecesRoot.map List.Vector.toList, (MetaInfoFile.fieldsOf entry).entry⟩

namespace TorrentBuilder

variable {digests : Digests} {builder : TorrentBuilder} {bytes : Bytes} {format : TorrentExportFormat}

section Dictionaries

variable (digests : Digests) (builder : TorrentBuilder) (fileTree : FileTreeNode)

/-- The fields of `info` but for the private flag; v1 has no tree. -/
def writtenFields : TorrentExportFormat → Entries
  | .v1 => builder.nameFields ++ builder.v1Fields (builder.plainPieces digests) (builder.files.map plainItem)
  | .v2 => treeFields fileTree ++ builder.nameFields
  | .hybrid => treeFields fileTree ++ builder.nameFields ++
      builder.v1Fields (builder.v1Pieces digests) ((builder.v1Files digests).map V1File.toBNode)

def writtenInfo (format : TorrentExportFormat) : Entries :=
  sortByKey (builder.writtenFields digests fileTree format ++ builder.privateFields)

abbrev writtenNode (format : TorrentExportFormat) : BNode := .dictionary (builder.writtenInfo digests fileTree format)

def writtenRoot (layers : LayerMap) : TorrentExportFormat → Entries
  | .v1 => sortByKey (builder.plainRoot digests)
  | .v2 => sortByKey (builder.treeRoot fileTree layers)
  | .hybrid => sortByKey (builder.rootEntries digests fileTree layers)

abbrev writtenBytes (layers : LayerMap) (format : TorrentExportFormat) : Bytes :=
  encode (.dictionary (builder.writtenRoot digests fileTree layers format))

end Dictionaries

/-- The file tree of a builder with its layers; v1 has neither. -/
def Trees (digests : Digests) (builder : TorrentBuilder) (format : TorrentExportFormat) (fileTree : FileTreeNode)
    (layers : LayerMap) : Prop :=
  format = .v1 ∨ builder.validatePieceLength = .ok () ∧
    builder.buildV2FileTreeAndLayers digests = .ok (fileTree, layers)

theorem buildV1_eq_ok (built : builder.buildV1 digests = .ok bytes) :
    builder.files ≠ [] ∧ 0 < builder.pieceLength ∧ builder.totalStream.length < 2 ^ 63 ∧
      bytes = encode (.dictionary (sortByKey (builder.plainRoot digests))) := by
  rw [buildV1] at built
  split at built
  case isTrue => cases built
  case isFalse nonempty =>
    split at built
    case isTrue => cases built
    case isFalse sound =>
      cases built
      rw [not_or, Nat.not_le] at sound
      exact ⟨nonempty, Nat.pos_of_ne_zero sound.1, sound.2, rfl⟩

theorem buildV2_eq_ok (built : builder.buildV2 digests = .ok bytes) :
    builder.validatePieceLength = .ok () ∧
      ∃ fileTree layers, builder.buildV2FileTreeAndLayers digests = .ok (fileTree, layers) ∧
        bytes = encode (.dictionary (sortByKey (builder.treeRoot fileTree layers))) := by
  obtain ⟨valid, fileTree, layers, tree, built⟩ := withTree_eq_ok built
  cases built
  exact ⟨valid, fileTree, layers, tree, rfl⟩

theorem build_eq_ok (built : builder.build digests format = .ok bytes) :
    builder.files ≠ [] ∧ ∃ fileTree layers, Trees digests builder format fileTree layers ∧
      bytes = builder.writtenBytes digests fileTree layers format := by
  cases format with
  | v1 =>
    obtain ⟨nonempty, _, _, written⟩ := buildV1_eq_ok built
    exact ⟨nonempty, .directory [], [], .inl rfl, written⟩
  | v2 =>
    obtain ⟨valid, fileTree, layers, tree, written⟩ := buildV2_eq_ok built
    exact ⟨(validatePieceLength_eq_ok valid).2.2, fileTree, layers, .inr ⟨valid, tree⟩, written⟩
  | hybrid =>
    obtain ⟨valid, _, fileTree, layers, tree, written⟩ := buildHybrid_eq_ok built
    exact ⟨(validatePieceLength_eq_ok valid).2.2, fileTree, layers, .inr ⟨valid, tree⟩, written⟩

theorem info_mem_writtenRoot (fileTree : FileTreeNode) (layers : LayerMap) :
    (ascii "info", builder.writtenNode digests fileTree format) ∈
      builder.writtenRoot digests fileTree layers format := by
  cases format with
  | v1 => exact mem_sortByKey.mpr (by simp [plainRoot, plainInfo, writtenInfo, writtenFields])
  | v2 => exact mem_sortByKey.mpr (by simp [treeRoot, treeInfo, writtenInfo, writtenFields])
  | hybrid => exact mem_sortByKey.mpr (by simp [rootEntries, infoEntries, writtenInfo, writtenFields])

section Files

/-- A file as a list of files or a file tree declares it. -/
def declaredFile (file : Text × Bytes) : DeclaredFile where
  path := joinSlash (pathSegments file.1)
  length := numeral file.2.length

def writtenItems (digests : Digests) (builder : TorrentBuilder) : TorrentExportFormat → Option (List BNode)
  | .v1 => if builder.isSingleFile then none else some (builder.files.map plainItem)
  | .v2 => none
  | .hybrid => if builder.isSingleFile then none else some ((builder.v1Files digests).map V1File.toBNode)

theorem dictGet_writtenInfo {key : Bytes} (other : key ≠ ascii "private") :
    (builder.writtenNode digests fileTree format).dictGet key =
      (dictionary (builder.writtenFields digests fileTree format)).dictGet key := by
  rw [writtenNode, writtenInfo, dictGet_sortByKey, privateFields]
  simp only [dictGet, find?_append]
  cases builder.isPrivate with
  | false => simp
  | true => simp [Ne.symm other]

theorem dictGet_files (fileTree : FileTreeNode) :
    (builder.writtenNode digests fileTree format).dictGet (ascii "files") =
      (builder.writtenItems digests format).map .list := by
  rw [dictGet_writtenInfo (by decide)]
  cases format <;> simp only [writtenFields, v1Fields, writtenItems] <;> cases builder.isSingleFile <;> rfl

theorem dictGet_fileTree (fileTree : FileTreeNode) :
    (builder.writtenNode digests fileTree format).dictGet (ascii "file tree") =
      if format = .v1 then none else some fileTree.toBNode := by
  rw [dictGet_writtenInfo (by decide)]
  cases format <;> simp only [writtenFields, v1Fields] <;> cases builder.isSingleFile <;> rfl

theorem pathSegmentsOf_texts (segments : List Text) :
    pathSegmentsOf (.list (segments.map fun segment => .string (utf8 segment))) = segments := by
  rw [pathSegmentsOf, listItems, filterMap_map]
  induction segments with
  | nil => rfl
  | cons segment segments ih =>
    rw [filterMap_cons, ih]
    simp [stringBytes, fromUtf8Lossy_utf8]

theorem declaredItem_eq {item : BNode} {segments : List Text} {size : Nat}
    (path : (dictionary item.dictEntries).dictGet (ascii "path") =
      some (.list (segments.map fun segment => .string (utf8 segment))))
    (length : (dictionary item.dictEntries).dictGet (ascii "length") = some (.number (decimal size))) :
    declaredItem item = ⟨joinSlash segments, numeral size⟩ := by
  rw [declaredItem, path, length, Option.elim_some, pathSegmentsOf_texts, Option.bind_some, scalarBytes,
    Option.elim_some, decimal, fromUtf8Lossy_utf8]

theorem declaredItem_plainItem (file : Text × Bytes) : declaredItem (plainItem file) = declaredFile file :=
  declaredItem_eq rfl rfl

theorem itemFields_toBNode (entry : V1File) : itemFields entry.toBNode = fieldsOf entry := by
  obtain ⟨segments, content, piecesRoot⟩ := entry
  have length : fromUtf8Lossy (decimal content.length) = numeral content.length := fromUtf8Lossy_utf8 _
  have path := pathSegmentsOf_texts segments
  cases piecesRoot with
  | none => exact congrArg₂ (fun length path => FileFields.mk length [] path none) length path
  | some root =>
    refine (if_pos root.toList_length).trans ?_
    exact congrArg₂ (fun length path => FileFields.mk length [] path (some root.toList)) length path

theorem itemRecord_toBNode (entry : V1File) : itemRecord entry.toBNode = .ofEntry entry := by
  rw [itemRecord, itemFields_toBNode]
  rfl

theorem declaredItem_toBNode (entry : V1File) :
    declaredItem entry.toBNode = ⟨joinSlash entry.segments, numeral entry.content.length⟩ := by
  obtain ⟨segments, content, piecesRoot⟩ := entry
  cases piecesRoot with
  | none => exact declaredItem_eq rfl rfl
  | some root => exact declaredItem_eq rfl rfl

theorem declaredLeaf_writtenLeaf (leaf : Text × Nat × Bytes) :
    declaredLeaf (FileTreeNode.writtenLeaf leaf) = ⟨leaf.1, numeral leaf.2.1⟩ := by
  have length : (dictionary (FileTreeNode.writtenLeaf leaf).2).dictGet (ascii "length") =
      some (.number (decimal leaf.2.1)) := rfl
  rw [declaredLeaf, length, Option.bind_some, asNumberBytes, Option.elim_some, decimal, fromUtf8Lossy_utf8]
  rfl

theorem sublist_writtenItems {items : List BNode} (listed : builder.writtenItems digests format = some items) :
    (builder.files.map declaredFile).Sublist (items.map declaredItem) := by
  cases format with
  | v2 => cases listed
  | v1 =>
    rw [writtenItems] at listed
    obtain ⟨_, listed⟩ := Option.ite_none_left_eq_some.mp listed
    cases listed
    rw [map_map]
    rw [map_congr_left fun file _ => (declaredItem_plainItem file).symm]
    exact .refl _
  | hybrid =>
    rw [writtenItems] at listed
    obtain ⟨_, listed⟩ := Option.ite_none_left_eq_some.mp listed
    cases listed
    rw [v1Files, map_map, map_flatMap]
    generalize builder.files = files
    induction files with
    | nil => exact .slnil
    | cons file files ih =>
      rw [map_cons, flatMap_cons, v1Entries, map_cons, cons_append, Function.comp_apply,
        declaredItem_toBNode]
      exact (ih.trans (sublist_append_right _ _)).cons_cons (declaredFile file)

end Files

end TorrentBuilder

end BitTorrent
