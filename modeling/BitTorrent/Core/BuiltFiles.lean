import BitTorrent.Core.WrittenLimits

/-! # The files of a built torrent

Which files the parser lists for a built torrent, with their pieces roots.  A file tree is written with
the names of each directory in the order of their bytes, whatever the order in which files were added.
-/

namespace BitTorrent

open Bencode MetaInfoFile BNode TorrentBuilder List FileTreeNode

section Order

/-- The order of two paths at their first difference. -/
def treeOrder : List Text → List Text → Bool
  | left :: lefts, right :: rights =>
    if left = right then treeOrder lefts rights else bytesLE (utf8 left) (utf8 right)
  | _, _ => false

theorem treeOrder_asymm {left right : List Text} (lower : treeOrder left right = true) :
    treeOrder right left = false := by
  induction left generalizing right with
  | nil => cases lower
  | cons first left ih =>
    cases right with
    | nil => cases lower
    | cons second right =>
      rw [treeOrder] at lower ⊢
      by_cases same : first = second
      · rw [if_pos same] at lower
        rw [if_pos same.symm]
        exact ih lower
      · rw [if_neg same] at lower
        rw [if_neg (Ne.symm same)]
        by_contra upper
        exact same (utf8_injective (bytesLE_antisymm lower (Bool.eq_true_of_not_eq_false upper)))

namespace FileTreeNode

/-- The files of a tree in the order in which they are written. -/
structure Ordered (node : FileTreeNode) (ordered : List (List Text × Nat × Hash UInt8)) : Prop where
  perm : ordered.Perm node.files
  leaves : ∀ path, node.leaves path = ordered.map (leafBelow path)
  sorted : ordered.Pairwise fun left right => treeOrder left.1 right.1 = true

theorem exists_ordered {node : FileTreeNode} (distinct : node.Distinct) : ∃ ordered, node.Ordered ordered := by
  induction distinct with
  | file length piecesRoot =>
    refine ⟨[([], length, piecesRoot)], .refl _, ?_, pairwise_singleton _ _⟩
    intro path
    rw [FileTreeNode.leaves, map_singleton, leafBelow, append_nil]
  | @directory entries names children ih =>
    choose! ordered below using ih
    -- the entries by the bytes of their names
    let sorted := sortByKey (entries.map fun entry => (utf8 entry.1, entry))
    have present : ∀ item ∈ sorted, item.2 ∈ entries ∧ item.1 = utf8 item.2.1 := by
      intro item member
      obtain ⟨entry, known, rfl⟩ := mem_map.mp (mem_sortByKey.mp member)
      exact ⟨known, rfl⟩
    refine ⟨sorted.flatMap fun item => (ordered item.2).map (nested item.2.1), ?_, ?_, ?_⟩
    · refine ((perm_insertionSort _ _).flatMap_right _).trans ?_
      rw [flatMap_map, files, entryFiles_eq]
      exact Perm.flatMap_left _ fun entry member => (below entry member).perm.map _
    · intro path
      have order : sortByKey (leafLists entries path) =
          sorted.map fun item => (item.1, item.2.2.leaves (path ++ [item.2.1])) := by
        have moved := sortByKey_map (fun entry : Text × FileTreeNode => entry.2.leaves (path ++ [entry.1]))
          (entries.map fun entry => (utf8 entry.1, entry))
        rw [map_map] at moved
        rw [leafLists_eq]
        exact moved
      rw [FileTreeNode.leaves, order, flatMap_map, map_flatMap]
      refine flatMap_congr fun item member => ?_
      rw [(below item.2 (present item member).1).leaves, map_map]
      exact map_congr_left fun file _ => (leafBelow_nested path item.2.1 file).symm
    · have distinctKeys : (sorted.map Prod.fst).Nodup := by
        refine ((perm_insertionSort _ _).map Prod.fst).nodup_iff.mpr ?_
        rw [map_map]
        have same : (entries.map (Prod.fst ∘ fun entry => (utf8 entry.1, entry))) = (entries.map Prod.fst).map utf8 := by
          rw [map_map]
          rfl
        rw [same]
        exact names.map utf8_injective
      have strictly : sorted.Pairwise fun left right => bytesLE left.1 right.1 = true ∧ left.1 ≠ right.1 :=
        (sortByKey_sorted _).and (pairwise_map.mp distinctKeys)
      rw [pairwise_flatMap]
      refine ⟨?_, ?_⟩
      · intro item member
        rw [pairwise_map]
        refine (below item.2 (present item member).1).sorted.imp ?_
        intro left right less
        rw [nested, nested, treeOrder, if_pos rfl]
        exact less
      · refine strictly.imp_of_mem ?_
        intro first second inFirst inSecond less one oneMember other otherMember
        obtain ⟨left, _, rfl⟩ := mem_map.mp oneMember
        obtain ⟨right, _, rfl⟩ := mem_map.mp otherMember
        rw [(present first inFirst).2, (present second inSecond).2] at less
        rw [nested, nested, treeOrder, if_neg fun same => less.2 (congrArg utf8 same)]
        exact less.1

end FileTreeNode

end Order

section Paths

variable {path : Text}

theorem isReservedName_of_digit {first : Char} {rest : Text} (digit : 48 ≤ first.toNat ∧ first.toNat ≤ 57) :
    isReservedName (first :: rest) = false := by
  have upper : first.toUpper = first := by
    refine dif_neg ?_
    intro lower
    have low : 97 ≤ first.toNat := lower.1
    omega
  have other : ∀ letter : Char, ¬(48 ≤ letter.toNat ∧ letter.toNat ≤ 57) → first ≠ letter :=
    fun _ outside same => outside (same ▸ digit)
  have stem : ∃ more, deviceStem (first :: rest) = first :: more := by
    refine ⟨(rest.map Char.toUpper).takeWhile (· ≠ '.'), ?_⟩
    rw [deviceStem, map_cons, upper, takeWhile_cons, if_pos (decide_eq_true (other '.' (by decide)))]
  obtain ⟨more, stem⟩ := stem
  simp [isReservedName, stem, text, other 'C' (by decide), other 'P' (by decide), other 'A' (by decide),
    other 'N' (by decide), other 'L' (by decide)]

theorem validateSegment_numeral (value : Nat) : validateSegment (numeral value) = .ok () := by
  obtain ⟨first, rest, shape⟩ := exists_cons_of_ne_nil (numeral_ne_nil value)
  have member : first ∈ numeral value := shape ▸ mem_cons_self
  have dot : first ≠ '.' := ne_of_mem_of_not_mem member (not_mem_numeral (by decide))
  rw [shape, validateSegment, if_neg (cons_ne_nil _ _), if_neg, if_neg]
  · rw [isReservedName_of_digit (numeral_isDigit member)]
    exact Bool.false_ne_true
  · intro dots
    rcases dots with one | two
    · exact dot (cons.inj one).1
    · exact dot (cons.inj two).1

theorem validateRelativePath_padFile (length : Nat) :
    validateRelativePath (joinSlash (padFile length).segments) = .ok () := by
  have path : joinSlash (padFile length).segments = text ".pad" ++ '/' :: numeral length := by
    rw [padFile, joinSlash_cons, flatMap_singleton]
  have absent : ∀ {mark : Char}, mark ∉ text ".pad/" → ¬(48 ≤ mark.toNat ∧ mark.toNat ≤ 57) →
      mark ∉ text ".pad" ++ '/' :: numeral length := by
    intro mark front back
    rw [append_cons, mem_append]
    exact not_or.mpr ⟨front, not_mem_numeral back⟩
  rw [path, validateRelativePath, if_neg (by simp [text]), if_neg (absent (by decide) (by decide)), if_neg (by simp [text]),
    if_neg (absent (by decide) (by decide)), splitOn_separators]
  have parts : (text ".pad" ++ '/' :: numeral length).splitOn '/' = [text ".pad", numeral length] := by
    rw [splitOn_append_cons_self_of_not_mem (by decide), splitOn_eq_singleton (not_mem_numeral (by decide))]
  have pad : validateSegment (text ".pad") = .ok () := by decide +kernel
  rw [parts, flatMap_cons, flatMap_singleton, splitOn_eq_singleton (by decide),
    splitOn_eq_singleton (not_mem_numeral (by decide)), singleton_append]
  exact bind_eq_ok.mpr ⟨(), pad, bind_eq_ok.mpr ⟨(), validateSegment_numeral length, rfl⟩⟩

section

variable (valid : validateRelativePath path = .ok ())
include valid

theorem pathSegments_of_valid : pathSegments path = path.splitOn '/' :=
  filter_eq_self.mpr fun name member => decide_eq_true (validateRelativePath_eq_ok valid name member).plain.1

theorem joinSlash_pathSegments : joinSlash (pathSegments path) = path := by
  rw [pathSegments_of_valid valid, joinSlash, intercalate_splitOn]

theorem plainPath_of_valid (slashed : '\\' ∉ path) : PlainPath path := by
  obtain ⟨noZero, relative⟩ := validateRelativePath_plain valid
  refine ⟨?_, fun slash => relative (.inl slash)⟩
  intro letter member
  exact ⟨fun same => slashed (same ▸ member), fun same => noZero (same ▸ member)⟩

end

end Paths

namespace TorrentBuilder

variable {digests : Digests} {builder : TorrentBuilder} {fileTree : FileTreeNode} {format : TorrentExportFormat}
  {file : Text × Bytes}

section Declared

theorem declaredSingle_path : (declaredSingle (builder.writtenInfo digests fileTree format)).path = builder.name := by
  rw [declaredSingle, dictGet_name, Option.bind_some, scalarBytes, Option.elim_some, fromUtf8Lossy_utf8]

theorem hasDirectory_writtenInfo :
    hasDirectory (builder.writtenInfo digests fileTree format) = !(decide (format = .v1) && builder.isSingleFile) := by
  rw [hasDirectory, dictGet_files, dictGet_fileTree]
  cases format with
  | v1 =>
    rw [writtenItems]
    cases builder.isSingleFile with
    | false => rfl
    | true => rfl
  | v2 => rfl
  | hybrid => exact Bool.or_true _

def declaredEntry (entry : V1File) : DeclaredFile := ⟨joinSlash entry.segments, numeral entry.content.length⟩

theorem declaredFiles_v1 (several : builder.isSingleFile = false) :
    declaredFiles (builder.writtenInfo digests fileTree .v1) = builder.files.map declaredFile := by
  rw [declaredFiles, dictGet_files, writtenItems, several, if_neg Bool.false_ne_true, Option.map_some]
  change (builder.files.map plainItem).map declaredItem = _
  rw [map_map]
  exact map_congr_left fun file _ => declaredItem_plainItem file

theorem declaredFiles_single (single : builder.isSingleFile = true) :
    declaredFiles (builder.writtenInfo digests fileTree .v1) =
      [⟨builder.name, numeral (builder.files.headD ([], [])).2.length⟩] := by
  have alone : hasDirectory (builder.writtenInfo digests fileTree .v1) = false := by
    rw [hasDirectory_writtenInfo, single]
    rfl
  have length := @dictGet_length digests builder fileTree .v1
  rw [if_pos ⟨by decide, single⟩] at length
  rw [(single_of_no_directory alone).1, declaredSingle, dictGet_name, length]
  simp only [Option.bind_some, scalarBytes, Option.elim_some, decimal, fromUtf8Lossy_utf8]

theorem declaredFiles_hybrid (several : builder.isSingleFile = false) :
    declaredFiles (builder.writtenInfo digests fileTree .hybrid) = (builder.v1Files digests).map declaredEntry := by
  rw [declaredFiles, dictGet_files, writtenItems, several, if_neg Bool.false_ne_true, Option.map_some]
  change ((builder.v1Files digests).map V1File.toBNode).map declaredItem = _
  rw [map_map]
  exact map_congr_left fun entry _ => declaredItem_toBNode entry

theorem declaredFiles_leaves (named : fileTree.Named) (treed : format ≠ .v1)
    (unlisted : builder.writtenItems digests format = none) :
    declaredFiles (builder.writtenInfo digests fileTree format) =
      (fileTree.leaves []).map fun leaf => ⟨leaf.1, numeral leaf.2.1⟩ := by
  rw [declaredFiles, dictGet_files, unlisted, dictGet_fileTree, if_neg treed, Option.map_none]
  change (leavesOf [] fileTree.toBNode).map declaredLeaf = _
  rw [leavesOf_toBNode named, map_map]
  exact map_congr_left fun leaf _ => declaredLeaf_writtenLeaf leaf

theorem declaredFiles_tree (named : fileTree.Named) {ordered : List (List Text × Nat × Hash UInt8)}
    (order : fileTree.Ordered ordered) (treed : format ≠ .v1) (unlisted : builder.writtenItems digests format = none) :
    declaredFiles (builder.writtenInfo digests fileTree format) =
      ordered.map fun file => ⟨joinSlash file.1, numeral file.2.1⟩ := by
  rw [declaredFiles_leaves named treed unlisted, order.leaves, map_map]
  rfl

end Declared

section Records

theorem itemRecord_plainItem (file : Text × Bytes) : (itemRecord (plainItem file)).piecesRoot = none := rfl

end Records

/-- Files with different paths of valid segments, none of them on the way to another. -/
structure ValidPaths (builder : TorrentBuilder) : Prop where
  valid : ∀ file ∈ builder.files, validateRelativePath file.1 = .ok ()
  apart : PrefixFree (builder.files.map fun file => pathSegments file.1)

section Valid

variable (paths : builder.ValidPaths) {layers : LayerMap}
include paths

theorem ValidPaths.treeLike : builder.TreeLike := by
  refine ⟨?_, paths.apart⟩
  intro file member
  rw [pathSegments_of_valid (paths.valid file member)]
  exact splitOn_ne_nil _ _

section

variable (known : file ∈ builder.files)
include known

theorem ValidPaths.eq_of_path {other : Text × Bytes} (also : other ∈ builder.files)
    (same : file.1 = other.1) : file = other := by
  by_contra different
  have symmetric : Std.Symm fun left right : Text × Bytes => Incomparable (pathSegments left.1) (pathSegments right.1) :=
    ⟨fun _ _ => Incomparable.symm⟩
  have apart := (pairwise_map.mp paths.apart).forall known also different
  rw [same] at apart
  exact apart.1 prefix_rfl

theorem ValidPaths.declaredFile_eq : declaredFile file = ⟨file.1, numeral file.2.length⟩ := by
  rw [declaredFile, joinSlash_pathSegments (paths.valid file known)]

theorem ValidPaths.lastRoot_eq {records : List FileRecord}
    (sound : ∀ record ∈ records, ∀ root, record.piecesRoot = some root →
      ∃ file ∈ builder.files, record.path = file.1 ∧ root = (fileRoot digests file.2).toList)
    (listed : ∃ record ∈ records, record.path = file.1 ∧ record.piecesRoot = some (fileRoot digests file.2).toList) :
    lastRoot file.1 records = some (fileRoot digests file.2).toList := by
  obtain ⟨record, member, path, rooted⟩ := listed
  refine lastRoot_eq_some member (congrArg normalPath path) rooted ?_
  intro other inside same found root
  obtain ⟨source, added, shown, rfl⟩ := sound other inside found root
  have normal : ∀ {file}, file ∈ builder.files → normalPath file.1 = file.1 := fun inside =>
    (plainPath_of_valid (paths.valid _ inside) (builder.slashed _ inside)).normalPath
  rw [shown, normal added, normal known] at same
  rw [paths.eq_of_path added known same]

theorem ValidPaths.lastRoot_entries :
    lastRoot file.1 ((builder.v1Files digests).map fun entry => itemRecord entry.toBNode) =
      some (fileRoot digests file.2).toList := by
  refine paths.lastRoot_eq known ?_ ⟨itemRecord (realEntry digests file).toBNode, ?_, ?_, ?_⟩
  · rw [forall_mem_map]
    intro entry member root rooted
    rw [itemRecord_toBNode] at rooted
    obtain ⟨source, added, rfl | ⟨_, rfl⟩⟩ := mem_v1Files member
    · refine ⟨source, added, ?_, (Option.some.inj rooted).symm⟩
      rw [itemRecord_toBNode]
      exact joinSlash_pathSegments (paths.valid source added)
    · cases rooted
  · refine mem_map_of_mem (mem_flatMap.mpr ⟨file, known, ?_⟩)
    exact mem_cons_self
  · rw [itemRecord_toBNode]
    exact joinSlash_pathSegments (paths.valid file known)
  · rw [itemRecord_toBNode]
    rfl

end

theorem ValidPaths.mem_leaves (valid : builder.validatePieceLength = .ok ())
    (built : builder.buildV2FileTreeAndLayers digests = .ok (fileTree, layers)) {leaf : TreeFile} :
    leaf ∈ fileTree.leaves [] ↔ ∃ file ∈ builder.files, leaf = (file.1, file.2.length, (fileRoot digests file.2).toList) := by
  obtain ⟨_, _, again, perm⟩ := @TreeLike.exists_tree digests builder paths.treeLike valid
  cases built.symm.trans again
  have same : ∀ file ∈ builder.files, leafBelow [] (treeFile digests file) =
      (file.1, file.2.length, (fileRoot digests file.2).toList) := by
    intro file member
    rw [leafBelow, treeFile, nil_append, joinSlash_pathSegments (paths.valid file member)]
  rw [(fileTree.leaves_perm_files []).mem_iff, (perm.map _).mem_iff, map_map, mem_map]
  refine exists_congr fun file => and_congr_right fun member => ?_
  rw [Function.comp_apply, same file member, eq_comm]

theorem ValidPaths.lastRoot_leaves (named : fileTree.Named) (valid : builder.validatePieceLength = .ok ())
    (built : builder.buildV2FileTreeAndLayers digests = .ok (fileTree, layers)) (known : file ∈ builder.files) :
    lastRoot file.1 (treeRecords fileTree.toBNode) = some (fileRoot digests file.2).toList := by
  have members := @ValidPaths.mem_leaves digests builder fileTree paths layers valid built
  rw [treeRecords, leavesOf_toBNode named, map_map]
  refine paths.lastRoot_eq known ?_ ?_
  · rw [forall_mem_map]
    intro leaf member root rooted
    obtain ⟨source, added, rfl⟩ := members.mp member
    exact ⟨source, added, rfl, (Option.some.inj rooted).symm⟩
  · exact ⟨_, mem_map_of_mem (members.mpr ⟨file, known, rfl⟩), rfl, rfl⟩

theorem ValidPaths.root_found (named : fileTree.Named) (trees : Trees digests builder format fileTree layers)
    (treed : format ≠ .v1) (known : file ∈ builder.files) :
    (lastRoot file.1 (listRecords (builder.writtenInfo digests fileTree format))).or
      (lastRoot file.1 (leafRecords (builder.writtenInfo digests fileTree format))) =
        some (fileRoot digests file.2).toList := by
  obtain ⟨valid, built⟩ := trees.resolve_left treed
  have tree : lastRoot file.1 (leafRecords (builder.writtenInfo digests fileTree format)) =
      some (fileRoot digests file.2).toList := by
    rw [leafRecords, dictGet_fileTree, if_neg treed, Option.elim_some]
    exact paths.lastRoot_leaves named valid built known
  rw [listRecords, dictGet_files]
  cases format with
  | v1 => exact absurd rfl treed
  | v2 => exact tree
  | hybrid =>
    rw [writtenItems]
    cases builder.isSingleFile with
    | true => exact tree
    | false =>
      rw [if_neg Bool.false_ne_true, Option.map_some, Option.elim_some, listItems, map_map]
      have listed := @ValidPaths.lastRoot_entries digests builder file paths known
      exact (congrArg (Option.or · _) listed).trans rfl

end Valid

theorem noRoots_v1 : (∀ record ∈ listRecords (builder.writtenInfo digests fileTree .v1), record.piecesRoot = none) ∧
    ∀ record ∈ leafRecords (builder.writtenInfo digests fileTree .v1), record.piecesRoot = none := by
  rw [listRecords, leafRecords, dictGet_files, dictGet_fileTree, if_pos rfl, writtenItems]
  refine ⟨?_, fun _ absent => absurd absent not_mem_nil⟩
  split
  case isTrue => exact fun _ absent => absurd absent not_mem_nil
  case isFalse =>
    rw [Option.map_some, Option.elim_some, listItems, map_map, forall_mem_map]
    exact fun file _ => itemRecord_plainItem file

section Listing

/-- A declared file that the parser keeps and lists. -/
def Kept (declared : DeclaredFile) : Prop := declared.Representable ∧ validateRelativePath declared.path = .ok ()

theorem kept_numeral {path : Text} {length : Nat} (valid : validateRelativePath path = .ok ()) (small : length < 2 ^ 63) :
    Kept ⟨path, numeral length⟩ := by
  obtain ⟨noZero, relative⟩ := validateRelativePath_plain valid
  refine ⟨⟨noZero, not_or.mp relative, ?_⟩, valid⟩
  have parsed : parseUnsigned u64Size (decimal length) = some length := parseUnsigned_decimal (small.trans (by decide))
  exact Option.isSome_of_eq_some parsed

section Tree

variable {layers : LayerMap}

theorem ValidPaths.exists_ordered (paths : builder.ValidPaths) (valid : builder.validatePieceLength = .ok ())
    (built : builder.buildV2FileTreeAndLayers digests = .ok (fileTree, layers)) :
    ∃ ordered, fileTree.Ordered ordered ∧ ordered.Perm (builder.files.map (treeFile digests)) := by
  obtain ⟨_, _, again, perm⟩ := @TreeLike.exists_tree digests builder paths.treeLike valid
  cases built.symm.trans again
  have distinct : fileTree.Distinct := addAllToTree_distinct distinct_empty built
  obtain ⟨ordered, order⟩ := FileTreeNode.exists_ordered distinct
  exact ⟨ordered, order, order.perm.trans perm⟩

variable (built : builder.buildV2FileTreeAndLayers digests = .ok (fileTree, layers))
include built

theorem leaves_ne_nil (nonempty : builder.files ≠ []) (shown : ∀ file ∈ builder.files, pathSegments file.1 ≠ []) :
    fileTree.leaves [] ≠ [] :=
  (addAllToTree_leaves_ne_nil built shown).resolve_left nonempty

end Tree

variable {layers : LayerMap} (valid : ∀ file ∈ builder.files, validateRelativePath file.1 = .ok ())
  (named : fileTree.Named) (trees : Trees digests builder format fileTree layers)
include valid named trees

theorem declared_shape (fits : (builder.writtenNode digests fileTree format).fits = true)
    (declared : DeclaredFile) (member : declared ∈ declaredFiles (builder.writtenInfo digests fileTree format)) :
    ∃ path length, declared = ⟨path, numeral length⟩ ∧ length < 2 ^ 63 ∧
      ((∃ file ∈ builder.files, path = file.1) ∨ (∃ length, path = joinSlash (padFile length).segments) ∨
        (format = .v1 ∧ builder.isSingleFile = true) ∧ path = builder.name) := by
  have shown : ∀ file ∈ builder.files, joinSlash (pathSegments file.1) = file.1 := fun file known =>
    joinSlash_pathSegments (valid file known)
  have fitting : ∀ {items}, builder.writtenItems digests format = some items → ∀ item ∈ items, item.fits = true :=
    fun found => fits_list_iff.mp (fits_of_dictGet fits ((dictGet_files fileTree).trans (congrArg _ found)))
  by_cases tree : format ≠ .v1 ∧ builder.writtenItems digests format = none
  · obtain ⟨treed, unlisted⟩ := tree
    have small := FileTreeNode.fitting_of_fits named
      (fits_of_dictGet fits ((dictGet_fileTree fileTree).trans (if_neg treed)))
    rw [declaredFiles_leaves named treed unlisted] at member
    obtain ⟨leaf, inside, rfl⟩ := mem_map.mp member
    obtain ⟨source, there, rfl⟩ := mem_map.mp ((fileTree.leaves_perm_files []).mem_iff.mp inside)
    obtain ⟨file, known, same⟩ := (leaves_of_built (trees.resolve_left treed).2).2 _ inside
    refine ⟨_, _, rfl, (small source there).2, .inl ⟨file, known, ?_⟩⟩
    rw [same, leafOf, shown file known]
  rcases Bool.eq_false_or_eq_true builder.isSingleFile with single | several
  · cases format with
    | v1 =>
      have sized := fits_of_dictGet fits (dictGet_length.trans (if_pos ⟨by decide, single⟩))
      rw [declaredFiles_single single] at member
      cases mem_singleton.mp member
      exact ⟨_, _, rfl, fits_decimal_iff.mp sized, .inr (.inr ⟨⟨rfl, single⟩, rfl⟩)⟩
    | v2 => exact absurd ⟨by decide, rfl⟩ tree
    | hybrid => exact absurd ⟨by decide, if_pos single⟩ tree
  · cases format with
    | v1 =>
      rw [declaredFiles_v1 several] at member
      obtain ⟨file, known, rfl⟩ := mem_map.mp member
      have items := fitting (if_neg (Bool.eq_false_iff.mp several))
      have small := (fits_plainItem_iff.mp (items _ (mem_map_of_mem known))).1
      exact ⟨_, _, rfl, small, .inl ⟨file, known, shown file known⟩⟩
    | v2 => exact absurd ⟨by decide, rfl⟩ tree
    | hybrid =>
      rw [declaredFiles_hybrid several] at member
      obtain ⟨entry, known, rfl⟩ := mem_map.mp member
      have items := fitting (if_neg (Bool.eq_false_iff.mp several))
      have small := (fits_v1File_iff.mp (items _ (mem_map_of_mem known))).1
      obtain ⟨file, added, rfl | ⟨_, rfl⟩⟩ := mem_v1Files known
      · exact ⟨_, _, rfl, small, .inl ⟨file, added, shown file added⟩⟩
      · exact ⟨_, _, rfl, small, .inr (.inl ⟨_, rfl⟩)⟩

theorem kept_declared (name : validateRelativePath builder.name = .ok ())
    (fits : (builder.writtenNode digests fileTree format).fits = true) :
    ∀ declared ∈ declaredFiles (builder.writtenInfo digests fileTree format), Kept declared := by
  intro declared member
  obtain ⟨path, length, rfl, small, shape⟩ := declared_shape valid named trees fits declared member
  refine kept_numeral ?_ small
  rcases shape with ⟨file, known, rfl⟩ | ⟨_, rfl⟩ | ⟨_, rfl⟩
  · exact valid file known
  · exact validateRelativePath_padFile _
  · exact name

theorem declared_ne_nil (nonempty : builder.files ≠ []) :
    declaredFiles (builder.writtenInfo digests fileTree format) ≠ [] := by
  by_cases tree : format ≠ .v1 ∧ builder.writtenItems digests format = none
  · obtain ⟨treed, unlisted⟩ := tree
    rw [declaredFiles_leaves named treed unlisted, Ne, map_eq_nil_iff]
    refine leaves_ne_nil (trees.resolve_left treed).2 nonempty ?_
    intro file member
    rw [pathSegments_of_valid (valid file member)]
    exact splitOn_ne_nil _ _
  cases single : builder.isSingleFile with
  | false =>
    cases format with
    | v1 =>
      rw [declaredFiles_v1 single, Ne, map_eq_nil_iff]
      exact nonempty
    | v2 => exact absurd ⟨by decide, rfl⟩ tree
    | hybrid =>
      rw [declaredFiles_hybrid single, Ne, map_eq_nil_iff, ← length_eq_zero_iff]
      have enough := length_le_v1Files digests builder
      have positive := length_pos_iff.mpr nonempty
      omega
  | true =>
    cases format with
    | v1 =>
      rw [declaredFiles_single single]
      exact cons_ne_nil _ _
    | v2 => exact absurd ⟨by decide, rfl⟩ tree
    | hybrid => exact absurd ⟨by decide, if_pos single⟩ tree

omit valid in
theorem tree_le_list : TreeFits (builder.writtenInfo digests fileTree format) := by
  intro files tree list found
  rw [dictGet_fileTree, Option.ite_none_left_eq_some] at found
  obtain ⟨treed, found⟩ := found
  cases found
  have few := (leaves_of_built (trees.resolve_left treed).2).1
  rw [dictGet_files, Option.map_eq_some_iff] at list
  obtain ⟨items, listed, rfl⟩ := list
  have within := (sublist_writtenItems listed).length_le
  rw [length_map, length_map] at within
  rw [leavesOf_toBNode named, length_map]
  exact few.trans within

theorem listing {parsed : MetaInfoFile} (nonempty : builder.files ≠ [])
    (fits : (dictionary (builder.writtenRoot digests fileTree (sortByKey layers) format)).fits = true)
    (back : ReadBack digests builder fileTree format parsed) (name : validateRelativePath builder.name = .ok ())
    (canonicalDownload : Bytes) :
    ∃ total details, parsed.localFilesToDownloadList canonicalDownload = .ok (total, details) ∧
      Forall₂
        (ListedAs parsed (if format = .v1 ∧ builder.isSingleFile then [] else builder.name ++ ['/'])
          (if format = .v1 ∧ builder.isSingleFile then canonicalDownload
            else joinPath canonicalDownload (utf8 builder.name)))
        (declaredFiles (builder.writtenInfo digests fileTree format)) details := by
  have kept := kept_declared valid named trees name (info_fits fits)
  have some := declared_ne_nil valid named trees nonempty
  have shorter := tree_le_list named trees
  have typed := @typedInfo_writtenInfo digests builder fileTree format named
  obtain ⟨depth, proper⟩ := proper_writtenRoot named fits
  have infoProper := (proper _ (info_mem_writtenRoot fileTree (sortByKey layers))).2
  have admissible : Admissible (builder.writtenInfo digests fileTree format) := by
    refine ⟨?_, fun declared member => (kept declared member).2⟩
    rw [declaredSingle_path]
    exact name
  obtain ⟨total, details, listed⟩ := back.read.listed typed infoProper some shorter
    (fun declared member => (kept declared member).1) admissible canonicalDownload
  refine ⟨total, details, listed, ?_⟩
  have listing := back.read.listing typed infoProper some shorter (fun declared member => (kept declared member).1) listed
  rw [declaredSingle_path, hasDirectory_writtenInfo] at listing
  by_cases alone : format = .v1 ∧ builder.isSingleFile = true
  · obtain ⟨rfl, single⟩ := alone
    rw [single] at listing
    rw [if_pos ⟨rfl, single⟩, if_pos ⟨rfl, single⟩]
    exact listing
  · have directory : (!(decide (format = .v1) && builder.isSingleFile)) = true := by
      rw [Bool.not_eq_true', Bool.and_eq_false_iff, decide_eq_false_iff_not, ← Bool.not_eq_true, ← not_and_or]
      exact alone
    rw [directory, if_pos rfl, if_pos rfl] at listing
    rw [if_neg alone, if_neg alone]
    exact listing

end Listing

end TorrentBuilder

end BitTorrent
