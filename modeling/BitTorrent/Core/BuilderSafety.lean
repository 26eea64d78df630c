import BitTorrent.Core.WrittenTorrent

/-! # Building without panic and without loss

The file tree takes every file exactly if each has a path and none is on the way to another.
-/

namespace BitTorrent

open Bencode MetaInfoFile List FileTreeNode

namespace TorrentBuilder

variable {digests : Digests} {builder : TorrentBuilder} {format : TorrentExportFormat} {pieceLength : Nat}
  {file : Text × Bytes} {files : List (Text × Bytes)} {state after : FileTreeNode × LayerMap}

section Tree

/-- The file of the tree for a file of the builder. -/
def treeFile (digests : Digests) (file : Text × Bytes) : List Text × Nat × Hash UInt8 :=
  (pathSegments file.1, file.2.length, fileRoot digests file.2)

theorem addToTree_files (added : addToTree digests pieceLength state file = .ok after) :
    after.1.files.length ≤ state.1.files.length + 1 ∧
      (state.1.files.length < after.1.files.length →
        pathSegments file.1 ≠ [] ∧ after.1.files.Perm (treeFile digests file :: state.1.files)) := by
  rcases addToTree_eq_ok added with ⟨_, same⟩ | ⟨nonempty, inserted⟩
  · rw [same]
    exact ⟨Nat.le_succ _, fun more => absurd more (Nat.lt_irrefl _)⟩
  · obtain ⟨kept, grown, within, _⟩ := files_insertFile inserted
    rw [grown.length_eq, length_cons]
    refine ⟨Nat.succ_le_succ within.length_le, ?_⟩
    intro more
    exact ⟨nonempty, grown.trans (.cons _ (within.perm_of_length_le (Nat.le_of_lt_succ more)))⟩

theorem addAllToTree_distinct (distinct : state.1.Distinct)
    (added : addAllToTree digests pieceLength files state = .ok after) : after.1.Distinct :=
  addAllToTree_preserves (fun _ _ _ _ => distinct_insertFile) distinct added

/-- The tree has as many new files as were added only if it took each of them. -/
theorem addAllToTree_files (added : addAllToTree digests pieceLength files state = .ok after) :
    after.1.files.length ≤ state.1.files.length + files.length ∧
      (state.1.files.length + files.length ≤ after.1.files.length →
        (∀ file ∈ files, pathSegments file.1 ≠ []) ∧
          after.1.files.Perm (files.map (treeFile digests) ++ state.1.files)) := by
  induction files generalizing state with
  | nil =>
    cases added
    exact ⟨Nat.le_refl _, fun _ => ⟨by simp, .refl _⟩⟩
  | cons file files ih =>
    obtain ⟨next, first, rest⟩ := addAllToTree_cons added
    obtain ⟨atMost, all⟩ := ih rest
    obtain ⟨oneMore, taken⟩ := addToTree_files first
    rw [length_cons]
    refine ⟨by omega, ?_⟩
    intro complete
    obtain ⟨nonempty, grown⟩ := taken (by omega)
    obtain ⟨others, perm⟩ := all (by omega)
    refine ⟨forall_mem_cons.mpr ⟨nonempty, others⟩, ?_⟩
    exact (perm.trans (grown.append_left _)).trans perm_middle

section PieceLength

variable (large : blockSize ≤ pieceLength) (power : isPowerOfTwo pieceLength = true)
include large power

theorem exists_pieceLayer (tree : MerkleTree UInt8) : ∃ hashes, tree.pieceLayer pieceLength = .ok hashes := by
  have sound : ¬(pieceLength < blockSize ∨ (!isPowerOfTwo pieceLength) = true) := by
    simp [power, large]
  simp only [MerkleTree.pieceLayer, if_neg sound]
  cases tree.layers[Nat.log 2 (pieceLength / blockSize)]? with
  | none => exact ⟨_, rfl⟩
  | some layer => exact ⟨_, rfl⟩

theorem addToTree_eq (state : FileTreeNode × LayerMap) (file : Text × Bytes) :
    ∃ layers, addToTree digests pieceLength state file =
      if pathSegments file.1 = [] then .ok (state.1, layers)
      else match state.1.insertFile file.2.length (fileRoot digests file.2) (pathSegments file.1) with
        | none => .panic
        | some root => .ok (root, layers) := by
  obtain ⟨hashes, layer⟩ := exists_pieceLayer large power (MerkleTree.fromBytes digests.sha256 file.2)
  by_cases long : pieceLength < file.2.length
  · simp only [addToTree, if_pos long, layer, Except.map]
    exact ⟨_, rfl⟩
  · simp only [addToTree, if_neg long]
    exact ⟨_, rfl⟩

theorem exists_addToTree (nonempty : pathSegments file.1 ≠ [])
    (clear : ∀ old ∈ state.1.files, Incomparable old.1 (pathSegments file.1)) :
    ∃ after, addToTree digests pieceLength state file = .ok after ∧
      after.1.files.Perm (treeFile digests file :: state.1.files) := by
  obtain ⟨tree, inserted⟩ : ∃ tree, state.1.insertFile file.2.length (fileRoot digests file.2)
      (pathSegments file.1) = some tree :=
    exists_insertFile nonempty fun old member => (clear old member).1
  obtain ⟨kept, grown, _, all⟩ := files_insertFile inserted
  obtain ⟨layers, round⟩ := @addToTree_eq digests pieceLength large power state file
  refine ⟨(tree, layers), ?_, grown.trans (.cons _ (all fun old member => (clear old member).2))⟩
  rw [round, if_neg nonempty, inserted]

theorem exists_addAllToTree (nonempty : ∀ file ∈ files, pathSegments file.1 ≠ [])
    (apart : PrefixFree (files.map (fun file => pathSegments file.1) ++ state.1.files.map Prod.fst)) :
    ∃ after, addAllToTree digests pieceLength files state = .ok after ∧
      after.1.files.Perm (files.map (treeFile digests) ++ state.1.files) := by
  induction files generalizing state with
  | nil => exact ⟨state, rfl, .refl _⟩
  | cons file files ih =>
    rw [forall_mem_cons] at nonempty
    rw [map_cons, cons_append, PrefixFree, pairwise_cons] at apart
    obtain ⟨next, first, grown⟩ : ∃ next, addToTree digests pieceLength state file = .ok next ∧
        next.1.files.Perm (treeFile digests file :: state.1.files) := by
      refine exists_addToTree large power nonempty.1 ?_
      intro old member
      exact (apart.1 old.1 (mem_append_right _ (mem_map_of_mem member))).symm
    obtain ⟨after, rest, perm⟩ : ∃ after, addAllToTree digests pieceLength files next = .ok after ∧
        after.1.files.Perm (files.map (treeFile digests) ++ next.1.files) := by
      apply ih nonempty.2
      refine Perm.pairwise ?_ (pairwise_cons.mpr apart) Incomparable.symm
      exact perm_middle.symm.trans ((grown.map Prod.fst).symm.append_left _)
    refine ⟨after, ?_, ?_⟩
    · rw [addAllToTree, first]
      exact rest
    · exact (perm.trans (grown.append_left _)).trans perm_middle

theorem addAllToTree_ne_err (reason : BitTorrentError) : addAllToTree digests pieceLength files state ≠ .err reason := by
  induction files generalizing state with
  | nil => simp [addAllToTree]
  | cons file files ih =>
    obtain ⟨layers, round⟩ := @addToTree_eq digests pieceLength large power state file
    rw [addAllToTree, round]
    by_cases empty : pathSegments file.1 = []
    · rw [if_pos empty]
      exact ih
    · rw [if_neg empty]
      cases state.1.insertFile file.2.length (fileRoot digests file.2) (pathSegments file.1) with
      | none => simp
      | some root => exact ih

end PieceLength

/-- The paths of a builder that are the files of one tree. -/
structure TreeLike (builder : TorrentBuilder) : Prop where
  nonempty : ∀ file ∈ builder.files, pathSegments file.1 ≠ []
  apart : PrefixFree (builder.files.map fun file => pathSegments file.1)

theorem TreeLike.exists_tree (treeLike : builder.TreeLike) (valid : builder.validatePieceLength = .ok ()) :
    ∃ fileTree layers, builder.buildV2FileTreeAndLayers digests = .ok (fileTree, layers) ∧
      fileTree.files.Perm (builder.files.map (treeFile digests)) := by
  obtain ⟨large, power, _⟩ := validatePieceLength_eq_ok valid
  obtain ⟨after, built, perm⟩ : ∃ after, addAllToTree digests builder.pieceLength builder.files (.directory [], []) =
      .ok after ∧ after.1.files.Perm (builder.files.map (treeFile digests) ++ (directory []).files) := by
    apply exists_addAllToTree large power treeLike.nonempty
    rw [FileTreeNode.files, FileTreeNode.entryFiles, map_nil, append_nil]
    exact treeLike.apart
  rw [FileTreeNode.files, FileTreeNode.entryFiles, append_nil] at perm
  exact ⟨after.1, after.2, built, perm⟩

theorem treeLike_of_length {fileTree : FileTreeNode} {layers : LayerMap}
    (built : builder.buildV2FileTreeAndLayers digests = .ok (fileTree, layers))
    (complete : builder.files.length ≤ fileTree.files.length) : builder.TreeLike := by
  have empty : (directory []).files.length = 0 := rfl
  obtain ⟨nonempty, perm⟩ := (addAllToTree_files built).2 (by
    rw [empty, Nat.zero_add]
    exact complete)
  rw [FileTreeNode.files, FileTreeNode.entryFiles, append_nil] at perm
  refine ⟨nonempty, ?_⟩
  have distinct : fileTree.Distinct := addAllToTree_distinct distinct_empty built
  have paths := perm.map Prod.fst
  rw [map_map] at paths
  exact paths.pairwise distinct.prefixFree Incomparable.symm

end Tree

section Loss

/-- The files that `info` declares are all of the builder, in each of its forms.  The only file of a
torrent without list and tree takes the name of the torrent. -/
structure NoFileLost (builder : TorrentBuilder) (info : Entries) : Prop where
  list : ∀ files, (BNode.dictionary info).dictGet (ascii "files") = some files →
    (builder.files.map declaredFile).Subperm (files.listItems.map declaredItem)
  tree : ∀ tree, (BNode.dictionary info).dictGet (ascii "file tree") = some tree →
    (builder.files.map declaredFile).Subperm ((leavesOf [] tree).map declaredLeaf)
  single : (BNode.dictionary info).dictGet (ascii "files") = none →
    (BNode.dictionary info).dictGet (ascii "file tree") = none →
    builder.files.map (fun file => numeral file.2.length) = [(declaredSingle info).length]

/-- Building ends without panic, and a torrent that was built has all files. -/
structure SafeBuild (digests : Digests) (builder : TorrentBuilder) (format : TorrentExportFormat) : Prop where
  noPanic : builder.build digests format ≠ .panic
  noLoss : ∀ bytes, builder.build digests format = .ok bytes → ∃ fileTree layers,
    Trees digests builder format fileTree layers ∧
      bytes = builder.writtenBytes digests fileTree layers format ∧
      NoFileLost builder (builder.writtenInfo digests fileTree format)

/-- The builders that a format is safe for. -/
def Buildable (digests : Digests) (builder : TorrentBuilder) : TorrentExportFormat → Prop
  | .v1 => builder.files = [] ∨ 0 < builder.pieceLength ∧ builder.totalStream.length < 2 ^ 63
  | .v2 => builder.validatePieceLength = .ok () → builder.TreeLike
  | .hybrid => builder.validatePieceLength = .ok () →
      builder.TreeLike ∧ (builder.alignedStream digests).length < 2 ^ 63

theorem declaredSingle_length (fileTree : FileTreeNode) (single : builder.isSingleFile = true) :
    builder.files.map (fun file => numeral file.2.length) =
      [(declaredSingle (builder.writtenInfo digests fileTree .v1)).length] := by
  obtain ⟨file, shape⟩ := isSingleFile_files single
  have length : (BNode.dictionary (builder.writtenInfo digests fileTree .v1)).dictGet (ascii "length") =
      some (.number (decimal file.2.length)) := by
    rw [dictGet_writtenInfo (by decide), writtenFields, v1Fields, single, shape]
    rfl
  rw [declaredSingle, length, shape, Option.bind_some, BNode.scalarBytes, Option.elim_some, decimal,
    fromUtf8Lossy_utf8, map_singleton]

variable {layers : LayerMap} {fileTree : FileTreeNode}

theorem declared_fileTree (built : builder.buildV2FileTreeAndLayers digests = .ok (fileTree, layers)) :
    ((leavesOf [] fileTree.toBNode).map declaredLeaf).Perm
      (fileTree.files.map fun file => ⟨joinSlash file.1, numeral file.2.1⟩) := by
  have named : fileTree.Named := addAllToTree_named named_empty built
  rw [leavesOf_toBNode named, map_map]
  refine ((fileTree.leaves_perm_files []).map _).trans (.of_eq ?_)
  rw [map_map]
  exact map_congr_left fun file _ => declaredLeaf_writtenLeaf _

theorem noFileLost_iff (trees : Trees digests builder format fileTree layers) :
    NoFileLost builder (builder.writtenInfo digests fileTree format) ↔ format = .v1 ∨ builder.TreeLike := by
  constructor
  · intro kept
    rcases trees with plain | ⟨valid, built⟩
    · exact .inl plain
    · by_cases plain : format = .v1
      · exact .inl plain
      · have within := kept.tree fileTree.toBNode (by rw [dictGet_fileTree, if_neg plain])
        have size := (within.trans (declared_fileTree built).subperm).length_le
        rw [length_map, length_map] at size
        exact .inr (treeLike_of_length built size)
  · intro sound
    constructor
    · intro files found
      rw [dictGet_files, Option.map_eq_some_iff] at found
      obtain ⟨items, listed, rfl⟩ := found
      exact (sublist_writtenItems listed).subperm
    · intro tree found
      rw [dictGet_fileTree] at found
      obtain ⟨treed, found⟩ := Option.ite_none_left_eq_some.mp found
      cases found
      obtain ⟨valid, built⟩ := trees.resolve_left treed
      obtain ⟨fileTree', layers', built', perm⟩ := (sound.resolve_left treed).exists_tree valid
      cases built.symm.trans built'
      refine Perm.subperm (Perm.trans ?_ (declared_fileTree built).symm)
      refine Perm.trans (.of_eq ?_) (perm.map _).symm
      rw [map_map]
      rfl
    · intro unlisted untreed
      rw [dictGet_fileTree] at untreed
      split at untreed
      case isTrue plain =>
        cases plain
        rw [dictGet_files, Option.map_eq_none_iff, writtenItems] at unlisted
        split at unlisted
        case isTrue single => exact declaredSingle_length fileTree single
        case isFalse => cases unlisted
      case isFalse => cases untreed

theorem safeBuild_v1_iff : SafeBuild digests builder .v1 ↔ Buildable digests builder .v1 := by
  constructor
  · intro safe
    rw [Buildable, or_iff_not_imp_left]
    intro nonempty
    by_contra unsound
    refine safe.noPanic ?_
    rw [not_and_or, Nat.not_lt, Nat.le_zero, Nat.not_lt] at unsound
    rw [build, buildV1, if_neg nonempty, if_pos unsound]
  · intro sound
    constructor
    · rw [build, buildV1]
      split
      case isTrue => simp
      case isFalse nonempty =>
        obtain ⟨positive, small⟩ := sound.resolve_left nonempty
        rw [if_neg (by omega)]
        simp
    · intro bytes built
      obtain ⟨_, fileTree, layers, trees, written⟩ := build_eq_ok built
      exact ⟨fileTree, layers, trees, written, (noFileLost_iff trees).mpr (.inl rfl)⟩

theorem build_invalid {reason : BitTorrentError} (treed : format ≠ .v1)
    (invalid : builder.validatePieceLength = .error reason) : builder.build digests format = .err reason := by
  cases format with
  | v1 => exact absurd rfl treed
  | v2 => simp only [build, buildV2, withTree, invalid]
  | hybrid => simp only [build, buildHybrid, withTree, invalid]

theorem build_tree_panic (treed : format ≠ .v1) (valid : builder.validatePieceLength = .ok ())
    (panics : builder.buildV2FileTreeAndLayers digests = .panic) : builder.build digests format = .panic := by
  cases format with
  | v1 => exact absurd rfl treed
  | v2 => simp only [build, buildV2, withTree, valid, panics]
  | hybrid => simp only [build, buildHybrid, withTree, valid, panics]

/-- Once the tree is there only a stream that is too long stops the builder. -/
theorem build_tree (treed : format ≠ .v1) (valid : builder.validatePieceLength = .ok ())
    (built : builder.buildV2FileTreeAndLayers digests = .ok (fileTree, layers)) :
    builder.build digests format = if format = .hybrid ∧ 2 ^ 63 ≤ (builder.alignedStream digests).length then .panic
      else .ok (builder.writtenBytes digests fileTree layers format) := by
  cases format with
  | v1 => exact absurd rfl treed
  | v2 => simp only [build, buildV2, withTree, valid, built, reduceCtorEq, false_and, if_false, writtenBytes, writtenRoot]
  | hybrid => simp only [build, buildHybrid, withTree, valid, built, true_and, writtenBytes, writtenRoot]

theorem safeBuild_tree_iff (treed : format ≠ .v1) :
    SafeBuild digests builder format ↔ (builder.validatePieceLength = .ok () →
      builder.TreeLike ∧ (format = .hybrid → (builder.alignedStream digests).length < 2 ^ 63)) := by
  constructor
  · intro safe valid
    obtain ⟨large, power, _⟩ := validatePieceLength_eq_ok valid
    cases result : builder.buildV2FileTreeAndLayers digests with
    | err reason => exact absurd result (addAllToTree_ne_err large power reason)
    | panic => exact absurd (build_tree_panic treed valid result) safe.noPanic
    | ok found =>
      have outcome := build_tree treed valid result
      split at outcome
      case isTrue => exact absurd outcome safe.noPanic
      case isFalse short =>
        obtain ⟨fileTree, layers, trees, _, kept⟩ := safe.noLoss _ outcome
        refine ⟨((noFileLost_iff trees).mp kept).resolve_left treed, ?_⟩
        intro hybrid
        exact Nat.lt_of_not_le fun long => short ⟨hybrid, long⟩
  · intro sound
    cases valid : builder.validatePieceLength with
    | error reason =>
      have outcome := @build_invalid digests _ _ _ treed valid
      exact ⟨by simp [outcome], by simp [outcome]⟩
    | ok checked =>
      obtain ⟨treeLike, short⟩ := sound valid
      obtain ⟨fileTree, layers, built, _⟩ := @TreeLike.exists_tree digests builder treeLike valid
      have outcome := build_tree treed valid built
      rw [if_neg fun long => Nat.not_le_of_lt (short long.1) long.2] at outcome
      have trees : Trees digests builder format fileTree layers := .inr ⟨valid, built⟩
      refine ⟨by simp [outcome], ?_⟩
      intro bytes written
      cases outcome.symm.trans written
      exact ⟨fileTree, layers, trees, rfl, (noFileLost_iff trees).mpr (.inr treeLike)⟩

theorem safeBuild_iff : SafeBuild digests builder format ↔ Buildable digests builder format := by
  cases format with
  | v1 => exact safeBuild_v1_iff
  | v2 =>
    rw [safeBuild_tree_iff (by decide), Buildable]
    simp
  | hybrid =>
    rw [safeBuild_tree_iff (by decide), Buildable]
    simp

/-- A file and a directory of one name. -/
def clashing : TorrentBuilder :=
  ((TorrentBuilder.new (text "t")).addFile (text "a") [1]).addFile (text "a/b") [2]

/-- One path twice. -/
def repeated : TorrentBuilder :=
  ((TorrentBuilder.new (text "t")).addFile (text "a") [1]).addFile (text "a") [2]

/-- The clash is a panic, and of two files under one path the first is lost; v1 panics where pieces
have no bytes. -/
theorem clashing_panics :
    clashing.build Digests.zero .v2 = .panic ∧ clashing.build Digests.zero .hybrid = .panic ∧
      (clashing.withPieceLength 0).build Digests.zero .v1 = .panic ∧
      ∃ fileTree layers, repeated.buildV2FileTreeAndLayers Digests.zero = .ok (fileTree, layers) ∧
        fileTree.files.length = 1 ∧ ∃ bytes, repeated.build Digests.zero .v2 = .ok bytes := by
  refine ⟨rfl, rfl, rfl, ?_⟩
  refine ⟨_, _, rfl, rfl, _, rfl⟩

end Loss

end TorrentBuilder

end BitTorrent
