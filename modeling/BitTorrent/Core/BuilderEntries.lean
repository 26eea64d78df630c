import BitTorrent.Core.MetaInfo
import BitTorrent.Core.TorrentBuilder

/-! # What a builder writes

The entries of its dictionaries in the order in which they are written, the v1 list and the file tree.
-/

namespace BitTorrent

open Bencode FileTreeNode List

section Paths

/-- A path as the parser shows it: it can be cut at its zero characters and needs no trimming. -/
structure PlainPath (path : Text) : Prop where
  letters : ∀ letter ∈ path, letter ≠ '\\' ∧ letter ≠ '\x00'
  head : path.head? ≠ some '/'

def PlainSegment (segment : Text) : Prop :=
  segment ≠ [] ∧ ∀ letter ∈ segment, letter ≠ '/' ∧ letter ≠ '\\' ∧ letter ≠ '\x00'

variable {segments : List Text}

theorem plainPath_joinSlash (plain : ∀ segment ∈ segments, PlainSegment segment) : PlainPath (joinSlash segments) := by
  cases segments with
  | nil => exact ⟨by simp [joinSlash], by simp [joinSlash]⟩
  | cons segment segments =>
    rw [joinSlash_cons]
    constructor
    · intro letter member
      rcases mem_append.mp member with first | later
      · exact ((plain segment mem_cons_self).2 letter first).2
      · obtain ⟨next, known, inside⟩ := mem_flatMap.mp later
        rcases mem_cons.mp inside with rfl | deep
        · decide
        · exact ((plain next (mem_cons_of_mem _ known)).2 letter deep).2
    · obtain ⟨nonempty, letters⟩ := plain segment mem_cons_self
      obtain ⟨letter, rest, rfl⟩ := exists_cons_of_ne_nil nonempty
      intro slash
      exact (letters letter mem_cons_self).1 (Option.some.inj slash)

variable {path : Text}

theorem PlainPath.dropWhile (plain : PlainPath path) (separator : Char → Bool)
    (known : ∀ letter, separator letter = true → letter = '/' ∨ letter = '\\') : path.dropWhile separator = path := by
  cases path with
  | nil => rfl
  | cons letter rest =>
    rw [dropWhile_cons_of_neg]
    intro dropped
    rcases known letter dropped with rfl | rfl
    · exact plain.head rfl
    · exact (plain.letters _ mem_cons_self).1 rfl

/-- A path in the form in which the parser writes it down. -/
def rooted (path : Text) : Text := if path = [] then [] else '/' :: path

theorem flatMap_segments (plain : ∀ segment ∈ segments, PlainSegment segment) :
    (segments.flatMap fun segment => '/' :: segment) = rooted (joinSlash segments) := by
  cases segments with
  | nil => rfl
  | cons segment segments =>
    obtain ⟨letter, rest, rfl⟩ := exists_cons_of_ne_nil (plain segment mem_cons_self).1
    rw [joinSlash_cons, rooted, if_neg (by simp)]
    rfl

theorem joinSlash_ne_nil (plain : ∀ segment ∈ segments, PlainSegment segment)
    (nonempty : segments ≠ []) : joinSlash segments ≠ [] := by
  obtain ⟨segment, rest, rfl⟩ := exists_cons_of_ne_nil nonempty
  rw [joinSlash_cons]
  exact append_ne_nil_of_left_ne_nil (plain segment mem_cons_self).1 _

theorem PlainPath.mem_rooted (plain : PlainPath path) : '\x00' ∉ rooted path := by
  rw [rooted]
  split
  case isTrue => exact not_mem_nil
  case isFalse =>
    intro member
    rcases mem_cons.mp member with slash | inside
    · cases slash
    · exact (plain.letters _ inside).2 rfl

theorem PlainPath.trimmed (plain : PlainPath path) :
    (rooted path).dropWhile (fun letter => letter = '/' ∨ letter = '\\') = path := by
  rw [rooted]
  split
  case isTrue empty =>
    rw [empty]
    rfl
  case isFalse =>
    exact plain.dropWhile _ fun letter known => of_decide_eq_true known

theorem PlainPath.normalPath (plain : PlainPath path) : normalPath path = path := by
  rw [BitTorrent.normalPath, forwardSlashes_eq_self fun member => (plain.letters _ member).1 rfl]
  exact plain.dropWhile _ fun letter slash => .inl (of_decide_eq_true slash)

end Paths

namespace MetaInfoFile

variable (entries : Directory)

/-- The entries of a directory in the order in which they are written. -/
def inOrder : List (Bytes × Text × FileTreeNode) :=
  sortByKey (entries.map fun entry => (utf8 entry.1, entry))

theorem sorted_toEntries : sortByKey (toEntries entries) =
      (inOrder entries).map fun item => (item.1, item.2.2.toBNode) := by
  rw [toEntries_eq, inOrder, ← sortByKey_map fun entry : Text × FileTreeNode => entry.2.toBNode,
    map_map]
  rfl

theorem leaves_inOrder (path : List Text) : (directory entries).leaves path =
      (inOrder entries).flatMap fun item => item.2.2.leaves (path ++ [item.2.1]) := by
  have mapped := sortByKey_map (fun entry : Text × FileTreeNode => entry.2.leaves (path ++ [entry.1]))
    (entries.map fun entry => (utf8 entry.1, entry))
  rw [map_map] at mapped
  rw [leaves, leafLists_eq, inOrder]
  exact (congrArg (flatMap Prod.snd) mapped).trans (flatMap_map ..)

def headEntries (builder : TorrentBuilder) : Entries :=
  [builder.announceEntry] ++ builder.tierEntries ++ builder.commentEntries

theorem sorted_rootEntries (digests : Digests) (builder : TorrentBuilder) (fileTree : FileTreeNode)
    (layers : LayerMap) :
    sortByKey (builder.rootEntries digests fileTree layers) =
      headEntries builder ++ (ascii "info", .dictionary (sortByKey (builder.infoEntries digests fileTree))) ::
        TorrentBuilder.layerEntries layers := by
  cases layers <;> cases comment : builder.comment <;> by_cases many : 1 < builder.trackers.length <;>
    simp only [TorrentBuilder.rootEntries, headEntries, TorrentBuilder.layerEntries, TorrentBuilder.tierEntries,
      TorrentBuilder.commentEntries, comment, many, Option.map, Option.toList,
      if_true, if_false, reduceCtorEq] <;> rfl

end MetaInfoFile

namespace TorrentBuilder

variable {digests : Digests} {builder : TorrentBuilder}

section Entries

variable {entry : V1File}

def realEntry (digests : Digests) (file : Text × Bytes) : V1File where
  segments := pathSegments file.1
  content := file.2
  piecesRoot := some (fileRoot digests file.2)

theorem mem_v1Files (member : entry ∈ builder.v1Files digests) :
    ∃ file ∈ builder.files, entry = realEntry digests file ∨
      (0 < builder.padLength file.2 ∧ entry = padFile (builder.padLength file.2)) := by
  obtain ⟨file, known, inside⟩ := mem_flatMap.mp member
  refine ⟨file, known, ?_⟩
  rcases mem_cons.mp inside with real | pad
  · exact .inl real
  · split at pad
    case isTrue positive => exact .inr ⟨positive, mem_singleton.mp pad⟩
    case isFalse => cases pad

theorem isSingleFile_files (single : builder.isSingleFile = true) : ∃ file, builder.files = [file] := by
  rw [isSingleFile] at single
  split at single
  case h_1 file shape => exact ⟨file, shape⟩
  case h_2 => cases single

theorem v1Files_single {file : Text × Bytes} (single : builder.isSingleFile = true) (shape : builder.files = [file]) :
    builder.v1Files digests = [realEntry digests file] := by
  have unpadded : builder.padLength file.2 = 0 := by
    rw [padLength, single]
    simp
  rw [v1Files, shape, flatMap_singleton, v1Entries, unpadded]
  rfl

theorem withTree_eq_ok {finish : FileTreeNode → LayerMap → Outcome Bytes} {bytes : Bytes}
    (built : builder.withTree digests finish = .ok bytes) :
    builder.validatePieceLength = .ok () ∧ ∃ fileTree layers,
      builder.buildV2FileTreeAndLayers digests = .ok (fileTree, layers) ∧ finish fileTree layers = .ok bytes := by
  rw [withTree] at built
  split at built
  case h_1 => cases built
  case h_2 valid =>
    split at built
    case h_1 => cases built
    case h_2 => cases built
    case h_3 fileTree layers tree => exact ⟨valid, fileTree, layers, tree, built⟩

theorem buildHybrid_eq_ok {bytes : Bytes} (built : builder.buildHybrid digests = .ok bytes) :
    builder.validatePieceLength = .ok () ∧ (builder.alignedStream digests).length < 2 ^ 63 ∧
      ∃ fileTree layers, builder.buildV2FileTreeAndLayers digests = .ok (fileTree, layers) ∧
        bytes = encode (.dictionary (sortByKey (builder.rootEntries digests fileTree layers))) := by
  obtain ⟨valid, fileTree, layers, tree, built⟩ := withTree_eq_ok built
  split at built
  case isTrue => cases built
  case isFalse small =>
    cases built
    exact ⟨valid, Nat.lt_of_not_le small, fileTree, layers, tree, rfl⟩

theorem length_le_v1Files (digests : Digests) (builder : TorrentBuilder) :
    builder.files.length ≤ (builder.v1Files digests).length := by
  have each : ∀ count ∈ builder.files.map fun file => (v1Entries digests builder file).length, 1 ≤ count := by
    intro count member
    obtain ⟨file, _, rfl⟩ := mem_map.mp member
    exact Nat.le_add_left 1 _
  have size := length_le_sum_of_one_le _ each
  rwa [length_map, ← length_flatMap] at size

theorem validatePieceLength_eq_ok (valid : builder.validatePieceLength = .ok ()) :
    blockSize ≤ builder.pieceLength ∧ isPowerOfTwo builder.pieceLength = true ∧ builder.files ≠ [] := by
  rw [validatePieceLength] at valid
  obtain ⟨large, valid⟩ := guard_eq_ok.mp valid
  obtain ⟨nonempty, valid⟩ := guard_eq_ok.mp valid
  rw [not_or, Nat.not_lt, Bool.not_eq_true, Bool.not_eq_false'] at large
  exact ⟨large.1, large.2, nonempty⟩

end Entries

section Tree

variable {pieceLength : Nat} {file : Text × Bytes} {state after : FileTreeNode × LayerMap}

/-- The entry of a file in the file tree. -/
def leafOf (digests : Digests) (file : Text × Bytes) : TreeFile :=
  (joinSlash (pathSegments file.1), file.2.length, (fileRoot digests file.2).toList)

theorem addToTree_eq_ok (added : addToTree digests pieceLength state file = .ok after) :
    (pathSegments file.1 = [] ∧ after.1 = state.1) ∨
      (pathSegments file.1 ≠ [] ∧
        state.1.insertFile file.2.length (fileRoot digests file.2) (pathSegments file.1) = some after.1) := by
  rw [addToTree] at added
  split at added
  case h_1 => cases added
  case h_2 =>
    split at added
    case isTrue empty =>
      cases added
      exact .inl ⟨empty, rfl⟩
    case isFalse nonempty =>
      split at added
      case h_1 => cases added
      case h_2 inserted =>
        cases added
        exact .inr ⟨nonempty, inserted⟩

variable {files : List (Text × Bytes)}

theorem addAllToTree_cons (added : addAllToTree digests pieceLength (file :: files) state = .ok after) :
    ∃ next, addToTree digests pieceLength state file = .ok next ∧
      addAllToTree digests pieceLength files next = .ok after := by
  rw [addAllToTree] at added
  split at added
  case h_1 next first => exact ⟨next, first, added⟩
  case h_2 => cases added
  case h_3 => cases added

theorem addAllToTree_preserves {Holds : FileTreeNode → Prop}
    (insert : ∀ file ∈ files, ∀ before next, Holds before →
      before.insertFile file.2.length (fileRoot digests file.2) (pathSegments file.1) = some next → Holds next)
    (before : Holds state.1) (added : addAllToTree digests pieceLength files state = .ok after) : Holds after.1 := by
  induction files generalizing state with
  | nil =>
    cases added
    exact before
  | cons file files ih =>
    obtain ⟨next, first, rest⟩ := addAllToTree_cons added
    obtain ⟨one, others⟩ := forall_mem_cons.mp insert
    apply ih others _ rest
    rcases addToTree_eq_ok first with ⟨_, same⟩ | ⟨_, inserted⟩
    · rwa [same]
    · exact one _ _ before inserted

theorem addAllToTree_named (named : state.1.Named)
    (added : addAllToTree digests pieceLength files state = .ok after) : after.1.Named := by
  refine addAllToTree_preserves (fun file _ before next named inserted => ?_) named added
  exact named_insertFile named (fun segment member => of_decide_eq_true (mem_filter.mp member).2) inserted

section

variable (added : addAllToTree digests pieceLength files state = .ok after)
include added

/-- Every file of the tree is one of those that were added, or was there before. -/
theorem addAllToTree_leaves : (after.1.leaves []).length ≤ (state.1.leaves []).length + files.length ∧
      ∀ leaf ∈ after.1.leaves [], leaf ∈ state.1.leaves [] ∨ ∃ file ∈ files, leaf = leafOf digests file := by
  induction files generalizing state with
  | nil =>
    cases added
    exact ⟨Nat.le_refl _, fun leaf member => .inl member⟩
  | cons file files ih =>
    obtain ⟨next, first, rest⟩ := addAllToTree_cons added
    obtain ⟨size, within⟩ := ih rest
    have step : (next.1.leaves []).length ≤ (state.1.leaves []).length + 1 ∧
        ∀ leaf ∈ next.1.leaves [], leaf ∈ state.1.leaves [] ∨ leaf = leafOf digests file := by
      rcases addToTree_eq_ok first with ⟨_, same⟩ | ⟨_, inserted⟩
      · rw [same]
        exact ⟨Nat.le_succ _, fun leaf member => .inl member⟩
      · obtain ⟨kept, grown, old⟩ := leaves_insertFile inserted
        constructor
        · rw [grown.length_eq, length_cons]
          exact Nat.succ_le_succ old.length_le
        · intro leaf member
          rcases mem_cons.mp (grown.mem_iff.mp member) with rfl | kept
          · exact .inr rfl
          · exact .inl (old.subset kept)
    constructor
    · rw [length_cons]
      omega
    · intro leaf member
      rcases within leaf member with before | ⟨other, added, rfl⟩
      · rcases step.2 leaf before with old | rfl
        · exact .inl old
        · exact .inr ⟨file, mem_cons_self, rfl⟩
      · exact .inr ⟨other, mem_cons_of_mem _ added, rfl⟩

theorem addAllToTree_leaves_ne_nil
    (shown : ∀ file ∈ files, pathSegments file.1 ≠ []) : files = [] ∨ after.1.leaves [] ≠ [] := by
  induction files generalizing state with
  | nil => exact .inl rfl
  | cons file files ih =>
    obtain ⟨next, first, rest⟩ := addAllToTree_cons added
    rw [forall_mem_cons] at shown
    rcases ih rest shown.2 with rfl | some
    · cases rest
      obtain ⟨_, inserted⟩ := (addToTree_eq_ok first).resolve_left fun unnamed => shown.1 unnamed.1
      obtain ⟨kept, grown, _⟩ := leaves_insertFile inserted
      refine .inr fun empty => ?_
      rw [empty, nil_perm] at grown
      exact cons_ne_nil _ _ grown
    · exact .inr some

end

theorem addAllToTree_singleton (added : addAllToTree digests pieceLength [file] (.directory [], []) = .ok after) :
    after.1.leaves [] = if pathSegments file.1 = [] then [] else [leafOf digests file] := by
  obtain ⟨next, first, rest⟩ := addAllToTree_cons added
  cases rest
  rcases addToTree_eq_ok first with ⟨empty, same⟩ | ⟨nonempty, inserted⟩
  · rw [if_pos empty, same]
    rfl
  · obtain ⟨kept, grown, old⟩ := leaves_insertFile inserted
    rw [if_neg nonempty]
    cases subperm_nil.mp old
    exact perm_singleton.mp grown

theorem leaves_of_built {builder : TorrentBuilder} {fileTree : FileTreeNode} {layers : LayerMap}
    (built : builder.buildV2FileTreeAndLayers digests = .ok (fileTree, layers)) :
    (fileTree.leaves []).length ≤ builder.files.length ∧
      ∀ leaf ∈ fileTree.leaves [], ∃ file ∈ builder.files, leaf = leafOf digests file := by
  obtain ⟨few, within⟩ := addAllToTree_leaves built
  exact ⟨few.trans_eq (Nat.zero_add _), fun leaf member => (within leaf member).resolve_left not_mem_nil⟩

end Tree

end TorrentBuilder

end BitTorrent
