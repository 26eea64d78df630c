import BitTorrent.Core.BuilderSafety
import BitTorrent.Core.ReadBack

/-! # The limits of a built torrent

When the strings and numbers of a written torrent are within the limits of the tokenizer, in terms
of the builder.
-/

namespace BitTorrent

open Bencode BNode MetaInfoFile
open List hiding Vector

/-- A text that the tokenizer takes. -/
def Short (value : Text) : Prop := (utf8 value).length ≤ maxStringLen

instance (value : Text) : Decidable (Short value) := inferInstanceAs (Decidable (_ ≤ _))

namespace BNode

variable {entries : Entries}

theorem fits_cons_iff {entry : Bytes × BNode} :
    (dictionary (entry :: entries)).fits = true ↔
      (entry.1.length ≤ maxStringLen ∧ entry.2.fits = true) ∧ (dictionary entries).fits = true := by
  simp only [fits_dictionary_iff, forall_mem_cons]

theorem fits_append_iff {front back : Entries} :
    (dictionary (front ++ back)).fits = true ↔ (dictionary front).fits = true ∧ (dictionary back).fits = true := by
  simp only [fits_dictionary_iff, forall_mem_append]

theorem fits_nil : (dictionary []).fits = true := rfl

theorem fits_sortByKey_iff : (dictionary (sortByKey entries)).fits = true ↔ (dictionary entries).fits = true := by
  simp only [fits_dictionary_iff, mem_sortByKey]

theorem fits_list_iff {items : List BNode} : (list items).fits = true ↔ ∀ item ∈ items, item.fits = true := by
  rw [fits_list, all_eq_true]

theorem fits_texts_iff {texts : List Text} :
    (list (texts.map fun text => .string (utf8 text))).fits = true ↔ ∀ text ∈ texts, Short text := by
  simp only [fits_list_iff, forall_mem_map, fits_string_iff, Short]

theorem fits_decimal_iff {value : Nat} : (number (decimal value)).fits = true ↔ value < 2 ^ 63 := by
  rw [fits, numberFits_iff (decimal_isNumberByte value)]
  constructor
  · intro written
    obtain ⟨number, range, same⟩ := written
    have parses := (parse_integerText range).1
    rw [← same, parsesAsI64_decimal] at parses
    exact of_decide_eq_true parses
  · intro small
    refine ⟨value, ⟨by omega, by omega⟩, ?_⟩
    rw [integerText, if_neg (by omega), Int.natAbs_natCast]

end BNode

variable {length : Nat}

namespace FileTreeNode

/-- What the limits ask of a file of a tree. -/
def Fitting (file : List Text × Nat × Hash UInt8) : Prop := (∀ segment ∈ file.1, Short segment) ∧ file.2.1 < 2 ^ 63

theorem fits_directory_iff {entries : Directory} :
    (directory entries).toBNode.fits = true ↔ ∀ entry ∈ entries, Short entry.1 ∧ entry.2.toBNode.fits = true := by
  rw [toBNode, fits_sortByKey_iff, toEntries_eq, fits_dictionary_iff, forall_mem_map]
  rfl

theorem fits_file_iff {piecesRoot : Hash UInt8} : (file length piecesRoot).toBNode.fits = true ↔ length < 2 ^ 63 := by
  have root : piecesRoot.toList.length ≤ maxStringLen := by
    rw [List.Vector.toList_length]
    decide
  simp only [toBNode, fits_cons_iff, fits_nil, and_true, fits_decimal_iff, fits_string_iff]
  constructor
  · intro good
    exact good.2.1.2
  · intro small
    exact ⟨by decide, ⟨by decide, small⟩, by decide, root⟩

theorem fitting_of_fits {node : FileTreeNode} (named : node.Named) (good : node.toBNode.fits = true) :
    ∀ file ∈ node.files, Fitting file := by
  induction named with
  | file length piecesRoot =>
    rw [files, forall_mem_singleton]
    exact ⟨fun _ member => absurd member not_mem_nil, fits_file_iff.mp good⟩
  | @directory entries names children ih =>
    rw [fits_directory_iff] at good
    intro file member
    rw [files, entryFiles_eq] at member
    obtain ⟨entry, known, inside⟩ := mem_flatMap.mp member
    obtain ⟨below, deeper, rfl⟩ := mem_map.mp inside
    obtain ⟨segments, small⟩ := ih entry known (good entry known).2 below deeper
    exact ⟨forall_mem_cons.mpr ⟨(good entry known).1, segments⟩, small⟩

theorem fits_empty : (directory []).toBNode.fits = true := rfl

theorem fits_insertFile {node after : FileTreeNode} {piecesRoot : Hash UInt8} {segments : List Text}
    (fitting : Fitting (segments, length, piecesRoot)) (before : node.toBNode.fits = true)
    (inserted : node.insertFile length piecesRoot segments = some after) : after.toBNode.fits = true := by
  refine @insertFile_preserves length piecesRoot segments node after (fun node => node.toBNode.fits = true)
    (fits_file_iff.mpr fitting.2) ?_ ?_ before inserted
  · intro entries name good
    cases found : entries.lookup name with
    | none => exact fits_empty
    | some child => exact (fits_directory_iff.mp good (name, child) (mem_of_lookup found)).2
  · intro entries name child member good newGood
    refine fits_directory_iff.mpr ?_
    intro entry inside
    rcases mem_insertEntry inside with rfl | old
    · exact ⟨fitting.1 name member, newGood⟩
    · exact fits_directory_iff.mp good entry old

end FileTreeNode

namespace TorrentBuilder

variable {digests : Digests} {builder : TorrentBuilder} {fileTree : FileTreeNode} {layers : LayerMap}
  {format : TorrentExportFormat} {pieceLength : Nat} {file : Text × Bytes} {files : List (Text × Bytes)}
  {state after : FileTreeNode × LayerMap}

section Layers

def withLayer (digests : Digests) (pieceLength : Nat) (layers : LayerMap) (file : Text × Bytes) :
    LayerMap :=
  if pieceLength < file.2.length then
    match (MerkleTree.fromBytes digests.sha256 file.2).pieceLayer pieceLength with
    | .ok hashes => insertEntry (fileRoot digests file.2).toList (hashes.flatMap List.Vector.toList) layers
    | .error _ => layers
  else layers

def pieceLayers (digests : Digests) (builder : TorrentBuilder) : LayerMap :=
  builder.files.foldl (withLayer digests builder.pieceLength) []

theorem addToTree_layers (added : addToTree digests pieceLength state file = .ok after) :
    after.2 = withLayer digests pieceLength state.2 file := by
  rw [addToTree] at added
  split at added
  case h_1 => cases added
  case h_2 layers found =>
    have same : layers = withLayer digests pieceLength state.2 file := by
      rw [withLayer]
      split at found
      case isTrue long =>
        obtain ⟨hashes, known, rfl⟩ := map_eq_ok.mp found
        rw [if_pos long, known]
        rfl
      case isFalse short =>
        cases found
        rw [if_neg short]
    split at added
    case isTrue =>
      cases added
      exact same
    case isFalse =>
      split at added
      case h_1 => cases added
      case h_2 =>
        cases added
        exact same

theorem addAllToTree_layers (added : addAllToTree digests pieceLength files state = .ok after) :
    after.2 = files.foldl (withLayer digests pieceLength) state.2 := by
  induction files generalizing state with
  | nil =>
    cases added
    rfl
  | cons file files ih =>
    obtain ⟨next, first, rest⟩ := addAllToTree_cons added
    rw [ih rest, addToTree_layers first, foldl_cons]

theorem pieceLayers_eq (built : builder.buildV2FileTreeAndLayers digests = .ok (fileTree, layers)) :
    layers = builder.pieceLayers digests :=
  addAllToTree_layers built

theorem mem_pieceLayers {layer : Bytes × Bytes} (member : layer ∈ builder.pieceLayers digests) : layer.1.length = 32 := by
  refine List.foldlRecOn (motive := fun layers => ∀ layer ∈ layers, layer.1.length = 32) builder.files _
    (fun _ absent => absurd absent not_mem_nil) ?_ layer member
  intro layers sized file _ layer inside
  rw [withLayer] at inside
  split at inside
  case isTrue =>
    split at inside
    case h_1 =>
      rcases mem_insertEntry inside with rfl | old
      · exact List.Vector.toList_length _
      · exact sized layer old
    case h_2 => exact sized layer inside
  case isFalse => exact sized layer inside

theorem addAllToTree_fits (before : state.1.toBNode.fits = true)
    (fitting : ∀ file ∈ files, FileTreeNode.Fitting (treeFile digests file))
    (added : addAllToTree digests pieceLength files state = .ok after) : after.1.toBNode.fits = true :=
  addAllToTree_preserves (fun file member _ _ => FileTreeNode.fits_insertFile (fitting file member)) before added

end Layers

section Limits

/-- The bytes that the piece hashes of a format are about. -/
def streamLength (builder : TorrentBuilder) : TorrentExportFormat → Nat
  | .v1 => (builder.files.map fun file => file.2.length).sum
  | .v2 => 0
  | .hybrid => (builder.files.map fun file => file.2.length + builder.padLength file.2).sum

theorem length_totalStream (builder : TorrentBuilder) : builder.totalStream.length = builder.streamLength .v1 :=
  length_flatMap

theorem length_alignedStream : (builder.alignedStream digests).length = builder.streamLength .hybrid := by
  rw [alignedStream, v1Files, flatMap_assoc, length_flatMap, streamLength]
  refine congrArg sum (map_congr_left fun file _ => ?_)
  rw [v1Entries, flatMap_cons, length_append]
  split
  case isTrue => simp [padFile]
  case isFalse none => rw [Nat.eq_zero_of_not_pos none]; rfl

theorem pieces_short_iff (digests : Digests) :
    (builder.streamLength format + builder.pieceLength - 1) / builder.pieceLength * hashLength ≤ maxStringLen ↔
      ∀ pieces, builder.writtenPieces digests format = some pieces → pieces.length ≤ maxStringLen := by
  have one (pieces : Bytes) : pieces.length ≤ maxStringLen ↔ ∀ other, some pieces = some other → other.length ≤ maxStringLen :=
    ⟨fun short _ known => Option.some.inj known ▸ short, fun short => short _ rfl⟩
  have hashed (stream : Bytes) : ((Chunks.chunks builder.pieceLength stream).flatMap fun chunk =>
      (digests.sha1 chunk).toList).length =
        (stream.length + builder.pieceLength - 1) / builder.pieceLength * hashLength := by
    simp [length_flatMap, Chunks.chunks_length, hashLength]
  cases format with
  | v1 =>
    rw [← length_totalStream, ← hashed]
    exact one _
  | v2 =>
    have none : (0 + builder.pieceLength - 1) / builder.pieceLength = 0 := Nat.div_eq_zero_iff.mpr (by omega)
    rw [streamLength, none]
    refine iff_of_true (by decide) fun _ known => ?_
    cases known
  | hybrid =>
    rw [← @length_alignedStream digests, ← hashed]
    exact one _

/-- The fields of a builder are within the limits of the tokenizer.  Files with the same pieces root
have one layer, so that the layers are taken as they are written. -/
structure WithinLimits (digests : Digests) (builder : TorrentBuilder) (format : TorrentExportFormat) : Prop where
  name : Short builder.name
  comment : ∀ comment, builder.comment = some comment → Short comment
  trackers : ∀ url ∈ builder.trackers, Short url
  webSeeds : ∀ url ∈ builder.webSeeds, Short url
  segments : ∀ file ∈ builder.files, ∀ segment ∈ pathSegments file.1, Short segment
  lengths : ∀ file ∈ builder.files, file.2.length < 2 ^ 63
  pieces : (builder.streamLength format + builder.pieceLength - 1) / builder.pieceLength * hashLength ≤ maxStringLen
  layers : format ≠ .v1 → ∀ layer ∈ builder.pieceLayers digests, layer.2.length ≤ maxStringLen

theorem fits_plainItem_iff :
    (plainItem file).fits = true ↔ file.2.length < 2 ^ 63 ∧ ∀ segment ∈ pathSegments file.1, Short segment := by
  simp only [plainItem, fits_cons_iff, fits_nil, and_true, fits_decimal_iff, fits_texts_iff]
  constructor
  · intro good
    exact ⟨good.1.2, good.2.2⟩
  · intro good
    exact ⟨⟨by decide, good.1⟩, by decide, good.2⟩

theorem fits_v1File_iff {entry : V1File} :
    entry.toBNode.fits = true ↔ entry.content.length < 2 ^ 63 ∧ ∀ segment ∈ entry.segments, Short segment := by
  obtain ⟨segments, content, piecesRoot⟩ := entry
  cases piecesRoot with
  | none =>
    simp only [V1File.toBNode, fits_cons_iff, fits_nil, and_true, fits_decimal_iff, fits_texts_iff, fits_string_iff]
    constructor
    · intro good
      exact ⟨good.2.1.2, good.2.2.2⟩
    · intro good
      exact ⟨⟨by decide, by decide⟩, ⟨by decide, good.1⟩, by decide, good.2⟩
  | some root =>
    have short : root.toList.length ≤ maxStringLen := by
      rw [List.Vector.toList_length]
      decide
    simp only [V1File.toBNode, fits_sortByKey_iff, fits_cons_iff, fits_nil, and_true, fits_decimal_iff, fits_texts_iff,
      fits_string_iff]
    constructor
    · intro good
      exact ⟨good.1.2, good.2.1.2⟩
    · intro good
      exact ⟨⟨by decide, good.1⟩, ⟨by decide, good.2⟩, by decide, short⟩

theorem short_numeral {value : Nat} (small : value < 2 ^ 63) : Short (numeral value) := by
  have few : (decimal value).length ≤ 19 := decimal_length_le (by decide) (show value < 10 ^ 19 by omega)
  exact few.trans (by decide)

theorem padLength_le (builder : TorrentBuilder) (data : Bytes) : builder.padLength data ≤ builder.pieceLength := by
  rw [padLength]
  split
  case isTrue => exact Nat.sub_le _ _
  case isFalse => exact Nat.zero_le _

theorem fits_padFile (small : length < 2 ^ 63) : (padFile length).toBNode.fits = true := by
  refine fits_v1File_iff.mpr ⟨?_, ?_⟩
  · rw [padFile, length_replicate]
    exact small
  · rw [padFile, forall_mem_cons, forall_mem_singleton]
    exact ⟨show (utf8 (text ".pad")).length ≤ maxStringLen by decide, short_numeral small⟩

section Within

variable (limits : WithinLimits digests builder format) (small : builder.pieceLength < 2 ^ 32)
include limits

theorem fits_headEntries (tracked : builder.trackers ≠ []) : (dictionary (headEntries builder)).fits = true := by
  obtain ⟨first, others, shape⟩ := exists_cons_of_ne_nil tracked
  have short : Short first := limits.trackers first (by rw [shape]; exact mem_cons_self)
  rw [fits_dictionary_iff, headEntries, forall_mem_append, forall_mem_append, forall_mem_singleton]
  refine ⟨⟨⟨of_decide_eq_true rfl, ?_⟩, ?_⟩, ?_⟩
  · rw [announceEntry, fits_string_iff, shape]
    exact short
  · rw [tierEntries]
    split
    case isTrue =>
      rw [forall_mem_singleton]
      refine ⟨of_decide_eq_true rfl, ?_⟩
      simp only [fits_list_iff, forall_mem_map, forall_mem_singleton, fits_string_iff]
      exact limits.trackers
    case isFalse => exact fun _ absent => absurd absent not_mem_nil
  · intro entry member
    rw [commentEntries, Option.mem_toList, Option.map_eq_some_iff] at member
    obtain ⟨comment, given, rfl⟩ := member
    exact ⟨of_decide_eq_true rfl, fits_string_iff.mpr (limits.comment comment given)⟩

theorem fits_writtenBefore (tracked : builder.trackers ≠ []) : (dictionary (builder.writtenBefore format)).fits = true := by
  have head := fits_headEntries limits tracked
  cases format with
  | v2 => exact head
  | hybrid => exact head
  | v1 =>
    rw [fits_dictionary_iff, headEntries, forall_mem_append, forall_mem_append, forall_mem_singleton] at head
    rw [fits_dictionary_iff, writtenBefore, forall_mem_cons]
    exact ⟨head.1.1, head.2⟩

theorem fits_writtenAfter (treed : format = .v1 ∨ ∀ layer ∈ layers, layer ∈ builder.pieceLayers digests) :
    (dictionary (builder.writtenAfter layers format)).fits = true := by
  have layered : format ≠ .v1 → ∀ entry ∈ layerEntries layers, entry.1.length ≤ maxStringLen ∧ entry.2.fits = true := by
    intro other entry member
    cases mem_of_layerEntries member
    refine ⟨of_decide_eq_true rfl, ?_⟩
    simp only [fits_dictionary_iff, forall_mem_map, fits_string_iff]
    intro layer inside
    have known := treed.resolve_left other layer inside
    refine ⟨?_, limits.layers other layer known⟩
    rw [mem_pieceLayers known]
    decide
  have seeded : ∀ entry ∈ builder.seedEntries, entry.1.length ≤ maxStringLen ∧ entry.2.fits = true := by
    intro entry member
    cases mem_of_seedEntries member
    exact ⟨of_decide_eq_true rfl, fits_texts_iff.mpr limits.webSeeds⟩
  cases format with
  | v1 => rfl
  | v2 =>
    rw [fits_dictionary_iff, writtenAfter, forall_mem_append]
    exact ⟨layered (by decide), seeded⟩
  | hybrid => exact fits_dictionary_iff.mpr (layered (by decide))

theorem fits_writtenInfo (small : builder.pieceLength < 2 ^ 32) (treed : format = .v1 ∨ fileTree.toBNode.fits = true) :
    (builder.writtenNode digests fileTree format).fits = true := by
  have number : ∀ {value : Nat}, value < 2 ^ 63 → (number (decimal value)).fits = true := fits_decimal_iff.mpr
  have name : (dictionary builder.nameFields).fits = true := by
    simp only [nameFields, fits_cons_iff, fits_nil, fits_string_iff.mpr limits.name,
      number (show builder.pieceLength < 2 ^ 63 by omega)]
    decide
  have tree (apart : format ≠ .v1) : (dictionary (treeFields fileTree)).fits = true := by
    simp only [treeFields, fits_cons_iff, fits_nil, number (show 2 < 2 ^ 63 by decide), treed.resolve_left apart]
    decide
  have shown {pieces : Bytes} {items : List BNode} (short : pieces.length ≤ maxStringLen)
      (each : ∀ item ∈ items, item.fits = true) : (dictionary (builder.v1Fields pieces items)).fits = true := by
    simp only [v1Fields, fits_cons_iff, fits_nil, and_true, fits_string_iff]
    refine ⟨⟨by decide, short⟩, ?_⟩
    split
    case isTrue single =>
      obtain ⟨file, shape⟩ := isSingleFile_files single
      rw [shape]
      exact ⟨of_decide_eq_true rfl, number (limits.lengths file (by rw [shape]; exact mem_singleton_self _))⟩
    case isFalse => exact ⟨of_decide_eq_true rfl, fits_list_iff.mpr each⟩
  rw [writtenNode, writtenInfo, fits_sortByKey_iff, fits_append_iff]
  constructor
  · cases format with
    | v1 =>
      refine fits_append_iff.mpr ⟨name, shown ((pieces_short_iff digests).mp limits.pieces _ rfl)
        (forall_mem_map.mpr fun file member => ?_)⟩
      exact fits_plainItem_iff.mpr ⟨limits.lengths file member, limits.segments file member⟩
    | v2 => exact fits_append_iff.mpr ⟨tree (by decide), name⟩
    | hybrid =>
      refine fits_append_iff.mpr ⟨fits_append_iff.mpr ⟨tree (by decide), name⟩,
        shown ((pieces_short_iff digests).mp limits.pieces _ rfl) (forall_mem_map.mpr fun entry member => ?_)⟩
      obtain ⟨file, known, rfl | ⟨_, rfl⟩⟩ := mem_v1Files member
      · exact fits_v1File_iff.mpr ⟨limits.lengths file known, limits.segments file known⟩
      · exact fits_padFile ((padLength_le builder file.2).trans_lt (by omega))
  · rw [privateFields]
    split
    case isTrue => exact fits_cons_iff.mpr ⟨⟨by decide, number (by decide)⟩, fits_nil⟩
    case isFalse => rfl

theorem fits_writtenRoot (small : builder.pieceLength < 2 ^ 32) (tracked : builder.trackers ≠ [])
    (trees : Trees digests builder format fileTree layers) :
    (dictionary (builder.writtenRoot digests fileTree (sortByKey layers) format)).fits = true := by
  have fitting : ∀ file ∈ builder.files, FileTreeNode.Fitting (treeFile digests file) :=
    fun file member => ⟨limits.segments file member, limits.lengths file member⟩
  have treed : format = .v1 ∨ fileTree.toBNode.fits = true :=
    trees.imp id fun built => addAllToTree_fits FileTreeNode.fits_empty fitting built.2
  rw [writtenRoot_eq, fits_append_iff, fits_cons_iff]
  refine ⟨fits_writtenBefore limits tracked, ⟨of_decide_eq_true rfl, fits_writtenInfo limits small treed⟩, ?_⟩
  refine fits_writtenAfter limits (trees.imp id fun built layer member => ?_)
  rw [← pieceLayers_eq built.2]
  exact mem_sortByKey.mp member

end Within

section Fits

theorem isSingleFile_noSlash (single : builder.isSingleFile = true) (member : file ∈ builder.files) : '/' ∉ file.1 := by
  rw [isSingleFile] at single
  split at single
  case h_1 only shape =>
    rw [shape, mem_singleton] at member
    rw [Bool.and_eq_true, decide_eq_true_eq] at single
    rw [member]
    exact single.2
  case h_2 => cases single

variable (good : (dictionary (builder.writtenRoot digests fileTree (sortByKey layers) format)).fits = true)
include good

theorem info_fits : (builder.writtenNode digests fileTree format).fits = true :=
  (fits_dictionary_iff.mp good _ (info_mem_writtenRoot fileTree (sortByKey layers))).2

section

variable (named : fileTree.Named) (treeLike : builder.TreeLike) (trees : Trees digests builder format fileTree layers)
include named treeLike trees

theorem fitting_of_fits (shown : ¬(format = .v1 ∧ builder.isSingleFile = true)) :
    ∀ file ∈ builder.files, FileTreeNode.Fitting (treeFile digests file) := by
  have info := info_fits good
  by_cases plain : format = .v1
  · cases plain
    have several : builder.isSingleFile = false := Bool.eq_false_iff.mpr fun single => shown ⟨rfl, single⟩
    have listed : (dictionary (builder.writtenInfo digests fileTree .v1)).dictGet (ascii "files") =
        some (.list (builder.files.map plainItem)) := by
      rw [dictGet_files, writtenItems, several]
      rfl
    have items := fits_list_iff.mp (fits_of_dictGet info listed)
    rw [forall_mem_map] at items
    intro file member
    obtain ⟨length, segments⟩ := fits_plainItem_iff.mp (items file member)
    exact ⟨segments, length⟩
  · obtain ⟨valid, built⟩ := trees.resolve_left plain
    have tree := fits_of_dictGet info ((dictGet_fileTree fileTree).trans (if_neg plain))
    obtain ⟨_, _, again, perm⟩ := @TreeLike.exists_tree digests builder treeLike valid
    cases built.symm.trans again
    intro file member
    exact FileTreeNode.fitting_of_fits named tree _ (perm.mem_iff.mpr (mem_map_of_mem member))

theorem lengths_of_fits : ∀ file ∈ builder.files, file.2.length < 2 ^ 63 := by
  by_cases alone : format = .v1 ∧ builder.isSingleFile = true
  · obtain ⟨rfl, single⟩ := alone
    have sized := fits_of_dictGet (info_fits good) (dictGet_length.trans (if_pos ⟨by decide, single⟩))
    obtain ⟨only, shape⟩ := isSingleFile_files single
    rw [shape] at sized ⊢
    exact forall_mem_singleton.mpr (fits_decimal_iff.mp sized)
  · exact fun file member => (fitting_of_fits good named treeLike trees alone file member).2

/-- A torrent within the limits comes from a builder within the limits, if nothing is left out of it. -/
theorem withinLimits_of_fits
    (single : format = .v1 → builder.isSingleFile = true → ∀ file ∈ builder.files, file.1 = builder.name)
    (tracked : format = .v1 → builder.trackers.length ≤ 1) (seeded : format ≠ .v2 → builder.webSeeds = []) :
    WithinLimits digests builder format := by
  have info := info_fits good
  have name : Short builder.name := fits_string_iff.mp (fits_of_dictGet info dictGet_name)
  refine ⟨name, ?_, ?_, ?_, ?_, lengths_of_fits good named treeLike trees, ?_, ?_⟩
  · intro comment given
    have found := @dictGet_comment digests builder fileTree (sortByKey layers) format
    rw [given] at found
    exact fits_string_iff.mp (fits_of_dictGet good found)
  · by_cases several : 1 < builder.trackers.length
    · have listed := fits_of_dictGet good (dictGet_tiers.trans
        (if_pos ⟨fun plain => absurd (tracked plain) (Nat.not_le.mpr several), several⟩))
      simp only [fits_list_iff, forall_mem_map, forall_mem_singleton, fits_string_iff] at listed
      exact listed
    · have announce := fits_string_iff.mp (fits_of_dictGet good dictGet_announce)
      intro url member
      cases shape : builder.trackers with
      | nil =>
        rw [shape] at member
        cases member
      | cons first others =>
        rw [shape, length_cons] at several
        cases eq_nil_of_length_eq_zero (show others.length = 0 by omega)
        rw [shape, mem_singleton] at member
        rw [announceUrl, shape] at announce
        rw [member]
        exact announce
  · by_cases given : format = .v2 ∧ builder.webSeeds ≠ []
    · exact fits_texts_iff.mp (fits_of_dictGet good (dictGet_seeds.trans (if_pos given)))
    · have none : builder.webSeeds = [] := by
        by_cases pure : format = .v2
        · by_contra some
          exact given ⟨pure, some⟩
        · exact seeded pure
      rw [none]
      exact fun _ absent => absurd absent not_mem_nil
  · intro file member
    by_cases alone : format = .v1 ∧ builder.isSingleFile = true
    · intro segment inside
      rw [pathSegments, splitOn_eq_singleton (isSingleFile_noSlash alone.2 member)] at inside
      rw [mem_singleton.mp (mem_filter.mp inside).1, single alone.1 alone.2 file member]
      exact name
    · exact (fitting_of_fits good named treeLike trees alone file member).1
  · refine (pieces_short_iff digests).mpr fun pieces known => ?_
    have found := @dictGet_pieces digests builder fileTree format
    rw [known] at found
    exact fits_string_iff.mp (fits_of_dictGet info found)
  · intro treed layer member
    obtain ⟨_, built⟩ := trees.resolve_left treed
    rw [← pieceLayers_eq built] at member
    have inside : layerEntries (sortByKey layers) ⊆ builder.writtenAfter (sortByKey layers) format := by
      cases format with
      | v1 => exact absurd rfl treed
      | v2 => exact subset_append_left _ _
      | hybrid => exact Subset.refl _
    rw [layerEntries, if_neg (ne_nil_of_mem (mem_sortByKey.mpr member))] at inside
    rw [writtenRoot_eq, fits_append_iff, fits_cons_iff] at good
    have layered := (fits_dictionary_iff.mp good.2.2 _ (inside mem_cons_self)).2
    simp only [fits_dictionary_iff, forall_mem_map, fits_string_iff] at layered
    exact (layered layer (mem_sortByKey.mpr member)).2

end

end Fits

end Limits

end TorrentBuilder

end BitTorrent
