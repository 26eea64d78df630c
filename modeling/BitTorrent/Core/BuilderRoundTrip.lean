import BitTorrent.Core.BuiltFiles
import BitTorrent.Core.UrlLists

/-! # Reading back what was built

The fields of a builder that a parsed torrent gives back, for each of the three formats.
-/

namespace BitTorrent

open Bencode MetaInfoFile Digests List

namespace TorrentBuilder

variable {digests : Digests} {builder : TorrentBuilder} {fileTree : FileTreeNode} {layers : LayerMap}
  {format : TorrentExportFormat} {parsed : MetaInfoFile} {details : Files}

section Statement

variable (digests builder format)

/-- Where a file is shown: by itself, or below the name of a torrent of several files. -/
def shownPath (file : Text × Bytes) : Text :=
  forwardSlashes ((if builder.isSingleFile then [] else builder.name ++ ['/']) ++ file.1)

/-- The pieces root of a file; v1 has none. -/
def shownRoot (file : Text × Bytes) : Option (Hash UInt8) :=
  if format = .v1 then none else some (fileRoot digests file.2)

structure KeepsFile (file : Text × Bytes) (details : FileDetails UInt8) : Prop where
  torrentPath : details.torrentPath = String.ofList (builder.shownPath file)
  length : details.length = file.2.length
  piecesRoot : details.piecesRoot = shownRoot digests format file

def IsPad (details : FileDetails UInt8) : Prop :=
  details.torrentPath =
    String.ofList (forwardSlashes (builder.name ++ ['/'] ++ joinSlash (padFile details.length).segments))

/-- The files in their order, with pad files between them. -/
inductive KeepsFiles : List (Text × Bytes) → Files → Prop
  | nil : KeepsFiles [] []
  | file {file : Text × Bytes} {files : List (Text × Bytes)} {details : FileDetails UInt8}
      {others : Files} (kept : KeepsFile digests builder format file details)
      (rest : KeepsFiles files others) : KeepsFiles (file :: files) (details :: others)
  | pad {files : List (Text × Bytes)} {details : FileDetails UInt8} {others : Files}
      (padding : IsPad builder details) (rest : KeepsFiles files others) : KeepsFiles files (details :: others)

/-- A parsed torrent gives back the fields of the builder. -/
structure GivesBack (parsed : MetaInfoFile) : Prop where
  name : parsed.getName = .ok builder.name
  pieceLength : parsed.getPieceLength = .ok builder.pieceLength
  isPrivate : parsed.isPrivate = builder.isPrivate
  comment : parsed.getComment = builder.comment
  trackers : parsed.getTrackerUrls = .ok builder.trackers
  webSeeds : parsed.getWebSeeds = builder.webSeeds
  files : ∀ canonicalDownload, ∃ total details,
    parsed.localFilesToDownloadList canonicalDownload = .ok (total, details) ∧
      KeepsFiles digests builder format builder.files details

def RoundTrip : Prop :=
  ∃ bytes, builder.build digests format = .ok bytes ∧
    ∃ parsed, parse digests (.fromBytes bytes) = .ok parsed ∧ GivesBack digests builder format parsed

def ValidPieceLength : TorrentExportFormat → Prop
  | .v1 => 0 < builder.pieceLength
  | .v2 => builder.validatePieceLength = .ok ()
  | .hybrid => builder.validatePieceLength = .ok ()

/-- The builders that a format is meant for. -/
structure WellFormed : Prop where
  nonempty : builder.files ≠ []
  paths : builder.ValidPaths
  pieceLength : builder.ValidPieceLength format
  tracked : builder.trackers ≠ []
  distinct : builder.trackers.Nodup

/-- A list of trackers that is the same after it was joined and cut. -/
def TiersKept : Prop :=
  1 < builder.trackers.length → (∀ url ∈ builder.trackers.tail, CleanUrl url) ∧
    (urlParts builder.announceUrl).foldl addUrl [builder.announceUrl] <+: builder.trackers

/-- A v1 torrent has one tracker. -/
def TrackersKept : TorrentExportFormat → Prop
  | .v1 => builder.trackers.length ≤ 1
  | .v2 => builder.TiersKept
  | .hybrid => builder.TiersKept

/-- Only a v2 torrent has web seeds. -/
def SeedsKept : TorrentExportFormat → Prop
  | .v1 => builder.webSeeds = []
  | .v2 => ∀ url ∈ builder.webSeeds, CleanUrl url
  | .hybrid => builder.webSeeds = []

/-- The files stand in the order of a file tree. -/
def TreeOrdered : Prop :=
  builder.files.Pairwise fun left right => treeOrder (pathSegments left.1) (pathSegments right.1) = true

/-- A single file takes the name of a v1 torrent and goes below that of another; a v2 torrent has
only the file tree. -/
def PathsKept : TorrentExportFormat → Prop
  | .v1 => builder.isSingleFile = true → ∀ file ∈ builder.files, file.1 = builder.name
  | .v2 => builder.isSingleFile = false ∧ builder.TreeOrdered
  | .hybrid => builder.isSingleFile = false

/-- The builders whose fields come back. -/
structure Restorable : Prop where
  name : validateRelativePath builder.name = .ok ()
  pieceLength : builder.pieceLength < 2 ^ 32
  limits : WithinLimits digests builder format
  stream : builder.streamLength format < 2 ^ 63
  trackers : builder.TrackersKept format
  webSeeds : builder.SeedsKept format
  paths : builder.PathsKept format

end Statement

section Build

variable {bytes : Bytes}

theorem exists_written (built : builder.build digests format = .ok bytes) :
    ∃ fileTree layers, fileTree.Named ∧ Trees digests builder format fileTree layers ∧
      bytes = builder.writtenBytes digests fileTree layers format := by
  obtain ⟨_, fileTree, layers, trees, written⟩ := build_eq_ok built
  by_cases plain : format = .v1
  · cases plain
    exact ⟨.directory [], layers, FileTreeNode.named_empty, .inl rfl, written⟩
  · have named := addAllToTree_named FileTreeNode.named_empty (trees.resolve_left plain).2
    exact ⟨fileTree, layers, named, trees, written⟩

theorem exists_build_iff (wellFormed : builder.WellFormed format) :
    (∃ bytes, builder.build digests format = .ok bytes) ↔ builder.streamLength format < 2 ^ 63 := by
  constructor
  · intro built
    obtain ⟨bytes, built⟩ := built
    cases format with
    | v1 => exact builder.length_totalStream ▸ (buildV1_eq_ok built).2.2.1
    | v2 => exact show 0 < 2 ^ 63 by decide
    | hybrid => exact @length_alignedStream digests builder ▸ (buildHybrid_eq_ok built).2.1
  · intro fits
    by_cases plain : format = .v1
    · cases plain
      have positive : 0 < builder.pieceLength := wellFormed.pieceLength
      rw [← length_totalStream] at fits
      refine ⟨_, (if_neg wellFormed.nonempty).trans (if_neg ?_)⟩
      omega
    · have valid : builder.validatePieceLength = .ok () := by
        cases format with
        | v1 => exact absurd rfl plain
        | v2 => exact wellFormed.pieceLength
        | hybrid => exact wellFormed.pieceLength
      obtain ⟨fileTree, layers, built, _⟩ := @TreeLike.exists_tree digests builder wellFormed.paths.treeLike valid
      refine ⟨_, (build_tree plain valid built).trans (if_neg ?_)⟩
      rintro ⟨rfl, long⟩
      rw [length_alignedStream] at long
      omega

end Build

section Fields

variable (back : ReadBack digests builder fileTree format parsed)
include back

theorem getName_back : parsed.getName = .ok builder.name := by
  have name := back.read.name
  rw [dictGet_name, Option.bind_some, BNode.scalarBytes] at name
  rw [getName, back.read.requireParsed, field_eq_ok.mpr name]
  simp only [bind, Except.bind, fromUtf8Lossy_utf8]
  rfl

theorem getPieceLength_iff : parsed.getPieceLength = .ok builder.pieceLength ↔ builder.pieceLength < 2 ^ 32 := by
  rw [getPieceLength, back.read.requireParsed, field_eq_ok.mpr back.pieceLength]
  simp only [bind, Except.bind, decimal, fromUtf8Lossy_utf8]
  rw [parseNumber_eq_ok]
  exact ⟨parseUnsigned_lt, parseUnsigned_decimal⟩

theorem isPrivate_back : parsed.isPrivate = builder.isPrivate := by
  rw [MetaInfoFile.isPrivate, back.isPrivate]
  cases builder.isPrivate with
  | false => rfl
  | true => decide +kernel

theorem getComment_back : parsed.getComment = builder.comment := by
  rw [getComment, back.comment, Option.map_map]
  cases builder.comment with
  | none => rfl
  | some comment => exact congrArg some (fromUtf8Lossy_utf8 comment)

theorem getWebSeeds_iff : parsed.getWebSeeds = builder.webSeeds ↔ builder.SeedsKept format := by
  have found := back.webSeeds
  by_cases given : format = .v2 ∧ builder.webSeeds ≠ []
  · rw [if_pos given] at found
    rw [getWebSeeds_joined given.2 found, flatMap_urlParts_iff, given.1]
    rfl
  · rw [if_neg given] at found
    have none : parsed.getWebSeeds = [] := by rw [getWebSeeds, found]
    rw [none]
    cases format with
    | v1 => exact eq_comm
    | hybrid => exact eq_comm
    | v2 =>
      have empty : builder.webSeeds = [] := by
        by_contra some
        exact given ⟨rfl, some⟩
      rw [SeedsKept, empty]
      exact ⟨fun _ _ absent => absurd absent not_mem_nil, fun _ => rfl⟩

theorem getTrackerUrls_iff (wellFormed : builder.WellFormed format) :
    parsed.getTrackerUrls = .ok builder.trackers ↔ builder.TrackersKept format := by
  obtain ⟨first, rest, shape⟩ := exists_cons_of_ne_nil wellFormed.tracked
  have announce : builder.announceUrl = first := by rw [announceUrl, shape, headD_cons]
  have announced := back.announce
  have found := back.trackers
  rw [announce] at announced
  have tiers : format ≠ .v1 → (parsed.getTrackerUrls = .ok builder.trackers ↔ builder.TiersKept) := by
    intro listed
    by_cases several : 1 < builder.trackers.length
    · have distinct := wellFormed.distinct
      rw [if_pos ⟨listed, several⟩] at found
      rw [getTrackerUrls_joined back.read.parsed announced wellFormed.tracked found, Except.ok.injEq, TiersKept,
        forall_prop_of_true several, announce, shape, tail_cons]
      exact foldl_addUrl_iff (shape ▸ distinct)
    · rw [if_neg fun both => several both.2] at found
      rw [getTrackerUrls_single back.read.parsed announced found, shape, Except.ok.injEq, cons.injEq]
      have alone : rest = [] := by
        rw [shape, length_cons] at several
        exact eq_nil_of_length_eq_zero (by omega)
      exact ⟨fun _ more => absurd more several, fun _ => ⟨rfl, alone.symm⟩⟩
  cases format with
  | v1 =>
    rw [getTrackerUrls_single back.read.parsed announced found, TrackersKept, shape, Except.ok.injEq, cons.injEq,
      length_cons]
    constructor
    · intro same
      rw [← same.2]
      exact Nat.le_refl 1
    · intro few
      exact ⟨rfl, (eq_nil_of_length_eq_zero (by omega)).symm⟩
  | v2 => exact tiers (by decide)
  | hybrid => exact tiers (by decide)

end Fields

section Files

variable {files : List (Text × Bytes)}

theorem KeepsFiles.length_le (kept : KeepsFiles digests builder format files details) : files.length ≤ details.length := by
  induction kept with
  | nil => exact Nat.le_refl 0
  | file _ _ ih => exact Nat.succ_le_succ ih
  | pad _ _ ih => exact Nat.le_succ_of_le ih

theorem KeepsFiles.exact (kept : KeepsFiles digests builder format files details) (same : details.length = files.length) :
    Forall₂ (KeepsFile digests builder format) files details := by
  induction kept with
  | nil => exact .nil
  | file first _ ih => exact .cons first (ih (Nat.succ.inj same))
  | pad _ rest _ =>
    have few := rest.length_le
    rw [length_cons] at same
    omega

theorem map_eq_of_forall₂ {α β γ : Type} {relation : α → β → Prop} {left : α → γ} {right : β → γ} {ones : List α}
    {others : List β} (agree : ∀ one other, relation one other → left one = right other)
    (all : Forall₂ relation ones others) : ones.map left = others.map right := by
  induction all with
  | nil => rfl
  | cons first _ ih => rw [map_cons, map_cons, agree _ _ first, ih]

theorem size_numeral {path : Text} {length size : Nat}
    (parsed : (⟨path, numeral length⟩ : DeclaredFile).size? = some size) : size = length :=
  parseNumber_decimal (parseNumber_eq_ok.mpr parsed)

section Built

variable (paths : builder.ValidPaths) (named : fileTree.Named) (trees : Trees digests builder format fileTree layers)

include paths named trees

variable {directory : Bytes}

theorem tree_paths (treed : format ≠ .v1) (unlisted : builder.writtenItems digests format = none)
    (listed : Forall₂ (ListedAs parsed (builder.name ++ ['/']) directory)
      (declaredFiles (builder.writtenInfo digests fileTree format)) details)
    (kept : KeepsFiles digests builder format builder.files details) :
    builder.isSingleFile = false ∧ builder.TreeOrdered := by
  obtain ⟨valid, built⟩ := trees.resolve_left treed
  obtain ⟨ordered, order, perm⟩ := @ValidPaths.exists_ordered digests builder fileTree layers paths valid built
  rw [declaredFiles_tree named order treed unlisted] at listed
  have size : details.length = builder.files.length := by
    rw [← listed.length_eq, length_map, perm.length_eq, length_map]
  have same : builder.files.map builder.shownPath =
      ordered.map fun leaf => forwardSlashes (builder.name ++ ['/'] ++ joinSlash leaf.1) := by
    have left := @map_eq_of_forall₂ _ _ _ _ builder.shownPath (fun details => details.torrentPath.toList) _ _
      (fun file details kept => by rw [kept.torrentPath, String.toList_ofList]) (kept.exact size)
    have right := @map_eq_of_forall₂ _ _ _ _ (fun declared => forwardSlashes (builder.name ++ ['/'] ++ declared.path))
      (fun details => details.torrentPath.toList) _ _
      (fun declared details shown => by rw [shown.1.torrentPath, String.toList_ofList]) listed
    rw [left, ← right, map_map]
    rfl
  have segments : ∀ leaf ∈ ordered, pathSegments (forwardSlashes (joinSlash leaf.1)) = leaf.1 := by
    intro leaf member
    obtain ⟨file, known, rfl⟩ := mem_map.mp (perm.mem_iff.mp member)
    rw [treeFile, joinSlash_pathSegments (paths.valid file known), forwardSlashes_eq_self (builder.slashed file known)]
  have several : builder.isSingleFile = false := by
    by_contra single
    rw [Bool.not_eq_false] at single
    obtain ⟨file, shape⟩ := isSingleFile_files single
    rw [shape, map_singleton, perm_singleton] at perm
    rw [perm, shape, map_singleton, map_singleton, cons.injEq, shownPath, single, if_pos rfl, nil_append,
      treeFile, joinSlash_pathSegments (paths.valid file (by rw [shape]; exact mem_singleton_self _))] at same
    have lengths := congrArg length same.1
    rw [forwardSlashes_length, forwardSlashes_length, length_append, length_append, length_singleton] at lengths
    omega
  refine ⟨several, ?_⟩
  have below : builder.files.map (fun file => pathSegments file.1) = ordered.map Prod.fst := by
    have cut := congrArg (map fun path => pathSegments (path.drop (builder.name ++ ['/']).length)) same
    have dropped : ∀ path : Text, (forwardSlashes (builder.name ++ ['/'] ++ path)).drop (builder.name ++ ['/']).length =
        forwardSlashes path := by
      intro path
      rw [forwardSlashes_append, drop_left' (forwardSlashes_length _)]
    rw [map_map, map_map] at cut
    rw [map_congr_left fun leaf member => (segments leaf member).symm]
    refine Eq.trans ?_ (cut.trans ?_)
    · refine map_congr_left fun file member => ?_
      rw [Function.comp_apply, shownPath, several, if_neg Bool.false_ne_true, dropped,
        forwardSlashes_eq_self (builder.slashed file member)]
    · refine map_congr_left fun leaf _ => ?_
      rw [Function.comp_apply, dropped]
  have sorted : (ordered.map Prod.fst).Pairwise fun left right => treeOrder left right = true :=
    pairwise_map.mpr order.sorted
  rw [← below] at sorted
  exact pairwise_map.mp sorted

variable (back : ReadBack digests builder fileTree format parsed)

include back

theorem lookupRoot_built {file : Text × Bytes} {path : Text} {keys : List Text} (known : file ∈ builder.files)
    (here : format = .v1 ∨ path = file.1) (asked : RootKeys path keys) :
    parsed.lookupRoot keys = shownRoot digests format file := by
  rw [shownRoot]
  by_cases plain : format = .v1
  · cases plain
    exact back.roots.lookupRoot_none noRoots_v1.1 noRoots_v1.2 asked
  · cases here.resolve_left plain
    rw [if_neg plain]
    exact back.roots.lookupRoot_eq (paths.root_found named trees plain known) asked

theorem keepsFiles_of_listed {above : Text} {pads : Text × Bytes → List DeclaredFile}
    (top : above = if builder.isSingleFile then [] else builder.name ++ ['/'])
    (padding : ∀ file, ∀ declared ∈ pads file, builder.isSingleFile = false ∧
      ∃ length, declared = declaredEntry (padFile length)) (within : ∀ file ∈ files, file ∈ builder.files)
    (listed : Forall₂ (ListedAs parsed above directory) (files.flatMap fun file => declaredFile file :: pads file)
      details) : KeepsFiles digests builder format files details := by
  induction files generalizing details with
  | nil =>
    cases listed
    exact .nil
  | cons file files ih =>
    rw [forall_mem_cons] at within
    cases listed with
    | @cons _ first _ later shown rest =>
      obtain ⟨faithful, keys, asked, root⟩ := shown
      rw [paths.declaredFile_eq within.1] at faithful asked
      refine .file ⟨?_, size_numeral faithful.length, ?_⟩ ?_
      · rw [faithful.torrentPath, shownPath, ← top]
      · rw [root, lookupRoot_built paths named trees back within.1 (.inr rfl) asked]
      · -- the pad files of this file, then the other files
        have each := padding file
        generalize pads file = behind at each rest
        induction behind generalizing later with
        | nil => exact ih within.2 rest
        | cons pad behind inner =>
          cases rest with
          | cons shown rest =>
            rw [forall_mem_cons] at each
            obtain ⟨⟨several, length, rfl⟩, each⟩ := each
            refine .pad ?_ (inner each rest)
            obtain ⟨faithful, _⟩ := shown
            have size := size_numeral faithful.length
            rw [padFile, length_replicate] at size
            rw [IsPad, size, faithful.torrentPath, top, several]
            rfl

theorem keepsFiles_iff (listed : Forall₂
      (ListedAs parsed (if format = .v1 ∧ builder.isSingleFile then [] else builder.name ++ ['/']) directory)
      (declaredFiles (builder.writtenInfo digests fileTree format)) details) :
    KeepsFiles digests builder format builder.files details ↔ builder.PathsKept format := by
  have unpadded : builder.files.map declaredFile = builder.files.flatMap fun file => declaredFile file :: [] :=
    map_eq_flatMap
  have noPads : ∀ file : Text × Bytes, ∀ declared ∈ ([] : List DeclaredFile), builder.isSingleFile = false ∧
      ∃ length, declared = declaredEntry (padFile length) := fun _ _ absent => absurd absent not_mem_nil
  cases format with
  | v1 =>
    cases single : builder.isSingleFile with
    | false =>
      rw [declaredFiles_v1 single, unpadded, single] at listed
      refine ⟨fun _ alone => ?_, fun _ => ?_⟩
      · rw [single] at alone
        cases alone
      · refine keepsFiles_of_listed paths named trees back ?_ noPads (fun _ member => member) listed
        rw [single]
        rfl
    | true =>
      obtain ⟨file, shape⟩ := isSingleFile_files single
      have member : file ∈ builder.files := by rw [shape]; exact mem_singleton_self _
      rw [if_pos ⟨rfl, single⟩] at listed
      constructor
      · intro kept alone
        rw [shape, forall_mem_singleton]
        rw [declaredFiles_single single] at listed
        rw [shape] at kept
        cases listed with
        | cons shown rest =>
          cases rest
          cases kept.exact rfl with
          | cons first _ =>
            have same := String.ofList_injective (first.torrentPath.symm.trans shown.1.torrentPath)
            rw [shownPath, single, if_pos rfl, nil_append, nil_append,
              forwardSlashes_eq_self (builder.slashed file member)] at same
            rw [same]
            refine forwardSlashes_eq_self fun inside => ?_
            have noSlash := isSingleFile_noSlash single member
            rw [same] at noSlash
            exact noSlash (mem_map.mpr ⟨'\\', inside, rfl⟩)
      · intro kept
        have here : builder.name = file.1 := (kept single file member).symm
        have declared : declaredFiles (builder.writtenInfo digests fileTree .v1) = builder.files.map declaredFile := by
          rw [declaredFiles_single single, shape, map_singleton, paths.declaredFile_eq member, here]
          rfl
        rw [declared, unpadded] at listed
        refine keepsFiles_of_listed paths named trees back ?_ noPads (fun _ member => member) listed
        rw [single]
        rfl
  | v2 =>
    constructor
    · exact tree_paths paths named trees (by decide) rfl listed
    · intro kept
      obtain ⟨several, inOrder⟩ := kept
      obtain ⟨valid, built⟩ := trees.resolve_left (by decide)
      obtain ⟨ordered, order, perm⟩ := @ValidPaths.exists_ordered digests builder fileTree layers paths valid built
      have same : ordered = builder.files.map (treeFile digests) := by
        refine perm.eq_of_pairwise ?_ order.sorted (pairwise_map.mpr inOrder)
        intro left right _ _ lower upper
        rw [treeOrder_asymm lower] at upper
        cases upper
      rw [declaredFiles_tree named order (by decide) rfl, same, map_map] at listed
      refine keepsFiles_of_listed paths named trees back ?_ noPads (fun _ member => member) (unpadded ▸ listed)
      rw [several]
      rfl
  | hybrid =>
    constructor
    · intro kept
      rw [PathsKept, ← Bool.not_eq_true]
      intro single
      obtain ⟨several, _⟩ := tree_paths paths named trees (by decide) (if_pos single) listed kept
      rw [single] at several
      cases several
    · intro several
      have padded : (builder.v1Files digests).map declaredEntry = builder.files.flatMap fun file =>
          declaredFile file :: (if 0 < builder.padLength file.2 then [padFile (builder.padLength file.2)] else []).map
            declaredEntry := by
        rw [v1Files, map_flatMap]
        rfl
      rw [declaredFiles_hybrid several, padded] at listed
      refine keepsFiles_of_listed paths named trees back ?_ ?_ (fun _ member => member) listed
      · rw [several]
        rfl
      · intro file declared member
        refine ⟨several, ?_⟩
        obtain ⟨entry, inside, rfl⟩ := mem_map.mp member
        split at inside
        case isTrue => exact ⟨_, congrArg declaredEntry (mem_singleton.mp inside)⟩
        case isFalse => cases inside

end Built

end Files

section RoundTrip

theorem name_of_listed (back : ReadBack digests builder fileTree format parsed) {canonicalDownload : Bytes} {total : Nat}
    (listed : parsed.localFilesToDownloadList canonicalDownload = .ok (total, details)) :
    validateRelativePath builder.name = .ok () := by
  have name := back.read.name
  rw [dictGet_name, Option.bind_some, BNode.scalarBytes] at name
  have valid : ∀ {found : Bytes}, parsed.get (text "name") = some found →
      validateRelativePath (fromUtf8Lossy found) = .ok () → validateRelativePath builder.name = .ok () := by
    intro found known checked
    cases name.symm.trans known
    rw [fromUtf8Lossy_utf8] at checked
    exact checked
  rcases localFilesToDownloadList_eq_ok listed with ⟨_, single⟩ | ⟨found, _, known, checked, _⟩
  · obtain ⟨found, _, _, known, _, checked, _⟩ := singleFile_inv single
    exact valid known checked
  · exact valid known checked

/-- A format gives back the fields of a builder exactly if it writes all of them, in a form that
survives the parser. -/
theorem roundTrip_iff (digests : Digests) (wellFormed : builder.WellFormed format) :
    builder.RoundTrip digests format ↔ builder.Restorable digests format := by
  constructor
  · intro trip
    obtain ⟨bytes, built, parsed, done, gives⟩ := trip
    have stream := (exists_build_iff wellFormed).mp ⟨bytes, built⟩
    obtain ⟨fileTree, layers, named, trees, rfl⟩ := exists_written built
    have fits := fits_of_built named done
    have back := readBack_of_parse named done
    have small := (getPieceLength_iff back).mp gives.pieceLength
    have trackers := (getTrackerUrls_iff back wellFormed).mp gives.trackers
    have webSeeds := (getWebSeeds_iff back).mp gives.webSeeds
    obtain ⟨total, details, listed, kept⟩ := gives.files []
    have name := name_of_listed back listed
    obtain ⟨_, _, again, listing⟩ := listing wellFormed.paths.valid named trees wellFormed.nonempty fits back name []
    cases listed.symm.trans again
    have paths := (keepsFiles_iff wellFormed.paths named trees back listing).mp kept
    refine ⟨name, small, ?_, stream, trackers, webSeeds, paths⟩
    refine withinLimits_of_fits fits named wellFormed.paths.treeLike trees ?_ ?_ ?_
    · intro plain
      cases plain
      exact paths
    · intro plain
      cases plain
      exact trackers
    · intro other
      cases format with
      | v1 => exact webSeeds
      | v2 => exact absurd rfl other
      | hybrid => exact webSeeds
  · intro restorable
    obtain ⟨bytes, built⟩ := (exists_build_iff wellFormed).mpr restorable.stream
    refine ⟨bytes, built, ?_⟩
    obtain ⟨fileTree, layers, named, trees, rfl⟩ := exists_written built
    have fits := fits_writtenRoot restorable.limits restorable.pieceLength wellFormed.tracked trees
    obtain ⟨parsed, done⟩ := (exists_parse_iff named).mpr fits
    have back := readBack_of_parse named done
    refine ⟨parsed, done, getName_back back, (getPieceLength_iff back).mpr restorable.pieceLength, isPrivate_back back,
      getComment_back back, (getTrackerUrls_iff back wellFormed).mpr restorable.trackers,
      (getWebSeeds_iff back).mpr restorable.webSeeds, ?_⟩
    intro canonicalDownload
    obtain ⟨total, details, listed, listing⟩ := listing wellFormed.paths.valid named trees wellFormed.nonempty fits back
      restorable.name canonicalDownload
    exact ⟨total, details, listed, (keepsFiles_iff wellFormed.paths named trees back listing).mpr restorable.paths⟩

/-- Two files with two trackers and a web seed. -/
def mirrored : TorrentBuilder :=
  (((((new (text "r")).withTrackers [text "u", text "v"]).webSeed (text "w")).withComment (text "c")).addFile
    (text "a") [1, 2]).addFile (text "b/c") [3]

theorem mirrored_paths : mirrored.ValidPaths := ⟨by decide +kernel, by decide +kernel⟩

theorem mirrored_wellFormed (format : TorrentExportFormat) : mirrored.WellFormed format := by
  refine ⟨by decide, mirrored_paths, ?_, by decide, by decide⟩
  cases format with
  | v1 => exact show 0 < mirrored.pieceLength by decide
  | v2 => exact show mirrored.validatePieceLength = .ok () by decide +kernel
  | hybrid => exact show mirrored.validatePieceLength = .ok () by decide +kernel

theorem mirrored_restorable : mirrored.Restorable zero .v2 := by
  refine ⟨by decide +kernel, by decide, ?_, by decide, ?_, ?_, ?_⟩
  · refine ⟨by decide, ?_, by decide, by decide, by decide +kernel, by decide, by decide, ?_⟩
    · intro comment given
      cases given
      decide
    · exact fun _ _ absent => absurd absent not_mem_nil
  · refine fun _ => ⟨?_, by decide +kernel⟩
    rw [show mirrored.trackers.tail = [text "v"] from rfl, forall_mem_singleton]
    exact ⟨by decide, by decide, by decide +kernel⟩
  · rw [SeedsKept, show mirrored.webSeeds = [text "w"] from rfl, forall_mem_singleton]
    exact ⟨by decide, by decide, by decide +kernel⟩
  · refine ⟨by decide, ?_⟩
    rw [TreeOrdered]
    decide +kernel

theorem mirrored_roundTrip : mirrored.WellFormed .v2 ∧ mirrored.RoundTrip zero .v2 :=
  ⟨mirrored_wellFormed .v2, (roundTrip_iff zero (mirrored_wellFormed .v2)).mpr mirrored_restorable⟩

theorem mirrored_read : (match mirrored.build zero .v1 with
    | .ok bytes => (parse zero (.fromBytes bytes)).toOption.map fun parsed =>
      (parsed.getWebSeeds, parsed.getTrackerUrls.toOption)
    | _ => none) = some ([], some [text "u"]) := by
  decide +kernel

/-- A v1 torrent has neither the web seed nor the second tracker. -/
theorem mirrored_dropped : mirrored.WellFormed .v1 ∧ ¬mirrored.RoundTrip zero .v1 := by
  refine ⟨mirrored_wellFormed .v1, ?_⟩
  intro trip
  obtain ⟨bytes, built, parsed, done, gives⟩ := trip
  have read := mirrored_read
  rw [built] at read
  dsimp only at read
  rw [done, toOption_ok, Option.map_some, Option.some.injEq, Prod.mk.injEq, gives.webSeeds] at read
  cases read.1

end RoundTrip

end TorrentBuilder

end BitTorrent
