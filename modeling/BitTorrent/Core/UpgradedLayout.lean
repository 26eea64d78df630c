import BitTorrent.Core.BuilderRoundTrip
import BitTorrent.Core.FileAliasing
import BitTorrent.Core.TorrentUpgrader

/-! # The files of an upgraded torrent

The paths that the upgrader hands to the builder begin with the name of the torrent, and the builder
puts its own name above them.  So the files of most torrents move one directory down.
-/

namespace BitTorrent

open Bencode MetaInfoFile Digests List TorrentBuilder FileDetails

section Padding

variable {details : FileDetails UInt8} {front path : Text}

/-- A path of the kind that pad files have. -/
def Padding (path : Text) : Prop := text "/.pad/" <:+: path ∨ text ".pad/" <+: path

theorem FileDetails.isPadFile_iff : details.isPadFile = true ↔ Padding details.torrentPath.toList := by
  rw [isPadFile, Bool.or_eq_true, decide_eq_true_iff, isPrefixOf_iff_prefix, Padding]

theorem Padding.below (padding : Padding path) (front : Text) : Padding (front ++ '/' :: path) := by
  refine .inl ?_
  rcases padding with inside | ahead
  · exact inside.trans ⟨front ++ ['/'], [], by simp⟩
  · have joined : text "/.pad/" <+: '/' :: path := cons_prefix_cons.mpr ⟨rfl, ahead⟩
    exact joined.isInfix.trans (suffix_append front _).isInfix

theorem Padding.slash_mem (padding : Padding path) : '/' ∈ path := by
  rcases padding with inside | ahead
  · exact inside.subset (by decide)
  · exact ahead.subset (by decide)

theorem Padding.forwardSlashes (padding : Padding path) : Padding (forwardSlashes path) := by
  rcases padding with inside | ahead
  · exact .inl (inside.map fun letter => if letter = '\\' then '/' else letter)
  · exact .inr (ahead.map fun letter => if letter = '\\' then '/' else letter)

theorem padding_padFile (length : Nat) : Padding (joinSlash (padFile length).segments) := by
  refine .inr ⟨numeral length, ?_⟩
  rw [padFile, joinSlash_cons, flatMap_singleton]
  rfl

end Padding

namespace MetaInfoFile

variable {file : MetaInfoFile} {canonicalDownload : Bytes} {total : Nat} {files : Files}
  {details : FileDetails UInt8} {path : Text}

section Depth

def depth (details : FileDetails UInt8) : Nat := (resolvedPath details).length

/-- A file that lies at a path below the download directory. -/
structure LiesAt (canonicalDownload : Bytes) (path : Text) (details : FileDetails UInt8) : Prop where
  valid : validateRelativePath path = .ok ()
  torrentPath : details.torrentPath = String.ofList (forwardSlashes path)
  depth : depth details = (pathComponents (utf8 (fromUtf8Lossy canonicalDownload))).length + (path.splitOn '/').length

theorem liesAt_below {root : Text} (rooted : validateRelativePath root = .ok ()) (valid : validateRelativePath path = .ok ())
    (shown : details.torrentPath = String.ofList (forwardSlashes (root ++ '/' :: path))) (named : details.name =
      String.ofList (fromUtf8Lossy (joinPath (joinPath canonicalDownload (utf8 root)) (utf8 path)))) :
    LiesAt canonicalDownload (root ++ '/' :: path) details := by
  refine ⟨validateRelativePath_slash rooted valid, shown, ?_⟩
  rw [MetaInfoFile.depth, resolvedPath, FileDetails.path, named, String.toList_ofList, pathComponents_lossy valid,
    pathComponents_lossy rooted, splitOn_append_cons_self]
  simp only [length_append, length_map, Nat.add_assoc]

/-- Every file of a torrent lies at a path, which begins with the name of a torrent of several files. -/
theorem liesAt_of_listed (listed : file.localFilesToDownloadList canonicalDownload = .ok (total, files))
    (member : details ∈ files) : ∃ path, LiesAt canonicalDownload path details := by
  rcases localFilesToDownloadList_eq_ok listed with ⟨_, single⟩ | ⟨name, _, _, rooted, several⟩
  · obtain ⟨name, _, only, _, _, valid, _, rfl, shown, named, _⟩ := singleFile_inv single
    cases mem_singleton.mp member
    refine ⟨_, valid, shown, ?_⟩
    rw [MetaInfoFile.depth, resolvedPath, path, named, String.toList_ofList, pathComponents_lossy valid,
      length_append, length_map]
  · obtain ⟨_, _, _, found⟩ := (listed_of_listedFiles several).of_mem member
    obtain ⟨path, _, valid, shown, named, _⟩ := listedFile_inv found
    exact ⟨_, liesAt_below rooted valid shown named⟩

theorem length_splitOn_le (path : Text) : (path.splitOn '/').length ≤ ((forwardSlashes path).splitOn '/').length := by
  rw [splitOn_forwardSlashes, splitOn_separators, length_flatMap]
  have each := length_le_sum_of_one_le ((path.splitOn '/').map fun name => (name.splitOn '\\').length) ?_
  · rw [length_map] at each
    exact each
  · rw [forall_mem_map]
    intro name _
    exact length_pos_iff.mpr (splitOn_ne_nil _ _)

end Depth

section Layout

/-- The paths and lengths of the files that do not pad. -/
def layout (files : Files) : List (String × Nat) :=
  (files.filter fun details => !details.isPadFile).map fun details => (details.name, details.length)

theorem mem_layout {place : String × Nat} :
    place ∈ layout files ↔ ∃ details ∈ files, details.isPadFile = false ∧ (details.name, details.length) = place := by
  simp only [layout, mem_map, mem_filter, Bool.not_eq_true', and_assoc]

theorem layout_eq_nil (pads : ∀ details ∈ files, details.isPadFile = true) : layout files = [] := by
  rw [layout, map_eq_nil_iff, filter_eq_nil_iff]
  intro details member
  simp [pads details member]

/-- Files that all lie deeper than files of the original have none of its places. -/
theorem layout_perm_iff {original : Files}
    (deeper : ∀ details ∈ files, details.isPadFile = true ∨ ∃ source ∈ original,
      (source.isPadFile = true → details.isPadFile = true) ∧ depth source < depth details) :
    (layout files).Perm (layout original) ↔ ∀ source ∈ original, source.isPadFile = true := by
  constructor
  · intro same source member
    -- induction on the depth: a file in the place of `source` comes from a file that lies higher
    induction deep : depth source using Nat.strong_induction_on generalizing source with
    | h _ ih =>
      by_contra real
      have place : (source.name, source.length) ∈ layout files :=
        same.mem_iff.mpr (mem_layout.mpr ⟨source, member, Bool.eq_false_iff.mpr real, rfl⟩)
      obtain ⟨details, inside, unpadded, equal⟩ := mem_layout.mp place
      have level : depth details = depth source := by
        rw [depth, depth, resolvedPath, resolvedPath, path, path, (Prod.mk.inj equal).1]
      rcases deeper details inside with pad | ⟨higher, known, padding, above⟩
      · rw [pad] at unpadded
        cases unpadded
      · have pad := ih (depth higher) (by omega) higher known rfl
        rw [padding pad] at unpadded
        cases unpadded
  · intro pads
    have all : ∀ details ∈ files, details.isPadFile = true := by
      intro details member
      rcases deeper details member with pad | ⟨source, known, padding, _⟩
      · exact pad
      · exact padding (pads source known)
    rw [layout_eq_nil all, layout_eq_nil pads]

end Layout

end MetaInfoFile

section Lists

variable {α β : Type} {relation : α → β → Prop} {sources : List α} {images : List β}

theorem exists_source (related : Forall₂ relation sources images) {image : β} (member : image ∈ images) :
    ∃ source ∈ sources, relation source image := by
  induction related with
  | nil => cases member
  | @cons source other _ _ first _ ih =>
    rcases mem_cons.mp member with rfl | later
    · exact ⟨source, mem_cons_self, first⟩
    · obtain ⟨found, known, holds⟩ := ih later
      exact ⟨found, mem_cons_of_mem _ known, holds⟩

theorem forall₂_of_mapM {load : α → Result β} (loaded : sources.mapM load = .ok images) :
    Forall₂ (fun source image => load source = .ok image) sources images := by
  induction sources generalizing images with
  | nil =>
    cases loaded
    exact .nil
  | cons source sources ih =>
    rw [mapM_cons] at loaded
    obtain ⟨image, first, loaded⟩ := bind_eq_ok.mp loaded
    obtain ⟨rest, later, loaded⟩ := bind_eq_ok.mp loaded
    cases loaded
    exact .cons first (ih later)

end Lists

namespace TorrentUpgrader

variable {urlEncode : Text → Text} {digests : Digests} {disk : FileSystem}
  {torrentPath dataDir torrent bytes canonicalDownload : Bytes}
  {metainfo : MetaInfoFile} {filesData : List (Text × Bytes)} {target : TorrentExportFormat}
  {report : TorrentUpgradeReport} {total : Nat} {original : Files}
  {details : FileDetails UInt8} {file : Text × Bytes}

section Builder

theorem foldl_webSeed (seeds : List Text) (builder : TorrentBuilder) :
    (seeds.foldl .webSeed builder).name = builder.name ∧ (seeds.foldl .webSeed builder).files = builder.files ∧
      (seeds.foldl .webSeed builder).isMultiFile = builder.isMultiFile := by
  induction seeds generalizing builder with
  | nil => exact ⟨rfl, rfl, rfl⟩
  | cons seed seeds ih => exact ih (builder.webSeed seed)

theorem foldl_addFile (files : List (Text × Bytes)) (builder : TorrentBuilder) :
    (files.foldl (fun builder file => builder.addFile file.1 file.2) builder).name = builder.name ∧
      (files.foldl (fun builder file => builder.addFile file.1 file.2) builder).files =
        builder.files ++ files.map (fun file => (forwardSlashes file.1, file.2)) ∧
      (files.foldl (fun builder file => builder.addFile file.1 file.2) builder).isMultiFile = builder.isMultiFile := by
  induction files generalizing builder with
  | nil => exact ⟨rfl, (append_nil _).symm, rfl⟩
  | cons file files ih =>
    obtain ⟨name, added, several⟩ := ih (builder.addFile file.1 file.2)
    refine ⟨name, ?_, several⟩
    rw [foldl_cons, added, map_cons, TorrentBuilder.addFile, append_assoc, singleton_append]

theorem withSources_eq (builder : TorrentBuilder) :
    (withSources metainfo builder).name = builder.name ∧ (withSources metainfo builder).files = builder.files ∧
      (withSources metainfo builder).isMultiFile = builder.isMultiFile := by
  rw [withSources]
  obtain ⟨name, files, several⟩ := foldl_webSeed metainfo.getWebSeeds _
  rw [name, files, several]
  cases metainfo.getComment <;> cases metainfo.getTrackerUrls <;> cases metainfo.getTracker <;> exact ⟨rfl, rfl, rfl⟩

theorem upgradedBuilder_eq :
    (upgradedBuilder metainfo filesData target).name = upgradedName metainfo ∧
      (upgradedBuilder metainfo filesData target).files = filesData.map (fun file => (forwardSlashes file.1, file.2)) ∧
      (upgradedBuilder metainfo filesData target).isMultiFile = false := by
  rw [upgradedBuilder]
  obtain ⟨name, files, several⟩ := foldl_addFile filesData _
  rw [name, files, several]
  obtain ⟨name, files, several⟩ := @withSources_eq metainfo _
  rw [name, files, several]
  exact ⟨rfl, nil_append _, rfl⟩

theorem upgradedBuilder_single :
    (upgradedBuilder metainfo filesData target).isSingleFile = true ↔
      ∃ file, filesData = [file] ∧ '/' ∉ forwardSlashes file.1 := by
  obtain ⟨_, files, several⟩ := @upgradedBuilder_eq metainfo filesData target
  rw [isSingleFile, files, several]
  cases filesData with
  | nil => simp
  | cons file rest => cases rest <;> simp

end Builder

section Loading

theorem readContent_eq_ok (loaded : disk.readContent dataDir details = .ok file) :
    file.1 = details.torrentPath.toList ∧ disk.read (disk.contentPath dataDir details) = .ok file.2 := by
  rw [FileSystem.readContent] at loaded
  split at loaded
  case isTrue =>
    obtain ⟨data, read, loaded⟩ := bind_eq_ok.mp loaded
    cases loaded
    exact ⟨rfl, read⟩
  case isFalse => cases loaded

theorem upgradeFromFile_eq_ok (opened : disk.read torrentPath = .ok torrent)
    (parsed : parse digests (.fromBytes torrent) = .ok metainfo)
    (listed : disk.localFiles metainfo dataDir = .ok (total, original))
    (upgraded : upgradeFromFile urlEncode digests disk torrentPath dataDir target = .ok (bytes, report)) :
    ∃ filesData, Forall₂ (fun details file => disk.readContent dataDir details = .ok file) original filesData ∧
      (upgradedBuilder metainfo filesData target).build digests target = .ok bytes ∧
      ∃ written, parse digests (.fromBytes bytes) = .ok written := by
  rw [upgradeFromFile] at upgraded
  split at upgraded
  case h_1 => cases upgraded
  case h_2 found filesData loaded =>
    rw [loadContent, opened] at loaded
    obtain ⟨_, same, loaded⟩ := bind_eq_ok.mp loaded
    cases same
    obtain ⟨_, same, loaded⟩ := bind_eq_ok.mp loaded
    cases parsed.symm.trans same
    obtain ⟨⟨_, _⟩, same, loaded⟩ := bind_eq_ok.mp loaded
    cases listed.symm.trans same
    obtain ⟨content, read, loaded⟩ := bind_eq_ok.mp loaded
    cases loaded
    refine ⟨filesData, forall₂_of_mapM read, ?_⟩
    rw [upgradeMetainfo] at upgraded
    split at upgraded
    case isTrue => cases upgraded
    case isFalse =>
      dsimp only at upgraded
      split at upgraded
      case h_1 => cases upgraded
      case h_2 => cases upgraded
      case h_3 built =>
        split at upgraded
        case h_1 => cases upgraded
        case h_2 written done =>
          cases upgraded
          exact ⟨built, written, done⟩

end Loading

section Original

variable (listed : metainfo.localFilesToDownloadList canonicalDownload = .ok (total, original))
include listed

theorem upgradedName_eq : ∃ name, metainfo.get (text "name") = some name ∧ upgradedName metainfo = fromUtf8Lossy name ∧
    validateRelativePath (fromUtf8Lossy name) = .ok () := by
  obtain ⟨_, parsed, _⟩ := bind_eq_ok.mp listed
  have named : ∀ {name}, metainfo.get (text "name") = some name → upgradedName metainfo = fromUtf8Lossy name := by
    intro name known
    rw [upgradedName, getName, parsed, field_eq_ok.mpr known]
    rfl
  rcases localFilesToDownloadList_eq_ok listed with ⟨_, single⟩ | ⟨name, _, known, valid, _⟩
  · obtain ⟨name, _, _, known, _, valid, _⟩ := singleFile_inv single
    exact ⟨name, known, named known, valid⟩
  · exact ⟨name, known, named known, valid⟩

theorem alone_of_noSlash (member : details ∈ original) (noSlash : '/' ∉ details.torrentPath.toList) :
    details.torrentPath = String.ofList (forwardSlashes (upgradedName metainfo)) ∧
      details.name = String.ofList (fromUtf8Lossy (joinPath canonicalDownload (utf8 (upgradedName metainfo)))) := by
  obtain ⟨name, known, same, _⟩ := upgradedName_eq listed
  rw [same]
  rcases localFilesToDownloadList_eq_ok listed with ⟨_, single⟩ | ⟨_, _, _, _, several⟩
  · obtain ⟨_, _, _, again, _, _, _, rfl, shown, named, _⟩ := singleFile_inv single
    cases known.symm.trans again
    cases mem_singleton.mp member
    exact ⟨shown, named⟩
  · obtain ⟨_, _, _, found⟩ := (listed_of_listedFiles several).of_mem member
    obtain ⟨path, _, _, shown, _⟩ := listedFile_inv found
    rw [shown, String.toList_ofList, forwardSlashes_append] at noSlash
    exact absurd (mem_append_right _ mem_cons_self) noSlash

end Original

/-- The written torrent resolves to the files of the original, in any order, apart from pad files. -/
def KeepsLayout (digests : Digests) (disk : FileSystem) (dataDir bytes : Bytes) (original : Files) :
    Prop :=
  ∃ written total files, parse digests (.fromBytes bytes) = .ok written ∧
    disk.localFiles written dataDir = .ok (total, files) ∧ (layout files).Perm (layout original)

section Written

variable (listed : metainfo.localFilesToDownloadList canonicalDownload = .ok (total, original))
  (loaded : Forall₂ (fun details file => disk.readContent dataDir details = .ok file) original filesData)
include listed loaded

theorem liesAt_of_added (added : file ∈ (upgradedBuilder metainfo filesData target).files) :
    ∃ source ∈ original, ∃ path, LiesAt canonicalDownload path source ∧ file.1 = forwardSlashes path := by
  rw [upgradedBuilder_eq.2.1] at added
  obtain ⟨content, known, rfl⟩ := mem_map.mp added
  obtain ⟨source, member, read⟩ := exists_source loaded known
  obtain ⟨path, place⟩ := liesAt_of_listed listed member
  refine ⟨source, member, path, place, ?_⟩
  rw [(readContent_eq_ok read).1, place.torrentPath, String.toList_ofList, forwardSlashes_idem]

theorem added_valid : ∀ file ∈ (upgradedBuilder metainfo filesData target).files,
    validateRelativePath file.1 = .ok () := by
  intro file added
  obtain ⟨_, _, path, place, same⟩ := liesAt_of_added listed loaded added
  rw [same]
  exact validateRelativePath_forwardSlashes place.valid

/-- Below the name of the torrent every file lies deeper than the file that it comes from. -/
theorem written_deeper {declared : DeclaredFile}
    (shape : (∃ file ∈ (upgradedBuilder metainfo filesData target).files, declared.path = file.1) ∨
      ∃ length, declared.path = joinSlash (padFile length).segments)
    (faithful : FaithfulFile (upgradedName metainfo ++ ['/']) (joinPath canonicalDownload (utf8 (upgradedName metainfo)))
      declared details) :
    details.isPadFile = true ∨ ∃ source ∈ original,
      (source.isPadFile = true → details.isPadFile = true) ∧ depth source < depth details := by
  obtain ⟨name, _, same, rooted⟩ := upgradedName_eq listed
  rw [same] at faithful
  have shown := faithful.torrentPath
  rw [append_assoc, singleton_append] at shown
  have texts : details.torrentPath.toList =
      forwardSlashes (fromUtf8Lossy name) ++ '/' :: forwardSlashes declared.path := by
    rw [shown, String.toList_ofList, forwardSlashes_append]
    rfl
  rcases shape with ⟨file, added, path⟩ | ⟨length, path⟩
  · obtain ⟨source, member, original, place, slashed⟩ := liesAt_of_added listed loaded added
    have valid : validateRelativePath declared.path = .ok () := by
      rw [path]
      exact added_valid listed loaded file added
    have below := (liesAt_below rooted valid shown faithful.name).depth
    rw [path, slashed] at below texts
    rw [forwardSlashes_idem] at texts
    refine .inr ⟨source, member, ?_, ?_⟩
    · rw [isPadFile_iff, isPadFile_iff, texts, place.torrentPath, String.toList_ofList]
      exact fun padding => padding.below _
    · have longer := length_splitOn_le original
      have some : 0 < ((fromUtf8Lossy name).splitOn '/').length := length_pos_iff.mpr (splitOn_ne_nil _ _)
      rw [splitOn_append_cons_self, length_append] at below
      rw [below, place.depth]
      omega
  · rw [path] at texts
    refine .inl (isPadFile_iff.mpr ?_)
    rw [texts]
    exact (padding_padFile length).forwardSlashes.below _

omit loaded in
theorem layout_alone {source : FileDetails UInt8} (only : original = [source])
    (noSlash : '/' ∉ source.torrentPath.toList)
    (faithful : FaithfulFile [] canonicalDownload ⟨upgradedName metainfo, numeral file.2.length⟩ details) :
    (layout [details]).Perm (layout [source]) ↔ file.2.length = source.length := by
  obtain ⟨shown, named⟩ := alone_of_noSlash listed (only ▸ mem_singleton_self source) noSlash
  have path : details.torrentPath = source.torrentPath := by
    rw [shown, faithful.torrentPath, nil_append]
  have real : ∀ one : FileDetails UInt8, one.torrentPath = source.torrentPath → layout [one] = [(one.name, one.length)] := by
    intro one same
    have unpadded : one.isPadFile = false := by
      rw [Bool.eq_false_iff, Ne, isPadFile_iff, same]
      exact fun padding => noSlash padding.slash_mem
    rw [layout, filter_cons_of_pos (by rw [unpadded]; rfl), filter_nil, map_singleton]
  have length : details.length = file.2.length := size_numeral faithful.length
  rw [real details path, real source rfl, perm_singleton, singleton_inj, Prod.mk.injEq, faithful.name, named,
    length]
  exact and_iff_right rfl

end Written

/-- An upgrade keeps the files in their places exactly if there are none besides pad files, or it
writes v1 for a single file with one name and a content of the declared length. -/
theorem keepsLayout_iff (opened : disk.read torrentPath = .ok torrent)
    (parsed : parse digests (.fromBytes torrent) = .ok metainfo)
    (listed : disk.localFiles metainfo dataDir = .ok (total, original))
    (upgraded : upgradeFromFile urlEncode digests disk torrentPath dataDir target = .ok (bytes, report)) :
    KeepsLayout digests disk dataDir bytes original ↔
      (∀ details ∈ original, details.isPadFile = true) ∨
        target = .v1 ∧ ∃ details data, original = [details] ∧ '/' ∉ details.torrentPath.toList ∧
          disk.read (disk.contentPath dataDir details) = .ok data ∧ data.length = details.length := by
  obtain ⟨filesData, loaded, built, written, done⟩ := upgradeFromFile_eq_ok opened parsed listed upgraded
  obtain ⟨_, _, resolved⟩ := bind_eq_ok.mp listed
  obtain ⟨canonicalDownload, canonical, found⟩ := bind_eq_ok.mp resolved
  obtain ⟨named, files, _⟩ := @upgradedBuilder_eq metainfo filesData target
  obtain ⟨_, _, name, valid⟩ := upgradedName_eq found
  have some : (upgradedBuilder metainfo filesData target).files ≠ [] := by
    rw [files, Ne, map_eq_nil_iff, ← length_eq_zero_iff, ← loaded.length_eq, length_eq_zero_iff]
    exact localFiles_ne_nil found
  have added := @added_valid _ _ _ _ _ target _ _ found loaded
  obtain ⟨fileTree, layers, treeNamed, trees, rfl⟩ := exists_written built
  have fits := fits_of_built treeNamed done
  have back := readBack_of_parse treeNamed done
  obtain ⟨sum, details, resolved, listing⟩ := listing added treeNamed trees some fits back
    (by rw [named, name]; exact valid) canonicalDownload
  have there : disk.localFiles written dataDir = .ok (sum, details) := by
    rw [FileSystem.localFiles, canonical]
    exact bind_eq_ok.mpr ⟨(), (bind_eq_ok.mp resolved).choose_spec.1, resolved⟩
  have keeps : KeepsLayout digests disk dataDir
      (encode (.dictionary ((upgradedBuilder metainfo filesData target).writtenRoot digests fileTree layers target)))
      original ↔ (layout details).Perm (layout original) := by
    constructor
    · intro kept
      obtain ⟨again, _, _, same, shown, perm⟩ := kept
      cases done.symm.trans same
      cases there.symm.trans shown
      exact perm
    · intro perm
      exact ⟨written, sum, details, done, there, perm⟩
  rw [keeps]
  by_cases alone : target = .v1 ∧ (upgradedBuilder metainfo filesData target).isSingleFile = true
  · obtain ⟨rfl, single⟩ := alone
    rw [if_pos ⟨rfl, single⟩, if_pos ⟨rfl, single⟩, declaredFiles_single single, files, named] at listing
    obtain ⟨file, rfl, noSlash⟩ := upgradedBuilder_single.mp single
    cases loaded with
    | @cons source _ _ _ read rest =>
      cases rest
      obtain ⟨path, place⟩ := liesAt_of_listed found mem_cons_self
      obtain ⟨same, content⟩ := readContent_eq_ok read
      rw [same, place.torrentPath, String.toList_ofList, forwardSlashes_idem] at noSlash
      have flat : '/' ∉ source.torrentPath.toList := by
        rw [place.torrentPath, String.toList_ofList]
        exact noSlash
      cases listing with
      | cons one rest =>
        cases rest
        rw [layout_alone found rfl flat one.1]
        constructor
        · intro size
          exact .inr ⟨rfl, source, file.2, rfl, flat, content, size⟩
        · intro kept
          rcases kept with pads | ⟨_, other, data, only, _, again, size⟩
          · have padding := isPadFile_iff.mp (pads source mem_cons_self)
            exact absurd padding.slash_mem flat
          · cases only
            cases content.symm.trans again
            exact size
  · rw [if_neg alone, if_neg alone, named] at listing
    have deeper : ∀ one ∈ details, one.isPadFile = true ∨ ∃ source ∈ original,
        (source.isPadFile = true → one.isPadFile = true) ∧ depth source < depth one := by
      intro one member
      obtain ⟨declared, known, shown, _⟩ := exists_source listing member
      obtain ⟨path, length, rfl, _, shape⟩ :=
        declared_shape added treeNamed trees (info_fits fits) declared known
      refine @written_deeper _ _ _ _ _ target _ _ one found loaded _ ?_ shown
      rcases shape with real | pad | ⟨single, _⟩
      · exact .inl real
      · exact .inr pad
      · exact absurd single alone
    rw [layout_perm_iff deeper]
    refine (or_iff_left ?_).symm
    intro kept
    obtain ⟨plain, source, _, rfl, flat, _⟩ := kept
    refine alone ⟨plain, upgradedBuilder_single.mpr ?_⟩
    cases loaded with
    | @cons _ file _ _ read rest =>
      cases rest
      obtain ⟨path, place⟩ := liesAt_of_listed found mem_cons_self
      refine ⟨file, rfl, ?_⟩
      rw [place.torrentPath, String.toList_ofList] at flat
      rw [(readContent_eq_ok read).1, place.torrentPath, String.toList_ofList, forwardSlashes_idem]
      exact flat

/-- A disk with some files. -/
def diskOf (files : List (Bytes × Bytes)) : FileSystem where
  present path := (files.lookup path).isSome
  canonicalize := .ok
  read path :=
    match files.lookup path with
    | some data => .ok data
    | none => .error (.io "No such file or directory")

/-- A single file. -/
def lonelyDisk : FileSystem := diskOf
  [(ascii "t", ascii "d8:announce0:4:infod6:lengthi3e4:name1:a12:piece lengthi8e6:pieces20:01234567890123456789ee"),
    (ascii "/d/a", [1, 2, 3])]

/-- Two files in a directory. -/
def shelfDisk : FileSystem := diskOf
  [(ascii "t", ascii "d8:announce0:4:infod5:filesld6:lengthi2e4:pathl1:beed6:lengthi1e4:pathl1:ceee4:name1:r" ++
    ascii "12:piece lengthi8e6:pieces20:01234567890123456789ee"),
    (ascii "/d/r/b", [1, 2]), (ascii "/d/r/c", [3])]

/-- The files of a torrent on a disk. -/
def listedOn (disk : FileSystem) : Result (MetaInfoFile × Files) := do
  let torrent ← disk.read (ascii "t")
  let metainfo ← parse zero (.fromBytes torrent)
  let (_, files) ← disk.localFiles metainfo (ascii "/d")
  return (metainfo, files)

theorem listedOn_eq_ok (ran : listedOn disk = .ok (metainfo, original)) : ∃ torrent total,
    disk.read (ascii "t") = .ok torrent ∧ parse zero (.fromBytes torrent) = .ok metainfo ∧
      disk.localFiles metainfo (ascii "/d") = .ok (total, original) := by
  obtain ⟨torrent, opened, ran⟩ := bind_eq_ok.mp ran
  obtain ⟨_, parsed, ran⟩ := bind_eq_ok.mp ran
  obtain ⟨⟨total, _⟩, listed, ran⟩ := bind_eq_ok.mp ran
  cases ran
  exact ⟨torrent, total, opened, parsed, listed⟩

theorem lonelyDisk_listed : ((listedOn lonelyDisk).map fun listed =>
    listed.2.map fun details => (details.torrentPath, details.length, lonelyDisk.contentPath (ascii "/d") details)).toOption =
      some [("a", 3, ascii "/d/a")] := by
  decide +kernel

theorem lonelyDisk_upgraded : (match upgradeFromFile percentEncode zero lonelyDisk (ascii "t") (ascii "/d") .v1 with
    | .ok _ => true
    | _ => false) = true := by
  decide +kernel

theorem lonelyDisk_keepsLayout : ∃ original bytes report,
    upgradeFromFile percentEncode zero lonelyDisk (ascii "t") (ascii "/d") .v1 = .ok (bytes, report) ∧
      KeepsLayout zero lonelyDisk (ascii "/d") bytes original := by
  obtain ⟨⟨metainfo, original⟩, ran, shown⟩ := map_eq_ok.mp (eq_ok_of_toOption lonelyDisk_listed)
  obtain ⟨torrent, total, opened, parsed, listed⟩ := listedOn_eq_ok ran
  have upgraded := lonelyDisk_upgraded
  split at upgraded
  case h_1 result done =>
    refine ⟨original, result.1, result.2, done, (keepsLayout_iff opened parsed listed done).mpr (.inr ⟨rfl, ?_⟩)⟩
    obtain ⟨details, rfl, same⟩ := map_eq_singleton_iff.mp shown
    obtain ⟨path, length, content⟩ := Prod.mk.inj same |>.imp_right Prod.mk.inj
    refine ⟨details, [1, 2, 3], rfl, ?_, ?_, length.symm⟩
    · rw [path]
      decide
    · rw [content]
      rfl
  case h_2 => cases upgraded

theorem shelfDisk_layouts : (match upgradeFromFile percentEncode zero shelfDisk (ascii "t") (ascii "/d") .v2 with
    | .ok (bytes, _) => ((parse zero (.fromBytes bytes)).bind fun written =>
      (shelfDisk.localFiles written (ascii "/d")).map fun listed => layout listed.2).toOption
    | _ => none) = some [("/d/r/r/b", 2), ("/d/r/r/c", 1)] := by
  decide +kernel

theorem shelfDisk_listed : ((listedOn shelfDisk).map fun listed => (listed.1.isV2, layout listed.2)).toOption =
    some (false, [("/d/r/b", 2), ("/d/r/c", 1)]) := by
  decide +kernel

/-- The two files are looked for in a directory of the same name below their own. -/
theorem shelfDisk_moved : ∃ torrent metainfo total original bytes report,
    shelfDisk.read (ascii "t") = .ok torrent ∧ parse zero (.fromBytes torrent) = .ok metainfo ∧
      metainfo.isV2 = false ∧ shelfDisk.localFiles metainfo (ascii "/d") = .ok (total, original) ∧
      upgradeFromFile percentEncode zero shelfDisk (ascii "t") (ascii "/d") .v2 = .ok (bytes, report) ∧
      ¬KeepsLayout zero shelfDisk (ascii "/d") bytes original := by
  obtain ⟨⟨metainfo, original⟩, ran, shown⟩ := map_eq_ok.mp (eq_ok_of_toOption shelfDisk_listed)
  obtain ⟨torrent, total, opened, parsed, listed⟩ := listedOn_eq_ok ran
  obtain ⟨plain, places⟩ := Prod.mk.inj shown
  have written := shelfDisk_layouts
  split at written
  case h_1 bytes report done =>
    refine ⟨torrent, metainfo, total, original, bytes, report, opened, parsed, plain, listed, done, ?_⟩
    intro kept
    obtain ⟨again, sum, files, read, resolved, perm⟩ := kept
    rw [read] at written
    simp only [Except.bind, resolved, Except.map, toOption_ok, Option.some.injEq] at written
    rw [written, places] at perm
    revert perm
    decide
  case h_2 => cases written

end TorrentUpgrader

end BitTorrent
