import BitTorrent.Core.WrittenLimits

/-! # The file list of a hybrid torrent

Which files a context finds in an accepted torrent of `build_hybrid`: those of the builder with
their pad files, one after the other, and the pieces root that each of them gets.
-/

namespace BitTorrent

open Bencode MetaInfoFile FileRecord TorrentBuilder FileTreeNode
open List hiding Vector

namespace MetaInfoFile

section Torrent

variable {digests : Digests} {builder : TorrentBuilder} {file : MetaInfoFile} {fileTree : FileTreeNode}

/-- The records that the list of files leaves; a single file has no list. -/
def entryRecords (digests : Digests) (builder : TorrentBuilder) : List FileRecord :=
  if builder.isSingleFile then [] else (builder.v1Files digests).map ofEntry

/-- What can be looked up in an accepted torrent. -/
structure ReadBack (digests : Digests) (builder : TorrentBuilder) (leaves : List TreeFile)
    (file : MetaInfoFile) : Prop where
  parsed : file.parsed = true
  pieceLength : file.get (text "piece length") = some (decimal builder.pieceLength)
  number : ∀ index, file.get (numeral index) =
    ((entryRecords digests builder)[index]?.map fun record => utf8 record.entry).or
      ((leaves.map ofLeaf)[index]?.map fun record => utf8 record.entry)
  root : ∀ index, file.get (rootKey index) =
    ((entryRecords digests builder)[index]?.bind piecesRoot).or
      ((leaves.map ofLeaf)[index]?.bind piecesRoot)
  path : ∀ path, file.get (rootPathKey path) =
    (lastRoot path (entryRecords digests builder)).or (lastRoot path (leaves.map ofLeaf))
  length : builder.isSingleFile = true → file.get (text "length") =
    some (decimal (builder.files.headD ([], [])).2.length)
  noRoot : builder.isSingleFile = true → leaves = [] → file.get (text "pieces root") = none

theorem listRecords_written : listRecords (builder.writtenInfo digests fileTree .hybrid) = entryRecords digests builder := by
  rw [listRecords, dictGet_files, writtenItems, entryRecords]
  cases builder.isSingleFile with
  | true => rfl
  | false =>
    change ((builder.v1Files digests).map V1File.toBNode).map itemRecord = _
    rw [map_map]
    exact map_congr_left fun entry _ => itemRecord_toBNode entry

theorem leafRecords_written (named : fileTree.Named) (good : fileTree.toBNode.fits = true) :
    leafRecords (builder.writtenInfo digests fileTree .hybrid) = (fileTree.leaves []).map ofLeaf := by
  rw [leafRecords, dictGet_fileTree, if_neg (by decide), Option.elim_some, treeRecords,
    leavesOf_toBNode named, map_map]
  apply map_congr_left
  intro leaf member
  obtain ⟨file, known, rfl⟩ := mem_map.mp ((fileTree.leaves_perm_files []).mem_iff.mp member)
  have small := (fitting_of_fits named good file known).2
  exact congrArg ofLeaf (leafFile_writtenLeaf (small.trans (by decide)))

theorem readBack {layers : LayerMap} (named : fileTree.Named) (done : parse digests (fromBytes
      (encode (.dictionary (sortByKey (builder.rootEntries digests fileTree layers))))) = .ok file) :
    ReadBack digests builder (fileTree.leaves []) file := by
  have written : builder.writtenRoot digests fileTree layers .hybrid =
      sortByKey (builder.rootEntries digests fileTree layers) := by rw [writtenRoot]
  rw [← written] at done
  have back := readBack_of_parse named done
  have lists := @listRecords_written digests builder fileTree
  have info := info_fits (fits_of_built named done)
  have tree := @TorrentBuilder.dictGet_fileTree digests builder .hybrid fileTree
  have leaves := @leafRecords_written digests builder fileTree named
    (BNode.fits_of_dictGet info (tree.trans (if_neg (by decide))))
  constructor
  case parsed => exact back.read.parsed
  case pieceLength => exact back.pieceLength
  case number =>
    intro index
    rw [back.read.numbered, storedTexts, overlay_getElem?, filesTexts, treeTexts, lists, leaves, Option.map_or,
      getElem?_map, getElem?_map, Option.map_map, Option.map_map]
    rfl
  case root =>
    intro index
    rw [back.roots.number, lists, leaves]
  case path =>
    intro path
    rw [back.roots.path, lists, leaves]
  case length =>
    intro single
    rw [back.read.length, dictGet_length, if_pos ⟨by decide, single⟩]
    rfl
  case noRoot => exact fun _ _ => back.roots.single

end Torrent

section FileList

variable {file : MetaInfoFile} {rootName path tail : Text} {directory : Bytes} {length fileNo offset : Nat}
  {details : FileDetails UInt8} {entries : List (Text × Nat)}

theorem splitOn_entry (plain : PlainPath path) (length : Nat) (ending : tail = [] ∨ tail = ['\x00']) :
    ∃ rest, (rooted path ++ '\x00' :: (numeral length ++ tail)).splitOn '\x00' =
      rooted path :: numeral length :: rest := by
  have digitsOnly : '\x00' ∉ numeral length := not_mem_numeral (by decide)
  rw [splitOn_append_cons_self_of_not_mem plain.mem_rooted]
  rcases ending with rfl | rfl
  · exact ⟨[], by rw [append_nil, splitOn_eq_singleton digitsOnly]⟩
  · exact ⟨[[]], by rw [splitOn_append_cons_self_of_not_mem digitsOnly, splitOn_nil]⟩

theorem listedFile_eq_ok (plain : PlainPath path) (ending : tail = [] ∨ tail = ['\x00'])
    (done : file.listedFile rootName directory (rooted path ++ '\x00' :: (numeral length ++ tail)) fileNo offset =
      .ok details) :
    path ≠ [] ∧ details.length = length ∧ details.offset = offset ∧
      details.piecesRoot = file.lookupRoot [rootPathKey path, rootKey fileNo] := by
  obtain ⟨rest, parts⟩ := splitOn_entry plain length ending
  obtain ⟨trimmed, trim, valid, _, _, size, start, root⟩ := listedFile_inv done
  rw [parts, getElem?_cons_zero, Option.getD_some, plain.trimmed] at trim
  rw [parts, getElem?_cons_succ, getElem?_cons_zero, Option.getD_some] at size
  subst trim
  refine ⟨?_, parseNumber_decimal (parseNumber_eq_ok.mpr size), start, root⟩
  rintro rfl
  cases valid

/-- The details that belong to paths and lengths, from a file number and an offset on. -/
inductive Listing (file : MetaInfoFile) : Nat → Nat → List (Text × Nat) → Files → Prop
  | nil (fileNo offset : Nat) : Listing file fileNo offset [] []
  | cons {fileNo offset : Nat} {entry : Text × Nat} {entries : List (Text × Nat)} {details : FileDetails UInt8}
      {files : Files} (nonempty : entry.1 ≠ []) (length : details.length = entry.2)
      (offset_eq : details.offset = offset)
      (root : details.piecesRoot = file.lookupRoot [rootPathKey entry.1, rootKey fileNo])
      (rest : Listing file (fileNo + 1) (offset + entry.2) entries files) :
      Listing file fileNo offset (entry :: entries) (details :: files)

theorem listedFiles_listing {rounds total : Nat} {files : Files}
    (ending : tail = [] ∨ tail = ['\x00']) (plain : ∀ entry ∈ entries, PlainPath entry.1)
    (found : ∀ index, file.get (numeral (fileNo + index)) =
      entries[index]?.map fun entry => utf8 (rooted entry.1 ++ '\x00' :: (numeral entry.2 ++ tail)))
    (enough : entries.length < rounds) (small : offset + (entries.map Prod.snd).sum < u64Size)
    (done : file.listedFiles rootName directory rounds fileNo offset = .ok (total, files)) :
    Listing file fileNo offset entries files := by
  have run := listed_of_listedFiles done
  rw [@entriesFrom_eq _ _ _ (entries.map fun entry => rooted entry.1 ++ '\x00' :: (numeral entry.2 ++ tail))
    (fun index => by rw [found, getElem?_map, Option.map_map]; rfl) (by rwa [length_map])] at run
  clear found enough done
  induction entries generalizing fileNo offset files with
  | nil =>
    cases run
    exact .nil _ _
  | cons entry entries ih =>
    rw [map_cons, sum_cons] at small
    rw [forall_mem_cons] at plain
    cases run with
    | cons listed rest =>
      obtain ⟨nonempty, length, start, root⟩ := listedFile_eq_ok plain.1 ending listed
      rw [length, Nat.mod_eq_of_lt (by omega)] at rest
      exact .cons nonempty length start root (ih plain.2 (by omega) rest)

/-- The search for the file of an offset ends at the entry in which it lies. -/
theorem Listing.find {files : Files}
    (listing : Listing file fileNo offset entries files) {index globalOffset : Nat} {entry : Text × Nat}
    (known : entries[index]? = some entry) (lower : offset + ((entries.take index).map Prod.snd).sum ≤ globalOffset)
    (upper : globalOffset < offset + ((entries.take index).map Prod.snd).sum + entry.2) :
    ∃ details, (files.zipIdx fileNo).find? (fun item => item.1.spans globalOffset) =
        some (details, fileNo + index) ∧
      entry.1 ≠ [] ∧ details.length = entry.2 ∧
      details.offset = offset + ((entries.take index).map Prod.snd).sum ∧
      details.piecesRoot = file.lookupRoot [rootPathKey entry.1, rootKey (fileNo + index)] := by
  induction listing generalizing index with
  | nil => cases known
  | @cons fileNo offset head entries details files nonempty length start root rest ih =>
    rw [zipIdx_cons]
    cases index with
    | zero =>
      cases known
      refine ⟨details, ?_, nonempty, length, start, root⟩
      rw [find?_cons_of_pos]
      · rfl
      · rw [FileDetails.spans_iff, start, length]
        exact ⟨lower, upper⟩
    | succ index =>
      have number : fileNo + (index + 1) = fileNo + 1 + index := by omega
      rw [take_succ_cons, map_cons, sum_cons, ← Nat.add_assoc] at lower upper
      rw [take_succ_cons, map_cons, sum_cons, ← Nat.add_assoc offset, number, find?_cons_of_neg]
      · exact ih known lower upper
      · rw [FileDetails.spans_iff, start, length]
        omega

variable {canonicalDownload : Bytes} {total : Nat} {files : Files}

theorem singleFile_eq_ok (size : file.get (text "length") = some (decimal length))
    (noRoot : file.get (text "pieces root") = none) (noPath : ∀ path, file.get (rootPathKey path) = none)
    (noNumber : file.get (rootKey 0) = none) (listed : file.singleFile canonicalDownload = .ok (total, files)) :
    ∃ details, files = [details] ∧ details.length = length ∧ details.offset = 0 ∧ details.piecesRoot = none := by
  obtain ⟨_, _, details, _, sized, _, parsed, rfl, _, _, length, start, root⟩ := singleFile_inv listed
  cases size.symm.trans sized
  rw [decimal, fromUtf8Lossy_utf8] at parsed
  cases parseNumber_decimal (parseNumber_eq_ok.mpr parsed)
  refine ⟨details, rfl, length, start, ?_⟩
  have number : text "pieces_root_0" = rootKey 0 := rfl
  rw [root, number, lookupRoot, findSome?_cons, noRoot, findSome?_cons, noPath, findSome?_cons, noNumber]
  rfl

end FileList

end MetaInfoFile

namespace TorrentBuilder

section Layout

variable {digests : Digests} {builder : TorrentBuilder} {entry : V1File} {path : Text}

/-- The parser cuts the entries that it keeps of files at zero characters. -/
def NulFree (builder : TorrentBuilder) : Prop := ∀ file ∈ builder.files, '\x00' ∉ file.1

theorem plain_pathSegments (slashed : '\\' ∉ path) (nulFree : '\x00' ∉ path) :
    ∀ segment ∈ pathSegments path, PlainSegment segment := by
  intro segment member
  obtain ⟨piece, nonempty⟩ := mem_filter.mp member
  refine ⟨of_decide_eq_true nonempty, ?_⟩
  intro letter inside
  obtain ⟨known, noSlash⟩ := mem_of_mem_splitOn piece inside
  exact ⟨noSlash, fun same => slashed (same ▸ known), fun same => nulFree (same ▸ known)⟩

theorem plain_padFile (length : Nat) : ∀ segment ∈ (padFile length).segments, PlainSegment segment := by
  intro segment member
  rcases mem_cons.mp member with rfl | number
  · exact ⟨by decide, by simp [text]⟩
  · cases mem_singleton.mp number
    refine ⟨numeral_ne_nil length, ?_⟩
    intro letter inside
    have other {mark : Char} (outside : ¬(48 ≤ mark.toNat ∧ mark.toNat ≤ 57)) : letter ≠ mark :=
      ne_of_mem_of_not_mem inside (not_mem_numeral outside)
    exact ⟨other (by decide), other (by decide), other (by decide)⟩

theorem plain_v1Files (nulFree : builder.NulFree) (member : entry ∈ builder.v1Files digests) :
    ∀ segment ∈ entry.segments, PlainSegment segment := by
  obtain ⟨file, known, rfl | ⟨_, rfl⟩⟩ := mem_v1Files member
  · exact plain_pathSegments (builder.slashed file known) (nulFree file known)
  · exact plain_padFile _

/-- The pieces root of the last file with a path. -/
def rootUnder (digests : Digests) (files : List (Text × Bytes)) (path : Text) : Option (Hash UInt8) :=
  files.reverse.findSome? fun file =>
    if joinSlash (pathSegments file.1) = path then some (fileRoot digests file.2) else none

/-- The pieces root that the file list gives to an entry.  A pad file has none of its own and may
get that of the file with its number in the file tree. -/
def assignedRoot (digests : Digests) (builder : TorrentBuilder) (leaves : List TreeFile) (index : Nat)
    (entry : V1File) : Option (Hash UInt8) :=
  if entry.segments = [] then none
  else (rootUnder digests builder.files (joinSlash entry.segments)).or
    (leaves[index]?.bind fun leaf => toHash leaf.2.2)

theorem lastRoot_append (path : Text) (left right : List FileRecord) :
    lastRoot path (left ++ right) = (lastRoot path right).or (lastRoot path left) := by
  rw [lastRoot, reverse_append, findSome?_append]
  rfl

theorem lastRoot_singleton (path : Text) (record : FileRecord) :
    lastRoot path [record] = if normalPath record.path = normalPath path then record.piecesRoot else none := by
  rw [lastRoot, reverse_singleton, findSome?_singleton]

theorem lastRoot_v1Entries (file : Text × Bytes) (path : Text) :
    lastRoot path ((v1Entries digests builder file).map ofEntry) =
      if normalPath (joinSlash (pathSegments file.1)) = normalPath path then
        some (fileRoot digests file.2).toList
      else none := by
  have pad : lastRoot path ((if 0 < builder.padLength file.2 then [padFile (builder.padLength file.2)]
      else []).map ofEntry) = none := by
    split
    case isTrue =>
      rw [map_singleton, lastRoot_singleton]
      exact ite_self _
    case isFalse => rfl
  rw [v1Entries, map_cons, ← singleton_append, lastRoot_append, pad, Option.none_or, lastRoot_singleton]
  rfl

theorem rootUnder_cons (file : Text × Bytes) (files : List (Text × Bytes)) (path : Text) :
    rootUnder digests (file :: files) path = (rootUnder digests files path).or
      (if joinSlash (pathSegments file.1) = path then some (fileRoot digests file.2) else none) := by
  rw [rootUnder, reverse_cons, findSome?_append, findSome?_singleton]
  rfl

variable {files : List (Text × Bytes)}

theorem rootUnder_eq_none (missing : rootUnder digests files path = none)
    {file : Text × Bytes} (member : file ∈ files) : joinSlash (pathSegments file.1) ≠ path := by
  intro same
  have absent := findSome?_eq_none_iff.mp missing file (mem_reverse.mpr member)
  rw [if_pos same] at absent
  cases absent

section

variable (plain : normalPath path = path)
  (normal : ∀ file ∈ files, normalPath (joinSlash (pathSegments file.1)) = joinSlash (pathSegments file.1))
include plain normal

theorem lastRoot_v1Files :
    lastRoot path ((files.flatMap (v1Entries digests builder)).map ofEntry) =
      (rootUnder digests files path).map List.Vector.toList := by
  induction files with
  | nil => rfl
  | cons file files ih =>
    rw [flatMap_cons, map_append, lastRoot_append, lastRoot_v1Entries, rootUnder_cons, Option.map_or,
      ih fun other member => normal other (mem_cons_of_mem _ member), plain,
      normal file mem_cons_self]
    congr 1
    split
    case isTrue => rfl
    case isFalse => rfl

theorem lastRoot_leaves {leaves : List TreeFile}  (within : ∀ leaf ∈ leaves, ∃ file ∈ files, leaf = leafOf digests file)
    (missing : rootUnder digests files path = none) : lastRoot path (leaves.map ofLeaf) = none := by
  rw [lastRoot, findSome?_eq_none_iff]
  intro record member
  obtain ⟨leaf, known, rfl⟩ := mem_map.mp (mem_reverse.mp member)
  obtain ⟨file, added, rfl⟩ := within leaf known
  have other := rootUnder_eq_none missing added
  rw [plain, ofLeaf, leafOf, normal file added, if_neg other]

end

def shown (entry : V1File) : Text × Nat := (joinSlash entry.segments, entry.content.length)

/-- Where an entry of the v1 list starts in the stream. -/
def startOf (digests : Digests) (builder : TorrentBuilder) (index : Nat) : Nat :=
  (((builder.v1Files digests).take index).map fun entry => entry.content.length).sum

/-- The search for the file of an offset ends at an entry of the v1 list. -/
def Finds (digests : Digests) (builder : TorrentBuilder) (leaves : List TreeFile) (files : Files)
    (globalOffset index : Nat) (entry : V1File) : Prop :=
  ∃ details, files.zipIdx.find? (fun item => item.1.spans globalOffset) = some (details, index) ∧
    details.length = entry.content.length ∧ details.offset = startOf digests builder index ∧
    details.piecesRoot = assignedRoot digests builder leaves index entry

section Roots

variable {leaves : List TreeFile} {file : MetaInfoFile} {files : Files} {index globalOffset : Nat}
  (nulFree : builder.NulFree) (read : file.ReadBack digests builder leaves)
  (within : ∀ leaf ∈ leaves, ∃ added ∈ builder.files, leaf = leafOf digests added)
  (whole : builder.isSingleFile = true → leaves = builder.files.map (leafOf digests))
include nulFree read within whole

theorem get_rootPathKey (plain : normalPath path = path) :
    file.get (rootPathKey path) = (rootUnder digests builder.files path).map List.Vector.toList := by
  have normal : ∀ added ∈ builder.files,
      normalPath (joinSlash (pathSegments added.1)) = joinSlash (pathSegments added.1) := by
    intro added member
    exact (plainPath_joinSlash (plain_pathSegments (builder.slashed added member) (nulFree added member))).normalPath
  rw [read.path, entryRecords]
  split
  case isTrue single =>
    obtain ⟨added, shape⟩ := isSingleFile_files single
    have same := normal added (by simp [shape])
    rw [whole single, shape, map_singleton, map_singleton, lastRoot_singleton, rootUnder_cons,
      ofLeaf, leafOf, same, plain]
    split
    case isTrue => rfl
    case isFalse => rfl
  case isFalse =>
    rw [v1Files, lastRoot_v1Files plain normal]
    cases found : rootUnder digests builder.files path with
    | some root => rfl
    | none => rw [lastRoot_leaves plain normal within found]; rfl

theorem lookupRoot_eq (known : (builder.v1Files digests)[index]? = some entry) (nonempty : entry.segments ≠ []) :
    file.lookupRoot [rootPathKey (joinSlash entry.segments), rootKey index] =
      assignedRoot digests builder leaves index entry := by
  have member := mem_of_getElem? known
  have plain := plainPath_joinSlash (plain_v1Files nulFree member)
  have byPath := get_rootPathKey nulFree read within whole plain.normalPath
  rw [lookupRoot, findSome?_cons, byPath, assignedRoot, if_neg nonempty]
  cases found : rootUnder digests builder.files (joinSlash entry.segments) with
  | some root => exact toHash_toList root
  | none =>
    obtain ⟨added, listed, rfl | ⟨positive, rfl⟩⟩ := mem_v1Files member
    · exact absurd rfl (rootUnder_eq_none found listed)
    · have padded : builder.isSingleFile = false := by
        cases single : builder.isSingleFile with
        | false => rfl
        | true => simp [padLength, single] at positive
      rw [Option.map_none, Option.none_or, findSome?_singleton, read.root, entryRecords, padded,
        if_neg Bool.false_ne_true, getElem?_map, known, getElem?_map, Option.bind_map]
      cases leaves[index]? with
      | none => rfl
      | some leaf => rfl

theorem listing_find (listing : file.Listing 0 0 ((builder.v1Files digests).map shown) files)
    (known : (builder.v1Files digests)[index]? = some entry) (lower : startOf digests builder index ≤ globalOffset)
    (upper : globalOffset < startOf digests builder index + entry.content.length) :
    Finds digests builder leaves files globalOffset index entry := by
  have start : 0 + ((((builder.v1Files digests).map shown).take index).map Prod.snd).sum =
      startOf digests builder index := by
    rw [Nat.zero_add, ← map_take, map_map]
    rfl
  have shownKnown : ((builder.v1Files digests).map shown)[index]? = some (shown entry) := by
    rw [getElem?_map, known]
    rfl
  obtain ⟨details, search, nonempty, length, offset, root⟩ :=
    listing.find shownKnown (start.symm ▸ lower) (start.symm ▸ upper)
  have named : entry.segments ≠ [] := by
    intro empty
    apply nonempty
    rw [shown, empty]
    rfl
  rw [Nat.zero_add] at search root
  refine ⟨details, search, length, offset.trans start, ?_⟩
  rw [root]
  exact lookupRoot_eq nulFree read within whole known named

end Roots

section Torrent

variable {leaves : List TreeFile} {file : MetaInfoFile} {canonicalDownload : Bytes} {total : Nat}
  {files : Files} {added : Text × Bytes}

theorem alignedStream_length (digests : Digests) (builder : TorrentBuilder) :
    (builder.alignedStream digests).length = ((builder.v1Files digests).map fun entry => entry.content.length).sum := by
  rw [alignedStream, length_flatMap]

theorem fieldsOf_entry (plain : ∀ segment ∈ entry.segments, PlainSegment segment) :
    (fieldsOf entry).entry =
      rooted (shown entry).1 ++ '\x00' :: (numeral (shown entry).2 ++ ['\x00']) := by
  rw [FileFields.entry, fieldsOf, flatMap_segments plain, append_assoc]
  rfl

section

variable (nulFree : builder.NulFree)
include nulFree

theorem get_number_padded (read : file.ReadBack digests builder leaves)
    (few : leaves.length ≤ builder.files.length) (padded : builder.isSingleFile = false) (index : Nat) :
    file.get (numeral index) = ((builder.v1Files digests).map shown)[index]?.map fun entry =>
      utf8 (rooted entry.1 ++ '\x00' :: (numeral entry.2 ++ ['\x00'])) := by
  rw [read.number, entryRecords, padded, if_neg Bool.false_ne_true, getElem?_map,
    getElem?_map, getElem?_map]
  cases known : (builder.v1Files digests)[index]? with
  | some entry =>
    have plain := plain_v1Files nulFree (mem_of_getElem? known)
    simp only [Option.map_some, Option.some_or, ofEntry, fieldsOf_entry plain]
  | none =>
    have beyond := getElem?_eq_none_iff.mp known
    have enough := length_le_v1Files digests builder
    rw [getElem?_eq_none (by omega)]
    rfl

theorem listing_of_numbers {tail : Text}
    (small : (builder.alignedStream digests).length < 2 ^ 63) (nonempty : builder.files ≠ [])
    (ending : tail = [] ∨ tail = ['\x00'])
    (numbers : ∀ index, file.get (numeral index) = ((builder.v1Files digests).map shown)[index]?.map fun entry =>
      utf8 (rooted entry.1 ++ '\x00' :: (numeral entry.2 ++ tail)))
    (listed : file.localFilesToDownloadList canonicalDownload = .ok (total, files)) :
    file.Listing 0 0 ((builder.v1Files digests).map shown) files := by
  have present {index : Nat} (inside : index < ((builder.v1Files digests).map shown).length) :
      file.get (numeral index) ≠ none := by
    rw [numbers, getElem?_eq_getElem inside]
    exact Option.some_ne_none _
  have enough := length_le_v1Files digests builder
  have positive := length_pos_iff.mpr nonempty
  rcases localFilesToDownloadList_eq_ok listed with ⟨absent, _⟩ | ⟨_, _, _, _, loop⟩
  · exact absurd absent (@present 0 (by rw [length_map]; omega))
  apply listedFiles_listing ending _ _ _ _ loop
  · intro entry member
    obtain ⟨known, inside, rfl⟩ := mem_map.mp member
    exact plainPath_joinSlash (plain_v1Files nulFree inside)
  · intro index
    rw [Nat.zero_add, numbers]
  · exact Nat.lt_succ_of_le (numbered_le fun index inside => present inside)
  · rw [alignedStream_length] at small
    rw [map_map, Nat.zero_add]
    exact small.trans (by decide)

theorem get_number_single
    (read : file.ReadBack digests builder [leafOf digests added]) (single : builder.isSingleFile = true)
    (shape : builder.files = [added]) (named : pathSegments added.1 ≠ []) (index : Nat) :
    file.get (numeral index) = ((builder.v1Files digests).map shown)[index]?.map fun entry =>
      utf8 (rooted entry.1 ++ '\x00' :: (numeral entry.2 ++ [])) := by
  have member : added ∈ builder.files := by simp [shape]
  have plain := plain_pathSegments (builder.slashed added member) (nulFree added member)
  rw [read.number, entryRecords, if_pos single, v1Files_single single shape]
  cases index with
  | zero => simp [ofLeaf, leafOf, shown, realEntry, rooted, joinSlash_ne_nil plain named]
  | succ index => rfl

/-- The files of the file tree in the order in which it is written. -/
def treeLeaves (digests : Digests) (builder : TorrentBuilder) : List TreeFile :=
  match builder.buildV2FileTreeAndLayers digests with
  | .ok (fileTree, _) => fileTree.leaves []
  | _ => []

end

theorem find_unnamed (read : file.ReadBack digests builder [])
    (single : builder.isSingleFile = true) (shape : builder.files = [added]) (unnamed : pathSegments added.1 = [])
    (listed : file.localFilesToDownloadList canonicalDownload = .ok (total, files))
    (known : (builder.v1Files digests)[index]? = some entry)
    (upper : globalOffset < startOf digests builder index + entry.content.length) :
    Finds digests builder [] files globalOffset index entry := by
  have records : entryRecords digests builder = [] := if_pos single
  have missing : file.get (numeral 0) = none := by rw [read.number, records]; rfl
  have size := read.length single
  rw [shape, headD_cons] at size
  obtain ⟨details, rfl, length, offset, root⟩ := singleFile_eq_ok size (read.noRoot single rfl)
    (by intro path; rw [read.path, records]; rfl) (by rw [read.root, records]; rfl)
    ((localFilesToDownloadList_eq_ok listed).resolve_right fun ⟨_, present, _⟩ =>
      Option.isSome_iff_ne_none.mp present missing).2
  rw [v1Files_single single shape] at known
  cases index with
  | succ index => cases known
  | zero =>
    cases known
    have start : startOf digests builder 0 = 0 := rfl
    rw [start, Nat.zero_add] at upper
    refine ⟨details, ?_, length, offset, ?_⟩
    · have spans : details.spans globalOffset = true := by
        rw [FileDetails.spans_iff, length, offset, Nat.zero_add]
        exact ⟨Nat.zero_le _, upper⟩
      rw [zipIdx_singleton, find?_singleton, spans]
      rfl
    · rw [root, assignedRoot, realEntry, if_pos unnamed]

theorem getPieceLength_eq {pieceLength : Nat} (built : builder.buildHybrid digests = .ok bytes)
    (parsed : parse digests (.fromBytes bytes) = .ok file)
    (found : file.getPieceLength = .ok pieceLength) : pieceLength = builder.pieceLength := by
  obtain ⟨_, _, fileTree, layers, tree, rfl⟩ := buildHybrid_eq_ok built
  have read := readBack (addAllToTree_named named_empty tree) parsed
  rw [getPieceLength, bind_eq_ok] at found
  obtain ⟨_, _, found⟩ := found
  rw [bind_eq_ok] at found
  obtain ⟨value, known, found⟩ := found
  rw [field, read.pieceLength] at known
  cases known
  rw [decimal, fromUtf8Lossy_utf8] at found
  exact parseNumber_decimal found

theorem exists_entry {entries : List V1File}
    (inside : globalOffset < (entries.map fun entry => entry.content.length).sum) :
    ∃ index entry, entries[index]? = some entry ∧
      ((entries.take index).map fun entry => entry.content.length).sum ≤ globalOffset ∧
      globalOffset < ((entries.take index).map fun entry => entry.content.length).sum + entry.content.length := by
  induction entries generalizing globalOffset with
  | nil => cases inside
  | cons first entries ih =>
    rw [map_cons, sum_cons] at inside
    by_cases here : globalOffset < first.content.length
    · exact ⟨0, first, rfl, Nat.zero_le _, by simpa using here⟩
    · obtain ⟨index, entry, known, lower, upper⟩ := @ih (globalOffset - first.content.length) (by omega)
      refine ⟨index + 1, entry, known, ?_⟩
      rw [take_succ_cons, map_cons, sum_cons]
      omega

theorem startOf_add_le (known : (builder.v1Files digests)[index]? = some entry) :
    startOf digests builder index + entry.content.length ≤ (builder.alignedStream digests).length := by
  have ended := ((take_sublist (index + 1) (builder.v1Files digests)).map fun entry => entry.content.length).sum_le_sum
    fun _ _ => Nat.zero_le _
  rw [take_add_one, known, map_append, sum_append] at ended
  rw [alignedStream_length]
  exact ended

/-- The search for the file of an offset of the stream, in the file list of an accepted torrent. -/
theorem find_entry (nulFree : builder.NulFree) (built : builder.buildHybrid digests = .ok bytes)
    (parsed : parse digests (.fromBytes bytes) = .ok file)
    (listed : file.localFilesToDownloadList canonicalDownload = .ok (total, files))
    (known : (builder.v1Files digests)[index]? = some entry) (lower : startOf digests builder index ≤ globalOffset)
    (upper : globalOffset < startOf digests builder index + entry.content.length) :
    Finds digests builder (treeLeaves digests builder) files globalOffset index entry := by
  obtain ⟨valid, small, fileTree, layers, tree, rfl⟩ := buildHybrid_eq_ok built
  obtain ⟨_, _, nonempty⟩ := validatePieceLength_eq_ok valid
  have read := readBack (addAllToTree_named named_empty tree) parsed
  obtain ⟨few, within⟩ := leaves_of_built tree
  have leaves : treeLeaves digests builder = fileTree.leaves [] := by rw [treeLeaves, tree]
  rw [leaves]
  cases single : builder.isSingleFile with
  | false =>
    apply listing_find nulFree read within (by rw [single]; exact fun absurd => nomatch absurd) _ known lower upper
    exact listing_of_numbers nulFree small nonempty (.inr rfl) (get_number_padded nulFree read few single) listed
  | true =>
    obtain ⟨added, shape⟩ := isSingleFile_files single
    rw [buildV2FileTreeAndLayers, shape] at tree
    have whole := addAllToTree_singleton tree
    by_cases named : pathSegments added.1 = []
    · rw [if_pos named] at whole
      rw [whole] at read ⊢
      exact find_unnamed read single shape named listed known upper
    · rw [if_neg named] at whole
      rw [whole] at read within ⊢
      apply listing_find nulFree read within (by rw [shape]; exact fun _ => rfl) _ known lower upper
      exact listing_of_numbers nulFree small nonempty (.inl rfl)
        (get_number_single nulFree read single shape named) listed

end Torrent

end Layout

end TorrentBuilder

end BitTorrent
