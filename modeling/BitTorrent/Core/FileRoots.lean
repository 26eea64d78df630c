import BitTorrent.Core.FileListFidelity

/-! # The pieces roots of the listed files

Under which keys the pieces roots of an `info` dictionary are kept, and which of them the list of
the files to download gives to a file.
-/

namespace BitTorrent

open Bencode List

section Records

variable {records : List FileRecord} {path : Text} {root : Bytes}

theorem lastRoot_eq_some {record : FileRecord} (member : record ∈ records)
    (here : normalPath record.path = normalPath path) (rooted : record.piecesRoot = some root)
    (only : ∀ other ∈ records, normalPath other.path = normalPath path → ∀ found, other.piecesRoot = some found →
      found = root) : lastRoot path records = some root := by
  rw [lastRoot]
  cases search : records.reverse.findSome? fun record =>
      if normalPath record.path = normalPath path then record.piecesRoot else none with
  | none =>
    have absent := findSome?_eq_none_iff.mp search record (mem_reverse.mpr member)
    rw [if_pos here, rooted] at absent
    cases absent
  | some found =>
    obtain ⟨other, known, hit⟩ := exists_of_findSome?_eq_some search
    obtain ⟨same, hit⟩ := Option.ite_none_right_eq_some.mp hit
    rw [only other (mem_reverse.mp known) same found hit]

theorem lastRoot_eq_none (unrooted : ∀ record ∈ records, record.piecesRoot = none) : lastRoot path records = none := by
  rw [lastRoot, findSome?_eq_none_iff]
  intro record member
  rw [unrooted record (mem_reverse.mp member), ite_self]

end Records

namespace MetaInfoFile

variable {file : MetaInfoFile} {info : Entries}

section Reading

/-- The pieces roots that are found after an `info` dictionary has been read. -/
structure ReadRoots (file : MetaInfoFile) (info : Entries) : Prop where
  path : ∀ path, file.get (rootPathKey path) = (lastRoot path (listRecords info)).or (lastRoot path (leafRecords info))
  number : ∀ index, file.get (rootKey index) =
    ((listRecords info)[index]?.bind FileRecord.piecesRoot).or ((leafRecords info)[index]?.bind FileRecord.piecesRoot)
  single : file.get (text "pieces root") = none

theorem get_foldl_other {key : Text} (other : ¬FileKey key) (unread : ∀ field ∈ infoFields, key ≠ fromUtf8Lossy field) :
    (info.foldl applyEntry file).get key = file.get key := by
  induction info generalizing file with
  | nil => rfl
  | cons entry info ih => rw [foldl_cons, ih, get_applyEntry_other other (unread _)]

theorem readRoots_of_applies {start : MetaInfoFile} (typed : TypedInfo info)
    (blank : ∀ name, name ∉ rootNames → start.get name = none)
    (same : ∀ key, key ∉ rootNames → key ∉ hashNames → file.get key = (info.foldl applyEntry start).get key) :
    ReadRoots file info := by
  have keyed : ∀ {key}, FileKey key → start.get key = none ∧
      file.get key = ((start.addRecords (leafRecords info)).addRecords (listRecords info)).get key := by
    intro key fileKey
    have notRoot : key ∉ rootNames := fileKey.not_mem (by decide) (by decide)
    refine ⟨blank key notRoot, ?_⟩
    rw [same key notRoot (fileKey.not_mem (by decide) (by decide)), get_foldl_fileKey typed.distinct typed.treeFirst fileKey]
  refine ⟨?_, ?_, ?_⟩
  · intro path
    obtain ⟨empty, found⟩ := keyed (.path path)
    rw [found, get_addRecords_path, get_addRecords_path, empty, Option.or_none]
  · intro index
    obtain ⟨empty, found⟩ := keyed (.root index)
    rw [found, get_addRecords_root, get_addRecords_root, empty, Option.or_none]
  · have notFile : ¬FileKey (text "pieces root") := fun fileKey =>
      @FileKey.not_mem [text "pieces root"] _ fileKey (by decide) (by decide) (mem_singleton_self _)
    rw [same _ (by decide) (by decide), get_foldl_other notFile (by decide +kernel)]
    exact blank _ (by decide)

/-- The keys under which the root of a file is looked up. -/
inductive RootKeys (path : Text) : List Text → Prop
  | listed (fileNo : Nat) : RootKeys path [rootPathKey path, rootKey fileNo]
  | single : RootKeys path [text "pieces root", rootPathKey path, text "pieces_root_0"]

theorem ReadRoots.lookupRoot_eq (read : ReadRoots file info) {path : Text} {root : Hash UInt8} {keys : List Text}
    (found : (lastRoot path (listRecords info)).or (lastRoot path (leafRecords info)) = some root.toList)
    (asked : RootKeys path keys) : file.lookupRoot keys = some root := by
  cases asked with
  | listed fileNo =>
    rw [lookupRoot, findSome?_cons, read.path, found]
    exact toHash_toList root
  | single =>
    rw [lookupRoot, findSome?_cons, read.single, findSome?_cons, read.path, found]
    exact toHash_toList root

theorem ReadRoots.lookupRoot_none (read : ReadRoots file info)
    (list : ∀ record ∈ listRecords info, record.piecesRoot = none)
    (tree : ∀ record ∈ leafRecords info, record.piecesRoot = none) {path : Text} {keys : List Text}
    (asked : RootKeys path keys) : file.lookupRoot keys = none := by
  have byPath : file.get (rootPathKey path) = none := by
    rw [read.path, lastRoot_eq_none list, lastRoot_eq_none tree]
    rfl
  have byNumber : ∀ index, file.get (rootKey index) = none := by
    intro index
    have absent : ∀ {records : List FileRecord}, (∀ record ∈ records, record.piecesRoot = none) →
        records[index]?.bind FileRecord.piecesRoot = none := by
      intro records each
      rw [Option.bind_eq_none_iff]
      intro record known
      exact each record (mem_of_getElem? known)
    rw [read.number, absent list, absent tree]
    rfl
  cases asked with
  | listed fileNo =>
    rw [lookupRoot, findSome?_cons, byPath, findSome?_cons, byNumber]
    rfl
  | single =>
    have number : text "pieces_root_0" = rootKey 0 := rfl
    rw [lookupRoot, findSome?_cons, read.single, findSome?_cons, byPath, number, findSome?_cons, byNumber]
    rfl

end Reading

section Listing

variable {rootName : Text} {directory : Bytes} {fileNo offset total : Nat} {details : FileDetails UInt8}
  {files : Files}

theorem listedFile_root {entry : Text} {declared : DeclaredFile} (stores : Stores entry declared)
    (representable : declared.Representable)
    (listed : file.listedFile rootName directory entry fileNo offset = .ok details) :
    details.piecesRoot = file.lookupRoot [rootPathKey declared.path, rootKey fileNo] := by
  obtain ⟨size, sized⟩ := Option.isSome_iff_exists.mp representable.sized
  obtain ⟨lead, written, rest, parts, front, _⟩ := stores.parts representable.noZero sized
  obtain ⟨path, trimmed, _, _, _, _, _, root⟩ := listedFile_inv listed
  rw [parts, getElem?_cons_zero, Option.getD_some, dropWhile_separators front representable.relative] at trimmed
  rw [root, trimmed]

/-- A listed file says what was declared, with the root that is found for it. -/
def ListedAs (file : MetaInfoFile) (above : Text) (directory : Bytes) (declared : DeclaredFile)
    (details : FileDetails UInt8) : Prop :=
  FaithfulFile above directory declared details ∧
    ∃ keys, RootKeys declared.path keys ∧ details.piecesRoot = file.lookupRoot keys

theorem Listed.listing {entries : List Text} {declared : List DeclaredFile}
    (run : Listed file rootName directory fileNo offset entries total files)
    (stored : Forall₂ Stores entries declared) (representable : ∀ one ∈ declared, one.Representable) :
    Forall₂ (ListedAs file (rootName ++ ['/']) directory) declared files := by
  induction run generalizing declared with
  | nil =>
    cases stored
    exact .nil
  | @cons fileNo offset total entry entries details files first rest ih =>
    cases stored with
    | cons one others =>
      rw [forall_mem_cons] at representable
      have root := listedFile_root one representable.1 first
      exact .cons ⟨(faithfulFile_iff one first).mpr representable.1, _, .listed fileNo, root⟩
        (ih others representable.2)

variable {canonicalDownload : Bytes}

theorem ReadInfo.listing {depth : Nat} (read : ReadInfo file info) (typed : TypedInfo info)
    (proper : Proper depth (.dictionary info)) (nonempty : declaredFiles info ≠ []) (fits : TreeFits info)
    (representable : ∀ declared ∈ declaredFiles info, declared.Representable)
    (listed : file.localFilesToDownloadList canonicalDownload = .ok (total, files)) :
    Forall₂
      (ListedAs file (if hasDirectory info then (declaredSingle info).path ++ ['/'] else [])
        (if hasDirectory info then joinPath canonicalDownload (utf8 (declaredSingle info).path) else canonicalDownload))
      (declaredFiles info) files := by
  rcases localFilesToDownloadList_eq_ok listed with ⟨absent, single⟩ | ⟨name, present, named, _, several⟩
  · have empty : storedTexts info = [] := by
      rw [read.zero, Option.map_eq_none_iff, getElem?_eq_none_iff] at absent
      exact eq_nil_of_length_eq_zero (Nat.le_zero.mp absent)
    have alone : hasDirectory info = false := by
      by_contra directory
      exact nonempty (declaredFiles_eq_nil (Bool.eq_true_of_not_eq_false directory) empty)
    have entries := (read.single alone single).1.entries
    obtain ⟨name, _, _, named, _, _, _, rfl, _, _, _, _, root⟩ := singleFile_inv single
    rw [(single_of_no_directory alone).1] at entries ⊢
    cases entries with
    | cons faithful rest =>
      cases rest
      refine .cons ⟨faithful, _, .single, ?_⟩ .nil
      rw [read.name_eq named, root]
  · have directory := (read.directory_of_present present).2
    have run := read.run several
    have stored := stored_declared typed proper directory fits
    rw [directory, if_pos rfl, if_pos rfl, read.name_eq named]
    exact run.listing stored representable

end Listing

end MetaInfoFile

end BitTorrent
