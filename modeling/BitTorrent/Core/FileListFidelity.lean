import BitTorrent.Core.DeclaredFiles

/-! # When the list of the files to download is faithful

The list says what the `info` dictionary says exactly when the texts of the parser can keep it.
-/

namespace BitTorrent

open Bencode BNode FileDetails Option
open List hiding length

namespace MetaInfoFile

variable {file : MetaInfoFile} {rootName : Text} {directory canonicalDownload : Bytes} {fileNo offset total : Nat}
  {files : Files} {depth : Nat}

section Fidelity

variable {info : Entries}

/-- What a lookup finds after an `info` dictionary has been read. -/
structure ReadInfo (file : MetaInfoFile) (info : Entries) : Prop where
  parsed : file.parsed = true
  numbered : Numbered file (storedTexts info)
  name : file.get (text "name") = ((dictionary info).dictGet (ascii "name")).bind scalarBytes
  length : file.get (text "length") = ((dictionary info).dictGet (ascii "length")).bind scalarBytes

theorem readInfo_of_applies {start : MetaInfoFile} (typed : TypedInfo info) (parsed : file.parsed = true)
    (blank : ∀ name, name ∉ rootNames → start.get name = none)
    (same : ∀ key, key ∉ rootNames → key ∉ hashNames → file.get key = (info.foldl applyEntry start).get key) :
    ReadInfo file info := by
  have notRoot : ∀ index, numeral index ∉ rootNames := fun index => numeral_not_mem index (by decide)
  have notHash : ∀ index, numeral index ∉ hashNames := fun index => numeral_not_mem index (by decide)
  have none : Numbered start [] := fun index => blank _ (notRoot index)
  refine ⟨parsed, fun index => ?_, ?_, ?_⟩
  · rw [same _ (notRoot index) (notHash index)]
    exact numbered_foldl typed.distinct typed.treeFirst none index
  · rw [same _ (by decide) (by decide)]
    exact get_foldl_field typed.distinct (by decide) (by decide) (by decide) (blank _ (by decide))
  · rw [same _ (by decide) (by decide)]
    exact get_foldl_field typed.distinct (by decide) (by decide) (by decide) (blank _ (by decide))

theorem parse_readInfo {digests : Digests} {bytes : Bytes} {before after : Entries}
    (decoded : decode bytes = .ok (.dictionary (before ++ (ascii "info", .dictionary info) :: after)))
    (once : ∀ entry ∈ before ++ after, entry.1 ≠ ascii "info")
    (whole : ∀ entry ∈ before ++ after, readsWhole entry = true) (typed : TypedInfo info)
    (parsed : parse digests (.fromBytes bytes) = .ok file) : ReadInfo file info := by
  obtain ⟨proper, rfl⟩ := decode_eq_spell decoded
  have done := parse_parsed parsed
  rw [← append_nil (spell _)] at parsed
  obtain ⟨start, read, left, blank, fields, same⟩ := parse_reads_spell proper once whole parsed
  have infoProper : Proper 49 (.dictionary info) := (proper (ascii "info", .dictionary info) (by simp)).2
  cases info_reads infoProper typed.entries fields
  refine readInfo_of_applies typed done blank ?_
  intro key notRoot notHash
  rw [same key notRoot, get_addInfoHash_other _ notHash]

theorem sum_sizes {above : Text} {declared : List DeclaredFile}
    (faithful : Forall₂ (FaithfulFile above directory) declared files) :
    (declared.map fun one => one.size?.getD 0).sum = (files.map length).sum := by
  induction faithful with
  | nil => rfl
  | cons first _ ih => rw [map_cons, map_cons, sum_cons, sum_cons, ih, first.length, getD_some]

/-- A run is faithful exactly when the parser can keep all files and their lengths do not overflow. -/
theorem Listed.list_iff {entries : List Text} {declared : List DeclaredFile}
    (run : Listed file rootName directory 0 0 entries total files) (stored : Forall₂ Stores entries declared) :
    (Forall₂ (FaithfulFile (rootName ++ ['/']) directory) declared files ∧
      (∀ index details, files[index]? = some details →
        details.offset = ((files.take index).map length).sum) ∧
      total = (files.map length).sum) ↔
      (∀ one ∈ declared, one.Representable) ∧ (declared.map fun one => one.size?.getD 0).sum < u64Size := by
  constructor
  · intro faithful
    obtain ⟨each, _, sum⟩ := faithful
    refine ⟨(run.faithful_iff stored).mp each, ?_⟩
    rw [sum_sizes each, ← sum]
    exact run.total_lt (by decide)
  · intro representable
    obtain ⟨each, small⟩ := representable
    have faithful := (run.faithful_iff stored).mpr each
    rw [sum_sizes faithful] at small
    obtain ⟨sum, offsets⟩ := run.exact (by omega)
    refine ⟨faithful, ?_, by omega⟩
    intro index details known
    rw [offsets index details known, Nat.zero_add]

section Success

theorem listedFile_exists {entry : Text} {declared : DeclaredFile} (stores : Stores entry declared)
    (representable : declared.Representable) (valid : validateRelativePath declared.path = .ok ()) :
    ∃ details, file.listedFile rootName directory entry fileNo offset = .ok details := by
  obtain ⟨size, sized⟩ := isSome_iff_exists.mp representable.sized
  obtain ⟨lead, written, rest, parts, front, parsed⟩ := stores.parts representable.noZero sized
  have number := parseNumber_eq_ok.mpr parsed
  rw [listedFile, parts]
  rw [getElem?_cons_zero, getD_some, dropWhile_separators front representable.relative, valid,
    getElem?_cons_succ, getElem?_cons_zero, getD_some, number]
  simp only [bind, Except.bind, if_pos (pathStartsWith_joinPath valid directory)]
  exact ⟨_, rfl⟩

theorem listedFiles_exists {entries : List Text} {declared : List DeclaredFile} {rounds : Nat}
    (found : ∀ index, file.get (numeral (fileNo + index)) = entries[index]?.map utf8)
    (stored : Forall₂ Stores entries declared) (representable : ∀ one ∈ declared, one.Representable)
    (valid : ∀ one ∈ declared, validateRelativePath one.path = .ok ()) :
    ∃ total files, file.listedFiles rootName directory rounds fileNo offset = .ok (total, files) := by
  induction rounds generalizing fileNo offset entries declared with
  | zero => exact ⟨offset, [], rfl⟩
  | succ rounds ih =>
    cases stored with
    | nil =>
      have missing := found 0
      rw [Nat.add_zero, getElem?_nil, map_none] at missing
      rw [listedFiles, missing]
      exact ⟨offset, [], rfl⟩
    | @cons entry one entries declared stores others =>
      have first := found 0
      rw [Nat.add_zero, getElem?_cons_zero, map_some] at first
      rw [forall_mem_cons] at representable valid
      obtain ⟨details, known⟩ : ∃ details, file.listedFile rootName directory entry fileNo offset = .ok details :=
        listedFile_exists stores representable.1 valid.1
      obtain ⟨total, files, later⟩ := @ih (fileNo + 1) ((offset + details.length) % u64Size) entries declared
        (found_succ found) others representable.2 valid.2
      rw [listedFiles, first]
      dsimp only
      rw [fromUtf8Lossy_utf8, known]
      simp only [bind, Except.bind, later]
      exact ⟨total, details :: files, rfl⟩

end Success

section Dictionaries

theorem overlay_eq_nil {above below : List Text} : overlay above below = [] ↔ above = [] ∧ below = [] := by
  rw [overlay, append_eq_nil_iff]
  constructor
  · intro empty
    obtain ⟨rfl, rest⟩ := empty
    exact ⟨rfl, rest⟩
  · intro empty
    obtain ⟨rfl, rfl⟩ := empty
    exact ⟨rfl, rfl⟩

theorem filesTexts_some {files : BNode} (found : (dictionary info).dictGet (ascii "files") = some files) :
    filesTexts info = files.listItems.map fun item => (itemRecord item).entry := by
  rw [filesTexts, listRecords, found, elim_some, List.map_map]
  rfl

theorem treeTexts_some {tree : BNode} (found : (dictionary info).dictGet (ascii "file tree") = some tree) :
    treeTexts info = (leavesOf [] tree).map fun leaf => (FileRecord.ofLeaf (leafFile leaf)).entry := by
  rw [treeTexts, leafRecords, found, elim_some, treeRecords, List.map_map]
  rfl

theorem filesTexts_none (absent : (dictionary info).dictGet (ascii "files") = none) : filesTexts info = [] := by
  rw [filesTexts, listRecords, absent, elim_none, map_nil]

theorem treeTexts_none (absent : (dictionary info).dictGet (ascii "file tree") = none) : treeTexts info = [] := by
  rw [treeTexts, leafRecords, absent, elim_none, map_nil]

theorem stored_files (typed : TypedInfo info) {files : BNode}
    (found : (dictionary info).dictGet (ascii "files") = some files) :
    Forall₂ Stores (filesTexts info) (files.listItems.map declaredItem) := by
  have items := typed.entries _ (mem_of_dictGet found)
  rw [typedEntry, if_pos rfl, List.all_eq_true] at items
  rw [filesTexts_some found, forall₂_map_left_iff, forall₂_map_right_iff, forall₂_same]
  intro item member
  exact stores_item (items item member)

theorem stored_tree (typed : TypedInfo info) (proper : Proper depth (.dictionary info)) {tree : BNode}
    (found : (dictionary info).dictGet (ascii "file tree") = some tree) :
    Forall₂ Stores (treeTexts info) ((leavesOf [] tree).map declaredLeaf) := by
  have notFiles : ascii "file tree" ≠ ascii "files" := by decide
  have member := mem_of_dictGet found
  have leaves := typed.entries _ member
  rw [typedEntry, if_neg notFiles, if_pos rfl, List.all_eq_true] at leaves
  rw [treeTexts_some found, forall₂_map_left_iff, forall₂_map_right_iff, forall₂_same]
  intro leaf inside
  exact stores_leaf (leaves leaf inside) fun entry known => proper_leaf (proper.entries _ member).2 inside known

/-- The texts of a torrent with a directory stand for its files, unless the tree is longer than the list. -/
theorem stored_declared (typed : TypedInfo info) (proper : Proper depth (.dictionary info))
    (directory : hasDirectory info = true) (fits : TreeFits info) :
    Forall₂ Stores (storedTexts info) (declaredFiles info) := by
  rw [declaredFiles]
  cases list : (dictionary info).dictGet (ascii "files") with
  | some files =>
    have short : (treeTexts info).length ≤ (filesTexts info).length := by
      cases found : (dictionary info).dictGet (ascii "file tree") with
      | none =>
        rw [treeTexts_none found]
        exact Nat.zero_le _
      | some tree =>
        rw [treeTexts_some found, filesTexts_some list, length_map, length_map]
        exact fits files tree list found
    rw [storedTexts, overlay, drop_eq_nil_of_le short, append_nil]
    exact stored_files typed list
  | none =>
    cases found : (dictionary info).dictGet (ascii "file tree") with
    | none =>
      rw [hasDirectory, list, found] at directory
      cases directory
    | some tree =>
      rw [storedTexts, filesTexts_none list]
      exact stored_tree typed proper found

theorem declaredFiles_eq_nil (directory : hasDirectory info = true)
    (empty : storedTexts info = []) : declaredFiles info = [] := by
  obtain ⟨noFiles, noTree⟩ := overlay_eq_nil.mp empty
  rw [declaredFiles]
  cases list : (dictionary info).dictGet (ascii "files") with
  | some files =>
    rw [filesTexts_some list, map_eq_nil_iff] at noFiles
    dsimp only
    rw [noFiles, map_nil]
  | none =>
    cases found : (dictionary info).dictGet (ascii "file tree") with
    | none =>
      rw [hasDirectory, list, found] at directory
      cases directory
    | some tree =>
      rw [treeTexts_some found, map_eq_nil_iff] at noTree
      dsimp only
      rw [noTree, map_nil]

theorem single_of_no_directory (single : hasDirectory info = false) :
    declaredFiles info = [declaredSingle info] ∧ storedTexts info = [] := by
  rw [hasDirectory, Bool.or_eq_false_iff, isSome_eq_false_iff, isSome_eq_false_iff,
    isNone_iff_eq_none, isNone_iff_eq_none] at single
  obtain ⟨list, found⟩ := single
  rw [storedTexts, filesTexts_none list, treeTexts_none found, declaredFiles, list, found]
  exact ⟨rfl, rfl⟩

end Dictionaries

section Reading

section

variable (read : ReadInfo file info)
include read

theorem ReadInfo.zero : file.get (text "0") = (storedTexts info)[0]?.map utf8 :=
  read.numbered 0

theorem ReadInfo.requireParsed : file.requireParsed = .ok () := by
  rw [MetaInfoFile.requireParsed, if_pos read.parsed]

theorem ReadInfo.rounds : (storedTexts info).length < file.metaInfoDict.length + 1 := by
  apply Nat.lt_succ_of_le
  apply numbered_le
  intro index inside
  rw [read.numbered index, getElem?_eq_getElem inside]
  exact some_ne_none _

theorem ReadInfo.run
    (several : file.listedFiles rootName directory (file.metaInfoDict.length + 1) 0 0 = .ok (total, files)) :
    Listed file rootName directory 0 0 (storedTexts info) total files := by
  have run := listed_of_listedFiles several
  rw [entriesFrom_eq (fun index => ?_) read.rounds] at run
  · exact run
  · rw [Nat.zero_add]
    exact read.numbered index

theorem ReadInfo.name_eq {name : Bytes} (known : file.get (text "name") = some name) :
    (declaredSingle info).path = fromUtf8Lossy name := by
  rw [declaredSingle, ← read.name, known, elim_some]

theorem ReadInfo.length_eq {length : Bytes} (known : file.get (text "length") = some length) :
    (declaredSingle info).length = fromUtf8Lossy length := by
  rw [declaredSingle, ← read.length, known, elim_some]

theorem ReadInfo.single (alone : hasDirectory info = false)
    (listed : file.singleFile canonicalDownload = .ok (total, files)) :
    Faithful file info canonicalDownload total files ∧ Representable info := by
  obtain ⟨declared, empty⟩ := single_of_no_directory alone
  obtain ⟨name, length, details, named, sized, valid, parsed, rfl, torrentPath, placed, exactly, start, _⟩ :=
    singleFile_inv listed
  have path := read.name_eq named
  have size : (declaredSingle info).size? = some total := by
    rw [DeclaredFile.size?, read.length_eq sized, parsed]
  have absent : file.get (text "0") = none := by
    rw [read.zero, empty]
    rfl
  constructor
  · refine ⟨?_, ?_, ?_, ?_⟩
    · rw [declared, alone]
      refine .cons ⟨?_, ?_, ?_⟩ .nil
      · rw [torrentPath, path]
        rfl
      · rw [placed, path]
        rfl
      · rw [size, exactly]
    · intro index other known
      cases index with
      | zero =>
        cases known
        exact start
      | succ index => cases known
    · rw [map_singleton, sum_singleton, exactly]
    · rw [getTotalSize, read.requireParsed, absent]
      simp only [bind, Except.bind, isNone_none, if_true, field_eq_ok.mpr sized]
      exact parseNumber_eq_ok.mpr parsed
  · obtain ⟨noZero, relative⟩ := validateRelativePath_plain valid
    refine ⟨?_, ?_, ?_, ?_⟩
    · rw [declared]
      exact cons_ne_nil _ _
    · intro list tree found
      rw [hasDirectory, found] at alone
      cases alone
    · rw [declared, forall_mem_singleton]
      refine ⟨?_, ?_, ?_⟩
      · rw [path]
        exact noZero
      · rw [path]
        exact not_or.mp relative
      · rw [size]
        rfl
    · rw [declared, map_singleton, sum_singleton, size]
      exact parseUnsigned_lt parsed

theorem ReadInfo.directory_of_present (present : (file.get (text "0")).isSome) :
    storedTexts info ≠ [] ∧ hasDirectory info = true := by
  have nonempty : storedTexts info ≠ [] := by
    intro empty
    rw [read.zero, empty] at present
    cases present
  refine ⟨nonempty, ?_⟩
  by_contra alone
  exact nonempty (single_of_no_directory (Bool.not_eq_true _ ▸ alone)).2

theorem ReadInfo.several (typed : TypedInfo info) (proper : Proper depth (.dictionary info))
    (present : (file.get (text "0")).isSome) {name : Bytes} (named : file.get (text "name") = some name)
    (listed : file.listedFiles (fromUtf8Lossy name) (joinPath canonicalDownload (utf8 (fromUtf8Lossy name)))
      (file.metaInfoDict.length + 1) 0 0 = .ok (total, files)) :
    Faithful file info canonicalDownload total files ↔ Representable info := by
  have run := read.run listed
  obtain ⟨nonempty, directory⟩ := read.directory_of_present present
  have path := read.name_eq named
  constructor
  · intro faithful
    have each := faithful.entries
    rw [directory, if_pos rfl, if_pos rfl, path] at each
    -- the list has an entry for each declared file, which leaves no room for a longer tree
    have fits : TreeFits info := by
      intro files tree list found
      have same := run.length_eq.symm.trans each.length_eq.symm
      rw [storedTexts, overlay, length_append, length_drop, filesTexts_some list, treeTexts_some found, declaredFiles, list,
        found] at same
      simp only [length_map] at same
      omega
    have stored := stored_declared typed proper directory fits
    obtain ⟨representable, small⟩ := (run.list_iff stored).mp ⟨each, faithful.offsets, faithful.sum⟩
    refine ⟨?_, fits, representable, small⟩
    intro none
    rw [none] at stored
    cases stored_nil : storedTexts info with
    | nil => exact nonempty stored_nil
    | cons entry entries =>
      rw [stored_nil] at stored
      cases stored
  · intro representable
    have stored := stored_declared typed proper directory representable.tree
    obtain ⟨each, offsets, sum⟩ := (run.list_iff stored).mpr ⟨representable.files, representable.sum⟩
    refine ⟨?_, offsets, sum, ?_⟩
    · rw [directory, if_pos rfl, if_pos rfl, path]
      exact each
    · obtain ⟨zero, known⟩ := isSome_iff_exists.mp present
      rw [getTotalSize, read.requireParsed, known, listedSize_eq listed]
      rfl

theorem ReadInfo.faithful_iff_representable (typed : TypedInfo info) (proper : Proper depth (.dictionary info))
    (listed : file.localFilesToDownloadList canonicalDownload = .ok (total, files)) :
    Faithful file info canonicalDownload total files ↔ Representable info := by
  rcases localFilesToDownloadList_eq_ok listed with ⟨absent, single⟩ | ⟨name, present, named, _, several⟩
  · cases directory : hasDirectory info with
    | false =>
      obtain ⟨faithful, representable⟩ := read.single directory single
      exact ⟨fun _ => representable, fun _ => faithful⟩
    | true =>
      -- An empty list or tree: the one file that is returned was never declared.
      have empty : storedTexts info = [] := by
        rw [read.zero, map_eq_none_iff, getElem?_eq_none_iff] at absent
        exact eq_nil_of_length_eq_zero (Nat.le_zero.mp absent)
      have none := declaredFiles_eq_nil directory empty
      constructor
      · intro faithful
        have each := faithful.entries
        rw [none] at each
        exact absurd (forall₂_nil_left_iff.mp each) (localFiles_ne_nil listed)
      · intro representable
        exact absurd none representable.nonempty
  · exact read.several typed proper present named several

theorem ReadInfo.listed (typed : TypedInfo info) (proper : Proper depth (.dictionary info))
    (nonempty : declaredFiles info ≠ []) (fits : TreeFits info)
    (representable : ∀ declared ∈ declaredFiles info, declared.Representable) (admissible : Admissible info)
    (canonicalDownload : Bytes) :
    ∃ total files, file.localFilesToDownloadList canonicalDownload = .ok (total, files) := by
  obtain ⟨name, named⟩ : ∃ name, file.get (text "name") = some name := by
    cases known : file.get (text "name") with
    | some name => exact ⟨name, rfl⟩
    | none =>
      have valid := admissible.name
      rw [declaredSingle, ← read.name, known] at valid
      cases valid
  have path := read.name_eq named
  have valid := admissible.name
  have field := field_eq_ok.mpr named
  rw [path] at valid
  have inside := pathStartsWith_joinPath valid canonicalDownload
  rw [localFilesToDownloadList, read.requireParsed]
  cases directory : hasDirectory info with
  | false =>
    obtain ⟨declared, empty⟩ := single_of_no_directory directory
    have absent : file.get (text "0") = none := by
      rw [read.zero, empty]
      rfl
    have kept := representable (declaredSingle info) (by rw [declared]; exact mem_singleton_self _)
    obtain ⟨size, sized⟩ := isSome_iff_exists.mp kept.sized
    obtain ⟨length, written⟩ : ∃ length, file.get (text "length") = some length := by
      cases known : file.get (text "length") with
      | some length => exact ⟨length, rfl⟩
      | none =>
        rw [DeclaredFile.size?, declaredSingle, ← read.length, known] at sized
        cases sized
    rw [DeclaredFile.size?, read.length_eq written] at sized
    simp only [bind, Except.bind, absent, isNone_none, if_true, singleFile, field, field_eq_ok.mpr written, valid,
      parseNumber_eq_ok.mpr sized, inside]
    exact ⟨_, _, rfl⟩
  | true =>
    have stored := stored_declared typed proper directory fits
    have present : (file.get (text "0")).isNone = false := by
      rw [read.zero]
      cases texts : storedTexts info with
      | nil => exact absurd (declaredFiles_eq_nil directory texts) nonempty
      | cons entry entries => rfl
    simp only [bind, Except.bind, present, Bool.false_eq_true, if_false, field, valid, inside, if_true]
    apply listedFiles_exists _ stored representable admissible.paths
    intro index
    rw [Nat.zero_add]
    exact read.numbered index

end

end Reading

/-- The list of the files to download is returned and says what `info` declares, exactly when the
parser can keep what is declared. -/
theorem localFiles_faithful_iff {digests : Digests} {bytes : Bytes} {before after : Entries}
    (decoded : decode bytes = .ok (.dictionary (before ++ (ascii "info", .dictionary info) :: after)))
    (once : ∀ entry ∈ before ++ after, entry.1 ≠ ascii "info")
    (whole : ∀ entry ∈ before ++ after, readsWhole entry = true) (typed : TypedInfo info)
    (parsed : parse digests (.fromBytes bytes) = .ok file) (canonicalDownload : Bytes) :
    (Representable info → Admissible info →
      ∃ total files, file.localFilesToDownloadList canonicalDownload = .ok (total, files)) ∧
    ∀ total files, file.localFilesToDownloadList canonicalDownload = .ok (total, files) →
      (Faithful file info canonicalDownload total files ↔ Representable info) := by
  have read := parse_readInfo decoded once whole typed parsed
  obtain ⟨proper, _⟩ := decode_eq_spell decoded
  have infoProper : Proper 49 (.dictionary info) := (proper (ascii "info", .dictionary info) (by simp)).2
  constructor
  · intro representable admissible
    exact read.listed typed infoProper representable.nonempty representable.tree representable.files admissible
      canonicalDownload
  · intro total files listed
    exact read.faithful_iff_representable typed infoProper listed

def twoFilesInfo : Entries :=
  [(ascii "files", .list [
      .dictionary [(ascii "length", .number (ascii "5")), (ascii "path", .list [.string (ascii "a"), .string (ascii "b")])],
      .dictionary [(ascii "length", .number (ascii "2")), (ascii "path", .list [.string (ascii "c")])]]),
    (ascii "name", .string (ascii "r")), (ascii "piece length", .number (ascii "1")), (ascii "pieces", .string [])]

set_option maxRecDepth 1000 in
theorem twoFiles_decoded : decode twoFiles = .ok (.dictionary ([(ascii "announce", .string (ascii "u"))] ++
    (ascii "info", .dictionary twoFilesInfo) :: [])) := by
  rfl

theorem twoFiles_typed : TypedInfo twoFilesInfo := ⟨by decide +kernel, by decide +kernel, by decide +kernel⟩

theorem twoFiles_declared : declaredFiles twoFilesInfo = [⟨text "a/b", text "5"⟩, ⟨text "c", text "2"⟩] := by
  decide +kernel

theorem twoFiles_representable : Representable twoFilesInfo := by
  refine ⟨?_, ?_, ?_, ?_⟩
  · rw [twoFiles_declared]
    exact cons_ne_nil _ _
  · intro files tree _ found
    cases found
  · rw [twoFiles_declared, forall_mem_cons, forall_mem_singleton]
    exact ⟨⟨by decide, by decide, by decide +kernel⟩, ⟨by decide, by decide, by decide +kernel⟩⟩
  · rw [twoFiles_declared]
    decide +kernel

theorem twoFiles_admissible : Admissible twoFilesInfo := by
  refine ⟨by decide +kernel, ?_⟩
  decide +kernel

theorem twoFiles_parsed : (parse Digests.zero (.fromBytes twoFiles)).isOk = true := by
  decide +kernel

theorem twoFiles_faithful : ∃ file total files, parse Digests.zero (.fromBytes twoFiles) = .ok file ∧
    file.localFilesToDownloadList (ascii "/d") = .ok (total, files) ∧
    Faithful file twoFilesInfo (ascii "/d") total files := by
  obtain ⟨file, parsed⟩ := exists_of_isOk twoFiles_parsed
  obtain ⟨returned, exactly⟩ := localFiles_faithful_iff twoFiles_decoded (by decide) (by decide) twoFiles_typed parsed
    (ascii "/d")
  obtain ⟨total, files, listed⟩ := returned twoFiles_representable twoFiles_admissible
  exact ⟨file, total, files, parsed, listed, (exactly total files listed).mpr twoFiles_representable⟩

/-- A file of five bytes with a zero character in its name. -/
def zeroName : Bytes :=
  ascii "d8:announce1:u4:infod5:filesld6:lengthi5e4:pathl3:a\x007eee4:name1:r12:piece lengthi1e6:pieces0:ee"

def zeroNameInfo : Entries :=
  [(ascii "files", .list [
      .dictionary [(ascii "length", .number (ascii "5")), (ascii "path", .list [.string (ascii "a\x007")])]]),
    (ascii "name", .string (ascii "r")), (ascii "piece length", .number (ascii "1")), (ascii "pieces", .string [])]

theorem zeroName_listed : ((parse Digests.zero (.fromBytes zeroName)).bind fun file =>
    (file.localFilesToDownloadList (ascii "/d")).map fun listed =>
      (listed.1, listed.2.map fun details => (details.torrentPath, details.length))).toOption =
        some (7, [("r/a", 7)]) := by
  decide +kernel

/-- The file comes back under the name before the zero character, with the length after it. -/
theorem zeroName_unfaithful :
    decode zeroName = .ok (.dictionary ([(ascii "announce", .string (ascii "u"))] ++
      (ascii "info", .dictionary zeroNameInfo) :: [])) ∧
    declaredFiles zeroNameInfo = [⟨text "a\x007", text "5"⟩] ∧
    ∃ file total files, parse Digests.zero (.fromBytes zeroName) = .ok file ∧
      file.localFilesToDownloadList (ascii "/d") = .ok (total, files) ∧
      files.map (fun details => (details.torrentPath, details.length)) = [("r/a", 7)] ∧
      ¬Faithful file zeroNameInfo (ascii "/d") total files := by
  refine ⟨rfl, by decide +kernel, ?_⟩
  obtain ⟨file, parsed, ran⟩ := bind_eq_ok.mp (eq_ok_of_toOption zeroName_listed)
  obtain ⟨⟨total, files⟩, listed, shown⟩ := map_eq_ok.mp ran
  obtain ⟨_, details⟩ := Prod.mk.inj shown
  refine ⟨file, total, files, parsed, listed, details, ?_⟩
  intro faithful
  -- The declared length is five, and the only length of the list is seven.
  have sizes := sum_sizes faithful.entries
  have lengths : files.map length = [7] := by
    have second := congrArg (map Prod.snd) details
    rw [List.map_map] at second
    exact second
  rw [lengths] at sizes
  revert sizes
  decide +kernel

end Fidelity

end MetaInfoFile

end BitTorrent
