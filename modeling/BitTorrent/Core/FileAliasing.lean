import BitTorrent.Core.PathContainment
import BitTorrent.Library.PrefixFree

/-! # Files that share a place on disk

The paths of the resolved files of a torrent, compared with each other.  Neither the parser nor
`validate` compares the paths that a torrent declares.
-/

namespace BitTorrent

open Bencode List

section Joining

variable {path : Text}

theorem utf8_slash (left right : Text) : utf8 (left ++ '/' :: right) = utf8 left ++ 47 :: utf8 right := by
  rw [utf8_append, utf8_cons]
  rfl

/-- A path that goes through a `String` keeps the names joined to it, whatever the directory is. -/
theorem pathComponents_lossy (valid : validateRelativePath path = .ok ()) (directory : Bytes) :
    pathComponents (utf8 (fromUtf8Lossy (joinPath directory (utf8 path)))) =
      pathComponents (utf8 (fromUtf8Lossy directory)) ++ (path.splitOn '/').map utf8 := by
  have names := plainNames_utf8 valid
  rw [← splitOn_slash_utf8]
  by_cases nothing : directory = []
  · have joined : joinPath [] (utf8 path) = utf8 path := by
      rw [joinPath, if_neg (head_ne_slash names), if_pos (.inl rfl), nil_append]
    rw [nothing, ← utf8_nil, fromUtf8Lossy_utf8, utf8_nil, ← pathComponents_joinPath names, joined, fromUtf8Lossy_utf8]
  rw [joinPath, if_neg (head_ne_slash names)]
  split
  case isTrue ends =>
    obtain ⟨front, rfl⟩ := getLast?_eq_some_iff.mp (ends.resolve_left nothing)
    rw [append_assoc, singleton_append, fromUtf8Lossy_slash, fromUtf8Lossy_slash, fromUtf8Lossy_utf8, utf8_slash,
      utf8_slash, pathComponents_slash, filter_names names, ← utf8_nil, fromUtf8Lossy_utf8]
  case isFalse =>
    have shown : utf8 (fromUtf8Lossy directory) ≠ [] := utf8_ne_nil (fromUtf8Lossy_ne_nil nothing)
    rw [fromUtf8Lossy_slash, fromUtf8Lossy_utf8, utf8_slash, pathComponents_slash, filter_names names,
      pathComponents_append_slash shown]

end Joining

namespace MetaInfoFile

section Entries

variable (file : MetaInfoFile)

/-- The files of a torrent, each as the text that the parser has put together. -/
def numberedEntries : List Text := file.entriesFrom (file.metaInfoDict.length + 1) 0

/-- The names on the path of an entry: what stands before the first zero character, without the
separators in front. -/
def entryNames (entry : Text) : List Text :=
  (((entry.splitOn '\x00')[0]?.getD []).dropWhile fun letter => decide (letter = '/' ∨ letter = '\\')).splitOn '/'

end Entries

variable {file : MetaInfoFile} {canonicalDownload directory : Bytes} {rootName : Text} {total : Nat}
  {files : Files}

/-- The components of the path of a resolved file. -/
def resolvedPath (details : FileDetails UInt8) : List Bytes := pathComponents details.path

/-- Every file lies at the names of its entry, below one directory for all. -/
theorem listedFiles_resolved {rounds fileNo totalBytes : Nat}
    (listed : file.listedFiles rootName directory rounds fileNo totalBytes = .ok (total, files)) :
    files.map resolvedPath = ((file.entriesFrom rounds fileNo).map entryNames).map fun names =>
      pathComponents (utf8 (fromUtf8Lossy directory)) ++ names.map utf8 := by
  rw [map_map]
  refine (listed_of_listedFiles listed).map_eq ?_
  intro entry fileNo offset details found
  obtain ⟨path, trimmed, valid, _, named, _⟩ := listedFile_inv found
  rw [resolvedPath, FileDetails.path, named, String.toList_ofList, pathComponents_lossy valid, trimmed]
  rfl

section Relocation

variable {elsewhere : Bytes} {fileNo offset : Nat} {details : FileDetails UInt8}

theorem listedFiles_relocated {rounds : Nat}
    (listed : file.listedFiles rootName directory rounds fileNo offset = .ok (total, files)) :
    ∃ moved, file.listedFiles rootName elsewhere rounds fileNo offset = .ok (total, moved) := by
  induction rounds generalizing fileNo offset total files with
  | zero =>
    cases listed
    exact ⟨[], rfl⟩
  | succ rounds ih =>
    rw [listedFiles] at listed ⊢
    cases known : file.get (numeral fileNo) with
    | none =>
      rw [known] at listed
      cases listed
      exact ⟨[], rfl⟩
    | some entry =>
      rw [known] at listed
      obtain ⟨details, found, listed⟩ := bind_eq_ok.mp listed
      obtain ⟨⟨sum, rest⟩, later, listed⟩ := bind_eq_ok.mp listed
      cases listed
      obtain ⟨path, rfl, valid, _, _, sized, _⟩ := listedFile_inv found
      obtain ⟨others, after⟩ := ih later
      simp only [listedFile, valid, parseNumber_eq_ok.mpr sized, bind, Except.bind, pure, Except.pure,
        if_pos (pathStartsWith_joinPath valid elsewhere), after]
      exact ⟨_ :: others, rfl⟩

theorem localFiles_relocated (listed : file.localFilesToDownloadList canonicalDownload = .ok (total, files))
    (elsewhere : Bytes) : ∃ moved, file.localFilesToDownloadList elsewhere = .ok (total, moved) := by
  have parsed := (bind_eq_ok.mp listed).choose_spec.1
  rw [localFilesToDownloadList, parsed]
  rcases localFilesToDownloadList_eq_ok listed with ⟨absent, single⟩ | ⟨name, present, known, valid, several⟩
  · obtain ⟨name, length, _, known, size, valid, sized, _⟩ := singleFile_inv single
    simp only [bind, Except.bind, absent, Option.isNone_none, if_true, singleFile, field_eq_ok.mpr known,
      field_eq_ok.mpr size, valid, parseNumber_eq_ok.mpr sized, if_pos (pathStartsWith_joinPath valid elsewhere)]
    exact ⟨_, rfl⟩
  · obtain ⟨moved, there⟩ := @listedFiles_relocated _ _ _ _ _
      (joinPath elsewhere (utf8 (fromUtf8Lossy name))) _ _ _ several
    have some : (file.get (text "0")).isNone = false := Option.isNone_eq_false_iff.mpr present
    simp only [bind, Except.bind, some, Bool.false_eq_true, if_false, field_eq_ok.mpr known, valid, there,
      if_pos (pathStartsWith_joinPath valid elsewhere)]
    exact ⟨moved, rfl⟩

theorem validate_listed {parseUrl : UrlParser} {currentDirectory : Bytes}
    (valid : file.validate parseUrl currentDirectory = .ok ()) :
    ∃ total files, file.localFilesToDownloadList currentDirectory = .ok (total, files) := by
  obtain ⟨_, _, valid⟩ := bind_eq_ok.mp valid
  obtain ⟨_, _, valid⟩ := bind_eq_ok.mp valid
  obtain ⟨_, valid⟩ := guard_eq_ok.mp valid
  obtain ⟨_, _, valid⟩ := bind_eq_ok.mp valid
  obtain ⟨_, _, valid⟩ := bind_eq_ok.mp valid
  obtain ⟨⟨total, files⟩, listed, _⟩ := bind_eq_ok.mp valid
  exact ⟨total, files, listed⟩

end Relocation

theorem localFiles_prefixFree_iff (listed : file.localFilesToDownloadList canonicalDownload = .ok (total, files)) :
    PrefixFree (files.map resolvedPath) ↔ PrefixFree (file.numberedEntries.map entryNames) := by
  rcases localFilesToDownloadList_eq_ok listed with ⟨absent, single⟩ | ⟨name, _, _, _, several⟩
  · obtain ⟨_, _, details, _, _, _, _, rfl, _⟩ := singleFile_inv single
    have none : file.get (numeral 0) = none := absent
    rw [numberedEntries, entriesFrom, none]
    exact iff_of_true (pairwise_singleton _ _) List.Pairwise.nil
  · rw [listedFiles_resolved several]
    apply prefixFree_map_iff
    intro left right
    rw [prefix_append_right_inj, prefix_map_iff_of_injective utf8_injective]

/-- A torrent that passes `validate` has a list for every download directory.  No two of its files
share a place, exactly when no entry names a place on the path of another. -/
theorem validated_prefixFree_iff {parseUrl : UrlParser} {currentDirectory : Bytes}
    (valid : file.validate parseUrl currentDirectory = .ok ()) (canonicalDownload : Bytes) :
    ∃ total files, file.localFilesToDownloadList canonicalDownload = .ok (total, files) ∧
      (PrefixFree (files.map resolvedPath) ↔ PrefixFree (file.numberedEntries.map entryNames)) := by
  obtain ⟨total, files, listed⟩ := validate_listed valid
  obtain ⟨moved, there⟩ := localFiles_relocated listed canonicalDownload
  exact ⟨total, moved, there, localFiles_prefixFree_iff there⟩

/-- Two files with different paths. -/
def apartFiles : Bytes :=
  ascii "d8:announce0:4:infod5:filesld6:lengthi5e4:pathl1:a1:beed6:lengthi2e4:pathl1:ceee4:name1:r" ++
    ascii "12:piece lengthi8e6:pieces20:01234567890123456789ee"

theorem apartFiles_validated : ((parse Digests.zero (.fromBytes apartFiles)).bind fun file =>
    (file.validate (fun _ => .ok ()) (ascii "/")).map fun _ => file.numberedEntries).toOption =
      some [text "/a/b\x005\x00", text "/c\x002\x00"] := by
  decide +kernel

theorem apartFiles_prefixFree : ∃ file total files, parse Digests.zero (.fromBytes apartFiles) = .ok file ∧
    file.validate (fun _ => .ok ()) (ascii "/") = .ok () ∧
    file.localFilesToDownloadList (ascii "/d") = .ok (total, files) ∧ PrefixFree (files.map resolvedPath) := by
  obtain ⟨file, parsed, ran⟩ := bind_eq_ok.mp (eq_ok_of_toOption apartFiles_validated)
  obtain ⟨_, valid, entries⟩ := map_eq_ok.mp ran
  obtain ⟨total, files, listed, apart⟩ := validated_prefixFree_iff valid (ascii "/d")
  refine ⟨file, total, files, parsed, valid, listed, apart.mpr ?_⟩
  rw [entries]
  decide +kernel

/-- The file `a` twice, and a file in a directory `a`. -/
def aliasedFiles : Bytes :=
  ascii "d8:announce0:4:infod5:filesld6:lengthi5e4:pathl1:aeed6:lengthi2e4:pathl1:aeed6:lengthi1e4:pathl1:a1:beee" ++
    ascii "4:name1:r12:piece lengthi8e6:pieces20:01234567890123456789ee"

theorem aliasedFiles_listed : ((parse Digests.zero (.fromBytes aliasedFiles)).bind fun file =>
    (file.validate (fun _ => .ok ()) (ascii "/")).bind fun _ =>
      (file.localFilesToDownloadList (ascii "/d")).map fun listed => listed.2.map resolvedPath).toOption =
    some [[ascii "/", ascii "d", ascii "r", ascii "a"], [ascii "/", ascii "d", ascii "r", ascii "a"],
      [ascii "/", ascii "d", ascii "r", ascii "a", ascii "b"]] := by
  decide +kernel

/-- Accepted, with two files in one place and a third that needs a directory there. -/
theorem aliasedFiles_share : ∃ file total files, parse Digests.zero (.fromBytes aliasedFiles) = .ok file ∧
    file.validate (fun _ => .ok ()) (ascii "/") = .ok () ∧
    file.localFilesToDownloadList (ascii "/d") = .ok (total, files) ∧
    files.map resolvedPath = [[ascii "/", ascii "d", ascii "r", ascii "a"], [ascii "/", ascii "d", ascii "r", ascii "a"],
      [ascii "/", ascii "d", ascii "r", ascii "a", ascii "b"]] ∧ ¬PrefixFree (files.map resolvedPath) := by
  obtain ⟨file, parsed, ran⟩ := bind_eq_ok.mp (eq_ok_of_toOption aliasedFiles_listed)
  obtain ⟨_, valid, ran⟩ := bind_eq_ok.mp ran
  obtain ⟨⟨total, files⟩, listed, paths⟩ := map_eq_ok.mp ran
  refine ⟨file, total, files, parsed, valid, listed, paths, ?_⟩
  rw [show files.map resolvedPath = _ from paths]
  decide +kernel

end MetaInfoFile

end BitTorrent
