import BitTorrent.Core.MetaInfo

/-! # Where the files of a torrent are placed

Which components the path of a resolved file has below the download directory.  The path goes
through a `String`, so this needs a download directory in UTF-8.
-/

namespace BitTorrent

open List

section Names

def PlainName (name : Text) : Prop := name ≠ [] ∧ name ≠ text "." ∧ name ≠ text ".."

/-- A name that stays in its directory, also where a backslash separates names. -/
structure InnerName (name : Text) : Prop where
  plain : PlainName name
  parts : ∀ part ∈ name.splitOn '\\', PlainName part
  letters : ∀ letter ∈ name, letter ≠ '/' ∧ letter ≠ ':' ∧ letter ≠ '\x00'

theorem forM_eq_ok_iff {α : Type} {check : α → Result Unit} {values : List α} :
    values.forM check = .ok () ↔ ∀ value ∈ values, check value = .ok () := by
  induction values with
  | nil => exact iff_of_true rfl fun _ absent => absurd absent not_mem_nil
  | cons first rest ih =>
    rw [forall_mem_cons, ← ih]
    constructor
    · intro checked
      obtain ⟨_, passed, later⟩ := bind_eq_ok.mp checked
      exact ⟨passed, later⟩
    · intro checked
      exact bind_eq_ok.mpr ⟨(), checked⟩

theorem validateRelativePath_iff {path : Text} :
    validateRelativePath path = .ok () ↔
      path ≠ [] ∧ '\x00' ∉ path ∧ ¬(path.head? = some '/' ∨ path.head? = some '\\') ∧ ':' ∉ path ∧
        ∀ segment ∈ path.splitOnP fun letter => letter = '/' ∨ letter = '\\', validateSegment segment = .ok () := by
  rw [validateRelativePath, guard_eq_ok, guard_eq_ok, guard_eq_ok, guard_eq_ok]
  simp only [← forM_eq_ok_iff]

theorem validateSegment_eq_ok {segment : Text} (valid : validateSegment segment = .ok ()) : PlainName segment := by
  rw [validateSegment] at valid
  obtain ⟨nonempty, valid⟩ := guard_eq_ok.mp valid
  split at valid
  case isTrue => cases valid
  case isFalse dots => exact ⟨nonempty, not_or.mp dots⟩

theorem splitOn_separators (path : Text) :
    (path.splitOnP fun letter => letter = '/' ∨ letter = '\\') =
      (path.splitOn '/').flatMap fun name => name.splitOn '\\' := by
  have either : (fun letter : Char => decide (letter = '/' ∨ letter = '\\')) =
      fun letter => letter == '/' || letter == '\\' := by
    funext letter
    rw [Bool.decide_or]
    rfl
  rw [either, splitOnP_or]
  rfl

theorem validateRelativePath_eq_ok {path : Text} (valid : validateRelativePath path = .ok ()) :
    ∀ name ∈ path.splitOn '/', InnerName name := by
  obtain ⟨_, zero, _, colon, checked⟩ := validateRelativePath_iff.mp valid
  rw [splitOn_separators] at checked
  intro name member
  have parts : ∀ part ∈ name.splitOn '\\', PlainName part := fun part inside =>
    validateSegment_eq_ok (checked part (mem_flatMap.mpr ⟨name, member, inside⟩))
  have whole : ∀ special : Text, '\\' ∉ special → name = special → PlainName name := by
    intro special single same
    apply parts
    rw [same, splitOn_eq_singleton single]
    exact mem_cons_self
  refine ⟨⟨?_, ?_, ?_⟩, parts, ?_⟩
  · intro same
    exact (whole _ (by decide) same).1 same
  · intro same
    exact (whole _ (by decide) same).2.1 same
  · intro same
    exact (whole _ (by decide) same).2.2 same
  · intro letter inside
    obtain ⟨known, slash⟩ := mem_of_mem_splitOn member inside
    exact ⟨slash, fun same => colon (same ▸ known), fun same => zero (same ▸ known)⟩

theorem validateRelativePath_forwardSlashes {path : Text} (valid : validateRelativePath path = .ok ()) :
    validateRelativePath (forwardSlashes path) = .ok () := by
  obtain ⟨nonempty, zero, relative, colon, checked⟩ := validateRelativePath_iff.mp valid
  rw [validateRelativePath_iff, ← splitOn_forwardSlashes, forwardSlashes_idem, splitOn_forwardSlashes,
    mem_forwardSlashes_iff (by decide) (by decide), mem_forwardSlashes_iff (by decide) (by decide), head_forwardSlashes]
  refine ⟨?_, zero, ?_, colon, checked⟩
  · rw [forwardSlashes, Ne, map_eq_nil_iff]
    exact nonempty
  · intro separated
    rcases separated with front | back
    · exact relative front
    · exact backslash_not_mem_forwardSlashes path (mem_of_mem_head? back)

theorem validateRelativePath_slash {root path : Text} (rooted : validateRelativePath root = .ok ())
    (valid : validateRelativePath path = .ok ()) : validateRelativePath (root ++ '/' :: path) = .ok () := by
  obtain ⟨named, rootZero, relative, rootColon, rootChecked⟩ := validateRelativePath_iff.mp rooted
  obtain ⟨_, zero, _, colon, checked⟩ := validateRelativePath_iff.mp valid
  rw [validateRelativePath_iff, splitOnP_append_cons _ _ (by decide), head?_append_of_ne_nil _ named,
    forall_mem_append]
  refine ⟨by simp, ?_, relative, ?_, rootChecked, checked⟩
  · simp [rootZero, zero]
  · simp [rootColon, colon]

end Names

section Components

theorem pathComponents_slash (base rest : Bytes) :
    pathComponents (base ++ 47 :: rest) =
      pathComponents (base ++ [47]) ++ (rest.splitOn 47).filter fun part => part ≠ [] ∧ part ≠ ascii "." := by
  obtain ⟨head, tail, shape⟩ := exists_cons_of_ne_nil (splitOn_ne_nil 47 base)
  have same : (base ++ 47 :: rest).head? = (base ++ [47]).head? := by
    cases base with
    | nil => rfl
    | cons => rfl
  simp only [pathComponents, splitOn_append_cons_self, same, shape, filter_append, splitOn_nil,
    append_assoc]
  rfl

theorem pathComponents_append_slash {base : Bytes} (nonempty : base ≠ []) :
    pathComponents (base ++ [47]) = pathComponents base := by
  obtain ⟨head, tail, shape⟩ := exists_cons_of_ne_nil (splitOn_ne_nil 47 base)
  have same : (base ++ [47]).head? = base.head? := head?_append_of_ne_nil base nonempty
  simp only [pathComponents, splitOn_append_cons_self, same, shape, filter_append, splitOn_nil]
  simp

variable {path : Bytes} (names : ∀ part ∈ path.splitOn 47, part ≠ [] ∧ part ≠ ascii ".")
include names

theorem head_ne_slash : path.head? ≠ some 47 := by
  intro slash
  obtain ⟨rest, rfl⟩ := head?_eq_some_iff.mp slash
  apply (names [] _).1 rfl
  exact mem_cons_self

theorem filter_names : (path.splitOn 47).filter (fun part => part ≠ [] ∧ part ≠ ascii ".") = path.splitOn 47 :=
  filter_eq_self.mpr fun part member => decide_eq_true (names part member)

theorem pathComponents_joinPath (base : Bytes) :
    pathComponents (joinPath base path) = pathComponents base ++ path.splitOn 47 := by
  rw [joinPath, if_neg (head_ne_slash names)]
  split
  case isTrue short =>
    rcases eq_nil_or_concat' base with rfl | ⟨front, last, rfl⟩
    · obtain ⟨head, tail, shape⟩ := exists_cons_of_ne_nil (splitOn_ne_nil 47 path)
      have notDot : (path.splitOn 47).head? ≠ some (ascii ".") := by
        rw [shape]
        intro dot
        exact (names head (shape ▸ mem_cons_self)).2 (Option.some.inj dot)
      have none : pathComponents [] = [] := by decide
      rw [nil_append, none, nil_append, pathComponents, if_neg (head_ne_slash names), if_neg notDot,
        nil_append, filter_names names]
    · have slash : last = 47 := by simpa using short
      rw [slash, append_assoc, singleton_append, pathComponents_slash, filter_names names]
  case isFalse long =>
    rw [pathComponents_slash, filter_names names, pathComponents_append_slash (not_or.mp long).1]

end Components

section Encoding

def IsUtf8 (bytes : Bytes) : Prop := ∃ value, bytes = utf8 value

theorem splitOn_slash_utf8 (value : Text) : (utf8 value).splitOn 47 = (value.splitOn '/').map utf8 :=
  @splitOn_utf8 '/' (by decide) value

theorem joinPath_utf8 {base : Bytes} (encoded : IsUtf8 base) (path : Text) : IsUtf8 (joinPath base (utf8 path)) := by
  obtain ⟨value, rfl⟩ := encoded
  rw [joinPath]
  split
  case isTrue => exact ⟨path, rfl⟩
  case isFalse =>
    split
    case isTrue => exact ⟨value ++ path, (utf8_append value path).symm⟩
    case isFalse =>
      refine ⟨value ++ '/' :: path, ?_⟩
      rw [utf8_append, utf8_cons]
      rfl

theorem utf8_fromUtf8Lossy {bytes : Bytes} (encoded : IsUtf8 bytes) : utf8 (fromUtf8Lossy bytes) = bytes := by
  obtain ⟨value, rfl⟩ := encoded
  rw [fromUtf8Lossy_utf8]

theorem isUtf8_of_mem_pathComponents {value : Text} {part : Bytes} (member : part ∈ pathComponents (utf8 value)) :
    IsUtf8 part := by
  have slash : IsUtf8 (ascii "/") := ⟨['/'], rfl⟩
  have dot : IsUtf8 (ascii ".") := ⟨['.'], rfl⟩
  rcases mem_append.mp member with lead | inner
  · split at lead
    case isTrue => exact mem_singleton.mp lead ▸ slash
    case isFalse =>
      split at lead
      case isTrue => exact mem_singleton.mp lead ▸ dot
      case isFalse => cases lead
  · have known := (mem_filter.mp inner).1
    rw [splitOn_slash_utf8] at known
    obtain ⟨name, _, rfl⟩ := mem_map.mp known
    exact ⟨name, rfl⟩

theorem isUtf8_intercalate {parts : List Bytes} (each : ∀ part ∈ parts, IsUtf8 part) :
    IsUtf8 ([47].intercalate parts) := by
  induction parts with
  | nil => exact ⟨[], rfl⟩
  | cons part parts ih =>
    obtain ⟨value, rfl⟩ := each part mem_cons_self
    cases parts with
    | nil => exact ⟨value, intercalate_singleton⟩
    | cons next parts =>
      obtain ⟨rest, joined⟩ := ih fun other member => each other (mem_cons_of_mem _ member)
      refine ⟨value ++ '/' :: rest, ?_⟩
      rw [intercalate_cons_cons, joined, utf8_append, utf8_cons]
      exact append_assoc ..

theorem isUtf8_of_pathComponents {path : Bytes} (each : ∀ part ∈ pathComponents path, IsUtf8 part) : IsUtf8 path := by
  rw [← @List.intercalate_splitOn _ path _ _ 47]
  apply isUtf8_intercalate
  intro part member
  by_cases empty : part = []
  · exact ⟨[], empty⟩
  · by_cases dot : part = ascii "."
    · exact ⟨['.'], dot⟩
    · apply each
      apply mem_append_right
      exact mem_filter.mpr ⟨member, decide_eq_true ⟨empty, dot⟩⟩

end Encoding

/-- At least one name more than the directory has, and only names that stay inside it. -/
def StrictlyBelow (directory path : Bytes) : Prop :=
  ∃ names : List Text, names ≠ [] ∧ (∀ name ∈ names, InnerName name) ∧
    pathComponents path = pathComponents directory ++ names.map utf8

theorem plainNames_utf8 {path : Text} (valid : validateRelativePath path = .ok ()) :
    ∀ part ∈ (utf8 path).splitOn 47, part ≠ [] ∧ part ≠ ascii "." := by
  intro part member
  rw [splitOn_slash_utf8] at member
  obtain ⟨name, known, rfl⟩ := mem_map.mp member
  obtain ⟨nonempty, notDot, _⟩ := (validateRelativePath_eq_ok valid name known).plain
  refine ⟨utf8_ne_nil nonempty, fun dot => notDot ?_⟩
  have read := congrArg fromUtf8Lossy dot
  rwa [fromUtf8Lossy_utf8, fromUtf8Lossy_ascii (by decide)] at read

theorem strictlyBelow_joinPath {path : Text} (valid : validateRelativePath path = .ok ()) (directory : Bytes) :
    StrictlyBelow directory (joinPath directory (utf8 path)) := by
  refine ⟨path.splitOn '/', splitOn_ne_nil _ _, validateRelativePath_eq_ok valid, ?_⟩
  rw [← splitOn_slash_utf8]
  exact pathComponents_joinPath (plainNames_utf8 valid) directory

theorem pathStartsWith_joinPath {path : Text} (valid : validateRelativePath path = .ok ()) (directory : Bytes) :
    pathStartsWith (joinPath directory (utf8 path)) directory = true := by
  obtain ⟨names, _, _, components⟩ := strictlyBelow_joinPath valid directory
  rw [pathStartsWith, components, isPrefixOf_iff_prefix]
  exact prefix_append _ _

theorem StrictlyBelow.trans {outer directory path : Bytes} (upper : StrictlyBelow outer directory)
    (lower : StrictlyBelow directory path) : StrictlyBelow outer path := by
  obtain ⟨names, nonempty, inner, components⟩ := upper
  obtain ⟨more, _, also, below⟩ := lower
  refine ⟨names ++ more, append_ne_nil_of_left_ne_nil nonempty _, ?_, ?_⟩
  · intro name member
    rcases mem_append.mp member with first | second
    · exact inner name first
    · exact also name second
  · rw [below, components, map_append, append_assoc]

theorem StrictlyBelow.isUtf8 {directory : Bytes} {path : Text} (below : StrictlyBelow directory (utf8 path)) :
    IsUtf8 directory := by
  obtain ⟨names, _, _, components⟩ := below
  apply isUtf8_of_pathComponents
  intro part member
  apply @isUtf8_of_mem_pathComponents path
  rw [components]
  exact mem_append_left _ member

/-- The path under which a file is opened. -/
def FileDetails.path (details : FileDetails UInt8) : Bytes := utf8 details.name.toList

namespace MetaInfoFile

variable {file : MetaInfoFile} {canonicalDownload directory : Bytes} {rootName : Text} {total : Nat}
  {files : Files}

/-- Below the download directory, and with several files below the directory of the torrent. -/
def Contained (file : MetaInfoFile) (canonicalDownload : Bytes) (details : FileDetails UInt8) : Prop :=
  StrictlyBelow canonicalDownload details.path ∧
    ((file.get (text "0")).isSome → ∀ name, file.get (text "name") = some name →
      StrictlyBelow (joinPath canonicalDownload (utf8 (fromUtf8Lossy name))) details.path)

variable {details : FileDetails UInt8}

theorem listedFiles_ne_nil {rounds fileNo totalBytes : Nat} (present : (file.get (numeral fileNo)).isSome)
    (listed : file.listedFiles rootName directory (rounds + 1) fileNo totalBytes = .ok (total, files)) :
    files ≠ [] := by
  rw [listedFiles] at listed
  split at listed
  case h_1 absent =>
    rw [absent] at present
    cases present
  case h_2 =>
    rw [bind_eq_ok] at listed
    obtain ⟨first, _, listed⟩ := listed
    rw [bind_eq_ok] at listed
    obtain ⟨⟨sum, rest⟩, _, listed⟩ := listed
    cases listed
    exact cons_ne_nil _ _

theorem path_of_name {path : Text} (encoded : IsUtf8 directory)
    (named : details.name = String.ofList (fromUtf8Lossy (joinPath directory (utf8 path)))) :
    details.path = joinPath directory (utf8 path) := by
  rw [FileDetails.path, named, String.toList_ofList, utf8_fromUtf8Lossy (joinPath_utf8 encoded path)]

section

variable (listed : file.localFilesToDownloadList canonicalDownload = .ok (total, files))
include listed

theorem localFiles_ne_nil : files ≠ [] := by
  rcases localFilesToDownloadList_eq_ok listed with ⟨_, single⟩ | ⟨name, present, _, _, several⟩
  · obtain ⟨_, _, details, _, _, _, _, rfl, _⟩ := singleFile_inv single
    exact cons_ne_nil _ _
  · exact listedFiles_ne_nil present several

theorem contained_of_utf8 (encoded : IsUtf8 canonicalDownload) (member : details ∈ files) :
    file.Contained canonicalDownload details := by
  rcases localFilesToDownloadList_eq_ok listed with ⟨absent, single⟩ | ⟨name, _, known, valid, several⟩
  · obtain ⟨_, _, found, _, _, valid, _, rfl, _, named, _⟩ := singleFile_inv single
    rw [mem_singleton.mp member]
    refine ⟨?_, fun present => ?_⟩
    · rw [path_of_name encoded named]
      exact strictlyBelow_joinPath valid canonicalDownload
    · rw [absent] at present
      cases present
  · obtain ⟨_, _, _, found⟩ := (listed_of_listedFiles several).of_mem member
    obtain ⟨path, _, accepted, _, named, _⟩ := listedFile_inv found
    have below := strictlyBelow_joinPath accepted (joinPath canonicalDownload (utf8 (fromUtf8Lossy name)))
    rw [← path_of_name (joinPath_utf8 encoded _) named] at below
    refine ⟨(strictlyBelow_joinPath valid canonicalDownload).trans below, ?_⟩
    intro _ other same
    rw [known] at same
    cases same
    exact below

/-- Every file is placed below the download directory, exactly when that is in UTF-8. -/
theorem localFiles_contained_iff :
    (∀ details ∈ files, file.Contained canonicalDownload details) ↔ IsUtf8 canonicalDownload := by
  constructor
  · intro contained
    obtain ⟨details, rest, rfl⟩ := exists_cons_of_ne_nil (localFiles_ne_nil listed)
    exact (contained details mem_cons_self).1.isUtf8
  · intro encoded details member
    exact contained_of_utf8 listed encoded member

end

/-- Two files in a directory `r`. -/
def twoFiles : Bytes :=
  ascii "d8:announce1:u4:infod5:filesld6:lengthi5e4:pathl1:a1:beed6:lengthi2e4:pathl1:ceee4:name1:r12:piece lengthi1e6:pieces0:ee"

theorem twoFiles_listed : ((parse Digests.zero (.fromBytes twoFiles)).bind fun file =>
    file.localFilesToDownloadList (ascii "/d")).isOk = true := by
  decide +kernel

theorem twoFiles_contained : ∃ file total files, parse Digests.zero (.fromBytes twoFiles) = .ok file ∧
    file.localFilesToDownloadList (ascii "/d") = .ok (total, files) ∧
    ∀ details ∈ files, file.Contained (ascii "/d") details := by
  obtain ⟨⟨total, files⟩, ran⟩ := exists_of_isOk twoFiles_listed
  obtain ⟨file, parsed, listed⟩ := bind_eq_ok.mp ran
  exact ⟨file, total, files, parsed, listed, (localFiles_contained_iff listed).mpr ⟨text "/d", rfl⟩⟩

theorem twoFiles_lossy : ((parse Digests.zero (.fromBytes twoFiles)).bind fun file =>
    (file.localFilesToDownloadList (ascii "/d" ++ [255])).map fun listed => listed.2.map FileDetails.path).toOption =
      some [ascii "/d" ++ [0xEF, 0xBF, 0xBD] ++ ascii "/r/a/b", ascii "/d" ++ [0xEF, 0xBF, 0xBD] ++ ascii "/r/c"] := by
  decide +kernel

/-- A download directory with a byte that is not UTF-8: the files are placed beside it. -/
theorem twoFiles_outside : ∃ file total files, parse Digests.zero (.fromBytes twoFiles) = .ok file ∧
    file.localFilesToDownloadList (ascii "/d" ++ [255]) = .ok (total, files) ∧
    ∃ details ∈ files, details.path = ascii "/d" ++ [0xEF, 0xBF, 0xBD] ++ ascii "/r/a/b" ∧
      ¬file.Contained (ascii "/d" ++ [255]) details := by
  obtain ⟨file, parsed, ran⟩ := bind_eq_ok.mp (eq_ok_of_toOption twoFiles_lossy)
  obtain ⟨⟨total, files⟩, listed, paths⟩ := map_eq_ok.mp ran
  cases files with
  | nil => cases paths
  | cons details files =>
    have placed := (cons.inj paths).1
    refine ⟨file, total, details :: files, parsed, listed, details, mem_cons_self, placed, ?_⟩
    intro contained
    obtain ⟨names, _, _, components⟩ := contained.1
    have above : pathComponents (ascii "/d" ++ [255]) <+: pathComponents details.path :=
      ⟨names.map utf8, components.symm⟩
    rw [placed] at above
    revert above
    decide

end MetaInfoFile

end BitTorrent
