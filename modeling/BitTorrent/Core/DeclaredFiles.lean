import BitTorrent.Core.InfoReading
import BitTorrent.Core.PathContainment

/-! # The files that a torrent declares

The files of an `info` dictionary, and the texts that stand for them in the dictionary of the
parser.  A file is kept as one text with zero characters between its parts, which is cut again for
the list of the files to download.
-/

namespace BitTorrent

open Bencode BNode FileDetails Option
open List hiding length

variable {key : Text}

/-- A file of `info`: its path, and its length as it is written there. -/
structure DeclaredFile where
  path : Text
  length : Text
deriving DecidableEq, Repr

namespace DeclaredFile

def size? (declared : DeclaredFile) : Option Nat := parseUnsigned u64Size (utf8 declared.length)

/-- A file that survives being written down and cut again. -/
structure Representable (declared : DeclaredFile) : Prop where
  noZero : '\x00' ∉ declared.path
  relative : declared.path.head? ≠ some '/' ∧ declared.path.head? ≠ some '\\'
  sized : declared.size?.isSome

end DeclaredFile

/-- The details of a file say what was declared. -/
structure FaithfulFile (above : Text) (directory : Bytes) (declared : DeclaredFile) (details : FileDetails UInt8) :
    Prop where
  torrentPath : details.torrentPath = String.ofList (forwardSlashes (above ++ declared.path))
  name : details.name = String.ofList (fromUtf8Lossy (joinPath directory (utf8 declared.path)))
  length : declared.size? = some details.length

section Texts

theorem validateRelativePath_plain {path : Text} (valid : validateRelativePath path = .ok ()) :
    '\x00' ∉ path ∧ ¬(path.head? = some '/' ∨ path.head? = some '\\') := by
  obtain ⟨_, zero, relative, _⟩ := validateRelativePath_iff.mp valid
  exact ⟨zero, relative⟩

end Texts

/-- A text that stands for a declared file in the dictionary of the parser. -/
structure Stores (entry : Text) (declared : DeclaredFile) : Prop where
  shape : ∃ lead length tail, entry = lead ++ declared.path ++ '\x00' :: (length ++ tail) ∧
    (lead = ['/'] ∨ lead = [] ∧ declared.path = []) ∧ (tail = [] ∨ ∃ more, tail = '\x00' :: more) ∧
    ∀ size, declared.size? = some size → '\x00' ∉ length ∧ parseUnsigned u64Size (utf8 length) = some size

theorem Stores.parts {entry : Text} {declared : DeclaredFile} (stores : Stores entry declared)
    (noZero : '\x00' ∉ declared.path) {size : Nat} (sized : declared.size? = some size) :
    ∃ lead length rest, entry.splitOn '\x00' = (lead ++ declared.path) :: length :: rest ∧
      (lead = ['/'] ∨ lead = [] ∧ declared.path = []) ∧ parseUnsigned u64Size (utf8 length) = some size := by
  obtain ⟨lead, length, tail, rfl, front, back, known⟩ := stores.shape
  obtain ⟨clean, parsed⟩ := known size sized
  have absent : '\x00' ∉ lead ++ declared.path := by
    intro member
    rcases mem_append.mp member with inLead | inPath
    · rcases front with rfl | ⟨rfl, _⟩
      · cases mem_singleton.mp inLead
      · cases inLead
    · exact noZero inPath
  rw [splitOn_append_cons_self_of_not_mem absent]
  rcases back with rfl | ⟨more, rfl⟩
  · refine ⟨lead, length, [], ?_, front, parsed⟩
    rw [append_nil, splitOn_eq_singleton clean]
  · refine ⟨lead, length, more.splitOn '\x00', ?_, front, parsed⟩
    rw [splitOn_append_cons_self_of_not_mem clean]

theorem dropWhile_separators {lead path : Text} (front : lead = ['/'] ∨ lead = [] ∧ path = [])
    (relative : path.head? ≠ some '/' ∧ path.head? ≠ some '\\') :
    (lead ++ path).dropWhile (fun letter => decide (letter = '/' ∨ letter = '\\')) = path := by
  have kept : path.dropWhile (fun letter => decide (letter = '/' ∨ letter = '\\')) = path := by
    cases path with
    | nil => rfl
    | cons letter rest =>
      apply dropWhile_cons_of_neg
      intro separator
      rcases of_decide_eq_true separator with rfl | rfl
      · exact relative.1 rfl
      · exact relative.2 rfl
  rcases front with rfl | ⟨rfl, rfl⟩
  · rw [singleton_append, dropWhile_cons_of_pos (by decide), kept]
  · rfl

namespace MetaInfoFile

variable {file : MetaInfoFile} {rootName : Text} {directory canonicalDownload : Bytes} {fileNo offset total : Nat}
  {details : FileDetails UInt8} {files : Files}

theorem faithfulFile_iff {entry : Text} {declared : DeclaredFile} (stores : Stores entry declared)
    (listed : file.listedFile rootName directory entry fileNo offset = .ok details) :
    FaithfulFile (rootName ++ ['/']) directory declared details ↔ declared.Representable := by
  obtain ⟨path, trimmed, valid, torrentPath, name, length, _⟩ := listedFile_inv listed
  obtain ⟨noZero, relative⟩ := validateRelativePath_plain valid
  constructor
  · intro faithful
    have same : forwardSlashes declared.path = forwardSlashes path := by
      have texts := String.ofList_injective (torrentPath.symm.trans faithful.torrentPath)
      rw [append_assoc, singleton_append, forwardSlashes_append, forwardSlashes_append] at texts
      exact (cons.inj (append_cancel_left texts)).2.symm
    refine ⟨?_, ?_, by rw [faithful.length]; rfl⟩
    · have kept : ∀ text, '\x00' ∈ forwardSlashes text ↔ '\x00' ∈ text := fun _ =>
        mem_forwardSlashes_iff (by decide) (by decide)
      rw [← kept, same, kept]
      exact noZero
    · rw [← not_or, ← head_forwardSlashes, same, head_forwardSlashes]
      exact relative
  · intro representable
    obtain ⟨size, sized⟩ := isSome_iff_exists.mp representable.sized
    obtain ⟨lead, written, rest, parts, front, parsed⟩ := stores.parts representable.noZero sized
    rw [parts, getElem?_cons_zero, getD_some, dropWhile_separators front representable.relative] at trimmed
    rw [parts, getElem?_cons_succ, getElem?_cons_zero, getD_some, parsed] at length
    rw [trimmed] at torrentPath name
    refine ⟨?_, name, sized.trans length⟩
    rw [torrentPath, append_assoc, singleton_append]

section Listing

variable {entries : List Text}

section

variable (run : Listed file rootName directory fileNo offset entries total files)
include run

theorem Listed.length_eq : files.length = entries.length := by
  induction run with
  | nil => rfl
  | cons _ _ ih => rw [length_cons, length_cons, ih]

theorem Listed.total_lt (small : offset < u64Size) : total < u64Size := by
  induction run with
  | nil => exact small
  | cons _ _ ih => exact ih (Nat.mod_lt _ (by decide))

theorem Listed.exact (small : offset + (files.map length).sum < u64Size) :
    total = offset + (files.map length).sum ∧
      ∀ index details, files[index]? = some details →
        details.offset = offset + ((files.take index).map length).sum := by
  induction run with
  | nil => exact ⟨rfl, fun _ _ known => (nomatch known)⟩
  | @cons fileNo offset total entry entries details files first rest ih =>
    rw [map_cons, sum_cons] at small ⊢
    rw [Nat.mod_eq_of_lt (by omega)] at ih
    obtain ⟨sum, offsets⟩ := ih (by omega)
    refine ⟨by omega, ?_⟩
    intro index other known
    cases index with
    | zero =>
      cases known
      obtain ⟨_, _, _, _, _, _, start, _⟩ := listedFile_inv first
      rw [start]
      rfl
    | succ index =>
      rw [offsets index other known, take_succ_cons, map_cons, sum_cons, Nat.add_assoc]

theorem Listed.faithful_iff {declared : List DeclaredFile} (stored : Forall₂ Stores entries declared) :
    Forall₂ (FaithfulFile (rootName ++ ['/']) directory) declared files ↔
      ∀ one ∈ declared, one.Representable := by
  induction run generalizing declared with
  | nil =>
    cases stored
    simp
  | cons first rest ih =>
    cases stored with
    | cons one others =>
      rw [forall₂_cons, forall_mem_cons, faithfulFile_iff one first, ih others]

end

theorem listedSize_eq {rounds : Nat} (done : file.listedFiles rootName directory rounds fileNo offset = .ok (total, files)) :
    file.listedSize rounds fileNo offset = total := by
  induction rounds generalizing fileNo offset total files with
  | zero =>
    cases done
    rfl
  | succ rounds ih =>
    rw [listedFiles] at done
    rw [listedSize]
    split at done
    case h_1 =>
      cases done
      rfl
    case h_2 entry _ =>
      rw [bind_eq_ok] at done
      obtain ⟨details, one, done⟩ := done
      rw [bind_eq_ok] at done
      obtain ⟨⟨sum, rest⟩, later, done⟩ := done
      cases done
      obtain ⟨_, _, _, _, _, length, _⟩ := listedFile_inv one
      have added : ((((fromUtf8Lossy entry).splitOn '\x00')[1]?).bind fun value =>
          parseUnsigned u64Size (utf8 value)).getD 0 = details.length := by
        cases second : ((fromUtf8Lossy entry).splitOn '\x00')[1]? with
        | none =>
          rw [second] at length
          exact some.inj (Eq.trans (by decide +kernel) length)
        | some value =>
          rw [second, getD_some] at length
          rw [bind_some, length, getD_some]
      dsimp only
      rw [added]
      exact ih later

end Listing

section Declarations

theorem dictGet_cons (entry : Bytes × BNode) (entries : Entries) (key : Bytes) :
    (dictionary (entry :: entries)).dictGet key =
      if entry.1 = key then some entry.2 else (dictionary entries).dictGet key := by
  rw [dictGet, dictGet, find?_cons]
  split
  case h_1 same => rw [if_pos (beq_iff_eq.mp same), map_some]
  case h_2 other => rw [if_neg (beq_eq_false_iff_ne.mp other)]

variable {entries : Entries} {item : BNode}

theorem dictGet_eq_none {key : Bytes} (absent : key ∉ entries.map Prod.fst) :
    (dictionary entries).dictGet key = none := by
  induction entries with
  | nil => rfl
  | cons entry entries ih =>
    obtain ⟨different, later⟩ := ne_and_not_mem_of_not_mem_cons absent
    rw [dictGet_cons, if_neg different.symm, ih later]

theorem foldlM_entry {σ α : Type} {step : σ → Bytes × BNode → Option σ} (part : σ → α) (key : Bytes)
    (update : BNode → α → α)
    (hit : ∀ state value next, step state (key, value) = some next → part next = update value (part state))
    (miss : ∀ state entry next, entry.1 ≠ key → step state entry = some next → part next = part state)
    (distinct : (entries.map Prod.fst).Nodup) {state last : σ} (run : entries.foldlM step state = some last) :
    part last = ((dictionary entries).dictGet key).elim (part state) fun value => update value (part state) := by
  induction entries generalizing state with
  | nil =>
    cases run
    rfl
  | cons entry entries ih =>
    obtain ⟨name, value⟩ := entry
    rw [map_cons, nodup_cons] at distinct
    rw [foldlM_cons, bind_eq_bind, bind_eq_some_iff] at run
    obtain ⟨next, first, rest⟩ := run
    rw [ih distinct.2 rest, dictGet_cons]
    by_cases same : name = key
    · cases same
      rw [if_pos rfl, dictGet_eq_none distinct.1]
      exact hit state value next first
    · rw [if_neg same, miss state (name, value) next same first]

/-- What a fold over entries with different keys makes of one of them. -/
theorem foldl_entry {σ α : Type} {apply : σ → Bytes × BNode → σ} (part : σ → α) (key : Bytes) (update : BNode → α → α)
    (hit : ∀ state value, part (apply state (key, value)) = update value (part state))
    (miss : ∀ state entry, entry.1 ≠ key → part (apply state entry) = part state)
    (distinct : (entries.map Prod.fst).Nodup) (state : σ) :
    part (entries.foldl apply state) =
      ((dictionary entries).dictGet key).elim (part state) fun value => update value (part state) := by
  refine foldlM_entry part key update (fun state value next same => ?_) (fun state entry next other same => ?_) distinct
    (foldlM_pure (m := Option) ..)
  · exact some.inj same ▸ hit state value
  · exact some.inj same ▸ miss state entry other

def declaredItem (item : BNode) : DeclaredFile where
  path := joinSlash (((dictionary item.dictEntries).dictGet (ascii "path")).elim [] pathSegmentsOf)
  length := (((dictionary item.dictEntries).dictGet (ascii "length")).bind scalarBytes).elim [] fromUtf8Lossy

def declaredLeaf (leaf : Leaf) : DeclaredFile where
  path := leaf.1
  length := (((dictionary leaf.2).dictGet (ascii "length")).bind asNumberBytes).elim [] fromUtf8Lossy

theorem itemFields_length (typed : typedItem item = true) : (itemFields item).length = (declaredItem item).length := by
  rw [typedItem, Bool.and_eq_true, decide_eq_true_eq] at typed
  rw [itemFields, declaredItem, foldl_entry FileFields.length (ascii "length")
    (fun value length => (value.scalarBytes.map fromUtf8Lossy).getD length) (fun _ _ => rfl) _ typed.1]
  · cases (dictionary item.dictEntries).dictGet (ascii "length") with
    | none => rfl
    | some value =>
      rw [elim_some, bind_some]
      cases value.scalarBytes with
      | none => rfl
      | some bytes => rfl
  · intro fields entry other
    rw [applyField, if_neg other]
    repeat' split
    all_goals rfl

theorem itemFields_path (typed : typedItem item = true) :
    joinSlash (itemFields item).pathSegments = (declaredItem item).path := by
  rw [typedItem, Bool.and_eq_true, decide_eq_true_eq] at typed
  rw [itemFields, declaredItem, foldl_entry FileFields.pathSegments (ascii "path")
    (fun value segments => segments ++ pathSegmentsOf value) (fun _ _ => rfl) _ typed.1]
  · cases (dictionary item.dictEntries).dictGet (ascii "path") with
    | none => rfl
    | some value => rfl
  · intro fields entry other
    rw [applyField, if_neg other]
    repeat' split
    all_goals rfl

theorem zero_not_mem_of_parse {limit size : Nat} {value : Text} (parsed : parseUnsigned limit (utf8 value) = some size) :
    '\x00' ∉ value := by
  intro member
  have zero : (0 : UInt8) ∈ utf8 value :=
    mem_flatMap.mpr ⟨_, member, (@mem_utf8EncodeChar _ '\x00' (by decide)).mpr rfl⟩
  have known := (filter_eq_some_iff.mp parsed).1
  split at known
  case h_1 digits shape =>
    rw [shape] at zero
    rcases mem_cons.mp zero with plus | inside
    · cases plus
    · exact absurd (all_eq_true.mp (digits_of_decimalValue known).2 0 inside) (by decide)
  case h_2 => exact absurd (all_eq_true.mp (digits_of_decimalValue known).2 0 zero) (by decide)

theorem stores_item (typed : typedItem item = true) : Stores (itemRecord item).entry (declaredItem item) := by
  have path := itemFields_path typed
  have length := itemFields_length typed
  have lengths : ∀ size, (declaredItem item).size? = some size →
      '\x00' ∉ (itemFields item).length ∧ parseUnsigned u64Size (utf8 (itemFields item).length) = some size := by
    intro size sized
    rw [DeclaredFile.size?, ← length] at sized
    exact ⟨zero_not_mem_of_parse sized, sized⟩
  rw [itemRecord, FileFields.entry]
  cases segments : (itemFields item).pathSegments with
  | nil =>
    rw [segments] at path
    refine ⟨[], (itemFields item).length, '\x00' :: (itemFields item).md5sum, ?_, .inr ⟨rfl, path.symm⟩, .inr ⟨_, rfl⟩, lengths⟩
    rw [← path]
    rfl
  | cons segment more =>
    rw [segments, joinSlash_cons] at path
    refine ⟨['/'], (itemFields item).length, '\x00' :: (itemFields item).md5sum, ?_, .inl rfl, .inr ⟨_, rfl⟩, lengths⟩
    rw [← path]
    simp

theorem isUtf8_digits {depth : Nat} {digits : Bytes} (proper : Proper depth (.number digits)) : IsUtf8 digits := by
  cases depth with
  | zero => cases proper
  | succ depth =>
    obtain ⟨value, _, rfl⟩ := proper
    rw [integerText]
    split
    case isTrue => exact ⟨'-' :: numeral value.natAbs, rfl⟩
    case isFalse => exact ⟨numeral value.natAbs, rfl⟩

theorem stores_leaf {leaf : Leaf} (typed : typedLeaf leaf = true)
    (proper : ∀ entry ∈ leaf.2, ∃ depth, Proper depth entry.2) :
    Stores (FileRecord.ofLeaf (leafFile leaf)).entry (declaredLeaf leaf) := by
  rw [typedLeaf, Bool.and_eq_true, decide_eq_true_eq] at typed
  have length : (leafFile leaf).2.1 = ((dictionary leaf.2).dictGet (ascii "length")).elim 0
      fun value => (value.asNumberBytes.bind (parseUnsigned u64Size)).getD 0 := by
    rw [leafFile, foldl_entry Prod.fst (ascii "length")
      (fun value length => (value.asNumberBytes.bind (parseUnsigned u64Size)).getD length) (fun _ _ => rfl) _ typed.1]
    intro properties entry other
    rw [applyProperty, if_neg other]
    split <;> rfl
  refine ⟨['/'], numeral (leafFile leaf).2.1, [], ?_, .inl rfl, .inl rfl, ?_⟩
  · rw [append_nil]
    rfl
  · intro size sized
    rw [DeclaredFile.size?, declaredLeaf] at sized
    cases found : (dictionary leaf.2).dictGet (ascii "length") with
    | none =>
      rw [found] at sized
      cases sized
    | some value =>
      rw [found, bind_some] at sized
      rw [found, elim_some] at length
      cases value with
      | dictionary entries => cases sized
      | list items => cases sized
      | string bytes => cases sized
      | number digits =>
        obtain ⟨depth, numeric⟩ := proper _ (mem_of_dictGet found)
        have parsed : parseUnsigned u64Size digits = some size := by
          rw [← utf8_fromUtf8Lossy (isUtf8_digits numeric)]
          exact sized
        rw [asNumberBytes, bind_some, parsed, getD_some] at length
        have again : parseUnsigned u64Size (utf8 (numeral size)) = some size :=
          parseUnsigned_decimal (parseUnsigned_lt parsed)
        rw [length]
        exact ⟨zero_not_mem_of_parse again, again⟩

variable (info : Entries)

/-- The single file of a torrent without list and tree. -/
def declaredSingle : DeclaredFile where
  path := (((dictionary info).dictGet (ascii "name")).bind scalarBytes).elim [] fromUtf8Lossy
  length := (((dictionary info).dictGet (ascii "length")).bind scalarBytes).elim [] fromUtf8Lossy

/-- The files of an `info` dictionary; the list goes before the tree. -/
def declaredFiles : List DeclaredFile :=
  match (dictionary info).dictGet (ascii "files"), (dictionary info).dictGet (ascii "file tree") with
  | some files, _ => files.listItems.map declaredItem
  | none, some tree => (leavesOf [] tree).map declaredLeaf
  | none, none => [declaredSingle info]

/-- Whether the files stand in a directory of the torrent. -/
def hasDirectory : Bool :=
  ((dictionary info).dictGet (ascii "files")).isSome || ((dictionary info).dictGet (ascii "file tree")).isSome

/-- The list of the files to download is what `info` declares. -/
structure Faithful (file : MetaInfoFile) (info : Entries) (canonicalDownload : Bytes) (total : Nat)
    (files : Files) : Prop where
  entries : Forall₂
    (FaithfulFile (if hasDirectory info then (declaredSingle info).path ++ ['/'] else [])
      (if hasDirectory info then joinPath canonicalDownload (utf8 (declaredSingle info).path) else canonicalDownload))
    (declaredFiles info) files
  offsets : ∀ index details, files[index]? = some details →
    details.offset = ((files.take index).map length).sum
  sum : total = (files.map length).sum
  size : file.getTotalSize = .ok total

/-- An `info` dictionary with different keys whose files have fields of the right types, and in which
a list of files does not go before a file tree. -/
structure TypedInfo : Prop where
  distinct : (info.map Prod.fst).Nodup
  treeFirst : info.Pairwise fun left right => left.1 = ascii "files" → right.1 ≠ ascii "file tree"
  entries : ∀ entry ∈ info, typedEntry entry = true

/-- The tree has no more files than the list, if there are both. -/
def TreeFits : Prop :=
  ∀ files tree, (dictionary info).dictGet (ascii "files") = some files →
    (dictionary info).dictGet (ascii "file tree") = some tree → (leavesOf [] tree).length ≤ files.listItems.length

/-- What the dictionary of the parser can hold of the declared files. -/
structure Representable : Prop where
  nonempty : declaredFiles info ≠ []
  tree : TreeFits info
  files : ∀ declared ∈ declaredFiles info, declared.Representable
  sum : ((declaredFiles info).map fun declared => declared.size?.getD 0).sum < u64Size

/-- The names with which a list is not refused. -/
structure Admissible : Prop where
  name : validateRelativePath (declaredSingle info).path = .ok ()
  paths : ∀ declared ∈ declaredFiles info, validateRelativePath declared.path = .ok ()

end Declarations

section Numbers

/-- The entries under the numbers from zero on. -/
def Numbered (file : MetaInfoFile) (entries : List Text) : Prop :=
  ∀ index, file.get (numeral index) = entries[index]?.map utf8

def overlay (above below : List Text) : List Text := above ++ below.drop above.length

theorem overlay_getElem? (above below : List Text) (index : Nat) :
    (overlay above below)[index]? = above[index]?.or below[index]? := by
  rw [overlay, getElem?_append]
  split
  case isTrue small => rw [getElem?_eq_getElem small, some_or]
  case isFalse large =>
    rw [getElem?_eq_none (Nat.le_of_not_lt large), none_or, getElem?_drop]
    congr 1
    omega

variable (info : Entries)

/-- The records of the list `files` and of the file tree. -/
def listRecords : List FileRecord :=
  ((dictionary info).dictGet (ascii "files")).elim [] fun files => files.listItems.map itemRecord

def leafRecords : List FileRecord :=
  ((dictionary info).dictGet (ascii "file tree")).elim [] treeRecords

def filesTexts : List Text := (listRecords info).map FileRecord.entry

def treeTexts : List Text := (leafRecords info).map FileRecord.entry

def storedTexts : List Text := overlay (filesTexts info) (treeTexts info)

theorem fileKey_ne_infoField (fileKey : FileKey key) {name : Bytes} (known : name ∈ infoFields) :
    key ≠ fromUtf8Lossy name := by
  have apart : key ∉ infoFields.map fromUtf8Lossy := fileKey.not_mem (by decide +kernel) (by decide +kernel)
  intro same
  exact apart (same ▸ mem_map_of_mem known)

theorem get_addRecords_congr (fileKey : FileKey key) {other : MetaInfoFile}
    (same : ∀ key, FileKey key → file.get key = other.get key) (records : List FileRecord) :
    (file.addRecords records).get key = (other.addRecords records).get key := by
  cases fileKey with
  | number fileNo => rw [get_addRecords_number, get_addRecords_number, same _ (.number fileNo)]
  | root fileNo => rw [get_addRecords_root, get_addRecords_root, same _ (.root fileNo)]
  | path path => rw [get_addRecords_path, get_addRecords_path, same _ (.path path)]

variable {info : Entries}

section

variable (distinct : (info.map Prod.fst).Nodup)
  (treeFirst : info.Pairwise fun left right => left.1 = ascii "files" → right.1 ≠ ascii "file tree")
include distinct treeFirst

/-- The files after an `info` dictionary: the list over the tree. -/
theorem get_foldl_fileKey (fileKey : FileKey key) :
    (info.foldl applyEntry file).get key =
      ((file.addRecords (leafRecords info)).addRecords (listRecords info)).get key := by
  induction info generalizing file with
  | nil => rfl
  | cons entry info ih =>
    obtain ⟨name, value⟩ := entry
    rw [map_cons, nodup_cons] at distinct
    rw [pairwise_cons] at treeFirst
    have absent := dictGet_eq_none distinct.1
    rw [foldl_cons, ih distinct.2 treeFirst.2, listRecords, leafRecords, listRecords, leafRecords, dictGet_cons, dictGet_cons,
      applyEntry]
    by_cases files : name = ascii "files"
    · have unnamed : ascii "files" ∉ infoFields := by decide
      have notTree : ascii "files" ≠ ascii "file tree" := by decide
      cases files
      have noTree : (dictionary info).dictGet (ascii "file tree") = none := by
        apply dictGet_eq_none
        intro member
        obtain ⟨next, known, same⟩ := mem_map.mp member
        exact treeFirst.1 next known rfl same
      rw [if_neg unnamed, if_pos rfl, if_pos rfl, if_neg notTree, absent, noTree]
      rfl
    by_cases tree : name = ascii "file tree"
    · have unnamed : ascii "file tree" ∉ infoFields := by decide
      have notFiles : ascii "file tree" ≠ ascii "files" := by decide
      cases tree
      rw [if_neg unnamed, if_neg notFiles, if_pos rfl, if_neg notFiles, if_pos rfl, absent]
      rfl
    split
    case isTrue known =>
      split
      case h_1 bytes _ =>
        have kept : ∀ key, FileKey key → (file.insert (fromUtf8Lossy name) bytes).get key = file.get key :=
          fun key fileKey => get_insert_of_ne (fileKey_ne_infoField fileKey known)
        exact get_addRecords_congr fileKey (fun key fileKey => get_addRecords_congr fileKey kept _) _
      case h_2 => rfl
    case isFalse => rfl

theorem numbered_foldl (blank : Numbered file []) : Numbered (info.foldl applyEntry file) (storedTexts info) := by
  intro index
  rw [get_foldl_fileKey distinct treeFirst (.number index), get_addRecords_number, get_addRecords_number, blank index,
    storedTexts, overlay_getElem?, filesTexts, treeTexts, getElem?_map, getElem?_map]
  cases (listRecords info)[index]? with
  | some record => rfl
  | none =>
    cases (leafRecords info)[index]? with
    | some record => rfl
    | none => rfl

end

theorem get_applyEntry_other {entry : Bytes × BNode} (other : ¬FileKey key)
    (unread : entry.1 ∈ infoFields → key ≠ fromUtf8Lossy entry.1) : (applyEntry file entry).get key = file.get key := by
  rw [applyEntry]
  split
  case isTrue known =>
    split
    case h_1 => exact get_insert_of_ne (unread known)
    case h_2 => rfl
  case isFalse =>
    split
    case isTrue => exact get_addRecords_other other
    case isFalse =>
      split
      case isTrue => exact get_addRecords_other other
      case isFalse => rfl

theorem get_foldl_field (distinct : (info.map Prod.fst).Nodup) {name : String}
    (known : ascii name ∈ infoFields) (named : text name ∈ namedKeys)
    (small : name.toList.all (fun letter => letter.toNat ≤ 127) = true) (absent : file.get (text name) = none) :
    (info.foldl applyEntry file).get (text name) =
      ((dictionary info).dictGet (ascii name)).bind scalarBytes := by
  have hit : ∀ (file : MetaInfoFile) (value : BNode),
      (applyEntry file (ascii name, value)).get (text name) = value.scalarBytes.or (file.get (text name)) := by
    intro file value
    rw [applyEntry, if_pos known]
    cases value.scalarBytes with
    | none => rfl
    | some bytes => rw [fromUtf8Lossy_ascii small, get_insert_self, some_or]
  have miss : ∀ (file : MetaInfoFile) (entry : Bytes × BNode), entry.1 ≠ ascii name →
      (applyEntry file entry).get (text name) = file.get (text name) := by
    intro file entry other
    refine get_applyEntry_other (fun fileKey => fileKey.not_named named) fun field same => other ?_
    rw [← isUtf8_infoField field, ← same, utf8_text small]
  rw [foldl_entry (fun file : MetaInfoFile => file.get (text name)) (ascii name)
    (fun value stored => value.scalarBytes.or stored) hit miss distinct, absent]
  cases (dictionary info).dictGet (ascii name) with
  | none => rfl
  | some value => rw [elim_some, bind_some, or_none]

end Numbers

end MetaInfoFile

end BitTorrent
