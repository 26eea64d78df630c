import BitTorrent.Core.RootReading

/-! # Reading the info dictionary

What the parser keeps of an `info` dictionary whose fields have the right types, as a function of
the tree.
-/

namespace BitTorrent

open Bencode BNode List

variable {node : BNode} {entry : Bytes × BNode}

def BNode.isList : BNode → Bool
  | .list _ => true
  | _ => false

def BNode.isDictionary : BNode → Bool
  | .dictionary _ => true
  | _ => false

namespace MetaInfoFile

variable {depth : Nat} {rest rest' : Bytes}

section Items

def pathSegmentsOf (value : BNode) : List Text :=
  value.listItems.filterMap fun item => item.stringBytes.map fromUtf8Lossy

def applyField (fields : FileFields) (entry : Bytes × BNode) : FileFields :=
  if entry.1 = ascii "length" then
    { fields with length := (entry.2.scalarBytes.map fromUtf8Lossy).getD fields.length }
  else if entry.1 = ascii "pieces root" then
    match entry.2.stringBytes with
    | some root => if root.length = 32 then { fields with piecesRoot := some root } else fields
    | none => fields
  else if entry.1 = ascii "md5sum" then
    { fields with md5sum := (entry.2.scalarBytes.map fromUtf8Lossy).getD fields.md5sum }
  else if entry.1 = ascii "path" then
    { fields with pathSegments := fields.pathSegments ++ pathSegmentsOf entry.2 }
  else fields

/-- Fields of an item that have one value. -/
def scalarFields : List Bytes := [ascii "length", ascii "pieces root", ascii "md5sum"]

def typedField (entry : Bytes × BNode) : Bool :=
  if entry.1 ∈ scalarFields then entry.2.isScalar
  else if entry.1 = ascii "path" then entry.2.listItems.all BNode.isString
  else true

def itemFields (item : BNode) : FileFields := item.dictEntries.foldl applyField .empty

def itemRecord (item : BNode) : FileRecord :=
  ⟨joinSlash (itemFields item).pathSegments, (itemFields item).piecesRoot, (itemFields item).entry⟩

/-- A field of an item that is read to its end. -/
def readableField (entry : Bytes × BNode) : Bool :=
  typedField entry && (decide (entry.1 ≠ ascii "path") || entry.2.isList)

def readableItem (item : BNode) : Bool := item.isDictionary && item.dictEntries.all readableField

theorem parsePath_run {segments : List Text} {items : List BNode} (proper : ∀ item ∈ items, Proper depth item)
    (strings : ∀ item ∈ items, item.isString = true) :
    readUntilEnd true parsePathSegment segments (items.flatMap spell ++ 101 :: rest) =
      .ok (segments ++ pathSegmentsOf (.list items), rest) := by
  rw [← toOption_eq_some, readUntilEnd_values_guard
    (fun segments item => segments ++ (item.stringBytes.map fromUtf8Lossy).toList) (fun _ => true) proper]
  · have all : (items.all fun _ => true) = true := all_eq_true.mpr fun _ _ => rfl
    rw [if_pos all, foldl_append_eq_append, pathSegmentsOf, listItems, filterMap_eq_flatMap_toList,
      flatMap_def]
  · intro item member segments rest
    obtain ⟨bytes, rfl⟩ := eq_string_of_isString (strings item member)
    rfl

/-- A field of the right type is read, unless a path is no list. -/
theorem parseFileField_run {fields : FileFields} (proper : Proper depth entry.2) (typed : typedField entry = true) :
    (parseFileField fields (.string entry.1) (spell entry.2 ++ rest)).toOption =
      if readableField entry then some (applyField fields entry, rest) else none := by
  obtain ⟨key, value⟩ := entry
  rw [parseFileField, expectToken_spell proper, readableField, typed, Bool.true_and]
  by_cases length : key = ascii "length"
  · cases length
    rcases isScalar_cases typed with ⟨digits, rfl⟩ | ⟨bytes, rfl⟩ <;> rfl
  by_cases root : key = ascii "pieces root"
  · cases root
    rcases isScalar_cases typed with ⟨digits, rfl⟩ | ⟨bytes, rfl⟩
    · rfl
    · change (if bytes.length = 32 then _ else _ : Result (FileFields × Bytes)).toOption =
        some (if bytes.length = 32 then _ else _, rest)
      split <;> rfl
  by_cases sum : key = ascii "md5sum"
  · cases sum
    rcases isScalar_cases typed with ⟨digits, rfl⟩ | ⟨bytes, rfl⟩ <;> rfl
  rw [applyField, if_neg length, if_neg root, if_neg sum]
  change (if key = ascii "length" then _ else _ : Result (FileFields × Bytes)).toOption = _
  rw [if_neg length, if_neg root, if_neg sum]
  by_cases path : key = ascii "path"
  · cases path
    cases value with
    | dictionary entries => rfl
    | number digits => rfl
    | string bytes => rfl
    | list items =>
      have opens : (list items).token = .listStart := rfl
      rw [if_pos opens, body, append_assoc, singleton_append, parsePath_run proper.items (all_eq_true.mp typed)]
      rfl
  · rw [if_neg path, if_neg path, skipValue_ok proper, decide_eq_true path]
    rfl

/-- An item whose fields have the right types, each once. -/
def typedItem (item : BNode) : Bool :=
  decide (item.dictEntries.map Prod.fst).Nodup && item.dictEntries.all typedField

def applyItem (state : Nat × MetaInfoFile) (item : BNode) : Nat × MetaInfoFile :=
  (state.1 + 1, state.2.addFile state.1 (itemFields item))

theorem parseFile_run {state : Nat × MetaInfoFile} {item : BNode} (proper : Proper depth item)
    (typed : item.dictEntries.all typedField = true) :
    (parseFile state item.token (item.body ++ rest)).toOption =
      if readableItem item then some (applyItem state item, rest) else none := by
  cases item with
  | number digits => rfl
  | string bytes => rfl
  | list items => rfl
  | dictionary entries =>
    have each := proper.entries
    rw [token, parseFile, if_pos rfl, body, append_assoc, singleton_append, toOption_bind,
      readUntilEnd_entries_guard applyField readableField (fun entry member => (each entry member).1)
        fun entry member _ _ => parseFileField_run (each entry member).2 (all_eq_true.mp typed entry member)]
    rw [readableItem, isDictionary, dictEntries, Bool.true_and]
    cases entries.all readableField <;> rfl

theorem foldl_applyItem (file : MetaInfoFile) (items : List BNode) :
    items.foldl applyItem (0, file) = (items.length, file.addRecords (items.map itemRecord)) := by
  induction items using reverseRecOn with
  | nil => rfl
  | append_singleton items item ih =>
    rw [foldl_append, ih, map_append, map_singleton, addRecords_append, length_map,
      length_append]
    rfl

end Items

section FileTrees

/-- A file of the file tree: its path and its properties. -/
abbrev Leaf := Text × Entries

mutual

/-- The files below a directory, in the order of its entries. -/
def leavesOf (path : List Text) : BNode → List Leaf
  | .dictionary entries => leavesOfEntries path entries
  | _ => []

def leavesOfEntries (path : List Text) : Entries → List Leaf
  | [] => []
  | (key, value) :: entries =>
    (if key = [] then [(joinSlash path, value.dictEntries)] else leavesOf (path ++ [fromUtf8Lossy key]) value) ++
      leavesOfEntries path entries

end

def applyProperty (properties : Nat × Bytes) (entry : Bytes × BNode) : Nat × Bytes :=
  if entry.1 = ascii "length" then
    ((entry.2.asNumberBytes.bind (parseUnsigned u64Size)).getD properties.1, properties.2)
  else if entry.1 = ascii "pieces root" then (properties.1, entry.2.stringBytes.getD properties.2)
  else properties

def leafFile (leaf : Leaf) : TreeFile := (leaf.1, leaf.2.foldl applyProperty (0, []))

def typedProperty (entry : Bytes × BNode) : Bool :=
  if entry.1 ∈ scalarFields then entry.2.isScalar else true

/-- A file of the tree whose properties have the right types, each once. -/
def typedLeaf (leaf : Leaf) : Bool := decide (leaf.2.map Prod.fst).Nodup && leaf.2.all typedProperty

variable {entry : Bytes × BNode}

theorem parseTreeProperty_run {properties : Nat × Bytes} (proper : Proper depth entry.2)
    (typed : typedProperty entry = true) :
    parseTreeProperty properties (.string entry.1) (spell entry.2 ++ rest) = .ok (applyProperty properties entry, rest) := by
  obtain ⟨key, value⟩ := entry
  rw [parseTreeProperty, expectToken_spell proper]
  by_cases length : key = ascii "length"
  · cases length
    rcases isScalar_cases typed with ⟨digits, rfl⟩ | ⟨bytes, rfl⟩ <;> rfl
  by_cases root : key = ascii "pieces root"
  · cases root
    rcases isScalar_cases typed with ⟨digits, rfl⟩ | ⟨bytes, rfl⟩ <;> rfl
  · change (if key = ascii "length" then _ else _ : Result ((Nat × Bytes) × Bytes)) = _
    rw [applyProperty, if_neg length, if_neg length, if_neg root, if_neg root, skipValue_ok proper]
    rfl

/-- What an entry of a directory stands for. -/
def entryLeaves (path : List Text) (entry : Bytes × BNode) : List Leaf :=
  if entry.1 = [] then [(joinSlash path, entry.2.dictEntries)] else leavesOf (path ++ [fromUtf8Lossy entry.1]) entry.2

theorem leavesOfEntries_eq (path : List Text) (entries : Entries) :
    leavesOfEntries path entries = entries.flatMap (entryLeaves path) := by
  induction entries with
  | nil => rfl
  | cons entry entries ih => rw [leavesOfEntries, ih, flatMap_cons, entryLeaves]

theorem proper_leaf {path : List Text} (proper : Proper depth node) {leaf : Leaf} (member : leaf ∈ leavesOf path node)
    (inside : entry ∈ leaf.2) : ∃ depth, Proper depth entry.2 := by
  induction depth generalizing node path with
  | zero => cases proper
  | succ depth ih =>
    cases node with
    | list items => cases member
    | number digits => cases member
    | string bytes => cases member
    | dictionary entries =>
      rw [leavesOf, leavesOfEntries_eq] at member
      obtain ⟨⟨key, value⟩, known, below⟩ := mem_flatMap.mp member
      have valueProper : Proper depth value := (proper _ known).2
      rw [entryLeaves] at below
      split at below
      case isTrue =>
        cases mem_singleton.mp below
        cases depth with
        | zero => cases valueProper
        | succ depth =>
          cases value with
          | list items => cases inside
          | number digits => cases inside
          | string bytes => cases inside
          | dictionary properties => exact ⟨depth, (valueProper entry inside).2⟩
      case isFalse => exact ih valueProper below

/-- A file tree that is read to its end: nothing but dictionaries, under names in UTF-8. -/
inductive ReadableTree : BNode → Prop
  | directory {entries : Entries}
      (files : ∀ entry ∈ entries, entry.1 = [] →
        ∃ properties, entry.2 = .dictionary properties ∧ properties.all typedProperty = true)
      (names : ∀ entry ∈ entries, entry.1 ≠ [] → ∃ name, fromUtf8 entry.1 = some name)
      (below : ∀ entry ∈ entries, entry.1 ≠ [] → ReadableTree entry.2) : ReadableTree (.dictionary entries)

theorem length_spellPair_lt {entries : Entries} (member : entry ∈ entries) :
    (spell entry.2).length < (entries.flatMap spellPair).length := by
  obtain ⟨front, back, rfl⟩ := append_of_mem member
  have key := length_pos_iff.mpr (show encodeString entry.1 ≠ [] by simp [encodeString])
  rw [flatMap_append, flatMap_cons, spellPair, length_append, length_append, length_append]
  omega

section Runs

open Classical

variable {path : List Text} {files : List TreeFile} {entries : Entries}

/-- An entry of a directory that is read to its end, if its properties have the right types. -/
def ReadableBelow (entry : Bytes × BNode) : Prop :=
  if entry.1 = [] then entry.2.isDictionary = true else (fromUtf8 entry.1).isSome = true ∧ ReadableTree entry.2

theorem readableTree_iff (typed : ∀ leaf ∈ leavesOfEntries path entries, leaf.2.all typedProperty = true) :
    ReadableTree (.dictionary entries) ↔ ∀ entry ∈ entries, ReadableBelow entry := by
  rw [leavesOfEntries_eq] at typed
  constructor
  · rintro (⟨files, names, below⟩) entry member
    rw [ReadableBelow]
    split
    case isTrue empty =>
      obtain ⟨properties, shape, _⟩ := files entry member empty
      rw [shape]
      rfl
    case isFalse named =>
      obtain ⟨name, valid⟩ := names entry member named
      exact ⟨Option.isSome_of_eq_some valid, below entry member named⟩
  · intro each
    refine .directory (fun entry member empty => ?_) (fun entry member named => ?_) fun entry member named => ?_
    · have dictionary := each entry member
      rw [ReadableBelow, if_pos empty] at dictionary
      have leaf := typed (joinSlash path, entry.2.dictEntries)
        (mem_flatMap.mpr ⟨entry, member, by rw [entryLeaves, if_pos empty]; exact mem_singleton_self _⟩)
      obtain ⟨key, value⟩ := entry
      cases value with
      | dictionary properties => exact ⟨properties, rfl, leaf⟩
      | list items => cases dictionary
      | number digits => cases dictionary
      | string bytes => cases dictionary
    · have valid := each entry member
      rw [ReadableBelow, if_neg named] at valid
      exact Option.isSome_iff_exists.mp valid.1
    · have below := each entry member
      rw [ReadableBelow, if_neg named] at below
      exact below.2

theorem isDictionary_of_readable (readable : ReadableBelow entry) : entry.2.isDictionary = true := by
  rw [ReadableBelow] at readable
  split at readable
  case isTrue => exact readable
  case isFalse =>
    cases shape : entry.2 with
    | dictionary entries => rfl
    | _ => cases shape ▸ readable.2

theorem parseTreeEntry_run
    {parseDirectory : List Text → List TreeFile → Bytes → Result (List TreeFile × Bytes)}
    (below : ∀ path inner, entry.2 = .dictionary inner →
      (∀ leaf ∈ leavesOfEntries path inner, leaf.2.all typedProperty = true) →
      (parseDirectory path files (inner.flatMap spellPair ++ 101 :: rest)).toOption =
        if ReadableTree (.dictionary inner) then some (files ++ (leavesOfEntries path inner).map leafFile, rest) else none)
    (proper : Proper depth entry.2) (typed : ∀ leaf ∈ entryLeaves path entry, leaf.2.all typedProperty = true) :
    (parseTreeEntry parseDirectory path files (.string entry.1) (spell entry.2 ++ rest)).toOption =
      if ReadableBelow entry then some (files ++ (entryLeaves path entry).map leafFile, rest) else none := by
  obtain ⟨key, value⟩ := entry
  rw [parseTreeEntry, toOption_bind, expectStart_run (delimited_of_proper proper) (.inl rfl)]
  cases value with
  | dictionary inner =>
    rw [token, if_pos rfl, Option.bind_some, body, append_assoc, singleton_append]
    rw [entryLeaves] at typed ⊢
    by_cases empty : key = []
    · have good : ReadableBelow (key, .dictionary inner) := (if_pos empty).mpr rfl
      rw [if_pos empty] at typed
      rw [if_pos empty, if_pos good, if_pos empty, toOption_bind]
      have each := proper.entries
      rw [readUntilEnd_entries_ok applyProperty (fun entry member => (each entry member).1)
        fun entry member _ _ => parseTreeProperty_run (each entry member).2
          (all_eq_true.mp (typed _ mem_cons_self) entry member)]
      rfl
    · rw [if_neg empty] at typed
      have readable : ReadableBelow (key, .dictionary inner) ↔
          (fromUtf8 key).isSome = true ∧ ReadableTree (.dictionary inner) := Iff.of_eq (if_neg empty)
      simp only [if_neg empty, readable]
      cases valid : fromUtf8 key with
      | none => simp [Except.toOption]
      | some segment =>
        rw [fromUtf8Lossy_of_fromUtf8 valid, leavesOf] at typed
        simp only [below _ inner rfl typed, fromUtf8Lossy_of_fromUtf8 valid, leavesOf, Option.isSome_some, true_and]
  | _ =>
    rw [if_neg (by intro start; cases start), if_neg (by intro good; cases isDictionary_of_readable good)]
    rfl

theorem parseFileTree_run {level : Nat} (proper : Proper depth (.dictionary entries))
    (typed : ∀ leaf ∈ leavesOfEntries path entries, leaf.2.all typedProperty = true)
    (enough : (entries.flatMap spellPair).length < level) :
    (parseFileTree level path files (entries.flatMap spellPair ++ 101 :: rest)).toOption =
      if ReadableTree (.dictionary entries) then some (files ++ (leavesOfEntries path entries).map leafFile, rest)
      else none := by
  induction level generalizing depth path files entries rest with
  | zero => cases enough
  | succ level ih =>
    replace proper := proper.entries
    have leaves := typed
    rw [leavesOfEntries_eq] at leaves
    rw [parseFileTree, readUntilEnd_entries_guard
      (fun files entry => files ++ (entryLeaves path entry).map leafFile) (fun entry => decide (ReadableBelow entry))
      (fun entry member => (proper entry member).1)]
    · rw [leavesOfEntries_eq, map_flatMap, flatMap_def, ← foldl_append_eq_append]
      simp only [all_eq_true, decide_eq_true_eq, readableTree_iff typed]
    · intro entry member files rest
      simp only [decide_eq_true_eq]
      refine parseTreeEntry_run (fun path inner shape typed => ?_) (proper entry member).2
        fun leaf inside => leaves leaf (mem_flatMap.mpr ⟨entry, member, inside⟩)
      have smaller := length_spellPair_lt member
      have nested : Proper depth entry.2 := (proper entry member).2
      rw [shape] at nested
      rw [shape, spell_dictionary, length_append, length_cons] at smaller
      exact ih nested typed (by omega)

end Runs

end FileTrees

section Info

variable {file file' : MetaInfoFile} {value : BNode}

def treeRecords (tree : BNode) : List FileRecord := (leavesOf [] tree).map fun leaf => .ofLeaf (leafFile leaf)

def applyEntry (file : MetaInfoFile) (entry : Bytes × BNode) : MetaInfoFile :=
  if entry.1 ∈ infoFields then
    match entry.2.scalarBytes with
    | some bytes => file.insert (fromUtf8Lossy entry.1) bytes
    | none => file
  else if entry.1 = ascii "files" then file.addRecords (entry.2.listItems.map itemRecord)
  else if entry.1 = ascii "file tree" then file.addRecords (treeRecords entry.2)
  else file

/-- Whether the files of an entry of `info` are read value by value. -/
def typedEntry (entry : Bytes × BNode) : Bool :=
  if entry.1 = ascii "files" then entry.2.listItems.all typedItem
  else if entry.1 = ascii "file tree" then (leavesOf [] entry.2).all typedLeaf
  else true

theorem parseInfoEntry_files_run (proper : Proper depth value)
    (typed : ∀ item ∈ value.listItems, item.dictEntries.all typedField = true) :
    (parseInfoEntry file (.string (ascii "files")) (spell value ++ rest)).toOption =
      if value.isList && value.listItems.all readableItem then
        some (file.addRecords (value.listItems.map itemRecord), rest)
      else none := by
  have unnamed : ascii "files" ∉ infoFields := by decide
  have delimited := delimited_of_proper proper
  rw [parseInfoEntry, if_neg unnamed, if_pos rfl, toOption_bind, expectStart_run delimited (.inr rfl)]
  cases value with
  | dictionary entries => rfl
  | number digits => rfl
  | string bytes => rfl
  | list items =>
    rw [token, if_pos rfl, Option.bind_some, body, append_assoc, singleton_append, toOption_bind,
      readUntilEnd_values_guard applyItem readableItem proper.items fun item member _ _ =>
        parseFile_run (proper.items item member) (typed item member)]
    rw [isList, listItems, Bool.true_and, foldl_applyItem]
    cases items.all readableItem <;> rfl

open Classical in
theorem parseInfoEntry_tree_run (proper : Proper depth value)
    (typed : ∀ leaf ∈ leavesOf [] value, leaf.2.all typedProperty = true) :
    (parseInfoEntry file (.string (ascii "file tree")) (spell value ++ rest)).toOption =
      if ReadableTree value then some (applyEntry file (ascii "file tree", value), rest) else none := by
  have unnamed : ascii "file tree" ∉ infoFields := by decide
  have notFiles : ascii "file tree" ≠ ascii "files" := by decide
  rw [parseInfoEntry, if_neg unnamed, if_neg notFiles, if_pos rfl, toOption_bind,
    expectStart_run (delimited_of_proper proper) (.inl rfl)]
  cases value with
  | dictionary entries =>
    rw [token, if_pos rfl, Option.bind_some, body, append_assoc, singleton_append, toOption_bind,
      parseFileTree_run proper typed (by rw [length_append]; omega), applyEntry, if_neg unnamed, if_neg notFiles,
      if_pos rfl, treeRecords, leavesOf]
    split
    case isTrue =>
      rw [Option.bind_some, nil_append]
      change some (_, _) = _
      rw [foldl_addTreeFile, map_map]
      rfl
    case isFalse => rfl
  | _ =>
    rw [if_neg (by intro start; cases start), if_neg (by intro readable; cases readable)]
    rfl

/-- An entry of `info` that is read to its end. -/
structure ReadableEntry (entry : Bytes × BNode) : Prop where
  fields : entry.1 ∈ infoFields → entry.2.isScalar = true
  files : entry.1 = ascii "files" → entry.2.isList = true ∧ entry.2.listItems.all readableItem = true
  tree : entry.1 = ascii "file tree" → ReadableTree entry.2

open Classical in
/-- An entry whose files have fields of the right types is read to its end, or not at all. -/
theorem parseInfoEntry_run (proper : Proper depth entry.2)
    (items : entry.1 = ascii "files" → ∀ item ∈ entry.2.listItems, item.dictEntries.all typedField = true)
    (leaves : entry.1 = ascii "file tree" → ∀ leaf ∈ leavesOf [] entry.2, leaf.2.all typedProperty = true) :
    ∃ good : Bool, (ReadableEntry entry → good = true) ∧
      ∀ file rest, (parseInfoEntry file (.string entry.1) (spell entry.2 ++ rest)).toOption =
        if good then some (applyEntry file entry, rest) else none := by
  obtain ⟨key, value⟩ := entry
  by_cases files : key = ascii "files"
  · cases files
    exact ⟨_, fun readable => Bool.and_eq_true_iff.mpr (readable.files rfl),
      fun _ _ => parseInfoEntry_files_run proper (items rfl)⟩
  by_cases tree : key = ascii "file tree"
  · cases tree
    refine ⟨decide (ReadableTree value), fun readable => decide_eq_true (readable.tree rfl), fun file rest => ?_⟩
    simp only [parseInfoEntry_tree_run proper (leaves rfl), decide_eq_true_eq]
  have good := fits_of_proper proper
  have delimited := delimited_of_proper proper
  simp only [parseInfoEntry, applyEntry, if_neg files, if_neg tree]
  by_cases named : key ∈ infoFields
  · refine ⟨value.isScalar, fun readable => readable.fields named, fun file rest => ?_⟩
    rw [if_pos named, if_pos named, parseField_run delimited, if_pos good]
    cases value <;> rfl
  · refine ⟨true, fun _ => rfl, fun file rest => ?_⟩
    rw [if_neg named, if_neg named, skipEntry_run delimited, if_pos good]
    rfl

theorem info_reads {start read : MetaInfoFile} {info : Entries} {left : Bytes}
    (proper : Proper (depth + 1) (.dictionary info)) (typed : ∀ entry ∈ info, typedEntry entry = true)
    (done : readUntilEnd false parseInfoEntry start (info.flatMap spellPair ++ [101]) = .ok (read, left)) :
    read = info.foldl applyEntry start := by
  have each : ∀ entry ∈ info, ∃ good : Bool, (ReadableEntry entry → good = true) ∧
      ∀ file rest, (parseInfoEntry file (.string entry.1) (spell entry.2 ++ rest)).toOption =
        if good then some (applyEntry file entry, rest) else none := by
    intro entry member
    have typed := typed entry member
    refine parseInfoEntry_run (proper entry member).2 (fun files item inside => ?_) fun tree leaf inside => ?_
    · rw [typedEntry, if_pos files] at typed
      exact (Bool.and_eq_true_iff.mp (all_eq_true.mp typed item inside)).2
    · have notFiles : entry.1 ≠ ascii "files" := by rw [tree]; decide
      rw [typedEntry, if_neg notFiles, if_pos tree] at typed
      exact (Bool.and_eq_true_iff.mp (all_eq_true.mp typed leaf inside)).2
  choose! good _ run using each
  rw [← toOption_eq_some, readUntilEnd_entries_guard applyEntry good (fun entry member => (proper entry member).1) run,
    Option.ite_none_right_eq_some] at done
  cases done.2
  rfl

/-! ### Values of the right types are read to their ends -/

theorem ReadableTree.typed (readable : ReadableTree node) (path : List Text) :
    ∀ leaf ∈ leavesOf path node, leaf.2.all typedProperty = true := by
  induction readable generalizing path with
  | directory files names below ih =>
    intro leaf member
    rw [leavesOf, leavesOfEntries_eq] at member
    obtain ⟨entry, known, inside⟩ := mem_flatMap.mp member
    rw [entryLeaves] at inside
    split at inside
    case isTrue empty =>
      obtain ⟨properties, shape, typed⟩ := files entry known empty
      cases mem_singleton.mp inside
      rw [shape]
      exact typed
    case isFalse named => exact ih entry known named _ leaf inside

theorem readableTree_file {properties : Entries} (typed : properties.all typedProperty = true) :
    ReadableTree (.dictionary [([], .dictionary properties)]) := by
  refine .directory ?_ ?_ ?_
  · exact forall_mem_singleton.mpr fun _ => ⟨properties, rfl, typed⟩
  · exact forall_mem_singleton.mpr fun named => absurd rfl named
  · exact forall_mem_singleton.mpr fun named => absurd rfl named

theorem readableEntry_tree (readable : ReadableTree node) : ReadableEntry (ascii "file tree", node) := by
  have unnamed : ascii "file tree" ∉ infoFields := by decide
  have notFiles : ascii "file tree" ≠ ascii "files" := by decide
  exact ⟨fun known => absurd known unnamed, fun same => absurd same notFiles, fun _ => readable⟩

theorem readableEntry_field {key : Bytes} {value : BNode} (known : key ∈ infoFields) (scalar : value.isScalar = true) :
    ReadableEntry (key, value) := by
  have apart : ascii "files" ∉ infoFields ∧ ascii "file tree" ∉ infoFields := by decide
  refine ⟨fun _ => scalar, ?_, ?_⟩
  · intro same
    cases same
    exact absurd known apart.1
  · intro same
    cases same
    exact absurd known apart.2

theorem parseInfoEntry_ok (proper : Proper depth entry.2) (readable : ReadableEntry entry) :
    parseInfoEntry file (.string entry.1) (spell entry.2 ++ rest) = .ok (applyEntry file entry, rest) := by
  have items : entry.1 = ascii "files" → ∀ item ∈ entry.2.listItems, item.dictEntries.all typedField = true := by
    intro files item member
    have each := (Bool.and_eq_true_iff.mp (all_eq_true.mp (readable.files files).2 item member)).2
    exact all_eq_true.mpr fun entry inside => (Bool.and_eq_true_iff.mp (all_eq_true.mp each entry inside)).1
  obtain ⟨good, reads, run⟩ := parseInfoEntry_run proper items fun tree => (readable.tree tree).typed []
  rw [← toOption_eq_some, run, if_pos (reads readable)]

theorem info_ok {info : Entries} (proper : Proper depth (.dictionary info))
    (readable : ∀ entry ∈ info, ReadableEntry entry) :
    readUntilEnd false parseInfoEntry file (info.flatMap spellPair ++ [101]) = .ok (info.foldl applyEntry file, []) := by
  exact readUntilEnd_entries_ok applyEntry (fun entry member => (proper.entries entry member).1)
    fun entry member _ _ => parseInfoEntry_ok (proper.entries entry member).2 (readable entry member)

end Info

end MetaInfoFile

end BitTorrent
