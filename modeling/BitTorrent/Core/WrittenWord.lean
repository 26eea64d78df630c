import BitTorrent.Core.RootFields
import BitTorrent.Core.WrittenTorrent

/-! # The bytes of a built torrent

They spell a dictionary that the parser reads whole, if its strings and numbers are within the limits.
-/

namespace BitTorrent

open Bencode BNode MetaInfoFile List

variable {entries : Entries} {node : FileTreeNode}

section Trees

/-- A tree as the builder makes it, with decimal numbers and the keys in order. -/
inductive BNode.Written : BNode → Prop
  | number (value : Nat) : Written (.number (decimal value))
  | string (bytes : Bytes) : Written (.string bytes)
  | list {items : List BNode} (each : ∀ item ∈ items, Written item) : Written (.list items)
  | dictionary {entries : Entries}
      (ordered : entries.Pairwise fun left right => bytesLE left.1 right.1 = true)
      (each : ∀ entry ∈ entries, Written entry.2) : Written (.dictionary entries)

theorem BNode.Written.delimited {node : BNode} (written : node.Written) : Delimited node := by
  induction written with
  | number value => exact .number (decimal_isNumberByte value)
  | string bytes => exact .string bytes
  | list _ ih => exact .list ih
  | dictionary _ _ ih => exact .dictionary ih

theorem BNode.Written.sortKeys_eq {node : BNode} (written : node.Written) : sortKeys node = node := by
  rw [sortKeys_eq_iff]
  induction written with
  | number value => trivial
  | string bytes => trivial
  | list _ ih => exact (keysOrderedItems_iff _).mpr ih
  | dictionary ordered _ ih => exact ⟨ordered, (keysOrderedValues_iff _).mpr ih⟩

theorem BNode.Written.sorted (each : ∀ entry ∈ entries, entry.2.Written) :
    (BNode.dictionary (sortByKey entries)).Written :=
  .dictionary (sortByKey_sorted entries) (forall_mem_sortByKey.mpr each)

theorem written_texts (texts : List Text) : (list (texts.map fun text => .string (utf8 text))).Written := by
  refine .list fun item member => ?_
  obtain ⟨text, _, rfl⟩ := mem_map.mp member
  exact .string _

theorem FileTreeNode.written_toBNode (named : node.Named) : node.toBNode.Written := by
  induction named with
  | file length root =>
    refine .dictionary (pairwise_singleton _ _) (forall_mem_singleton.mpr ?_)
    refine .dictionary (pairwise_pair.mpr rfl) ?_
    exact forall_mem_cons.mpr ⟨.number _, forall_mem_singleton.mpr (.string _)⟩
  | @directory entries names children ih =>
    rw [toBNode, toEntries_eq]
    refine .sorted fun item member => ?_
    obtain ⟨entry, present, rfl⟩ := mem_map.mp member
    exact ih entry present

theorem V1File.written_toBNode (file : V1File) : file.toBNode.Written := by
  obtain ⟨segments, content, piecesRoot⟩ := file
  cases piecesRoot with
  | some root =>
    refine .sorted ?_
    simp only [forall_mem_cons, not_mem_nil, false_implies, implies_true, and_true]
    exact ⟨.number _, written_texts segments, .string _⟩
  | none =>
    refine .dictionary ?_ ?_
    · simp only [pairwise_cons, forall_mem_cons, not_mem_nil, false_implies, implies_true,
        Pairwise.nil, and_true]
      exact ⟨⟨rfl, rfl⟩, rfl⟩
    · simp only [forall_mem_cons, not_mem_nil, false_implies, implies_true, and_true]
      exact ⟨.string _, .number _, written_texts segments⟩

end Trees

namespace TorrentBuilder

variable {digests : Digests} {builder : TorrentBuilder} {fileTree : FileTreeNode} {layers : LayerMap}
  {format : TorrentExportFormat}

section Info

theorem written_plainItem (file : Text × Bytes) : (plainItem file).Written := by
  refine .dictionary (pairwise_pair.mpr rfl) ?_
  exact forall_mem_cons.mpr ⟨.number _, forall_mem_singleton.mpr (written_texts _)⟩

/-- The kinds of entries of a written `info`. -/
inductive InfoEntry (digests : Digests) (builder : TorrentBuilder) (fileTree : FileTreeNode) : Bytes × BNode → Prop
  | tree : InfoEntry digests builder fileTree (ascii "file tree", fileTree.toBNode)
  | number (key : Bytes) (value : Nat) (known : key ∈ infoFields) :
      InfoEntry digests builder fileTree (key, .number (decimal value))
  | string (key value : Bytes) (known : key ∈ infoFields) : InfoEntry digests builder fileTree (key, .string value)
  | plain : InfoEntry digests builder fileTree (ascii "files", .list (builder.files.map plainItem))
  | padded : InfoEntry digests builder fileTree (ascii "files", .list ((builder.v1Files digests).map V1File.toBNode))

theorem infoEntry_of_mem :
    ∀ entry ∈ builder.writtenInfo digests fileTree format, InfoEntry digests builder fileTree entry := by
  have tree : ∀ entry ∈ treeFields fileTree, InfoEntry digests builder fileTree entry :=
    forall_mem_cons.mpr ⟨.tree, forall_mem_singleton.mpr (.number _ 2 (by decide))⟩
  have name : ∀ entry ∈ builder.nameFields, InfoEntry digests builder fileTree entry :=
    forall_mem_cons.mpr ⟨.string _ _ (by decide), forall_mem_singleton.mpr (.number _ _ (by decide))⟩
  have shown {pieces : Bytes} {items : List BNode} (listed : InfoEntry digests builder fileTree (ascii "files", .list items)) :
      ∀ entry ∈ builder.v1Fields pieces items, InfoEntry digests builder fileTree entry := by
    refine forall_mem_cons.mpr ⟨.string _ _ (by decide), forall_mem_singleton.mpr ?_⟩
    split
    case isTrue => exact .number _ _ (by decide)
    case isFalse => exact listed
  refine forall_mem_sortByKey.mpr (forall_mem_append.mpr ⟨?_, ?_⟩)
  · cases format with
    | v1 => exact forall_mem_append.mpr ⟨name, shown .plain⟩
    | v2 => exact forall_mem_append.mpr ⟨tree, name⟩
    | hybrid => exact forall_mem_append.mpr ⟨forall_mem_append.mpr ⟨tree, name⟩, shown .padded⟩
  · rw [privateFields]
    split
    case isTrue => exact forall_mem_singleton.mpr (.number _ 1 (by decide))
    case isFalse => exact fun _ member => absurd member not_mem_nil

theorem written_writtenInfo (named : fileTree.Named) :
    (builder.writtenNode digests fileTree format).Written := by
  refine .sorted fun entry member => ?_
  cases infoEntry_of_mem entry (mem_sortByKey.mpr member) with
  | tree => exact fileTree.written_toBNode named
  | number _ value => exact .number value
  | string _ value => exact .string value
  | plain => exact .list (forall_mem_map.mpr fun file _ => written_plainItem file)
  | padded => exact .list (forall_mem_map.mpr fun file _ => file.written_toBNode)

end Info

section Root

def writtenBefore (builder : TorrentBuilder) : TorrentExportFormat → Entries
  | .v1 => builder.announceEntry :: builder.commentEntries
  | .v2 => headEntries builder
  | .hybrid => headEntries builder

def writtenAfter (builder : TorrentBuilder) (layers : LayerMap) : TorrentExportFormat → Entries
  | .v1 => []
  | .v2 => layerEntries layers ++ builder.seedEntries
  | .hybrid => layerEntries layers

theorem writtenRoot_eq : builder.writtenRoot digests fileTree layers format =
    builder.writtenBefore format ++ (ascii "info", builder.writtenNode digests fileTree format) ::
      builder.writtenAfter layers format := by
  cases format with
  | v1 =>
    cases comment : builder.comment <;>
      simp only [writtenRoot, writtenBefore, writtenAfter, plainRoot, commentEntries, comment, Option.map,
        Option.toList] <;> rfl
  | v2 =>
    cases layers <;> cases comment : builder.comment <;> by_cases many : 1 < builder.trackers.length <;>
      by_cases seeds : builder.webSeeds = [] <;>
      simp only [writtenRoot, writtenBefore, writtenAfter, treeRoot, headEntries, tierEntries, layerEntries, seedEntries,
        commentEntries, comment, many, seeds, Option.map, Option.toList, if_true, if_false, reduceCtorEq] <;> rfl
  | hybrid => exact sorted_rootEntries digests builder fileTree layers

theorem written_commentEntries : ∀ entry ∈ builder.commentEntries, entry.2.Written := by
  rw [commentEntries]
  cases builder.comment with
  | none => exact fun _ member => absurd member not_mem_nil
  | some comment => exact forall_mem_singleton.mpr (.string _)

theorem written_headEntries : ∀ entry ∈ headEntries builder, entry.2.Written := by
  refine forall_mem_append.mpr
    ⟨forall_mem_append.mpr ⟨forall_mem_singleton.mpr (.string _), ?_⟩, written_commentEntries⟩
  rw [tierEntries]
  split
  case isTrue =>
    refine forall_mem_singleton.mpr (.list fun item member => ?_)
    obtain ⟨url, _, rfl⟩ := mem_map.mp member
    exact .list (forall_mem_singleton.mpr (.string _))
  case isFalse => exact fun _ member => absurd member not_mem_nil

theorem written_writtenBefore : ∀ entry ∈ builder.writtenBefore format, entry.2.Written := by
  cases format with
  | v2 => exact written_headEntries
  | hybrid => exact written_headEntries
  | v1 => exact forall_mem_cons.mpr ⟨.string _, written_commentEntries⟩

theorem written_seedEntries : ∀ entry ∈ builder.seedEntries, entry.2.Written := by
  rw [seedEntries]
  split
  case isTrue => exact fun _ member => absurd member not_mem_nil
  case isFalse => exact forall_mem_singleton.mpr (written_texts _)

theorem map_sortKeys (each : ∀ entry ∈ entries, entry.2.Written) :
    (entries.map fun entry => (entry.1, sortKeys entry.2)) = entries := by
  rw [map_eq_self_iff]
  intro entry member
  rw [(each entry member).sortKeys_eq]

theorem sortKeys_layerEntries (layers : LayerMap) :
    ((layerEntries layers).map fun entry => (entry.1, sortKeys entry.2)) = layerEntries (sortByKey layers) := by
  have empty : sortByKey layers = [] ↔ layers = [] := by
    rw [← length_eq_zero_iff, ← length_eq_zero_iff, sortByKey, length_insertionSort]
  have sorted := sortByKey_map BNode.string layers
  rw [layerEntries, layerEntries]
  by_cases none : layers = []
  · rw [if_pos none, if_pos (empty.mpr none), map_nil]
  · rw [if_neg none, if_neg (mt empty.mp none), map_singleton, sortKeys, sortKeysValues_eq, map_map, ← sorted]
    rfl

theorem sortKeys_writtenAfter (layers : LayerMap) :
    ((builder.writtenAfter layers format).map fun entry => (entry.1, sortKeys entry.2)) =
      builder.writtenAfter (sortByKey layers) format := by
  cases format with
  | v1 => rfl
  | v2 => rw [writtenAfter, writtenAfter, map_append, sortKeys_layerEntries, map_sortKeys written_seedEntries]
  | hybrid => exact sortKeys_layerEntries layers

theorem encode_writtenRoot (named : fileTree.Named) (layers : LayerMap) :
    builder.writtenBytes digests fileTree layers format =
      spell (.dictionary (builder.writtenRoot digests fileTree (sortByKey layers) format)) := by
  have sorted : sortByKey (builder.writtenRoot digests fileTree layers format) =
      builder.writtenRoot digests fileTree layers format := by
    cases format with
    | v1 => exact sortByKey_sortByKey _
    | v2 => exact sortByKey_sortByKey _
    | hybrid => exact sortByKey_sortByKey _
  rw [writtenBytes, encode_eq_spell, sortKeys, sortKeysValues_eq, sortByKey_map, sorted, writtenRoot_eq, writtenRoot_eq,
    map_append, map_cons, map_sortKeys written_writtenBefore, sortKeys_writtenAfter, (written_writtenInfo named).sortKeys_eq]

end Root

section Readable

theorem readableTree_toBNode (named : node.Named) : ReadableTree node.toBNode := by
  induction named with
  | file length root => exact readableTree_file rfl
  | @directory entries names children ih =>
    have each : ∀ item ∈ sortByKey (FileTreeNode.toEntries entries),
        ∃ entry ∈ entries, item = (utf8 entry.1, entry.2.toBNode) := by
      intro item member
      rw [mem_sortByKey, FileTreeNode.toEntries_eq] at member
      obtain ⟨entry, present, same⟩ := mem_map.mp member
      exact ⟨entry, present, same.symm⟩
    refine .directory ?_ ?_ ?_
    · intro item member empty
      obtain ⟨entry, present, rfl⟩ := each item member
      exact absurd empty (utf8_ne_nil (names entry present))
    · intro item member _
      obtain ⟨entry, present, rfl⟩ := each item member
      exact ⟨entry.1, fromUtf8_utf8 entry.1⟩
    · intro item member _
      obtain ⟨entry, present, rfl⟩ := each item member
      exact ih entry present

theorem readableField_path (segments : List Text) :
    readableField (ascii "path", .list (segments.map fun segment => .string (utf8 segment))) = true := by
  have notScalar : ascii "path" ∉ scalarFields := by decide
  rw [readableField, typedField, if_neg notScalar, if_pos rfl, BNode.listItems, all_map]
  simp [BNode.isString, BNode.isList]

theorem readableItem_plainItem (file : Text × Bytes) : readableItem (plainItem file) = true := by
  simp only [readableItem, plainItem, BNode.dictEntries, all_cons, readableField_path]
  rfl

theorem readableItem_toBNode (entry : V1File) : readableItem entry.toBNode = true := by
  obtain ⟨segments, content, piecesRoot⟩ := entry
  have path := readableField_path segments
  cases piecesRoot with
  | some root =>
    refine (Bool.and_eq_true _ _).mpr ⟨rfl, all_eq_true.mpr ?_⟩
    exact forall_mem_cons.mpr ⟨rfl, forall_mem_cons.mpr ⟨path, forall_mem_singleton.mpr rfl⟩⟩
  | none =>
    refine (Bool.and_eq_true _ _).mpr ⟨rfl, all_eq_true.mpr ?_⟩
    exact forall_mem_cons.mpr ⟨rfl, forall_mem_cons.mpr ⟨rfl, forall_mem_singleton.mpr path⟩⟩

theorem typedItem_of_readable {item : BNode} (readable : readableItem item = true)
    (distinct : (item.dictEntries.map Prod.fst).Nodup) : typedItem item = true := by
  rw [readableItem, Bool.and_eq_true, all_eq_true] at readable
  rw [typedItem, Bool.and_eq_true, decide_eq_true_eq, all_eq_true]
  refine ⟨distinct, fun entry member => ?_⟩
  exact ((Bool.and_eq_true _ _).mp (readable.2 entry member)).1

theorem typedItem_plainItem (file : Text × Bytes) : typedItem (plainItem file) = true :=
  typedItem_of_readable (readableItem_plainItem file) (show [ascii "length", ascii "path"].Nodup by decide)

theorem typedItem_toBNode (entry : V1File) : typedItem entry.toBNode = true := by
  apply typedItem_of_readable (readableItem_toBNode entry)
  obtain ⟨segments, content, piecesRoot⟩ := entry
  cases piecesRoot with
  | some root => exact show [ascii "length", ascii "path", ascii "pieces root"].Nodup by decide
  | none => exact show [ascii "attr", ascii "length", ascii "path"].Nodup by decide

theorem readable_files {items : List BNode} (each : ∀ item ∈ items, readableItem item = true ∧ typedItem item = true) :
    ReadableEntry (ascii "files", .list items) ∧ typedEntry (ascii "files", .list items) = true := by
  have unnamed : ascii "files" ∉ infoFields := by decide
  have notTree : ascii "files" ≠ ascii "file tree" := by decide
  exact ⟨⟨fun known => absurd known unnamed, fun _ => ⟨rfl, all_eq_true.mpr fun item member => (each item member).1⟩,
    fun same => absurd same notTree⟩, all_eq_true.mpr fun item member => (each item member).2⟩

theorem typedEntry_tree (named : fileTree.Named) : typedEntry (ascii "file tree", fileTree.toBNode) = true := by
  have notFiles : ascii "file tree" ≠ ascii "files" := by decide
  rw [typedEntry, if_neg notFiles, if_pos rfl, FileTreeNode.leavesOf_toBNode named, all_map, all_eq_true]
  exact fun _ _ => rfl

theorem readable_field {key : Bytes} {value : BNode} (known : key ∈ infoFields) (scalar : value.isScalar = true) :
    ReadableEntry (key, value) ∧ typedEntry (key, value) = true := by
  have apart : ∀ key ∈ infoFields, key ≠ ascii "files" ∧ key ≠ ascii "file tree" := by decide
  refine ⟨readableEntry_field known scalar, ?_⟩
  rw [typedEntry, if_neg (apart key known).1, if_neg (apart key known).2]

/-- The parser reads every entry of a written `info` to its end, as what it is. -/
theorem readable_writtenInfo (named : fileTree.Named) :
    ∀ entry ∈ builder.writtenInfo digests fileTree format, ReadableEntry entry ∧ typedEntry entry = true := by
  intro entry member
  cases infoEntry_of_mem entry member with
  | tree => exact ⟨readableEntry_tree (readableTree_toBNode named), typedEntry_tree named⟩
  | number _ _ known => exact readable_field known rfl
  | string _ _ known => exact readable_field known rfl
  | plain =>
    refine readable_files (forall_mem_map.mpr fun file _ => ?_)
    exact ⟨readableItem_plainItem file, typedItem_plainItem file⟩
  | padded =>
    refine readable_files (forall_mem_map.mpr fun file _ => ?_)
    exact ⟨readableItem_toBNode file, typedItem_toBNode file⟩

theorem typedInfo_writtenInfo (named : fileTree.Named) : TypedInfo (builder.writtenInfo digests fileTree format) := by
  have keys : ((builder.writtenInfo digests fileTree format).map Prod.fst).Pairwise
      fun left right => left ≠ right ∧ (left = ascii "files" → right ≠ ascii "file tree") := by
    rw [writtenInfo, privateFields]
    cases format <;> rw [writtenFields] <;> (try rw [v1Fields]) <;> cases builder.isSingleFile <;>
      cases builder.isPrivate <;> exact of_decide_eq_true rfl
  exact ⟨keys.imp And.left, pairwise_map.mp (keys.imp And.right),
    fun entry member => (readable_writtenInfo named entry member).2⟩

end Readable

section Roots

theorem distinct_writtenRoot : ((builder.writtenRoot digests fileTree layers format).map Prod.fst).Nodup := by
  rw [writtenRoot_eq]
  cases format with
  | v1 =>
    rw [writtenBefore, commentEntries]
    cases builder.comment <;> exact of_decide_eq_true rfl
  | v2 =>
    rw [writtenBefore, headEntries, tierEntries, commentEntries, writtenAfter, layerEntries, seedEntries]
    cases builder.comment <;> by_cases many : 1 < builder.trackers.length <;> by_cases none : layers = [] <;>
      by_cases seeds : builder.webSeeds = [] <;> simp only [many, none, seeds, if_true, if_false] <;>
      exact of_decide_eq_true rfl
  | hybrid =>
    rw [writtenBefore, headEntries, tierEntries, commentEntries, writtenAfter, layerEntries]
    cases builder.comment <;> by_cases many : 1 < builder.trackers.length <;> by_cases none : layers = [] <;>
      simp only [many, none, if_true, if_false] <;> exact of_decide_eq_true rfl

theorem once_writtenRoot : ∀ entry ∈ builder.writtenBefore format ++ builder.writtenAfter layers format,
    entry.1 ≠ ascii "info" := by
  have distinct := @distinct_writtenRoot Digests.zero builder (.directory []) layers format
  rw [writtenRoot_eq, map_append, map_cons, nodup_middle, nodup_cons, ← map_append] at distinct
  intro entry member same
  exact distinct.1 (mem_map.mpr ⟨entry, member, same⟩)

variable {urls : List Text}

theorem mapM_singletons {convert : BNode → Option (List Text)} {node : Text → BNode}
    (each : ∀ url ∈ urls, convert (node url) = some [url]) :
    ((urls.map node).mapM convert).map flatten = some urls := by
  induction urls with
  | nil => rfl
  | cons url urls ih =>
    rw [forall_mem_cons] at each
    obtain ⟨lists, all, joined⟩ := Option.map_eq_some_iff.mp (ih each.2)
    rw [map_cons, mapM_cons, each.1, all, ← joined]
    rfl

theorem tiers_texts (fits : (list (urls.map fun url => .list [.string (utf8 url)])).fits = true) :
    tiers (.list (urls.map fun url => .list [.string (utf8 url)])) = some urls := by
  rw [fits_list, all_map, all_eq_true] at fits
  refine mapM_singletons fun url member => ?_
  have short := fits url member
  rw [Function.comp_apply, fits_list, all_cons, all_nil, Bool.and_true, BNode.fits] at short
  rw [tier, mapM_cons, mapM_nil, tierUrl, headFits, if_pos short, stringBytes, Option.map_some,
    fromUtf8Lossy_utf8]
  rfl

theorem webSeeds_texts (fits : (list (urls.map fun url => .string (utf8 url))).fits = true) :
    MetaInfoFile.webSeeds (.list (urls.map fun url => .string (utf8 url))) = some (joinUrls urls) := by
  rw [fits_list, all_map, all_eq_true] at fits
  have all : ((urls.map fun url => BNode.string (utf8 url)).mapM MetaInfoFile.webSeed).map flatten = some urls := by
    refine mapM_singletons fun url member => ?_
    have short := fits url member
    rw [Function.comp_apply, BNode.fits] at short
    rw [MetaInfoFile.webSeed, headFits, if_pos short, stringBytes, Option.map_some, fromUtf8Lossy_utf8]
    rfl
  obtain ⟨lists, found, joined⟩ := Option.map_eq_some_iff.mp all
  rw [MetaInfoFile.webSeeds, found, ← joined]
  rfl

end Roots

end TorrentBuilder

end BitTorrent
