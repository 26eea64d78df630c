import BitTorrent.Core.FileRoots
import BitTorrent.Core.WrittenWord

/-! # Parsing a built torrent

The parser takes every torrent whose strings and numbers are within the limits of the tokenizer, and
this is what it keeps.
-/

namespace BitTorrent

open Bencode BNode MetaInfoFile List

namespace TorrentBuilder

variable {digests : Digests} {builder : TorrentBuilder} {fileTree : FileTreeNode} {layers : LayerMap}
  {format : TorrentExportFormat} {file : MetaInfoFile}

def announceUrl (builder : TorrentBuilder) : Text := builder.trackers.headD (text "http://tracker.example.com/announce")

section Root

theorem dictGet_append (front back : Entries) (key : Bytes) :
    (dictionary (front ++ back)).dictGet key = ((dictionary front).dictGet key).or ((dictionary back).dictGet key) := by
  simp only [dictGet, find?_append, Option.map_or]

theorem dictGet_announce : (dictionary (builder.writtenRoot digests fileTree layers format)).dictGet (ascii "announce") =
    some (.string (utf8 builder.announceUrl)) := by
  rw [writtenRoot_eq]
  cases format <;> rfl

variable {key : Bytes}

theorem dictGet_optional {absent : Prop} [Decidable absent] {name : Bytes} (other : key ≠ name) :
    (dictionary (if absent then [] else [(name, value)])).dictGet key = none := by
  split
  case isTrue => rfl
  case isFalse => rw [dictGet_cons, if_neg other.symm]; rfl

theorem dictGet_layerEntries (other : key ≠ ascii "piece layers") :
    (dictionary (layerEntries layers)).dictGet key = none :=
  dictGet_optional other

theorem dictGet_writtenAfter (notLayers : key ≠ ascii "piece layers") (notSeeds : key ≠ ascii "url-list") :
    (dictionary (builder.writtenAfter layers format)).dictGet key = none := by
  cases format with
  | v1 => rfl
  | v2 => rw [writtenAfter, dictGet_append, dictGet_layerEntries notLayers, seedEntries, dictGet_optional notSeeds]; rfl
  | hybrid => exact dictGet_layerEntries notLayers

theorem dictGet_writtenRoot (notInfo : key ≠ ascii "info") :
    (dictionary (builder.writtenRoot digests fileTree layers format)).dictGet key =
      ((dictionary (builder.writtenBefore format)).dictGet key).or
        ((dictionary (builder.writtenAfter layers format)).dictGet key) := by
  rw [writtenRoot_eq, dictGet_append, dictGet_cons, if_neg notInfo.symm]

theorem dictGet_headEntries (builder : TorrentBuilder) :
    (dictionary (headEntries builder)).dictGet (ascii "announce-list") =
        (if 1 < builder.trackers.length then some (.list (builder.trackers.map fun url => .list [.string (utf8 url)]))
        else none) ∧
      (dictionary (headEntries builder)).dictGet (ascii "comment") =
        builder.comment.map (fun comment => .string (utf8 comment)) ∧
      (dictionary (headEntries builder)).dictGet (ascii "url-list") = none := by
  rw [headEntries, tierEntries, commentEntries]
  split
  case isTrue => cases builder.comment <;> exact ⟨rfl, rfl, rfl⟩
  case isFalse => cases builder.comment <;> exact ⟨rfl, rfl, rfl⟩

theorem dictGet_tiers : (dictionary (builder.writtenRoot digests fileTree layers format)).dictGet (ascii "announce-list") =
    if format ≠ .v1 ∧ 1 < builder.trackers.length then
      some (.list (builder.trackers.map fun url => .list [.string (utf8 url)]))
    else none := by
  rw [dictGet_writtenRoot (by decide), dictGet_writtenAfter (by decide) (by decide), Option.or_none]
  have head := (dictGet_headEntries builder).1
  cases format with
  | v1 =>
    rw [writtenBefore, commentEntries, if_neg fun both => both.1 rfl]
    cases builder.comment <;> rfl
  | v2 =>
    rw [writtenBefore, head]
    simp
  | hybrid =>
    rw [writtenBefore, head]
    simp

theorem dictGet_comment : (dictionary (builder.writtenRoot digests fileTree layers format)).dictGet (ascii "comment") =
    builder.comment.map fun comment => .string (utf8 comment) := by
  rw [dictGet_writtenRoot (by decide), dictGet_writtenAfter (by decide) (by decide), Option.or_none]
  have head := (dictGet_headEntries builder).2.1
  cases format with
  | v1 =>
    rw [writtenBefore, commentEntries]
    cases builder.comment <;> rfl
  | v2 => exact head
  | hybrid => exact head

theorem dictGet_seeds : (dictionary (builder.writtenRoot digests fileTree layers format)).dictGet (ascii "url-list") =
    if format = .v2 ∧ builder.webSeeds ≠ [] then some (.list (builder.webSeeds.map fun url => .string (utf8 url)))
    else none := by
  have head := (dictGet_headEntries builder).2.2
  rw [dictGet_writtenRoot (by decide)]
  cases format with
  | v1 =>
    rw [writtenBefore, commentEntries, writtenAfter, if_neg (by rintro ⟨same, -⟩; cases same)]
    cases builder.comment <;> rfl
  | v2 =>
    rw [writtenBefore, writtenAfter, head, Option.none_or, dictGet_append, dictGet_layerEntries (by decide),
      Option.none_or, seedEntries]
    by_cases none : builder.webSeeds = []
    · rw [if_pos none, if_neg fun both => both.2 none]
      rfl
    · rw [if_neg none, if_pos ⟨rfl, none⟩]
      rfl
  | hybrid =>
    rw [writtenBefore, writtenAfter, head, Option.none_or, dictGet_layerEntries (by decide),
      if_neg (by rintro ⟨same, -⟩; cases same)]

end Root

section Info

theorem dictGet_name : (builder.writtenNode digests fileTree format).dictGet (ascii "name") =
    some (.string (utf8 builder.name)) := by
  rw [dictGet_writtenInfo (by decide)]
  cases format <;> rfl

theorem dictGet_version : (builder.writtenNode digests fileTree format).dictGet (ascii "meta version") =
    if format = .v1 then none else some (.number (decimal 2)) := by
  rw [dictGet_writtenInfo (by decide)]
  cases format <;> simp only [writtenFields, v1Fields] <;> cases builder.isSingleFile <;> rfl

/-- The hashes of the pieces, of which v2 has none. -/
def writtenPieces (digests : Digests) (builder : TorrentBuilder) : TorrentExportFormat → Option Bytes
  | .v1 => some (builder.plainPieces digests)
  | .v2 => none
  | .hybrid => some (builder.v1Pieces digests)

theorem dictGet_pieces : (builder.writtenNode digests fileTree format).dictGet (ascii "pieces") =
    (builder.writtenPieces digests format).map .string := by
  rw [dictGet_writtenInfo (by decide)]
  cases format <;> rfl

theorem dictGet_isPrivate : (builder.writtenNode digests fileTree format).dictGet (ascii "private") =
    if builder.isPrivate then some (.number (decimal 1)) else none := by
  rw [writtenNode, writtenInfo, dictGet_sortByKey, privateFields]
  cases format <;> simp only [writtenFields, v1Fields] <;> cases builder.isSingleFile <;> cases builder.isPrivate <;> rfl

theorem dictGet_length : (builder.writtenNode digests fileTree format).dictGet (ascii "length") =
    if format ≠ .v2 ∧ builder.isSingleFile then some (.number (decimal (builder.files.headD ([], [])).2.length))
    else none := by
  rw [dictGet_writtenInfo (by decide)]
  cases format <;> simp only [writtenFields, v1Fields] <;> cases builder.isSingleFile <;> rfl

end Info

section Parse

variable {entry : Bytes × BNode}

theorem mem_of_seedEntries (member : entry ∈ builder.seedEntries) :
    entry = (ascii "url-list", .list (builder.webSeeds.map fun url => .string (utf8 url))) := by
  rw [seedEntries] at member
  obtain ⟨_, member⟩ := List.mem_ite_nil_left.mp member
  exact mem_singleton.mp member

theorem mem_of_layerEntries (member : entry ∈ layerEntries layers) :
    entry = (ascii "piece layers", .dictionary (layers.map fun layer => (layer.1, .string layer.2))) := by
  rw [layerEntries] at member
  obtain ⟨_, member⟩ := List.mem_ite_nil_left.mp member
  exact mem_singleton.mp member

theorem mem_of_headEntries (member : entry ∈ headEntries builder) :
    (∃ key ∈ rootFields, ∃ value, entry = (key, .string value)) ∨
      entry = (ascii "announce-list", .list (builder.trackers.map fun url => .list [.string (utf8 url)])) := by
  rw [headEntries, mem_append, mem_append] at member
  rcases member with (announce | list) | comment
  · exact .inl ⟨_, by decide, _, mem_singleton.mp announce⟩
  · obtain ⟨_, list⟩ := List.mem_ite_nil_right.mp list
    exact .inr (mem_singleton.mp list)
  · rw [commentEntries, Option.mem_toList, Option.map_eq_some_iff] at comment
    obtain ⟨_, _, rfl⟩ := comment
    exact .inl ⟨_, by decide, _, rfl⟩

section

variable (digests builder fileTree layers format)

/-- The kinds of entries of a written root. -/
inductive RootEntry : Bytes × BNode → Prop
  | field (key value : Bytes) (known : key ∈ rootFields) : RootEntry (key, .string value)
  | tiers : RootEntry (ascii "announce-list", .list (builder.trackers.map fun url => .list [.string (utf8 url)]))
  | info : RootEntry (ascii "info", builder.writtenNode digests fileTree format)
  | layers : RootEntry (ascii "piece layers", .dictionary (layers.map fun layer => (layer.1, .string layer.2)))
  | seeds : RootEntry (ascii "url-list", .list (builder.webSeeds.map fun url => .string (utf8 url)))

end

theorem rootEntry_of_mem (member : entry ∈ builder.writtenRoot digests fileTree layers format) :
    RootEntry digests builder fileTree layers format entry := by
  have head : entry ∈ headEntries builder → RootEntry digests builder fileTree layers format entry := by
    intro inside
    rcases mem_of_headEntries inside with ⟨key, known, value, rfl⟩ | rfl
    · exact .field key value known
    · exact .tiers
  rw [writtenRoot_eq, mem_append, mem_cons] at member
  rcases member with before | rfl | after
  · cases format with
    | v1 =>
      rcases mem_cons.mp before with rfl | comment
      · exact .field _ _ (by decide)
      · exact head (mem_append_right _ comment)
    | v2 => exact head before
    | hybrid => exact head before
  · exact .info
  · cases format with
    | v1 => cases after
    | v2 =>
      rcases mem_append.mp after with layer | seed
      · cases mem_of_layerEntries layer
        exact .layers
      · cases mem_of_seedEntries seed
        exact .seeds
    | hybrid =>
      cases mem_of_layerEntries after
      exact .layers

theorem RootEntry.delimited (named : fileTree.Named)
    (kind : RootEntry digests builder fileTree layers format entry) : Delimited entry.2 := by
  cases kind with
  | field key value _ => exact .string value
  | tiers =>
    refine .list fun item member => ?_
    obtain ⟨url, _, rfl⟩ := mem_map.mp member
    exact .list (forall_mem_singleton.mpr (.string _))
  | info => exact (written_writtenInfo named).delimited
  | layers =>
    refine .dictionary fun item member => ?_
    obtain ⟨layer, _, rfl⟩ := mem_map.mp member
    exact .string _
  | seeds => exact (written_texts _).delimited

theorem RootEntry.whole (kind : RootEntry digests builder fileTree layers format entry) : readsWhole entry = true := by
  cases kind with
  | field key value _ => rfl
  | tiers => rfl
  | info => rfl
  | layers =>
    simp only [readsWhole, all_map, Bool.or_eq_true, all_eq_true]
    exact .inr fun _ _ => rfl
  | seeds =>
    simp only [readsWhole, if_true, all_map, all_eq_true]
    exact fun _ _ => rfl

theorem RootEntry.readable (named : fileTree.Named)
    (kind : RootEntry digests builder fileTree layers format entry) (fits : entry.2.fits = true) :
    ReadableRoot entry := by
  cases kind with
  | field key value known => exact readableRoot_field known rfl
  | tiers =>
    have unknown : ascii "announce-list" ∉ rootFields := by decide
    refine ⟨fun known => absurd known unknown, fun _ => ?_, fun same => absurd same (of_decide_eq_true rfl),
      fun same => absurd same (of_decide_eq_true rfl)⟩
    rw [tiers_texts fits]
    rfl
  | info => exact readableRoot_info fun field member => (readable_writtenInfo named field member).1
  | layers =>
    have unknown : ascii "piece layers" ∉ rootFields := by decide
    exact ⟨fun known => absurd known unknown, fun same => absurd same (of_decide_eq_true rfl),
      fun same => absurd same (of_decide_eq_true rfl), fun same => absurd same (of_decide_eq_true rfl)⟩
  | seeds =>
    have unknown : ascii "url-list" ∉ rootFields := by decide
    refine ⟨fun known => absurd known unknown, fun same => absurd same (of_decide_eq_true rfl), fun _ => ?_,
      fun same => absurd same (of_decide_eq_true rfl)⟩
    rw [webSeeds_texts fits]
    rfl

/-- What the parser keeps of a built torrent. -/
structure ReadBack (digests : Digests) (builder : TorrentBuilder) (fileTree : FileTreeNode) (format : TorrentExportFormat)
    (file : MetaInfoFile) : Prop where
  announce : file.get (text "announce") = some (utf8 builder.announceUrl)
  trackers : file.get (text "announce-list") =
    if format ≠ .v1 ∧ 1 < builder.trackers.length then some (joinUrls builder.trackers) else none
  comment : file.get (text "comment") = builder.comment.map utf8
  webSeeds : file.get (text "url-list") =
    if format = .v2 ∧ builder.webSeeds ≠ [] then some (joinUrls builder.webSeeds) else none
  pieceLength : file.get (text "piece length") = some (decimal builder.pieceLength)
  version : file.get (text "meta version") = if format = .v1 then none else some (decimal 2)
  pieces : file.get (text "pieces") = builder.writtenPieces digests format
  isPrivate : file.get (text "private") = if builder.isPrivate then some (decimal 1) else none
  read : ReadInfo file (builder.writtenInfo digests fileTree format)
  roots : ReadRoots file (builder.writtenInfo digests fileTree format)

section Run

variable {bytes : Bytes} {depth : Nat} {run : MetaInfoFile}
  (named : fileTree.Named)
  (proper : Proper (depth + 2) (.dictionary (builder.writtenRoot digests fileTree layers format)))
  (ran : (builder.writtenRoot digests fileTree layers format).foldlM (keyed (rootEffect digests)) (.fromBytes bytes) =
    some run)
include named proper ran

theorem readBack_of_run : ReadBack digests builder fileTree format { run with parsed := true } ∧
    (run.get (text "info hash")).isSome = true := by
  have shaped := ran
  rw [writtenRoot_eq] at shaped
  obtain ⟨start, blank, applied⟩ := run_info (proper _ (info_mem_writtenRoot fileTree layers)).2
    (fun entry member => (readable_writtenInfo named entry member).1) once_writtenRoot shaped
  have typed := @typedInfo_writtenInfo digests builder fileTree format named
  have root : ∀ {name : Text}, name ∈ rootNames → run.get name =
      ((dictionary (builder.writtenRoot digests fileTree layers format)).dictGet (utf8 name)).bind (keptValue (utf8 name)) :=
    fun known => get_of_run known distinct_writtenRoot ran
  have plain : ∀ key, key ∉ rootNames → key ∉ hashNames →
      run.get key = ((builder.writtenInfo digests fileTree format).foldl applyEntry start).get key := by
    intro key notRoot notHash
    rw [applied key notRoot, get_addInfoHash_other _ notHash]
  have field := fun {name : String} => @infoField_of_applied digests run _ _ _ typed.distinct blank applied name
  have limits : ∀ {key : Bytes} {value : BNode},
      (dictionary (builder.writtenRoot digests fileTree layers format)).dictGet key = some value → value.fits = true :=
    fun found => fits_of_proper (proper _ (BNode.mem_of_dictGet found)).2
  refine ⟨?_, ?_⟩
  · refine ⟨?_, ?_, ?_, ?_, ?_, ?_, ?_, ?_, readInfo_of_applies typed rfl blank plain,
      readRoots_of_applies typed blank plain⟩
    · exact (root (by decide)).trans (congrArg (Option.bind · _) dictGet_announce)
    · refine (root (by decide)).trans ((congrArg (Option.bind · _) dictGet_tiers).trans ?_)
      split
      case isTrue several =>
        exact congrArg (Option.map joinUrls) (tiers_texts (limits (dictGet_tiers.trans (if_pos several))))
      case isFalse => rfl
    · refine (root (by decide)).trans ((congrArg (Option.bind · _) dictGet_comment).trans ?_)
      cases builder.comment with
      | none => rfl
      | some comment => rfl
    · refine (root (by decide)).trans ((congrArg (Option.bind · _) dictGet_seeds).trans ?_)
      split
      case isTrue given =>
        exact webSeeds_texts (limits (dictGet_seeds.trans (if_pos given)))
      case isFalse => rfl
    · refine (field (by decide)).trans ?_
      rw [dictGet_writtenInfo (by decide)]
      cases format <;> rfl
    · refine (field (by decide)).trans ?_
      rw [dictGet_version]
      split
      case isTrue => rfl
      case isFalse => rfl
    · refine (field (by decide)).trans ?_
      rw [dictGet_pieces]
      cases builder.writtenPieces digests format with
      | none => rfl
      | some pieces => rfl
    · refine (field (by decide)).trans ?_
      rw [dictGet_isPrivate]
      cases builder.isPrivate <;> rfl
  · rw [applied _ (by decide)]
    exact infoHash_isSome _

end Run

section Built

variable (named : fileTree.Named)
include named

theorem delimited_writtenRoot : ∀ entry ∈ builder.writtenRoot digests fileTree layers format, Delimited entry.2 :=
  fun _ member => (rootEntry_of_mem member).delimited named

theorem parse_built : (parse digests
      (.fromBytes (builder.writtenBytes digests fileTree layers format))).toOption =
    ((builder.writtenRoot digests fileTree (sortByKey layers) format).foldlM (keyed (rootEffect digests))
      (.fromBytes (builder.writtenBytes digests fileTree layers format))).bind fun file =>
        file.checkFields.toOption.map fun _ => { file with parsed := true } := by
  rw [encode_writtenRoot named, ← append_nil (spell _)]
  exact parse_run (delimited_writtenRoot named) fun _ member => (rootEntry_of_mem member).whole

theorem fits_of_built
    (parsed : parse digests (.fromBytes (builder.writtenBytes digests fileTree layers format)) =
      .ok file) : (dictionary (builder.writtenRoot digests fileTree (sortByKey layers) format)).fits = true := by
  rw [encode_writtenRoot named, ← append_nil (spell _)] at parsed
  exact fits_of_parse (delimited_writtenRoot named) (fun _ member => (rootEntry_of_mem member).whole) parsed

theorem proper_writtenRoot (fits : (dictionary (builder.writtenRoot digests fileTree layers format)).fits = true) :
    ∃ depth, Proper (depth + 2) (.dictionary (builder.writtenRoot digests fileTree layers format)) := by
  obtain ⟨depth, proper⟩ := exists_proper_of_fits (.dictionary (delimited_writtenRoot named)) fits
  exact ⟨depth, Proper.le proper (Nat.le_add_right depth 2)⟩

theorem readBack_of_parse
    (parsed : parse digests (.fromBytes (builder.writtenBytes digests fileTree layers format)) =
      .ok file) : ReadBack digests builder fileTree format file := by
  obtain ⟨depth, proper⟩ := proper_writtenRoot named (fits_of_built named parsed)
  rw [← toOption_eq_some, parse_built named, Option.bind_eq_some_iff] at parsed
  obtain ⟨run, ran, checked⟩ := parsed
  obtain ⟨_, _, rfl⟩ := Option.map_eq_some_iff.mp checked
  exact (readBack_of_run named proper ran).1

theorem exists_parse_iff :
    (∃ file, parse digests (.fromBytes (builder.writtenBytes digests fileTree layers format)) =
      .ok file) ↔ (dictionary (builder.writtenRoot digests fileTree (sortByKey layers) format)).fits = true := by
  constructor
  · intro parsed
    obtain ⟨file, parsed⟩ := parsed
    exact fits_of_built named parsed
  · intro fits
    obtain ⟨depth, proper⟩ := proper_writtenRoot named fits
    have readable : ∀ entry ∈ builder.writtenRoot digests fileTree (sortByKey layers) format, ReadableRoot entry :=
      fun entry member => (rootEntry_of_mem member).readable named (fits_of_proper (proper entry member).2)
    obtain ⟨run, ran⟩ := @run_exists digests
      (.fromBytes (builder.writtenBytes digests fileTree layers format)) _ _ proper readable
    obtain ⟨back, hash⟩ := readBack_of_run named proper ran
    have checked : run.checkFields = .ok () := by
      refine checkFields_eq_ok ?_ ?_ ?_ ?_ hash
      · exact Option.isSome_of_eq_some back.announce
      · have name := back.read.name
        rw [dictGet_name] at name
        exact Option.isSome_of_eq_some name
      · exact Option.isSome_of_eq_some back.pieceLength
      · have version := back.version
        have pieces := back.pieces
        cases format with
        | v1 => exact .inr (Option.isSome_of_eq_some pieces)
        | v2 =>
          have same : run.get (text "meta version") = some (decimal 2) := version
          rw [isV2, same]
          exact .inl (by decide +kernel)
        | hybrid => exact .inr (Option.isSome_of_eq_some pieces)
    refine ⟨{ run with parsed := true }, ?_⟩
    rw [← toOption_eq_some, parse_built named, ran, Option.bind_some, checked]
    rfl

end Built

end Parse

end TorrentBuilder

end BitTorrent
