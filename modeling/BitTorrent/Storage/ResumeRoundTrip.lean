import BitTorrent.Storage.FastResume
import BitTorrent.Utils.BencodeRoundTrip
import BitTorrent.Utils.TokenRuns

/-! # Fast-resume data that is written and read again

The encoder of the record spells a dictionary, and the decoder finds in it what was written.
-/

namespace BitTorrent

open Bencode BNode
open List hiding asString beq_eq_decide

theorem parseI64_integerText {value : Int} (range : IsI64 value) : parseI64 (integerText value) = some value := by
  obtain ⟨lower, upper⟩ := range
  rw [integerText]
  split
  case isTrue negative =>
    have small : value.natAbs ≤ 2 ^ 63 := by omega
    rw [parseI64, decimalValue_decimal, Option.filter_some, if_pos (decide_eq_true small), Option.map_some,
      Int.ofNat_eq_natCast, Int.ofNat_natAbs_of_nonpos (Int.le_of_lt negative), Int.neg_neg]
  case isFalse positive =>
    have small : value.natAbs < 2 ^ 63 := by omega
    have plain : parseI64 (decimal value.natAbs) =
        ((decimalValue (decimal value.natAbs)).filter fun value => decide (value < 2 ^ 63)).map Int.ofNat := by
      obtain ⟨first, rest, shape⟩ := exists_cons_of_ne_nil (decimal_ne_nil value.natAbs)
      have digit := decimal_head_isDigit shape
      rw [shape]
      unfold parseI64
      split
      case h_1 same =>
        rw [(cons.inj same).1] at digit
        cases digit
      case h_2 same =>
        rw [(cons.inj same).1] at digit
        cases digit
      case h_3 => rfl
    rw [plain, decimalValue_decimal, Option.filter_some, if_pos (decide_eq_true small), Option.map_some,
      Int.ofNat_eq_natCast, Int.natAbs_of_nonneg (by omega)]

variable {value : Nat}

theorem isI64_natCast (small : value < 2 ^ 63) : IsI64 value := ⟨by omega, by omega⟩

theorem asI64_eq (small : value < 2 ^ 63) : asI64 value = value := if_pos small

theorem filterMap_zipIdx {α β : Type} {items : List α} {values : List β} {read : α × Nat → Option β} {start : Nat}
    (same : items.length = values.length)
    (each : ∀ index item, items[index]? = some item → read (item, start + index) = values[index]?) :
    (items.zipIdx start).filterMap read = values := by
  induction items generalizing values start with
  | nil => exact (eq_nil_of_length_eq_zero same.symm).symm
  | cons item items ih =>
    cases values with
    | nil => cases same
    | cons value values =>
      have first := each 0 item rfl
      rw [getElem?_cons_zero, Nat.add_zero] at first
      rw [zipIdx_cons, filterMap_cons_some first]
      congr 1
      refine ih (Nat.succ.inj same) fun index item found => ?_
      have next := each (index + 1) item found
      rw [getElem?_cons_succ] at next
      rw [← next, Nat.add_assoc, Nat.add_comm 1 index]

namespace FastResumeData

section Spelling

variable (data : FastResumeData)

def integerNode (value : Int) : BNode := .number (integerText value)

def sizeNode (file : FastResumeFileEntry) : BNode := .list [integerNode (asI64 file.length), integerNode (asI64 file.mtime)]

def pathNode (file : FastResumeFileEntry) : BNode := .string (utf8 (fromUtf8Lossy file.path))

def priorityNode (file : FastResumeFileEntry) : BNode := integerNode file.priority

def peerNode (peer : Text) : BNode := .string (utf8 peer)

/-- The entries of the dictionary, before they are sorted. -/
def entries : Entries :=
  [(ascii "file-format", .string (utf8 (text "libtorrent resume file"))),
    (ascii "file-version", integerNode 1),
    (ascii "info-hash", .string data.infoHash.toList),
    (ascii "save_path", .string (utf8 (fromUtf8Lossy data.savePath))),
    (ascii "num_pieces", integerNode (asI64 data.numPieces)),
    (ascii "piece_length", integerNode data.pieceLength),
    (ascii "bitfield", .string data.bitfield),
    (ascii "pieces", .string data.piecesBytes),
    (ascii "total_uploaded", integerNode (asI64 data.totalUploaded)),
    (ascii "total_downloaded", integerNode (asI64 data.totalDownloaded)),
    (ascii "active_time", integerNode (asI64 data.activeTime)),
    (ascii "seeding_time", integerNode (asI64 data.seedingTime)),
    (ascii "is_seeding", integerNode (if data.isSeeding then 1 else 0)),
    (ascii "file sizes", .list (data.files.map sizeNode)),
    (ascii "file_paths", .list (data.files.map pathNode)),
    (ascii "file_priorities", .list (data.files.map priorityNode)),
    (ascii "peers", .list (data.peers.map peerNode))]

def root : BNode := .dictionary (sortByKey data.entries)

theorem encodeBencodeList_map {α : Type} {items : List α} {write : α → Bytes} {node : α → BNode}
    (same : ∀ item, write item = spell (node item)) :
    encodeBencodeList (items.map write) = spell (.list (items.map node)) := by
  have words : items.map write = (items.map node).map spell := by
    rw [map_map]
    exact map_congr_left fun item _ => same item
  rw [spell_list, encodeBencodeList, words, ← flatMap_def]

theorem spell_sizeNode (file : FastResumeFileEntry) :
    encodeBencodeList [encodeBencodeInt (asI64 file.length), encodeBencodeInt (asI64 file.mtime)] =
      spell (sizeNode file) := by
  rfl

theorem toBencode_eq : data.toBencode = spell data.root := by
  have sizes := @encodeBencodeList_map _ data.files _ _ spell_sizeNode
  have paths := @encodeBencodeList_map _ data.files (fun file => encodeBencodeStr (fromUtf8Lossy file.path)) pathNode
    fun _ => rfl
  have priorities := @encodeBencodeList_map _ data.files (fun file => encodeBencodeInt file.priority) priorityNode
    fun _ => rfl
  have peers := @encodeBencodeList_map _ data.peers encodeBencodeStr peerNode fun _ => rfl
  have written : data.toBencode = encodeBencodeDict (data.entries.map fun entry => (entry.1, spell entry.2)) := by
    rw [toBencode, sizes, paths, priorities, peers]
    rfl
  rw [written, encodeBencodeDict, sortByKey_map, flatMap_map, root, spell_dictionary]
  rfl

end Spelling

/-- What the record has to keep to: the numbers fit into the types of the file, and texts and byte
strings into its strings. -/
structure Storable (data : FastResumeData) : Prop where
  numPieces : data.numPieces < 2 ^ 63
  pieceLength : data.pieceLength < u32Size
  totalUploaded : data.totalUploaded < 2 ^ 63
  totalDownloaded : data.totalDownloaded < 2 ^ 63
  activeTime : data.activeTime < 2 ^ 63
  seedingTime : data.seedingTime < 2 ^ 63
  savePath : ∃ path, data.savePath = utf8 path
  savePathShort : data.savePath.length ≤ maxStringLen
  bitfield : data.bitfield.length ≤ maxStringLen
  paths : ∀ file ∈ data.files, ∃ path, file.path = utf8 path
  pathsShort : ∀ file ∈ data.files, file.path.length ≤ maxStringLen
  lengths : ∀ file ∈ data.files, file.length < 2 ^ 63
  times : ∀ file ∈ data.files, file.mtime < 2 ^ 63
  priorities : ∀ file ∈ data.files, file.priority < 256
  peersShort : ∀ peer ∈ data.peers, (utf8 peer).length ≤ maxStringLen

section Reading

variable {data : FastResumeData} {depth : Nat}

theorem lossy_utf8 {path : Bytes} (valid : ∃ text, path = utf8 text) : utf8 (fromUtf8Lossy path) = path := by
  obtain ⟨text, rfl⟩ := valid
  rw [fromUtf8Lossy_utf8]

theorem proper_integerNode {value : Int} (range : IsI64 value) :
    Proper (depth + 1) (integerNode value) := ⟨value, range, rfl⟩

theorem proper_asI64 (small : value < 2 ^ 63) : Proper (depth + 1) (integerNode (asI64 value)) := by
  rw [asI64_eq small]
  exact proper_integerNode (isI64_natCast small)

theorem proper_string {bytes : Bytes} (short : bytes.length ≤ maxStringLen) :
    Proper (depth + 1) (.string bytes) := short

theorem proper_list {α : Type} {items : List α} {node : α → BNode}
    (each : ∀ item ∈ items, Proper depth (node item)) : Proper (depth + 1) (.list (items.map node)) := by
  intro item member
  obtain ⟨source, listed, rfl⟩ := mem_map.mp member
  exact each source listed

theorem proper_sizeNode {file : FastResumeFileEntry} (length : file.length < 2 ^ 63)
    (time : file.mtime < 2 ^ 63) : Proper (depth + 2) (sizeNode file) := by
  intro item member
  simp only [mem_cons, not_mem_nil, or_false] at member
  rcases member with rfl | rfl
  · exact proper_asI64 length
  · exact proper_asI64 time

theorem proper_entries (storable : data.Storable) (few : data.numPieces ≤ maxStringLen) :
    ∀ entry ∈ data.entries, Proper 49 entry.2 := by
  have seeding : IsI64 (if data.isSeeding then 1 else 0) := by
    cases data.isSeeding with
    | false => exact ⟨by decide, by decide⟩
    | true => exact ⟨by decide, by decide⟩
  have hash : data.infoHash.toList.length ≤ maxStringLen := by
    rw [List.Vector.toList_length]
    decide
  have save : (utf8 (fromUtf8Lossy data.savePath)).length ≤ maxStringLen := by
    rw [lossy_utf8 storable.savePath]
    exact storable.savePathShort
  have pieces : data.piecesBytes.length ≤ maxStringLen := by
    rw [piecesBytes, length_map, length_range]
    exact few
  have format : (utf8 (text "libtorrent resume file")).length ≤ maxStringLen := of_decide_eq_true rfl
  have length : data.pieceLength < 2 ^ 63 := Nat.lt_of_lt_of_le storable.pieceLength (by decide)
  simp only [entries, forall_mem_cons, not_mem_nil, false_implies, implies_true, and_true]
  refine ⟨proper_string format, proper_integerNode ⟨by decide, by decide⟩, proper_string hash, proper_string save,
    proper_asI64 storable.numPieces, proper_integerNode (isI64_natCast length), proper_string storable.bitfield,
    proper_string pieces, proper_asI64 storable.totalUploaded, proper_asI64 storable.totalDownloaded,
    proper_asI64 storable.activeTime, proper_asI64 storable.seedingTime, proper_integerNode seeding, ?_, ?_, ?_, ?_⟩
  · exact proper_list fun file member => proper_sizeNode (storable.lengths file member) (storable.times file member)
  · refine proper_list fun file member => proper_string ?_
    rw [lossy_utf8 (storable.paths file member)]
    exact storable.pathsShort file member
  · refine proper_list fun file member => proper_integerNode (isI64_natCast ?_)
    exact Nat.lt_of_lt_of_le (storable.priorities file member) (by decide)
  · exact proper_list fun peer member => proper_string (storable.peersShort peer member)

theorem proper_root (storable : data.Storable) (few : data.numPieces ≤ maxStringLen) : Proper maxDepth data.root := by
  have keys : ∀ entry ∈ data.entries, entry.1.length ≤ maxStringLen := by
    simp only [entries, forall_mem_cons]
    exact of_decide_eq_true rfl
  intro entry member
  have listed := mem_sortByKey.mp member
  exact ⟨keys entry listed, proper_entries storable few entry listed⟩

theorem dictGet_root (key : String) : data.root.dictGet (ascii key) = (dictionary data.entries).dictGet (ascii key) :=
  dictGet_sortByKey _ _

theorem parse_asI64 (small : value < 2 ^ 63) : parseI64 (integerText (asI64 value)) = some (value : Int) := by
  rw [asI64_eq small, parseI64_integerText (isI64_natCast small)]

theorem getCounter_root {key : String} (small : value < 2 ^ 63)
    (found : (dictionary data.entries).dictGet (ascii key) = some (integerNode (asI64 value))) :
    getCounter data.root key = value := by
  rw [getCounter, getInt, dictGet_root, found, Option.bind_some, parseBnodeInt, integerNode, asNumberBytes,
    Option.bind_some, parse_asI64 small]
  rfl

theorem filterMap_map_some {α β γ : Type} {items : List α} {convert : α → β} {read : β → Option γ} {value : α → γ}
    (each : ∀ item ∈ items, read (convert item) = some (value item)) :
    (items.map convert).filterMap read = items.map value := by
  rw [filterMap_map, ← filterMap_eq_map]
  exact filterMap_congr each

theorem readPriorities_root (storable : data.Storable) :
    readPriorities data.root = data.files.map FastResumeFileEntry.priority := by
  rw [readPriorities, getList, dictGet_root, dictGet_root]
  refine filterMap_map_some fun file member => ?_
  exact parseUnsigned_decimal (storable.priorities file member)

theorem readPaths_root (storable : data.Storable) : readPaths data.root = data.files.map FastResumeFileEntry.path := by
  rw [readPaths, getList, dictGet_root, dictGet_root]
  refine filterMap_map_some fun file member => ?_
  rw [pathNode, asString, Option.map_some, fromUtf8Lossy_utf8, lossy_utf8 (storable.paths file member)]

theorem readPeers_root : readPeers data.root = data.peers := by
  rw [readPeers, getList, dictGet_root]
  refine (filterMap_map_some fun peer member => ?_).trans (map_id _)
  rw [peerNode, readPeer, asString, Option.bind_some, fromUtf8_utf8]
  rfl

theorem readFiles_root (storable : data.Storable) : readFiles data.root = data.files := by
  have sizes : getList data.root "file sizes" "file_sizes" = data.files.map sizeNode := by
    rw [getList, dictGet_root, dictGet_root]
    rfl
  rw [readFiles, sizes, readPriorities_root storable, readPaths_root storable]
  refine filterMap_zipIdx (length_map _) fun index node found => ?_
  rw [getElem?_map, Option.map_eq_some_iff] at found
  obtain ⟨file, known, rfl⟩ := found
  have member := mem_of_getElem? known
  have length : counterAt [integerNode (asI64 file.length), integerNode (asI64 file.mtime)] 0 = file.length := by
    rw [counterAt, getElem?_cons_zero, Option.bind_some, parseBnodeInt, integerNode, asNumberBytes, Option.bind_some,
      parse_asI64 (storable.lengths file member)]
    rfl
  have time : counterAt [integerNode (asI64 file.length), integerNode (asI64 file.mtime)] 1 = file.mtime := by
    rw [counterAt, getElem?_cons_succ, getElem?_cons_zero, Option.bind_some, parseBnodeInt, integerNode,
      asNumberBytes, Option.bind_some, parse_asI64 (storable.times file member)]
    rfl
  rw [known, readFile]
  rw [Nat.zero_add, getElem?_map, getElem?_map, known, sizeNode]
  dsimp only
  rw [length, time]
  rfl

theorem fromBencode_root (storable : data.Storable) (few : data.numPieces ≤ maxStringLen) (memory : Nat) :
    fromBencode memory (spell data.root) = .ok data := by
  have hash : getBytes data.root "info-hash" = some data.infoHash.toList := by
    rw [getBytes, dictGet_root]
    rfl
  have bits : readBitfield memory data.root = some data.bitfield := by
    rw [readBitfield, getBytes, dictGet_root]
    rfl
  have path : utf8 ((getStr data.root "save_path").getD []) = data.savePath := by
    rw [getStr, dictGet_root]
    exact (congrArg utf8 (fromUtf8Lossy_utf8 _)).trans (lossy_utf8 storable.savePath)
  have pieces : getNumPieces data.root = data.numPieces := by
    have number : getInt data.root "num_pieces" = some (data.numPieces : Int) := by
      rw [getInt, dictGet_root]
      exact parse_asI64 storable.numPieces
    have small := storable.numPieces
    rw [getNumPieces, number, Option.getD_some, wrapTo, u64Size]
    omega
  have length : wrapTo u32Size ((getInt data.root "piece_length").getD 0) = data.pieceLength := by
    have small := storable.pieceLength
    have number : getInt data.root "piece_length" = some (data.pieceLength : Int) := by
      rw [getInt, dictGet_root]
      exact parseI64_integerText (isI64_natCast (Nat.lt_of_lt_of_le small (by decide)))
    rw [number, Option.getD_some, wrapTo, u32Size]
    rw [u32Size] at small
    omega
  have seeding : decide ((getInt data.root "is_seeding").getD 0 ≠ 0) = data.isSeeding := by
    rw [getInt, dictGet_root]
    cases mode : data.isSeeding with
    | false =>
      rw [entries, mode]
      rfl
    | true =>
      rw [entries, mode]
      rfl
  have total := (List.Vector.toList_length data.infoHash)
  rw [fromBencode, decode_spell (proper_root storable few)]
  dsimp only
  rw [hash]
  dsimp only
  rw [dif_pos total, bits]
  dsimp only
  rw [path, pieces, length, getCounter_root storable.totalUploaded rfl, getCounter_root storable.totalDownloaded rfl,
    getCounter_root storable.activeTime rfl, getCounter_root storable.seedingTime rfl, seeding, readFiles_root storable,
    readPeers_root]
  rfl

end Reading

theorem delimited_integerNode (value : Int) : Delimited (integerNode value) := by
  refine .number ?_
  rw [integerText]
  split
  case isTrue =>
    rw [all_cons, decimal_isNumberByte]
    rfl
  case isFalse => exact decimal_isNumberByte _

theorem delimited_list {α : Type} {items : List α} {node : α → BNode} (each : ∀ item, Delimited (node item)) :
    Delimited (.list (items.map node)) := by
  refine .list fun item member => ?_
  obtain ⟨source, _, rfl⟩ := mem_map.mp member
  exact each source

theorem delimited_root (data : FastResumeData) : Delimited data.root := by
  have sizes : ∀ file, Delimited (sizeNode file) := by
    intro file
    refine .list fun item member => ?_
    simp only [mem_cons, not_mem_nil, or_false] at member
    rcases member with rfl | rfl <;> exact delimited_integerNode _
  have each : ∀ entry ∈ data.entries, Delimited entry.2 := by
    simp only [entries, forall_mem_cons, not_mem_nil, false_implies, implies_true, and_true]
    exact ⟨.string _, delimited_integerNode _, .string _, .string _, delimited_integerNode _, delimited_integerNode _,
      .string _, .string _, delimited_integerNode _, delimited_integerNode _, delimited_integerNode _,
      delimited_integerNode _, delimited_integerNode _, delimited_list sizes, delimited_list fun _ => .string _,
      delimited_list fun _ => delimited_integerNode _, delimited_list fun _ => .string _⟩
  exact .dictionary fun entry member => each entry (mem_sortByKey.mp member)

/-- The string with a byte for each piece is not read when it is too long. -/
theorem numPieces_le_of_decode {data : FastResumeData} {node : BNode} (decoded : decode (spell data.root) = .ok node) :
    data.numPieces ≤ maxStringLen := by
  have good := fits_of_decode (delimited_root data) decoded
  rw [root, fits_dictionary, all_eq_true] at good
  have listed : (ascii "pieces", BNode.string data.piecesBytes) ∈ data.entries := by
    simp only [entries, mem_cons, true_or, or_true]
  have pair := good _ (mem_sortByKey.mpr listed)
  rw [pairFits, Bool.and_eq_true, fits, decide_eq_true_eq, decide_eq_true_eq] at pair
  have short := pair.2
  rwa [piecesBytes, length_map, length_range] at short

theorem decode_of_fromBencode {memory : Nat} {bytes : Bytes} {data : FastResumeData}
    (read : fromBencode memory bytes = .ok data) : ∃ node, decode bytes = .ok node := by
  rw [fromBencode] at read
  split at read
  case h_1 => cases read
  case h_2 node decoded => exact ⟨node, decoded⟩

/-- What is written is read again, if there is a string for the pieces that is not too long. -/
theorem fromBencode_toBencode_iff {data : FastResumeData} (storable : data.Storable) (memory : Nat) :
    fromBencode memory data.toBencode = .ok data ↔ data.numPieces ≤ maxStringLen := by
  rw [toBencode_eq]
  constructor
  · intro read
    obtain ⟨node, decoded⟩ := decode_of_fromBencode read
    exact numPieces_le_of_decode decoded
  · intro few
    exact fromBencode_root storable few memory

/-- Two files, of which one is skipped. -/
def twoFiles : FastResumeData where
  infoHash := List.Vector.replicate 20 7
  savePath := ascii "/d"
  numPieces := 9
  pieceLength := 16384
  bitfield := [255, 128]
  totalUploaded := 5
  totalDownloaded := 140000
  activeTime := 0
  seedingTime := 0
  isSeeding := false
  files := [⟨ascii "r/a", 100000, 1700000000, 0⟩, ⟨ascii "r/b", 40000, 0, 7⟩]
  peers := [text "10.0.0.1:6881"]

theorem twoFiles_storable : twoFiles.Storable := by
  constructor
  all_goals first | decide | exact ⟨text "/d", by decide⟩ | skip
  intro file member
  simp only [twoFiles, mem_cons, not_mem_nil, or_false] at member
  rcases member with rfl | rfl
  · exact ⟨text "r/a", by decide⟩
  · exact ⟨text "r/b", by decide⟩

theorem twoFiles_read : fromBencode 1000 twoFiles.toBencode = .ok twoFiles :=
  (fromBencode_toBencode_iff twoFiles_storable 1000).mpr (by decide)

/-- A record of more pieces than the string for them may have bytes. -/
def manyPieces : FastResumeData where
  infoHash := List.Vector.replicate 20 0
  savePath := []
  numPieces := 16777217
  pieceLength := 16384
  bitfield := []
  totalUploaded := 0
  totalDownloaded := 0
  activeTime := 0
  seedingTime := 0
  isSeeding := false
  files := []
  peers := []

theorem manyPieces_storable : manyPieces.Storable := by
  constructor
  all_goals first | decide | exact ⟨[], rfl⟩ | exact fun _ member => nomatch member

theorem manyPieces_lost : manyPieces.Storable ∧ ∀ memory, fromBencode memory manyPieces.toBencode ≠ .ok manyPieces := by
  refine ⟨manyPieces_storable, fun memory read => ?_⟩
  rw [toBencode_eq] at read
  obtain ⟨node, decoded⟩ := decode_of_fromBencode read
  exact absurd (numPieces_le_of_decode decoded) (by decide)


end FastResumeData

end BitTorrent
