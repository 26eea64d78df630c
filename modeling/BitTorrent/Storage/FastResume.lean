import BitTorrent.Core.TorrentContext
import BitTorrent.Utils.BencodeGrammar

/-! # Fast-resume data

`storage/fast_resume.rs`: the record, its own encoder and decoder, and its application to a context.
Paths are byte strings.  The sizes of vectors that the decoder asks for are compared with the memory
there is; asking for more, like an index out of range or an overflow, is a panic.
-/

namespace BitTorrent

open Bencode

structure FastResumeFileEntry where
  path : Bytes
  length : Nat
  mtime : Nat
  priority : Nat
deriving DecidableEq

structure FastResumeData where
  infoHash : List.Vector UInt8 20
  savePath : Bytes
  numPieces : Nat
  pieceLength : Nat
  bitfield : Bytes
  totalUploaded : Nat
  totalDownloaded : Nat
  activeTime : Nat
  seedingTime : Nat
  isSeeding : Bool
  files : List FastResumeFileEntry
  peers : List Text
deriving DecidableEq

/-- `as i64` of a 64-bit number. -/
def asI64 (value : Nat) : Int := if value < 2 ^ 63 then value else value - 2 ^ 64

/-- `as usize` or `as u32` of a signed number. -/
def wrapTo (size : Nat) (value : Int) : Nat := (value % size).toNat

namespace FastResumeData

def hasPiece (data : FastResumeData) (index : Nat) : Bool :=
  decide (index < data.numPieces) && bitSet data.bitfield index

section Encoding

def encodeBencodeInt (value : Int) : Bytes := 105 :: integerText value ++ [101]

def encodeBencodeBytes (bytes : Bytes) : Bytes := decimal bytes.length ++ 58 :: bytes

def encodeBencodeStr (value : Text) : Bytes := encodeBencodeBytes (utf8 value)

def encodeBencodeList (items : List Bytes) : Bytes := 108 :: items.flatten ++ [101]

def encodeBencodeDict (entries : List (Bytes × Bytes)) : Bytes :=
  100 :: (sortByKey entries).flatMap (fun entry => encodeBencodeBytes entry.1 ++ entry.2) ++ [101]

/-- One byte for each piece. -/
def piecesBytes (data : FastResumeData) : Bytes :=
  (List.range data.numPieces).map fun piece => if data.hasPiece piece then 1 else 0

def toBencode (data : FastResumeData) : Bytes :=
  encodeBencodeDict [
    (ascii "file-format", encodeBencodeStr (text "libtorrent resume file")),
    (ascii "file-version", encodeBencodeInt 1),
    (ascii "info-hash", encodeBencodeBytes data.infoHash.toList),
    (ascii "save_path", encodeBencodeStr (fromUtf8Lossy data.savePath)),
    (ascii "num_pieces", encodeBencodeInt (asI64 data.numPieces)),
    (ascii "piece_length", encodeBencodeInt data.pieceLength),
    (ascii "bitfield", encodeBencodeBytes data.bitfield),
    (ascii "pieces", encodeBencodeBytes data.piecesBytes),
    (ascii "total_uploaded", encodeBencodeInt (asI64 data.totalUploaded)),
    (ascii "total_downloaded", encodeBencodeInt (asI64 data.totalDownloaded)),
    (ascii "active_time", encodeBencodeInt (asI64 data.activeTime)),
    (ascii "seeding_time", encodeBencodeInt (asI64 data.seedingTime)),
    (ascii "is_seeding", encodeBencodeInt (if data.isSeeding then 1 else 0)),
    (ascii "file sizes", encodeBencodeList (data.files.map fun file =>
      encodeBencodeList [encodeBencodeInt (asI64 file.length), encodeBencodeInt (asI64 file.mtime)])),
    (ascii "file_paths", encodeBencodeList (data.files.map fun file => encodeBencodeStr (fromUtf8Lossy file.path))),
    (ascii "file_priorities", encodeBencodeList (data.files.map fun file => encodeBencodeInt file.priority)),
    (ascii "peers", encodeBencodeList (data.peers.map encodeBencodeStr))]

end Encoding

section Decoding

def parseBnodeInt (node : BNode) : Option Int := node.asNumberBytes.bind parseI64

def getInt (node : BNode) (key : String) : Option Int := (node.dictGet (ascii key)).bind parseBnodeInt

def getStr (node : BNode) (key : String) : Option Text :=
  (node.dictGet (ascii key)).bind fun found => found.asString.map fromUtf8Lossy

def getBytes (node : BNode) (key : String) : Option Bytes := (node.dictGet (ascii key)).bind BNode.asString

/-- The numbers that are not allowed to be negative. -/
def getCounter (node : BNode) (key : String) : Nat := ((getInt node key).getD 0).toNat

def getNumPieces (node : BNode) : Nat := wrapTo u64Size ((getInt node "num_pieces").getD 0)

def zeroed (memory pieces : Nat) : Option Bytes :=
  if u64Size ≤ pieces + 7 ∨ memory < (pieces + 7) / 8 then none else some (List.replicate ((pieces + 7) / 8) 0)

/-- The bits of a string with one byte for each piece. -/
def packPieces (bits pieces : Bytes) : Bytes :=
  pieces.zipIdx.foldl (fun bits entry => if entry.1 ≠ 0 then putBit bits entry.2 true else bits) bits

/-- The bit field, or else the bits of the pieces; nothing when there is no memory for it. -/
def readBitfield (memory : Nat) (root : BNode) : Option Bytes :=
  match getBytes root "bitfield" with
  | some bits => some bits
  | none =>
    match getBytes root "pieces" with
    | some pieces =>
      let actualLen := if 0 < getNumPieces root then getNumPieces root else pieces.length
      (zeroed memory actualLen).map fun bits => packPieces bits (pieces.take actualLen)
    | none => zeroed memory (getNumPieces root)

/-- A list under one of two keys. -/
def getList (node : BNode) (key other : String) : List BNode :=
  match (node.dictGet (ascii key)).or (node.dictGet (ascii other)) with
  | some (.list items) => items
  | _ => []

def readPriorities (root : BNode) : List Nat :=
  (getList root "file_priorities" "file priorities").filterMap fun item => item.asNumberBytes.bind (parseUnsigned 256)

def readPaths (root : BNode) : List Bytes :=
  (getList root "file_paths" "file paths").filterMap fun item =>
    item.asString.map fun bytes => utf8 (fromUtf8Lossy bytes)

def counterAt (items : List BNode) (index : Nat) : Nat := ((items[index]?.bind parseBnodeInt).getD 0).toNat

/-- Length and time, or the length alone. -/
def readFile (priorities : List Nat) (paths : List Bytes) (entry : BNode × Nat) : Option FastResumeFileEntry :=
  let priority := priorities[entry.2]?.getD 4
  let path := paths[entry.2]?.getD []
  match entry.1 with
  | .list pair => some ⟨path, counterAt pair 0, counterAt pair 1, priority⟩
  | .number digits => some ⟨path, ((parseI64 digits).getD 0).toNat, 0, priority⟩
  | _ => none

def readFiles (root : BNode) : List FastResumeFileEntry :=
  (getList root "file sizes" "file_sizes").zipIdx.filterMap (readFile (readPriorities root) (readPaths root))

/-- A text, or an address in six bytes. -/
def readPeer (item : BNode) : Option Text :=
  item.asString.bind fun bytes =>
    match fromUtf8 bytes with
    | some peer => some peer
    | none =>
      match bytes with
      | [a, b, c, d, high, low] =>
        some (numeral a.toNat ++ '.' :: numeral b.toNat ++ '.' :: numeral c.toNat ++ '.' :: numeral d.toNat ++
          ':' :: numeral (high.toNat * 256 + low.toNat))
      | _ => none

/-- `peers` has no other key. -/
def readPeers (root : BNode) : List Text := (getList root "peers" "peers").filterMap readPeer

def fromBencode (memory : Nat) (bytes : Bytes) : Outcome FastResumeData :=
  match decode bytes with
  | .error reason => .err reason
  | .ok root =>
    match getBytes root "info-hash" with
    | none => .err (.parse "Missing 'info-hash' in fast-resume data")
    | some raw =>
      if sized : raw.length = 20 then
        match readBitfield memory root with
        | none => .panic
        | some bitfield =>
          .ok {
            infoHash := ⟨raw, sized⟩
            savePath := utf8 ((getStr root "save_path").getD [])
            numPieces := getNumPieces root
            pieceLength := wrapTo u32Size ((getInt root "piece_length").getD 0)
            bitfield
            totalUploaded := getCounter root "total_uploaded"
            totalDownloaded := getCounter root "total_downloaded"
            activeTime := getCounter root "active_time"
            seedingTime := getCounter root "seeding_time"
            isSeeding := decide ((getInt root "is_seeding").getD 0 ≠ 0)
            files := readFiles root
            peers := readPeers root }
      else .err (.parse "Invalid info-hash length in fast-resume data (expected 20 bytes)")

end Decoding

section Applying

/-- The state of the loop over the pieces. -/
structure Resuming where
  context : TorrentContext
  totalDownloaded : Nat
  missingCount : Nat
  totalBytesLeft : Int

/-- The length that is counted for a piece when so many bytes are left. -/
def curPieceLen (pieceLength : Nat) (totalBytesLeft : Int) : Nat :=
  if totalBytesLeft.tdiv pieceLength ≠ 0 then pieceLength else wrapTo u32Size totalBytesLeft

def resumePiece (state : Resuming) (piece : Nat) : Option Resuming :=
  let pieceLength := state.context.pieceLength
  if state.context.bits.bitfield.length ≤ piece / 8 ∨ pieceLength = 0 ∨
      state.totalBytesLeft - pieceLength < -2 ^ 63 then none
  else
    let isLocal := bitSet state.context.bits.bitfield piece
    let length := curPieceLen pieceLength state.totalBytesLeft
    some {
      context := (state.context.setPieceLength piece length).markPieceMissing piece (!isLocal)
      totalDownloaded := if isLocal then state.totalDownloaded + length else state.totalDownloaded
      missingCount := if isLocal then state.missingCount else state.missingCount + 1
      totalBytesLeft := state.totalBytesLeft - pieceLength }

def priorityOf (value : Nat) : FilePriority :=
  match value with
  | 0 => .skip
  | 1 => .low
  | 7 => .high
  | _ => .normal

/-- Files behind the end of the entries keep their priority. -/
def applyPriorities : Files → List FastResumeFileEntry → Files
  | file :: files, entry :: entries => { file with priority := priorityOf entry.priority } :: applyPriorities files entries
  | files, _ => files

variable (data : FastResumeData)

/-- The context with the bit field of the data and nothing missing. -/
def withBitfield (context : TorrentContext) : TorrentContext :=
  { context with
    bits := {
      bitfield := data.bitfield
      piecesMissing := List.replicate data.bitfield.length 0
      missingPiecesCount := 0 } }

/-- What is stored when all pieces are done. -/
def finishResume (state : Resuming) : TorrentContext :=
  let context := { state.context with
    bits := { state.context.bits with missingPiecesCount := state.missingCount }
    totalBytesDownloaded := state.totalDownloaded
    totalBytesUploaded := data.totalUploaded
    filesToDownload := applyPriorities state.context.filesToDownload data.files }
  if state.missingCount = 0 then { context with status := .seeding, downloadFinished := true } else context

def applyToContext (context : TorrentContext) : Outcome TorrentContext :=
  if context.infoHash ≠ data.infoHash.toList then
    .err (.parse "Fast resume info-hash does not match torrent info-hash")
  else if context.numberOfPieces ≠ data.numPieces then
    .err (.parse "Fast resume piece count does not match torrent piece count")
  else
    match (List.range context.pieceCount).foldlM resumePiece
        ⟨data.withBitfield context, 0, 0, asI64 context.totalBytesToDownload⟩ with
    | none => .panic
    | some state => .ok (data.finishResume state)

end Applying

end FastResumeData

end BitTorrent
