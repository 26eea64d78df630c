import BitTorrent.Core.V2Verification
import BitTorrent.Network.SwarmLink
import BitTorrent.Storage.PieceBuffer

/-! # The torrent context and its piece accounting

The state of `core/torrent_context.rs` that the download path reads or writes, and
`core/piece_accounting.rs`.  Locks, listeners and metrics are left out.  The context keeps
its bit fields three times; the copies in the piece store and the piece manager are
updated together with its own.
-/

namespace BitTorrent

open List

inductive TorrentStatus where
  | initialised
  | seeding
  | downloading
  | paused
  | ended
deriving DecidableEq, Repr

def bitMask (piece : Nat) : UInt8 := 0x80 >>> UInt8.ofNat (piece % 8)

def bitSet (bits : Bytes) (piece : Nat) : Bool :=
  match bits[piece / 8]? with
  | some byte => byte &&& bitMask piece != 0
  | none => false

def putBit (bits : Bytes) (piece : Nat) (value : Bool) : Bytes :=
  bits.modify (piece / 8) fun byte =>
    if value then byte ||| bitMask piece else byte &&& ~~~ bitMask piece

/-- Local and missing pieces, as the context, the piece store and the piece manager keep them. -/
structure PieceBits where
  bitfield : Bytes
  piecesMissing : Bytes
  missingPiecesCount : Nat
deriving DecidableEq

namespace PieceBits

def new (numberOfPieces missingPiecesCount : Nat) : PieceBits where
  bitfield := replicate ((numberOfPieces + 7) / 8) 0
  piecesMissing := replicate ((numberOfPieces + 7) / 8) 0
  missingPiecesCount

variable (bits : PieceBits)

def markPieceLocal (piece : Nat) (isLocal : Bool) : PieceBits :=
  { bits with bitfield := putBit bits.bitfield piece isLocal }

/-- The variant of the context and of the piece manager, which keeps the count. -/
def markPieceMissing (piece : Nat) (missing : Bool) : PieceBits :=
  if piece / 8 < bits.piecesMissing.length ∧ bitSet bits.piecesMissing piece ≠ missing then
    { bits with
      piecesMissing := putBit bits.piecesMissing piece missing
      missingPiecesCount :=
        if missing then bits.missingPiecesCount + 1 else bits.missingPiecesCount - 1 }
  else bits

/-- The variant of the piece store, which does not. -/
def storePieceMissing (piece : Nat) (missing : Bool) : PieceBits :=
  { bits with piecesMissing := putBit bits.piecesMissing piece missing }

end PieceBits

structure PieceInfo where
  peerCount : Nat
  pieceLength : Nat
deriving DecidableEq

structure SessionConfig where
  enableAdaptiveEndgame : Bool
  enableAsyncVerification : Bool
  superSeeding : Bool
deriving DecidableEq

structure PieceVerificationJob where
  pieceNumber : Nat
  pieceLength : Nat
  pieceOffset : Nat
  expectedV1Hash : Option Bytes
  blockSources : BlockSources

structure PieceVerificationResult where
  pieceNumber : Nat
  pieceLength : Nat
  isValid : Bool
  blockSources : BlockSources

/-- `jobTx` is the channel to the workers, if it is open, and whether anyone still reads it. -/
structure HashVerificationPool where
  queueCapacity : Nat
  pendingJobs : Nat
  jobTx : Option Bool
  jobs : List PieceVerificationJob

def HashVerificationPool.submit (pool : HashVerificationPool) (job : PieceVerificationJob) :
    HashVerificationPool × Result Unit :=
  if pool.queueCapacity ≤ pool.pendingJobs then
    (pool, .error (.protocol "Hash verification worker pool queue is full"))
  else
    match pool.jobTx with
    | some true =>
      ({ pool with pendingJobs := pool.pendingJobs + 1, jobs := pool.jobs ++ [job] }, .ok ())
    | some false =>
      ({ pool with pendingJobs := pool.pendingJobs + 1 }, .error (.protocol "Worker pool has stopped"))
    | none => (pool, .error (.protocol "Worker pool is closed"))

structure SuperSeedingState where
  enabled : Bool
  pieceOfferedTo : Nat → Option String
  peerPendingPiece : String → Option Nat

structure TorrentContext where
  infoHash : Bytes
  pieceLength : Nat
  numberOfPieces : Nat
  piecesInfoHash : Bytes
  filesToDownload : Files
  totalBytesToDownload : Nat
  totalBytesDownloaded : Nat
  totalBytesUploaded : Nat
  pieceData : List PieceInfo
  bits : PieceBits
  pieceStore : PieceBits
  pieceManager : PieceBits
  piecesVerifying : Finset Nat
  status : TorrentStatus
  downloadFinished : Bool
  config : SessionConfig
  endgameStaging : AdaptiveErasureStaging
  pieceBuffers : Nat → Option PieceBuffer
  requestedBlocks : Finset (Nat × Nat)
  verificationPool : HashVerificationPool
  badPeerScores : String → Nat
  peerSwarm : String → Option SwarmLink
  unchokedPeersCount : Nat
  superSeeding : SuperSeedingState
  v2 : V2State UInt8

/-- What a context takes from the parsed metainfo and the session. -/
structure TorrentContextParams where
  infoHash : Bytes
  pieceLength : Nat
  piecesInfoHash : Bytes
  filesToDownload : Files
  totalBytesToDownload : Nat
  seeding : Bool
  config : SessionConfig
  verificationPool : HashVerificationPool

namespace TorrentContext

/-- `TorrentContext::new`, one hash of the metainfo for each piece. -/
def new (params : TorrentContextParams) : TorrentContext :=
  let numberOfPieces := params.piecesInfoHash.length / hashLength
  { infoHash := params.infoHash
    pieceLength := params.pieceLength
    numberOfPieces
    piecesInfoHash := params.piecesInfoHash
    filesToDownload := params.filesToDownload
    totalBytesToDownload := params.totalBytesToDownload
    totalBytesDownloaded := 0
    totalBytesUploaded := 0
    pieceData := replicate numberOfPieces ⟨0, params.pieceLength⟩
    bits := .new numberOfPieces 0
    pieceStore := .new numberOfPieces 0
    pieceManager := .new numberOfPieces numberOfPieces
    piecesVerifying := ∅
    status := if params.seeding then .seeding else .initialised
    downloadFinished := false
    config := params.config
    endgameStaging := .empty
    pieceBuffers := fun _ => none
    requestedBlocks := ∅
    verificationPool := params.verificationPool
    badPeerScores := fun _ => 0
    peerSwarm := fun _ => none
    unchokedPeersCount := 0
    superSeeding := ⟨params.config.superSeeding, fun _ => none, fun _ => none⟩
    v2 := .empty }

variable (context : TorrentContext)

/-- A context without piece hashes waits for the metadata of a magnet link. -/
def validate : Result Unit :=
  if context.piecesInfoHash = [] then .ok ()
  else if context.numberOfPieces = 0 then .error (.parse "Torrent must contain at least one piece.")
  else if context.pieceLength = 0 then .error (.parse "Torrent piece length must be greater than zero.")
  else if context.filesToDownload = [] then .error (.parse "Torrent contains no files to download.")
  else if context.piecesInfoHash.length ≠ context.numberOfPieces * hashLength then
    .error (.parse "Torrent pieces hash list length does not match number of pieces.")
  else if context.bits.bitfield.length ≠ (context.numberOfPieces + 7) / 8 then
    .error (.parse "Torrent bitfield length is invalid.")
  else .ok ()

/-- A context without files, in which every piece hash is zero. -/
def blank (pieceLength numberOfPieces : Nat) (config : SessionConfig) : TorrentContext :=
  new {
    infoHash := replicate hashLength 0
    pieceLength
    piecesInfoHash := replicate (numberOfPieces * hashLength) 0
    filesToDownload := []
    totalBytesToDownload := numberOfPieces * pieceLength
    seeding := false
    config
    verificationPool := ⟨0, 0, none, []⟩ }

/-- `number_of_pieces as u32`. -/
def pieceCount : Nat := context.numberOfPieces % u32Size

def isPieceLocal (piece : Nat) : Bool :=
  if piece / 8 < context.bits.bitfield.length then bitSet context.bits.bitfield piece
  else bitSet context.pieceStore.bitfield piece

def isPieceMissing (piece : Nat) : Bool :=
  if piece / 8 < context.bits.piecesMissing.length then bitSet context.bits.piecesMissing piece
  else bitSet context.pieceStore.piecesMissing piece

def markPieceLocal (piece : Nat) (isLocal : Bool) : TorrentContext :=
  { context with
    bits := context.bits.markPieceLocal piece isLocal
    pieceStore := context.pieceStore.markPieceLocal piece isLocal
    pieceManager := context.pieceManager.markPieceLocal piece isLocal }

def markPieceMissing (piece : Nat) (missing : Bool) : TorrentContext :=
  { context with
    bits := context.bits.markPieceMissing piece missing
    pieceStore := context.pieceStore.storePieceMissing piece missing
    pieceManager := context.pieceManager.markPieceMissing piece missing }

def getPieceLength (piece : Nat) : Nat :=
  ((context.pieceData[piece]?).map fun info => info.pieceLength).getD context.pieceLength

theorem getPieceLength_new (params : TorrentContextParams) (piece : Nat) :
    (new params).getPieceLength piece = params.pieceLength := by
  simp only [getPieceLength, new, getElem?_replicate]
  split <;> rfl

def setPieceLength (piece pieceLength : Nat) : TorrentContext :=
  if pieceLength ≤ context.pieceLength then
    { context with
      pieceData := context.pieceData.modify piece fun info => { info with pieceLength } }
  else context

section PieceLength

variable {context : TorrentContext} {piece length : Nat}

@[simp]
theorem setPieceLength_frame :
    (context.setPieceLength piece length).bits = context.bits ∧
      (context.setPieceLength piece length).pieceLength = context.pieceLength ∧
      (context.setPieceLength piece length).numberOfPieces = context.numberOfPieces ∧
      (context.setPieceLength piece length).piecesInfoHash = context.piecesInfoHash ∧
      (context.setPieceLength piece length).pieceData.length = context.pieceData.length := by
  rw [setPieceLength]
  split
  case isTrue => exact ⟨rfl, rfl, rfl, rfl, length_modify _ _ _⟩
  case isFalse => exact ⟨rfl, rfl, rfl, rfl, rfl⟩

end PieceLength

def updateBitfieldStatus (piece : Nat) (pieceThere : Bool) (numberOfBytes : Nat) : TorrentContext :=
  let counted :=
    if pieceThere && !context.isPieceLocal piece then
      { context with totalBytesDownloaded := context.totalBytesDownloaded + numberOfBytes }
    else context
  ((counted.setPieceLength piece numberOfBytes).markPieceLocal piece pieceThere).markPieceMissing piece
    (!pieceThere)

/-- Whether a file shares a byte with `[pieceStart, pieceEnd)`. -/
def overlapsPiece (pieceStart pieceEnd : Nat) (file : FileDetails UInt8) : Bool :=
  decide (0 < file.length ∧ file.offset < pieceEnd ∧ pieceStart < file.offset + file.length)

def higherPriority (highest : Option FilePriority) (file : FileDetails UInt8) : Option FilePriority :=
  match highest with
  | none => some file.priority
  | some priority => if priority.rank ≤ file.priority.rank then some file.priority else some priority

def getPiecePriority (piece : Nat) : FilePriority :=
  if context.filesToDownload.isEmpty || context.pieceLength = 0 then .normal
  else
    let pieceStart := piece * context.pieceLength
    let pieceEnd :=
      if 0 < context.totalBytesToDownload then
        min (pieceStart + context.pieceLength) context.totalBytesToDownload
      else pieceStart + context.pieceLength
    if pieceEnd ≤ pieceStart then .normal
    else
      let overlapping := context.filesToDownload.filter (overlapsPiece pieceStart pieceEnd)
      (overlapping.foldl higherPriority none).getD .normal

def isPieceWanted (piece : Nat) : Bool :=
  decide (context.getPiecePriority piece ≠ .skip)

def isDownloadComplete : Bool :=
  if context.numberOfPieces = 0 || context.totalBytesToDownload = 0 then false
  else
    let wanted := (range context.pieceCount).filter context.isPieceWanted
    !wanted.isEmpty && wanted.all context.isPieceLocal

def tryCompleteDownload : TorrentContext :=
  if context.status = .downloading ∧ context.isDownloadComplete then
    { context with status := .seeding, downloadFinished := true }
  else context

def markPieceVerifying (piece : Nat) (verifying : Bool) : TorrentContext :=
  { context with
    piecesVerifying :=
      if verifying then insert piece context.piecesVerifying else context.piecesVerifying.erase piece }

def clearPieceRequests (piece : Nat) : TorrentContext :=
  { context with requestedBlocks := context.requestedBlocks.filter fun key => key.1 ≠ piece }

/-- The requests for pieces that are no longer wanted are dropped. -/
def clearUnwanted : TorrentContext :=
  (range context.pieceCount).foldl
    (fun context piece => if context.isPieceWanted piece then context else context.clearPieceRequests piece) context

/-- The queue of pieces that is seeded again for another priority is left out. -/
def setFilePriority (fileIndex : Nat) (priority : FilePriority) : Result TorrentContext :=
  if fileIndex < context.filesToDownload.length then
    let prioritised :=
      { context with
        filesToDownload := context.filesToDownload.modify fileIndex fun file => { file with priority } }
    .ok (if priority = .skip then prioritised.clearUnwanted else prioritised)
  else .error (.parse s!"File index {fileIndex} out of range")

/-- A selected file that was skipped gets the normal priority; the others are skipped. -/
def selectFile (selectedIndices : List Nat) (entry : FileDetails UInt8 × Nat) : FileDetails UInt8 :=
  if entry.2 ∈ selectedIndices then
    if entry.1.priority = .skip then { entry.1 with priority := .normal } else entry.1
  else { entry.1 with priority := .skip }

def applyBep53FileSelection (selectedIndices : List Nat) : TorrentContext :=
  { context with
    filesToDownload := context.filesToDownload.zipIdx.map (selectFile selectedIndices) }.clearUnwanted

/-- The third report removes the peer from the swarm and closes it. -/
def reportBadPeer (ip : String) : TorrentContext :=
  let score := context.badPeerScores ip + 1
  let scored := { context with badPeerScores := Function.update context.badPeerScores ip score }
  if 3 ≤ score then
    { scored with
      peerSwarm := Function.update context.peerSwarm ip none
      unchokedPeersCount :=
        if (context.peerSwarm ip).any SwarmLink.unchoked then
          (context.unchokedPeersCount + u64Size - 1) % u64Size
        else context.unchokedPeersCount }
  else scored

def isSuperSeeding : Bool :=
  context.superSeeding.enabled && (decide (context.status = .seeding) || context.isDownloadComplete)

def canUploadPieceToPeer (peerIp : String) (piece : Nat) : Bool :=
  !context.isSuperSeeding ||
    (decide (context.superSeeding.peerPendingPiece peerIp = some piece) ||
      decide (context.superSeeding.pieceOfferedTo piece = some peerIp))

end TorrentContext

end BitTorrent
