import BitTorrent.Core.BitField
import BitTorrent.Core.PieceAssembly
import BitTorrent.Storage.FastResume

/-! # What sets the bit field of a context

`storage/bitfield_scanner.rs`, `fully_downloaded_torrent_bitfield` of `storage/disk_io.rs` and the
download of a piece all mark pieces one by one.  A resume file and the recheck of the pool write the
bit field as a whole.
-/

namespace BitTorrent

open List

variable {after : TorrentContext}

structure PieceScanStatus where
  pieceIndex : Nat
  isValid : Bool
  length : Nat

namespace BitfieldScanner

variable (digests : Digests)

/-- A piece behind the last hash is not valid. -/
def verifyHash (pieceNumber : Nat) (buffer expectedHashes : Bytes) : Bool :=
  if expectedHashes.length < pieceNumber * hashLength + hashLength then false
  else decide ((digests.sha1 buffer).toList = Chunks.slice expectedHashes (pieceNumber * hashLength) hashLength)

/-- The statuses of the pieces in what the files hold that are there, one after the other. -/
def scanLocalFiles (files : List (Option Bytes)) (pieceLength : Nat) (expectedHashes : Bytes) : List PieceScanStatus :=
  if pieceLength = 0 ∨ expectedHashes = [] then []
  else (Chunks.chunks pieceLength (files.filterMap id).flatten).zipIdx.map fun entry =>
    ⟨entry.2, verifyHash digests entry.2 entry.1 expectedHashes, entry.1.length⟩

def applyToContext (context : TorrentContext) (statuses : List PieceScanStatus) : TorrentContext :=
  statuses.foldl (fun context status => context.updateBitfieldStatus status.pieceIndex status.isValid status.length) context

end BitfieldScanner

namespace TorrentContext

def createTorrentBitfield (digests : Digests) (files : List (Option Bytes)) (context : TorrentContext) : TorrentContext :=
  BitfieldScanner.applyToContext context
    (BitfieldScanner.scanLocalFiles digests files context.pieceLength context.piecesInfoHash)

/-- The length of a piece when so many bytes are left goes as in a resume. -/
def fullyDownloadedTorrentBitfield (context : TorrentContext) : TorrentContext :=
  ((range context.pieceCount).foldl
    (fun (state : TorrentContext × Int) piece =>
      (((state.1.markPieceLocal piece true).markPieceMissing piece false).setPieceLength piece
          (FastResumeData.curPieceLen context.pieceLength state.2),
        state.2 - context.pieceLength))
    (context, asI64 context.totalBytesToDownload)).1

/-- At most one bit changes, and only the bit of a piece of the torrent is set. -/
structure Marks (before after : TorrentContext) : Prop where
  numberOfPieces : after.numberOfPieces = before.numberOfPieces
  piecesInfoHash : after.piecesInfoHash = before.piecesInfoHash
  bits : after.bits.bitfield = before.bits.bitfield ∨
    ∃ piece value, (value = true → piece < before.numberOfPieces) ∧
      after.bits.bitfield = putBit before.bits.bitfield piece value

variable {σ : Type} {storage : BlockStorage σ} {digests : Digests} {context : TorrentContext} {state : σ}
  {piece length : Nat} {there : Bool} {blockSources : BlockSources} {before between : TorrentContext}

/-- A change of a context that marks nothing. -/
structure SameBits (before after : TorrentContext) : Prop where
  numberOfPieces : after.numberOfPieces = before.numberOfPieces
  piecesInfoHash : after.piecesInfoHash = before.piecesInfoHash
  bitfield : after.bits.bitfield = before.bits.bitfield

theorem SameBits.marks (same : SameBits before after) : Marks before after :=
  ⟨same.numberOfPieces, same.piecesInfoHash, .inl same.bitfield⟩

theorem Marks.of_same (same : SameBits before between) (marked : Marks between after) : Marks before after where
  numberOfPieces := marked.numberOfPieces.trans same.numberOfPieces
  piecesInfoHash := marked.piecesInfoHash.trans same.piecesInfoHash
  bits := by
    rw [← same.bitfield, ← same.numberOfPieces]
    exact marked.bits

theorem Marks.then_same (marked : Marks before between) (same : SameBits between after) : Marks before after where
  numberOfPieces := same.numberOfPieces.trans marked.numberOfPieces
  piecesInfoHash := same.piecesInfoHash.trans marked.piecesInfoHash
  bits := by
    rw [same.bitfield]
    exact marked.bits

theorem markPieceMissing_bitfield {missing : Bool} :
    (context.markPieceMissing piece missing).bits.bitfield = context.bits.bitfield := by
  rw [markPieceMissing]
  rw [PieceBits.markPieceMissing]
  split <;> rfl

theorem updateBitfieldStatus_marks (inside : there = true → piece < context.numberOfPieces) :
    Marks context (context.updateBitfieldStatus piece there length) := by
  constructor
  case numberOfPieces =>
    rw [updateBitfieldStatus]
    split <;> exact setPieceLength_frame.2.2.1
  case piecesInfoHash =>
    rw [updateBitfieldStatus]
    split <;> exact setPieceLength_frame.2.2.2.1
  case bits =>
    refine .inr ⟨piece, there, inside, ?_⟩
    rw [updateBitfieldStatus]
    split <;> rw [markPieceMissing_bitfield, markPieceLocal, setPieceLength_frame.1] <;> rfl

theorem acceptPiece_marks (inside : piece < context.numberOfPieces) :
    Marks context (context.acceptPiece storage state piece length).1 := by
  have completed : SameBits (context.updateBitfieldStatus piece true length)
      ((context.updateBitfieldStatus piece true length).tryCompleteDownload.clearPieceRequests piece) := by
    rw [tryCompleteDownload]
    split <;> exact ⟨rfl, rfl, rfl⟩
  rw [acceptPiece_eq]
  exact (updateBitfieldStatus_marks fun _ => inside).then_same completed

theorem reportBadPeers_bits (context : TorrentContext) (ips : List String) :
    (ips.foldl reportBadPeer context).bits = context.bits := by
  induction ips generalizing context with
  | nil => rfl
  | cons ip ips ih =>
    rw [foldl_cons, ih, reportBadPeer]
    split <;> rfl

theorem rejectPiece_marks : Marks context (context.rejectPiece storage state piece length blockSources).1 := by
  have same := rejectPiece_same storage context state piece length blockSources
  refine SameBits.marks ⟨same.numberOfPieces, same.piecesInfoHash, ?_⟩
  rw [rejectPiece]
  rw [markPieceMissing_bitfield, reportBadPeers_bits]
  rfl

theorem Finishes.marks (finishes : Finishes storage context piece length blockSources after)
    (inside : piece < context.numberOfPieces) : Marks context after := by
  have checked (verifying : Finset Nat) (pool : HashVerificationPool) :
      SameBits context (context.underCheck verifying pool) := ⟨rfl, rfl, rfl⟩
  cases finishes with
  | pending verifying pool => exact (checked verifying pool).marks
  | accepted verifying pool state => exact .of_same (checked verifying pool) (@acceptPiece_marks _ storage _ state _ _ inside)
  | rejected verifying pool state =>
    exact .of_same (checked verifying pool) (@rejectPiece_marks _ storage _ state piece length blockSources)

/-- A verdict is about a piece of the torrent, as only blocks of such pieces are taken. -/
def Concerns (context : TorrentContext) : DownloadEvent → Prop
  | .block _ => True
  | .verdict result => result.pieceNumber < context.numberOfPieces

variable {after : TorrentContext} {call : BlockCall} {afterState : σ}

theorem receive_sameBits {outcome : Outcome (Option BlockSources)}
    (done : context.receive storage digests state call = (after, afterState, outcome)) : SameBits context after := by
  rw [receiveBlock_frame done]
  exact ⟨rfl, rfl, rfl⟩

theorem downloadStep_marks {event : DownloadEvent} (concerns : context.Concerns event) :
    Marks context (downloadStep storage digests (context, state) event).1 := by
  cases event with
  | verdict result => exact (downloadStep_finishes (context, state) result).marks concerns
  | block call =>
    generalize taken : downloadStep storage digests (context, state) (.block call) = next
    cases downloadStep_block taken with
    | received done => exact (receive_sameBits done).marks
    | finished done =>
      have same := receive_sameBits done
      have inside : call.piece < context.numberOfPieces := (receiveBlock_complete done).index.trans_le (Nat.mod_le _ _)
      exact .of_same same (finishPiece_finishes.marks (same.numberOfPieces ▸ inside))

theorem foldl_marks {α S : Type} (view : S → TorrentContext) {step : S → α → S} {items : List α} {start : S}
    (each : ∀ current, (view current).numberOfPieces = (view start).numberOfPieces →
      ∀ item ∈ items, Marks (view current) (view (step current item))) :
    Relation.ReflTransGen Marks (view start) (view (items.foldl step start)) := by
  induction items generalizing start with
  | nil => exact .refl
  | cons item items ih =>
    have first := each start rfl item mem_cons_self
    refine .head first (ih ?_)
    intro current same other member
    exact each current (same.trans first.numberOfPieces) other (mem_cons_of_mem _ member)

theorem verifyHash_inside {expectedHashes buffer : Bytes}
    (valid : BitfieldScanner.verifyHash digests piece buffer expectedHashes = true) :
    piece < expectedHashes.length / hashLength := by
  rw [BitfieldScanner.verifyHash] at valid
  split at valid
  case isTrue => cases valid
  case isFalse within =>
    rw [Nat.lt_div_iff_mul_lt (by decide)]
    have : hashLength = 20 := rfl
    omega

/-- A scan marks pieces that match their hash, so pieces that have one. -/
theorem createTorrentBitfield_marks {files : List (Option Bytes)}
    (counted : context.numberOfPieces = context.piecesInfoHash.length / hashLength) :
    Relation.ReflTransGen Marks context (context.createTorrentBitfield digests files) := by
  refine foldl_marks id fun current same status member => updateBitfieldStatus_marks fun valid => ?_
  rw [BitfieldScanner.scanLocalFiles] at member
  split at member
  case isTrue => cases member
  case isFalse =>
    obtain ⟨⟨buffer, index⟩, _, rfl⟩ := mem_map.mp member
    exact (verifyHash_inside valid).trans_eq (counted.symm.trans same.symm)

theorem fullyDownloadedTorrentBitfield_marks :
    Relation.ReflTransGen Marks context context.fullyDownloadedTorrentBitfield := by
  refine @foldl_marks _ _ Prod.fst _ _ (context, _) fun current same piece member => ?_
  have inside : piece < current.1.numberOfPieces := by
    rw [same]
    exact (mem_range.mp member).trans_le (Nat.mod_le _ _)
  refine ⟨setPieceLength_frame.2.2.1, setPieceLength_frame.2.2.2.1, .inr ⟨piece, true, fun _ => inside, ?_⟩⟩
  rw [setPieceLength_frame.1, markPieceMissing_bitfield]
  rfl

theorem clearUnwanted_same : SameBits context context.clearUnwanted := by
  refine foldlRecOn _ _ ⟨rfl, rfl, rfl⟩ fun current same piece _ => ?_
  split
  case isTrue => exact same
  case isFalse => exact ⟨same.numberOfPieces, same.piecesInfoHash, same.bitfield⟩

theorem setFilePriority_same {fileIndex : Nat} {priority : FilePriority}
    (done : context.setFilePriority fileIndex priority = .ok after) : SameBits context after := by
  rw [setFilePriority] at done
  split at done
  case isFalse => cases done
  case isTrue =>
    cases done
    split
    case isTrue =>
      have cleared := @clearUnwanted_same
        { context with filesToDownload := context.filesToDownload.modify fileIndex fun file => { file with priority } }
      exact ⟨cleared.numberOfPieces, cleared.piecesInfoHash, cleared.bitfield⟩
    case isFalse => exact ⟨rfl, rfl, rfl⟩

theorem applyBep53FileSelection_same {selectedIndices : List Nat} :
    SameBits context (context.applyBep53FileSelection selectedIndices) := by
  have cleared := @clearUnwanted_same
    { context with filesToDownload := context.filesToDownload.zipIdx.map (selectFile selectedIndices) }
  exact ⟨cleared.numberOfPieces, cleared.piecesInfoHash, cleared.bitfield⟩

end TorrentContext

end BitTorrent
