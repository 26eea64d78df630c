import BitTorrent.Core.ProcessBlock
import BitTorrent.Library.Runs

/-! # Assembling pieces over whole runs

A download is a run of block arrivals and of verdicts of the verification pool.  What the
torrent itself says never changes in such a run, and a piece that is accepted or rejected
keeps its length; this is said once here and used by every invariant of a run.
-/

namespace BitTorrent

open Runs Function

structure BlockCall where
  piece : Nat
  begin_ : Nat
  data : Bytes
  peerIp : String

def BlockCall.block (call : BlockCall) : Nat := call.begin_ / blockSize

inductive DownloadEvent where
  | block (call : BlockCall)
  | verdict (result : PieceVerificationResult)

namespace TorrentContext

section

variable {σ : Type} (storage : BlockStorage σ) (digests : Digests)

def receive (context : TorrentContext) (state : σ) (call : BlockCall) :
    TorrentContext × σ × Outcome (Option BlockSources) :=
  context.receiveBlock storage digests state call.piece call.begin_ call.data call.peerIp

def downloadStep (current : TorrentContext × σ) : DownloadEvent → TorrentContext × σ
  | .block call =>
    let (context, state, _) := current.1.processPieceBlock storage digests current.2 call.piece call.begin_
      call.data call.peerIp
    (context, state)
  | .verdict result =>
    let (context, state, _) := current.1.applyPieceVerificationResult storage current.2 result
    (context, state)

end

/-- A verdict speaks about the length that its job was submitted with. -/
def Timely (context : TorrentContext) : DownloadEvent → Prop
  | .block _ => True
  | .verdict result => result.pieceLength = context.getPieceLength result.pieceNumber

/-- The part of a context that describes the torrent and the session. -/
structure SameTorrent (before after : TorrentContext) : Prop where
  pieceLength : after.pieceLength = before.pieceLength
  numberOfPieces : after.numberOfPieces = before.numberOfPieces
  piecesInfoHash : after.piecesInfoHash = before.piecesInfoHash
  filesToDownload : after.filesToDownload = before.filesToDownload
  config : after.config = before.config
  v2 : after.v2 = before.v2
  lengths : ∀ piece, after.getPieceLength piece = before.getPieceLength piece

/-- That part and the blocks under assembly. -/
structure SameAssembly (before after : TorrentContext) : Prop extends SameTorrent before after where
  pieceBuffers : after.pieceBuffers = before.pieceBuffers
  endgameStaging : after.endgameStaging = before.endgameStaging

variable {σ : Type} {storage : BlockStorage σ} {digests : Digests}
  {first second third before after context : TorrentContext} {piece : Nat}
  {current : TorrentContext × σ} {blockSources : BlockSources}

theorem SameTorrent.trans (left : SameTorrent first second) (right : SameTorrent second third) :
    SameTorrent first third where
  pieceLength := right.pieceLength.trans left.pieceLength
  numberOfPieces := right.numberOfPieces.trans left.numberOfPieces
  piecesInfoHash := right.piecesInfoHash.trans left.piecesInfoHash
  filesToDownload := right.filesToDownload.trans left.filesToDownload
  config := right.config.trans left.config
  v2 := right.v2.trans left.v2
  lengths piece := (right.lengths piece).trans (left.lengths piece)

theorem SameAssembly.refl (context : TorrentContext) : SameAssembly context context :=
  ⟨⟨rfl, rfl, rfl, rfl, rfl, rfl, fun _ => rfl⟩, rfl, rfl⟩

theorem SameAssembly.trans (left : SameAssembly first second) (right : SameAssembly second third) :
    SameAssembly first third where
  toSameTorrent := left.toSameTorrent.trans right.toSameTorrent
  pieceBuffers := right.pieceBuffers.trans left.pieceBuffers
  endgameStaging := right.endgameStaging.trans left.endgameStaging

theorem getPieceLength_setPieceLength (context : TorrentContext) (piece other : Nat) :
    (context.setPieceLength piece (context.getPieceLength piece)).getPieceLength other =
      context.getPieceLength other := by
  unfold setPieceLength
  split
  case isFalse => rfl
  case isTrue =>
    by_cases same : piece = other
    · subst same
      simp only [getPieceLength, List.getElem?_modify_eq]
      cases context.pieceData[piece]? <;> rfl
    · simp only [getPieceLength, List.getElem?_modify, if_neg same, id_map']

theorem setPieceLength_same (context : TorrentContext) (piece : Nat) :
    SameAssembly context (context.setPieceLength piece (context.getPieceLength piece)) := by
  have lengths := context.getPieceLength_setPieceLength piece
  unfold setPieceLength at lengths ⊢
  split
  case isTrue short =>
    simp only [short, if_true] at lengths
    exact ⟨⟨rfl, rfl, rfl, rfl, rfl, rfl, lengths⟩, rfl, rfl⟩
  case isFalse => exact .refl context

section Marks

variable (context : TorrentContext) (piece : Nat)

theorem markPieceLocal_same (isLocal : Bool) : SameAssembly context (context.markPieceLocal piece isLocal) :=
  ⟨⟨rfl, rfl, rfl, rfl, rfl, rfl, fun _ => rfl⟩, rfl, rfl⟩

theorem markPieceMissing_same (missing : Bool) : SameAssembly context (context.markPieceMissing piece missing) :=
  ⟨⟨rfl, rfl, rfl, rfl, rfl, rfl, fun _ => rfl⟩, rfl, rfl⟩

theorem clearPieceRequests_same : SameAssembly context (context.clearPieceRequests piece) :=
  ⟨⟨rfl, rfl, rfl, rfl, rfl, rfl, fun _ => rfl⟩, rfl, rfl⟩

end Marks

theorem updateBitfieldStatus_same (context : TorrentContext) (piece : Nat) (there : Bool) :
    SameAssembly context (context.updateBitfieldStatus piece there (context.getPieceLength piece)) := by
  have marked : ∀ counted : TorrentContext, SameAssembly context counted →
      SameAssembly context (((counted.setPieceLength piece (counted.getPieceLength piece)).markPieceLocal piece
        there).markPieceMissing piece (!there)) := by
    intro counted same
    have resized := same.trans (setPieceLength_same counted piece)
    exact (resized.trans (markPieceLocal_same _ piece there)).trans (markPieceMissing_same _ piece (!there))
  unfold updateBitfieldStatus
  split
  case isTrue =>
    exact marked { context with totalBytesDownloaded := context.totalBytesDownloaded + context.getPieceLength piece }
      ⟨⟨rfl, rfl, rfl, rfl, rfl, rfl, fun _ => rfl⟩, rfl, rfl⟩
  case isFalse => exact marked context (.refl context)

theorem tryCompleteDownload_same (context : TorrentContext) : SameAssembly context context.tryCompleteDownload := by
  unfold tryCompleteDownload
  split
  case isTrue => exact ⟨⟨rfl, rfl, rfl, rfl, rfl, rfl, fun _ => rfl⟩, rfl, rfl⟩
  case isFalse => exact .refl context

theorem acceptPiece_same (storage : BlockStorage σ) (context : TorrentContext) (state : σ) (piece : Nat) :
    SameAssembly context (context.acceptPiece storage state piece (context.getPieceLength piece)).1 := by
  rw [acceptPiece_eq]
  exact ((context.updateBitfieldStatus_same piece true).trans (tryCompleteDownload_same _)).trans
    (clearPieceRequests_same _ piece)

theorem reportBadPeer_same (context : TorrentContext) (ip : String) :
    SameAssembly context (context.reportBadPeer ip) := by
  unfold reportBadPeer
  dsimp only
  split
  case isTrue => exact ⟨⟨rfl, rfl, rfl, rfl, rfl, rfl, fun _ => rfl⟩, rfl, rfl⟩
  case isFalse => exact ⟨⟨rfl, rfl, rfl, rfl, rfl, rfl, fun _ => rfl⟩, rfl, rfl⟩

theorem reportBadPeers_same (context : TorrentContext) (ips : List String) :
    SameAssembly context (ips.foldl reportBadPeer context) := by
  induction ips generalizing context with
  | nil => exact .refl context
  | cons ip rest ih => exact (context.reportBadPeer_same ip).trans (ih _)

theorem rejectPiece_same (storage : BlockStorage σ) (context : TorrentContext) (state : σ)
    (piece pieceLength : Nat) (blockSources : BlockSources) :
    SameAssembly context (context.rejectPiece storage state piece pieceLength blockSources).1 := by
  have blamed := (clearPieceRequests_same context piece).trans (reportBadPeers_same _ (blockSources.filterMap id))
  exact blamed.trans (markPieceMissing_same _ piece true)

/-- The marks and the pool of the verification, which change apart from everything else. -/
def underCheck (context : TorrentContext) (piecesVerifying : Finset Nat) (verificationPool : HashVerificationPool) :
    TorrentContext :=
  { context with piecesVerifying, verificationPool }

/-- What becomes of a piece that was found complete: it is left to the workers, accepted or rejected. -/
inductive Finishes (storage : BlockStorage σ) (context : TorrentContext) (piece length : Nat)
    (blockSources : BlockSources) : TorrentContext → Prop
  | pending (verifying : Finset Nat) (pool : HashVerificationPool) :
      Finishes storage context piece length blockSources (context.underCheck verifying pool)
  | accepted (verifying : Finset Nat) (pool : HashVerificationPool) (state : σ) :
      Finishes storage context piece length blockSources
        ((context.underCheck verifying pool).acceptPiece storage state piece length).1
  | rejected (verifying : Finset Nat) (pool : HashVerificationPool) (state : σ) :
      Finishes storage context piece length blockSources
        ((context.underCheck verifying pool).rejectPiece storage state piece length blockSources).1

theorem verifySync_finishes (verifying : Finset Nat) (pool : HashVerificationPool) {state : σ} :
    Finishes storage context piece (context.getPieceLength piece) blockSources
      ((context.underCheck verifying pool).verifySync storage digests state piece blockSources).1 := by
  unfold verifySync
  dsimp only
  split
  case h_1 checked _ => exact .accepted verifying pool checked
  case h_2 checked _ => exact .rejected verifying pool checked
  case h_3 => exact .pending verifying pool

theorem finishPiece_finishes {state : σ} :
    Finishes storage context piece (context.getPieceLength piece) blockSources
      (context.finishPiece storage digests state piece blockSources).1 := by
  unfold finishPiece
  split
  case isFalse => exact verifySync_finishes context.piecesVerifying context.verificationPool
  case isTrue =>
    split
    case h_1 pool _ => exact .pending _ pool
    case h_2 pool _ _ => exact verifySync_finishes _ pool

theorem downloadStep_finishes (current : TorrentContext × σ) (result : PieceVerificationResult) :
    Finishes storage current.1 result.pieceNumber result.pieceLength result.blockSources
      (downloadStep storage digests current (.verdict result)).1 := by
  unfold downloadStep applyPieceVerificationResult
  dsimp only
  split
  case isTrue => exact .accepted _ current.1.verificationPool current.2
  case isFalse => exact .rejected _ current.1.verificationPool current.2

theorem Finishes.same {length : Nat} (finishes : Finishes storage context piece length blockSources after)
    (timely : length = context.getPieceLength piece) : SameAssembly context after := by
  have checked (verifying : Finset Nat) (pool : HashVerificationPool) :
      SameAssembly context (context.underCheck verifying pool) :=
    ⟨⟨rfl, rfl, rfl, rfl, rfl, rfl, fun _ => rfl⟩, rfl, rfl⟩
  cases finishes with
  | pending verifying pool => exact checked verifying pool
  | accepted verifying pool state =>
    rw [timely]
    exact (checked verifying pool).trans (acceptPiece_same storage _ state piece)
  | rejected verifying pool state =>
    exact (checked verifying pool).trans (rejectPiece_same storage _ state piece length blockSources)

theorem finishPiece_same {state : σ} :
    SameAssembly context (context.finishPiece storage digests state piece blockSources).1 :=
  finishPiece_finishes.same rfl

theorem downloadStep_verdict {result : PieceVerificationResult} (timely : current.1.Timely (.verdict result)) :
    SameAssembly current.1 (downloadStep storage digests current (.verdict result)).1 :=
  (downloadStep_finishes current result).same timely

/-- A block arrival is its reception, followed by verification if the piece was found complete. -/
inductive BlockStep (storage : BlockStorage σ) (digests : Digests) (current : TorrentContext × σ)
    (call : BlockCall) : TorrentContext × σ → Prop
  | received {after : TorrentContext} {afterState : σ} {outcome : Outcome (Option BlockSources)}
      (done : current.1.receive storage digests current.2 call = (after, afterState, outcome))
      (pending : ∀ sources, outcome ≠ .ok (some sources)) :
      BlockStep storage digests current call (after, afterState)
  | finished {after : TorrentContext} {afterState : σ} {sources : BlockSources}
      (done : current.1.receive storage digests current.2 call = (after, afterState, .ok (some sources))) :
      BlockStep storage digests current call
        ((after.finishPiece storage digests afterState call.piece sources).1,
          (after.finishPiece storage digests afterState call.piece sources).2.1)

theorem downloadStep_block {next : TorrentContext × σ} {call : BlockCall}
    (taken : downloadStep storage digests current (.block call) = next) :
    BlockStep storage digests current call next := by
  rw [← taken]
  unfold downloadStep processPieceBlock
  dsimp only
  split
  case h_1 done => exact .received done (by simp)
  case h_2 done => exact .finished done
  case h_3 done => exact .received done (by simp)
  case h_4 done => exact .received done (by simp)

section Receive

variable {state afterState : σ} {call : BlockCall} {outcome : Outcome (Option BlockSources)}

section

variable (done : context.receive storage digests state call = (after, afterState, outcome))
include done

theorem receive_sameTorrent : SameTorrent context after := by
  rw [receiveBlock_frame done]
  exact ⟨rfl, rfl, rfl, rfl, rfl, rfl, fun _ => rfl⟩

theorem receive_pieceBuffers :
    after.pieceBuffers = context.pieceBuffers ∨
      ∃ held : Option PieceBuffer,
        after.pieceBuffers = update context.pieceBuffers call.piece held ∧
        ∀ buffer, held = some buffer → buffer = context.pieceBuffer call.piece ∨
          (context.pieceBuffer call.piece).addBlock call.block call.peerIp = some buffer := by
  have settled (buffer : PieceBuffer) :
      ((context.entered call.piece call.block call.peerIp).settleBuffer call.piece buffer).1.pieceBuffers =
        update context.pieceBuffers call.piece (if buffer.allBlocksThere then none else some buffer) := by
    rw [settleBuffer_pieceBuffers]
    exact update_idem _ _ _
  cases receiveBlock_receipt done with
  | rejected => exact .inl rfl
  | ignored => exact .inl rfl
  | refused => exact .inr ⟨_, rfl, fun _ same => .inl (Option.some.inj same).symm⟩
  | failed => exact .inr ⟨_, rfl, fun _ same => .inl (Option.some.inj same).symm⟩
  | overrun => exact .inr ⟨_, rfl, fun _ same => .inl (Option.some.inj same).symm⟩
  | present =>
    refine .inr ⟨_, settled _, fun buffer same => .inl ?_⟩
    split at same <;> cases same
    rfl
  | stored enters verified written added =>
    refine .inr ⟨_, settled _, fun buffer same => .inr ?_⟩
    split at same <;> cases same
    exact added

theorem receive_buffersFit (fit : context.BuffersFit) : after.BuffersFit := by
  intro piece buffer held
  rw [(receive_sameTorrent done).lengths]
  obtain unchanged | ⟨kept, updated, origin⟩ := receive_pieceBuffers done
  · rw [unchanged] at held
    exact fit piece buffer held
  · rw [updated, update_apply] at held
    split at held
    case isFalse => exact fit piece buffer held
    case isTrue same =>
      obtain rfl | added := origin buffer held
      · rw [same]
        exact fit.pieceBuffer _
      · rw [same, (PieceBuffer.addBlock_eq_some added).1]
        exact fit.pieceBuffer _

end

end Receive

theorem SameAssembly.buffersFit (same : SameAssembly before after) (fit : before.BuffersFit) : after.BuffersFit := by
  intro piece buffer held
  rw [same.lengths]
  rw [same.pieceBuffers] at held
  exact fit piece buffer held

theorem downloadStep_frame {event : DownloadEvent} (timely : current.1.Timely event) (fit : current.1.BuffersFit) :
    SameTorrent current.1 (downloadStep storage digests current event).1 ∧
      (downloadStep storage digests current event).1.BuffersFit := by
  cases event with
  | verdict result =>
    have same : SameAssembly current.1 (downloadStep storage digests current (.verdict result)).1 :=
      downloadStep_verdict timely
    exact ⟨same.toSameTorrent, same.buffersFit fit⟩
  | block call =>
    generalize taken : downloadStep storage digests current (.block call) = next
    cases downloadStep_block taken with
    | received done => exact ⟨receive_sameTorrent done, receive_buffersFit done fit⟩
    | finished done =>
      exact ⟨(receive_sameTorrent done).trans finishPiece_same.toSameTorrent,
        finishPiece_same.buffersFit (receive_buffersFit done fit)⟩

theorem reaches_frame {start final : TorrentContext × σ} (fit : start.1.BuffersFit)
    (run : Reaches (downloadStep storage digests) (fun current event => current.1.Timely event) start final) :
    SameTorrent start.1 final.1 ∧ final.1.BuffersFit := by
  refine run.invariant (fun current => SameTorrent start.1 current.1 ∧ current.1.BuffersFit)
    ⟨(SameAssembly.refl start.1).toSameTorrent, fit⟩ ?_
  rintro current event ⟨same, kept⟩ timely
  exact ⟨same.trans (downloadStep_frame timely kept).1, (downloadStep_frame timely kept).2⟩

end TorrentContext

end BitTorrent
