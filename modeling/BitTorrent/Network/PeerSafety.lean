import BitTorrent.Core.PieceAssembly
import BitTorrent.Network.Peer

/-! # What a remote peer can make the client do

A request is answered from the storage at a global offset, so that the bytes sent are the
bytes of the piece exactly when the request stays inside it.  A block can crash the client
only through the source table of its piece buffer.
-/

namespace BitTorrent

open FlatStore TorrentContext PieceBuffer

namespace Peer

variable {block : Bytes} {begin_ : Nat}

section Upload

variable {σ : Type} (store : ByteStore σ) (generateAllowedFastSet : Nat → Nat → Bytes → String → List Nat)

/-- An answer that a request is entitled to. -/
structure AnswersWithinPiece (context : TorrentContext) (content : Nat → UInt8) (request : RequestMessage)
    (index begin_ : Nat) (block : Bytes) : Prop where
  requested : index = request.index.toNat ∧ begin_ = request.begin_.toNat
  verified : context.isPieceLocal index = true
  bounded : begin_ + request.length.toNat ≤ context.getPieceLength index
  allocated : block.length ≤ context.getPieceLength index
  bytes : ∀ (place : Nat) (byte : UInt8), block[place]? = some byte →
    begin_ + place < context.getPieceLength index ∧
      byte = content (index * context.pieceLength + (begin_ + place))

/-- The request reaches the storage and the storage answers it. -/
def Answered (peer : Peer) (context : TorrentContext) (state : σ) (request : RequestMessage) : Prop :=
  peer.canServe generateAllowedFastSet context request.index.toNat = true ∧
    ∃ reply, (store.readBlock state (request.index.toNat * context.pieceLength + request.begin_.toNat)
      (List.replicate request.length.toNat 0)).2 = .ok reply

variable {store generateAllowedFastSet} {peer : Peer} {context : TorrentContext} {state : σ}
  {request : RequestMessage}

theorem rejection_not_sendPiece {index : Nat} : .sendPiece index begin_ block ∉ peer.rejection request := by
  unfold rejection
  split <;> simp

theorem mem_handleRequest {index : Nat} :
    .sendPiece index begin_ block ∈
        (peer.handleRequest store.toBlockStorage generateAllowedFastSet context state request).2.2.2 ↔
      Answered store generateAllowedFastSet peer context state request ∧
        index = request.index.toNat ∧ begin_ = request.begin_.toNat ∧
        block = read (store.content state) (request.index.toNat * context.pieceLength + request.begin_.toNat)
          request.length.toNat := by
  unfold handleRequest Answered
  dsimp only
  split
  case isFalse refused => simp [refused, rejection_not_sendPiece]
  case isTrue served =>
    split
    case h_2 after reason failure => simp [failure, rejection_not_sendPiece]
    case h_1 after count bytes answer =>
      have content := store.read_ok answer
      simp [served, answer, content]

/-- Uploads stay inside the verified piece exactly when the requests that get an answer do. -/
theorem handleRequest_within_piece_iff (store : ByteStore σ)
    (generateAllowedFastSet : Nat → Nat → Bytes → String → List Nat) (peer : Peer)
    (context : TorrentContext) (state : σ) (request : RequestMessage) :
    (∀ (index begin_ : Nat) (block : Bytes),
      .sendPiece index begin_ block ∈
          (peer.handleRequest store.toBlockStorage generateAllowedFastSet context state request).2.2.2 →
        AnswersWithinPiece context (store.content state) request index begin_ block) ↔
      (Answered store generateAllowedFastSet peer context state request →
        request.begin_.toNat + request.length.toNat ≤ context.getPieceLength request.index.toNat) := by
  constructor
  case mp =>
    intro safe answered
    exact (safe _ _ _ (mem_handleRequest.mpr ⟨answered, rfl, rfl, rfl⟩)).bounded
  case mpr =>
    intro inside index begin_ block sent
    obtain ⟨answered, rfl, rfl, rfl⟩ := mem_handleRequest.mp sent
    have bounded := inside answered
    refine ⟨⟨rfl, rfl⟩, ?_, bounded, by rw [read_length]; omega, ?_⟩
    · have served := answered.1
      simp only [canServe, Bool.and_eq_true] at served
      exact served.1.2
    · intro place byte found
      have short : place < request.length.toNat := by
        simpa [read_length] using (List.getElem?_eq_some_iff.mp found).1
      rw [read_getElem? _ _ _ short, Nat.add_assoc] at found
      exact ⟨by omega, (Option.some.inj found).symm⟩

/-- Two pieces of two bytes, the first of them verified. -/
def halfVerified : TorrentContext := (blank 2 2 ⟨false, false, false⟩).markPieceLocal 0 true

def requester : Peer := ⟨"203.0.113.7", false, false, 0, 0, 0, [], [], []⟩

/-- Four bytes of piece 0 are asked for: the last two come from piece 1, which nobody verified. -/
theorem handleRequest_sends_unverified_piece :
    halfVerified.isPieceLocal 1 = false ∧
      (requester.handleRequest faultyStore.toBlockStorage (fun _ _ _ _ => []) halfVerified
        ⟨UInt8.ofNat, []⟩ ⟨0, 0, 4⟩).2.2.2 = [.sendPiece 0 0 [0, 1, 2, 3]] ∧
      ¬ AnswersWithinPiece halfVerified UInt8.ofNat ⟨0, 0, 4⟩ 0 0 [0, 1, 2, 3] := by
  refine ⟨by decide, by decide, fun within => ?_⟩
  have bounded : 0 + 4 ≤ 2 := within.bounded
  omega

end Upload

section Download

variable {σ : Type} {storage : BlockStorage σ} {digests : Digests} {peer : Peer}
  {context : TorrentContext} {state : σ} {message : PieceMessage} {piece : Nat} {peerIp : String}

/-- The block is looked at, passes and is written, and then has no slot in the source table. -/
structure Overruns (storage : BlockStorage σ) (digests : Digests) (context : TorrentContext) (state : σ)
    (piece begin_ : Nat) (block : Bytes) : Prop where
  enters : context.Enters piece begin_ block.length
  verified : verifyV2Block digests.sha256 context.filesToDownload context.pieceLength context.v2 piece
    (begin_ / blockSize) block = .ok ()
  written : (storage.writeBlock state (piece * context.pieceLength + begin_ / blockSize * blockSize)
    block).2 = .ok ()
  beyond : (context.pieceBuffer piece).tableSize ≤ begin_ / blockSize

/-- Only an empty block at the very end of its piece gets past the checks without a slot. -/
theorem Overruns.empty_at_end (fit : context.BuffersFit) (short : block.length ≤ blockSize)
    (overruns : Overruns storage digests context state piece begin_ block) :
    begin_ = context.getPieceLength piece ∧ block = [] := by
  have bounded := overruns.enters.admissible.bounded
  have beyond := overruns.beyond
  rw [fit.pieceBuffer, blocksOf] at beyond
  have reached : context.getPieceLength piece ≤ begin_ := by
    have := Nat.mul_le_mul_right blockSize beyond
    simp only [blockSize] at this ⊢
    omega
  have fits : block.length % u32Size = block.length := Nat.mod_eq_of_lt (Nat.lt_of_le_of_lt short (by decide))
  exact ⟨by omega, List.eq_nil_of_length_eq_zero (by omega)⟩

theorem receiveBlock_panics_iff :
    (context.receiveBlock storage digests state piece begin_ block peerIp).2.2 = .panic ↔
      Overruns storage digests context state piece begin_ block := by
  constructor
  case mp =>
    intro panicked
    generalize done : context.receiveBlock storage digests state piece begin_ block peerIp = result at panicked
    obtain ⟨after, afterState, outcome⟩ := result
    cases panicked
    cases receiveBlock_receipt done with
    | overrun enters verified written beyond => exact ⟨enters, verified, by rw [written], beyond⟩
  case mpr =>
    rintro ⟨enters, verified, written, beyond⟩
    have full : (context.pieceBuffer piece).addBlock (begin_ / blockSize) peerIp = none :=
      addBlock_eq_none_iff.mpr ⟨enters.absent, beyond⟩
    rw [receiveBlock_of_enters enters, verified]
    generalize storage.writeBlock state _ block = result at written
    obtain ⟨after, outcome⟩ := result
    cases written
    simp [full]

theorem processPieceBlock_panics_iff (hashes : context.numberOfPieces * hashLength ≤ context.piecesInfoHash.length) :
    (context.processPieceBlock storage digests state piece begin_ block peerIp).2.2 = .panic ↔
      Overruns storage digests context state piece begin_ block := by
  have receives : (context.receiveBlock storage digests state piece begin_ block peerIp).2.2 = .panic ↔ _ :=
    receiveBlock_panics_iff
  rw [← receives]
  unfold processPieceBlock
  split
  case h_1 done => simp [done]
  case h_3 done => simp [done]
  case h_4 done => simp [done]
  case h_2 after afterState sources done =>
    have hashed : after.HasPieceHash piece := by
      have inside : piece + 1 ≤ context.numberOfPieces :=
        (receiveBlock_complete done).index.trans_le (Nat.mod_le _ _)
      rw [receiveBlock_frame done, HasPieceHash, ← Nat.succ_mul]
      exact (Nat.mul_le_mul_right _ inside).trans hashes
    simp [done, finishPiece_ne_panic hashed]

/-- Whatever a download has gone through, only an empty block at the end of its piece crashes it. -/
theorem run_panics_at_end {start : TorrentContext} {startState : σ} (fits : start.BuffersFit)
    (hashes : start.numberOfPieces * hashLength ≤ start.piecesInfoHash.length)
    (run : Runs.Reaches (downloadStep storage digests) (fun current event => current.1.Timely event)
      (start, startState) (context, state))
    (short : block.length ≤ blockSize)
    (panicked : (context.processPieceBlock storage digests state piece begin_ block peerIp).2.2 = .panic) :
    begin_ = context.getPieceLength piece ∧ block = [] := by
  obtain ⟨same, fit⟩ := reaches_frame fits run
  rw [← same.numberOfPieces, ← same.piecesInfoHash] at hashes
  exact ((processPieceBlock_panics_iff hashes).mp panicked).empty_at_end fit short

def twoBlockPiece : TorrentContext := .blank 32768 1 ⟨false, false, false⟩

/-- The first of the two blocks has come. -/
def halfReceived : TorrentContext × FaultyBytes :=
  downloadStep faultyStore.toBlockStorage .zero (twoBlockPiece, ⟨fun _ => 0, []⟩) (.block ⟨0, 0, [7], "203.0.113.7"⟩)

theorem run_panics_at_end_of_two_blocks :
    32768 = halfReceived.1.getPieceLength 0 ∧ ([] : Bytes) = [] := by
  have run : Runs.Reaches (downloadStep faultyStore.toBlockStorage .zero) (fun current event => current.1.Timely event)
      (twoBlockPiece, ⟨fun _ => 0, []⟩) halfReceived := .next .refl _ trivial
  have panicked : (halfReceived.1.processPieceBlock faultyStore.toBlockStorage .zero halfReceived.2 0 32768 []
      "203.0.113.7").2.2 = .panic := by decide +kernel
  exact run_panics_at_end (by rintro _ _ ⟨⟩) (by decide) run (by decide) panicked

end Download

end Peer

end BitTorrent
