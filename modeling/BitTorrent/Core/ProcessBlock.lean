import BitTorrent.Core.TorrentContext
import BitTorrent.Storage.BlockStorage

/-! # From a received block to a verified piece

`process_piece_block` and `apply_piece_verification_result`.  The first is cut in two at
the point where the piece is found complete: `receiveBlock` checks and stores the block,
`finishPiece` hands the complete piece to verification.  `panic` is an out-of-range index.
-/

namespace BitTorrent

open AdaptiveErasureStaging

section Streaming

variable {σ : Type} (storage : BlockStorage σ)

/-- Read `remaining` bytes block by block through one buffer; `none` when a read fails or is
short.  `fuel` is the number of blocks. -/
def streamPiece : Nat → σ → Nat → Nat → Bytes → Bytes → σ × Option Bytes
  | 0, state, _, _, _, hashed => (state, some hashed)
  | fuel + 1, state, readOffset, remaining, tempBuf, hashed =>
    if remaining = 0 then (state, some hashed)
    else
      let toRead := min remaining blockSize
      match storage.readBlock state readOffset (tempBuf.take toRead) with
      | (state, .ok (n, bytes)) =>
        if n = toRead then
          streamPiece fuel state (readOffset + toRead) (remaining - toRead)
            (bytes ++ tempBuf.drop toRead) (hashed ++ bytes)
        else (state, none)
      | (state, .error _) => (state, none)

/-- `none` when the table of piece hashes ends before the piece, a panic of the code. -/
def checkPieceHashStreaming (digests : Digests) (context : TorrentContext) (state : σ)
    (piece numberOfBytes : Nat) : σ × Option Bool :=
  match streamPiece storage (PieceBuffer.blocksOf numberOfBytes) state (piece * context.pieceLength)
      numberOfBytes (List.replicate blockSize 0) [] with
  | (state, none) => (state, some false)
  | (state, some bytes) =>
    if context.piecesInfoHash.length < piece * hashLength + hashLength then (state, none)
    else
      (state, some (decide ((digests.sha1 bytes).toList =
        Chunks.slice context.piecesInfoHash (piece * hashLength) hashLength)))

variable {storage} {digests : Digests} {context : TorrentContext} {state : σ} {holds : σ → Prop}
  (kept : ∀ state offset buffer, holds state → holds (storage.readBlock state offset buffer).1)
include kept

theorem streamPiece_kept (initially : holds state) (fuel offset remaining : Nat) (buffer hashed : Bytes) :
    holds (streamPiece storage fuel state offset remaining buffer hashed).1 := by
  induction fuel generalizing state offset remaining buffer hashed with
  | zero => exact initially
  | succ fuel ih =>
    have next := kept state offset (buffer.take (min remaining blockSize)) initially
    simp only [streamPiece]
    split
    case isTrue => exact initially
    case isFalse =>
      split
      case h_1 answer =>
        rw [answer] at next
        split
        case isTrue => exact ih next _ _ _ _
        case isFalse => exact next
      case h_2 answer =>
        rw [answer] at next
        exact next

theorem checkPieceHashStreaming_kept (initially : holds state) (piece length : Nat) :
    holds (checkPieceHashStreaming storage digests context state piece length).1 := by
  have next := streamPiece_kept kept initially (PieceBuffer.blocksOf length) (piece * context.pieceLength) length
    (List.replicate blockSize 0) []
  simp only [checkPieceHashStreaming]
  split
  case h_1 streamed =>
    rw [streamed] at next
    exact next
  case h_2 streamed =>
    rw [streamed] at next
    split <;> exact next

end Streaming

namespace TorrentContext

variable {σ : Type} (storage : BlockStorage σ) (digests : Digests) (context : TorrentContext)

/-- A piece that passed its check: flush, mark local, tell the swarm, complete the download if it
was the last. -/
def acceptPiece (state : σ) (piece pieceLength : Nat) : TorrentContext × σ :=
  let (state, _) := storage.flush state
  let marked := context.updateBitfieldStatus piece true pieceLength
  let announced := { marked with peerSwarm := SwarmLink.broadcastHave piece marked.peerSwarm }
  (announced.tryCompleteDownload.clearPieceRequests piece, state)

theorem acceptPiece_eq (state : σ) (piece pieceLength : Nat) :
    context.acceptPiece storage state piece pieceLength =
      ((context.updateBitfieldStatus piece true pieceLength).tryCompleteDownload.clearPieceRequests piece,
        (storage.flush state).1) := by
  simp only [acceptPiece, SwarmLink.broadcastHave_eq]

/-- A piece that failed it: drop its bytes, blame its sources, mark it missing. -/
def rejectPiece (state : σ) (piece pieceLength : Nat) (blockSources : BlockSources) : TorrentContext × σ :=
  let cleared := context.clearPieceRequests piece
  let state := storage.discardRange state (piece * context.pieceLength) pieceLength
  let blamed := (blockSources.filterMap id).foldl reportBadPeer cleared
  (blamed.markPieceMissing piece true, state)

def pieceBuffer (piece : Nat) : PieceBuffer :=
  (context.pieceBuffers piece).getD (PieceBuffer.new piece (context.getPieceLength piece))

def setBuffer (piece : Nat) (buffer : Option PieceBuffer) : TorrentContext :=
  { context with pieceBuffers := Function.update context.pieceBuffers piece buffer }

/-- The checks and the bookkeeping that come before the block is looked at: `none` when the
block is to be dropped without an error. -/
def admitBlock (piece begin_ : Nat) (blockLength : Nat) (peerIp : String) :
    Result (Option TorrentContext) :=
  if context.pieceCount ≤ piece then .error (.protocol "Invalid piece index")
  else if begin_ % blockSize ≠ 0 then .error (.protocol "Block offset not aligned")
  -- `block_data.len() as u32` keeps the low 32 bits
  else if u32Size ≤ begin_ + blockLength % u32Size ∨
      context.getPieceLength piece < begin_ + blockLength % u32Size then
    .error (.protocol "Block out of piece bounds")
  else if context.isPieceLocal piece then .ok none
  else if context.config.enableAdaptiveEndgame then
    match context.endgameStaging.onBlockArrived piece (begin_ / blockSize) peerIp with
    | (_, .absorbDuplicate _) => .ok none
    | (endgameStaging, .commitAndCancelOthers _) => .ok (some { context with endgameStaging })
  else .ok (some context)

/-- The block is in the buffer: take the buffer out when it is complete. -/
def settleBuffer (piece : Nat) (buffer : PieceBuffer) : TorrentContext × Option BlockSources :=
  if buffer.allBlocksThere then
    let removed := context.setBuffer piece none
    (if context.config.enableAdaptiveEndgame then
        { removed with endgameStaging := removed.endgameStaging.clearPiece piece }
      else removed, some buffer.blockSources)
  else (context.setBuffer piece (some buffer), none)

/-- The first half of `process_piece_block`.  The result is the list of the block sources when
the piece was found complete. -/
def receiveBlock (state : σ) (piece begin_ : Nat) (blockData : Bytes)
    (peerIp : String) : TorrentContext × σ × Outcome (Option BlockSources) :=
  match context.admitBlock piece begin_ blockData.length peerIp with
  | .error reason => (context, state, .err reason)
  | .ok none => (context, state, .ok none)
  | .ok (some context) =>
    let blockIndex := begin_ / blockSize
    let buffer := context.pieceBuffer piece
    let entered := context.setBuffer piece (some buffer)
    if buffer.isBlockPresent blockIndex then
      let (context, complete) := entered.settleBuffer piece buffer
      (context, state, .ok complete)
    else
      match verifyV2Block digests.sha256 context.filesToDownload context.pieceLength context.v2 piece
          blockIndex blockData with
      | .error reason => (entered, state, .err reason)
      | .ok () =>
        let globalOffset := piece * context.pieceLength + blockIndex * blockSize
        match storage.writeBlock state globalOffset blockData with
        | (state, .error reason) => (entered, state, .err reason)
        | (state, .ok ()) =>
          match buffer.addBlock blockIndex peerIp with
          | none => (entered, state, .panic)
          | some buffer =>
            let (context, complete) := entered.settleBuffer piece buffer
            (context, state, .ok complete)

def verificationJob (piece : Nat) (blockSources : BlockSources) : PieceVerificationJob where
  pieceNumber := piece
  pieceLength := context.getPieceLength piece
  pieceOffset := piece * context.pieceLength
  expectedV1Hash :=
    if piece * 20 + 20 ≤ context.piecesInfoHash.length then
      some (Chunks.slice context.piecesInfoHash (piece * 20) 20)
    else none
  blockSources

def verifySync (state : σ) (piece : Nat) (blockSources : BlockSources) : TorrentContext × σ × Outcome Bool :=
  let pieceLength := context.getPieceLength piece
  match checkPieceHashStreaming storage digests context state piece pieceLength with
  | (state, some true) =>
    let (context, state) := context.acceptPiece storage state piece pieceLength
    (context, state, .ok true)
  | (state, some false) =>
    let (context, state) := context.rejectPiece storage state piece pieceLength blockSources
    (context, state, .err (.protocol "Piece failed hash verification"))
  | (state, none) => (context, state, .panic)

/-- The second half: to the worker pool when it takes the job, checked on the spot otherwise. -/
def finishPiece (state : σ) (piece : Nat) (blockSources : BlockSources) : TorrentContext × σ × Outcome Bool :=
  if context.config.enableAsyncVerification then
    match context.verificationPool.submit (context.verificationJob piece blockSources) with
    | (verificationPool, .ok ()) =>
      ({ context.markPieceVerifying piece true with verificationPool }, state, .ok true)
    | (verificationPool, .error _) =>
      ({ context.markPieceVerifying piece false with verificationPool }).verifySync storage digests
        state piece blockSources
  else context.verifySync storage digests state piece blockSources

def processPieceBlock (state : σ) (piece begin_ : Nat)
    (blockData : Bytes) (peerIp : String) : TorrentContext × σ × Outcome Bool :=
  match context.receiveBlock storage digests state piece begin_ blockData peerIp with
  | (context, state, .ok none) => (context, state, .ok false)
  | (context, state, .ok (some blockSources)) =>
    context.finishPiece storage digests state piece blockSources
  | (context, state, .err reason) => (context, state, .err reason)
  | (context, state, .panic) => (context, state, .panic)

def applyPieceVerificationResult (state : σ) (result : PieceVerificationResult) : TorrentContext × σ × Bool :=
  let context := context.markPieceVerifying result.pieceNumber false
  if result.isValid then
    let (context, state) := context.acceptPiece storage state result.pieceNumber result.pieceLength
    (context, state, true)
  else
    let (context, state) := context.rejectPiece storage state result.pieceNumber result.pieceLength
      result.blockSources
    (context, state, false)

/-- The ranges of the fields that are `u32`. -/
structure Representable : Prop where
  standard : context.pieceLength < u32Size
  lengths : ∀ piece, context.getPieceLength piece < u32Size

/-- A block that passes the checks on its position, for a piece that is still wanted. -/
structure Admissible (piece begin_ blockLength : Nat) : Prop where
  index : piece < context.pieceCount
  aligned : begin_ % blockSize = 0
  representable : begin_ + blockLength % u32Size < u32Size
  bounded : begin_ + blockLength % u32Size ≤ context.getPieceLength piece
  wanted : context.isPieceLocal piece = false

instance (context : TorrentContext) (piece begin_ blockLength : Nat) :
    Decidable (context.Admissible piece begin_ blockLength) :=
  decidable_of_iff (piece < context.pieceCount ∧ begin_ % blockSize = 0 ∧
      begin_ + blockLength % u32Size < u32Size ∧
      begin_ + blockLength % u32Size ≤ context.getPieceLength piece ∧
      context.isPieceLocal piece = false)
    ⟨fun ⟨index, aligned, representable, bounded, wanted⟩ =>
      ⟨index, aligned, representable, bounded, wanted⟩,
      fun ⟨index, aligned, representable, bounded, wanted⟩ =>
        ⟨index, aligned, representable, bounded, wanted⟩⟩

/-- The end game has seen this block before. -/
def absorbs (piece block : Nat) : Bool :=
  context.config.enableAdaptiveEndgame &&
    decide ((piece, block) ∈ context.endgameStaging.committedBlocks)

/-- The staging cache after a block was let through. -/
def stagingAfter (piece block : Nat) (peerIp : String) : AdaptiveErasureStaging :=
  if context.config.enableAdaptiveEndgame then
    (context.endgameStaging.onBlockArrived piece block peerIp).1
  else context.endgameStaging

/-- The context in which the block is looked at: the end game has noted it, and the piece has
a buffer. -/
def entered (piece block : Nat) (peerIp : String) : TorrentContext :=
  { context with
    endgameStaging := context.stagingAfter piece block peerIp
    pieceBuffers := Function.update context.pieceBuffers piece (some (context.pieceBuffer piece)) }

variable {storage digests} {context : TorrentContext} {piece begin_ blockLength : Nat} {peerIp : String}

theorem admitBlock_eq_some {admitted : TorrentContext}
    (done : context.admitBlock piece begin_ blockLength peerIp = .ok (some admitted)) :
    context.Admissible piece begin_ blockLength ∧
      context.absorbs piece (begin_ / blockSize) = false ∧
      admitted =
        { context with endgameStaging := context.stagingAfter piece (begin_ / blockSize) peerIp } := by
  unfold admitBlock at done
  obtain ⟨index, done⟩ := guard_eq_ok.mp done
  obtain ⟨aligned, done⟩ := guard_eq_ok.mp done
  obtain ⟨bounds, done⟩ := guard_eq_ok.mp done
  split at done
  case isTrue => cases done
  case isFalse wanted =>
    have admissible : context.Admissible piece begin_ blockLength :=
      ⟨by omega, by omega, by omega, by omega, by simpa using wanted⟩
    refine ⟨admissible, ?_⟩
    unfold absorbs stagingAfter
    split at done
    case isFalse off =>
      cases done
      simp [off]
    case isTrue on =>
      rw [if_pos on, on, Bool.true_and, decide_eq_false_iff_not]
      unfold onBlockArrived at done ⊢
      by_cases committed : (piece, begin_ / blockSize) ∈ context.endgameStaging.committedBlocks
      · simp [committed] at done
      · simp only [committed, if_false, Except.ok.injEq, Option.some.injEq] at done ⊢
        exact ⟨not_false, done.symm⟩

section

variable (admissible : context.Admissible piece begin_ blockLength)
include admissible

theorem admitBlock_of_admissible (fresh : context.absorbs piece (begin_ / blockSize) = false) :
    context.admitBlock piece begin_ blockLength peerIp = .ok (some
      { context with endgameStaging := context.stagingAfter piece (begin_ / blockSize) peerIp }) := by
  obtain ⟨index, aligned, representable, bounded, wanted⟩ := admissible
  unfold admitBlock stagingAfter
  rw [if_neg (by omega), if_neg (by omega), if_neg (by omega), wanted, if_neg Bool.false_ne_true]
  cases on : context.config.enableAdaptiveEndgame with
  | false => simp
  | true =>
    have uncommitted : (piece, begin_ / blockSize) ∉ context.endgameStaging.committedBlocks := by
      simpa [absorbs, on] using fresh
    simp [onBlockArrived, uncommitted]

theorem admitBlock_absorbed (absorbed : context.absorbs piece (begin_ / blockSize) = true) :
    context.admitBlock piece begin_ blockLength peerIp = .ok none := by
  obtain ⟨index, aligned, representable, bounded, wanted⟩ := admissible
  simp only [absorbs, Bool.and_eq_true, decide_eq_true_eq] at absorbed
  rw [admitBlock, if_neg (by omega), if_neg (by omega), if_neg (by omega), wanted,
    if_neg Bool.false_ne_true, if_pos absorbed.1]
  simp [onBlockArrived, absorbed.2]

theorem admitBlock_ne_error {reason : BitTorrentError} :
    context.admitBlock piece begin_ blockLength peerIp ≠ .error reason := by
  cases fresh : context.absorbs piece (begin_ / blockSize) with
  | false => simp [admitBlock_of_admissible admissible fresh]
  | true => simp [admitBlock_absorbed admissible fresh]

end

/-- A block that gets as far as its content being looked at. -/
structure Enters (context : TorrentContext) (piece begin_ blockLength : Nat) : Prop where
  admissible : context.Admissible piece begin_ blockLength
  fresh : context.absorbs piece (begin_ / blockSize) = false
  absent : (context.pieceBuffer piece).isBlockPresent (begin_ / blockSize) = false

variable {blockData : Bytes} {state : σ} {after : TorrentContext} {buffer : PieceBuffer} {afterState : σ}

theorem receiveBlock_of_enters (enters : context.Enters piece begin_ blockData.length) :
    context.receiveBlock storage digests state piece begin_ blockData peerIp =
      match verifyV2Block digests.sha256 context.filesToDownload context.pieceLength context.v2 piece
          (begin_ / blockSize) blockData with
      | .error reason => (context.entered piece (begin_ / blockSize) peerIp, state, .err reason)
      | .ok () =>
        match storage.writeBlock state
            (piece * context.pieceLength + begin_ / blockSize * blockSize) blockData with
        | (after, .error reason) => (context.entered piece (begin_ / blockSize) peerIp, after, .err reason)
        | (after, .ok ()) =>
          match (context.pieceBuffer piece).addBlock (begin_ / blockSize) peerIp with
          | none => (context.entered piece (begin_ / blockSize) peerIp, after, .panic)
          | some buffer =>
            (((context.entered piece (begin_ / blockSize) peerIp).settleBuffer piece buffer).1, after,
              .ok ((context.entered piece (begin_ / blockSize) peerIp).settleBuffer piece buffer).2) := by
  have absent : ¬ (context.pieceBuffer piece).isBlockPresent (begin_ / blockSize) = true := by
    rw [enters.absent]
    exact Bool.false_ne_true
  unfold receiveBlock
  rw [admitBlock_of_admissible enters.admissible enters.fresh]
  exact if_neg absent

section

variable (storage : BlockStorage σ) (digests : Digests) (context : TorrentContext) (state : σ) (piece begin_ : Nat)
  (blockData : Bytes) (peerIp : String)

/-- Everything that `receiveBlock` can do. -/
inductive Receipt : TorrentContext × σ × Outcome (Option BlockSources) → Prop
  | rejected {reason : BitTorrentError}
      (invalid : context.admitBlock piece begin_ blockData.length peerIp = .error reason) :
      Receipt (context, state, .err reason)
  | ignored (dropped : context.admitBlock piece begin_ blockData.length peerIp = .ok none) :
      Receipt (context, state, .ok none)
  | present (admissible : context.Admissible piece begin_ blockData.length)
      (fresh : context.absorbs piece (begin_ / blockSize) = false)
      (there : (context.pieceBuffer piece).isBlockPresent (begin_ / blockSize) = true) :
      Receipt (((context.entered piece (begin_ / blockSize) peerIp).settleBuffer piece
            (context.pieceBuffer piece)).1, state,
          .ok ((context.entered piece (begin_ / blockSize) peerIp).settleBuffer piece
            (context.pieceBuffer piece)).2)
  | refused {reason : BitTorrentError}
      (enters : context.Enters piece begin_ blockData.length)
      (refusal : verifyV2Block digests.sha256 context.filesToDownload context.pieceLength context.v2
        piece (begin_ / blockSize) blockData = .error reason) :
      Receipt (context.entered piece (begin_ / blockSize) peerIp, state, .err reason)
  | failed {reason : BitTorrentError} {after : σ}
      (enters : context.Enters piece begin_ blockData.length)
      (verified : verifyV2Block digests.sha256 context.filesToDownload context.pieceLength context.v2
        piece (begin_ / blockSize) blockData = .ok ())
      (failure : storage.writeBlock state
        (piece * context.pieceLength + begin_ / blockSize * blockSize) blockData = (after, .error reason)) :
      Receipt (context.entered piece (begin_ / blockSize) peerIp, after, .err reason)
  | overrun {after : σ}
      (enters : context.Enters piece begin_ blockData.length)
      (verified : verifyV2Block digests.sha256 context.filesToDownload context.pieceLength context.v2
        piece (begin_ / blockSize) blockData = .ok ())
      (written : storage.writeBlock state
        (piece * context.pieceLength + begin_ / blockSize * blockSize) blockData = (after, .ok ()))
      (beyond : (context.pieceBuffer piece).tableSize ≤ begin_ / blockSize) :
      Receipt (context.entered piece (begin_ / blockSize) peerIp, after, .panic)
  | stored {after : σ} {buffer : PieceBuffer}
      (enters : context.Enters piece begin_ blockData.length)
      (verified : verifyV2Block digests.sha256 context.filesToDownload context.pieceLength context.v2
        piece (begin_ / blockSize) blockData = .ok ())
      (written : storage.writeBlock state
        (piece * context.pieceLength + begin_ / blockSize * blockSize) blockData = (after, .ok ()))
      (added : (context.pieceBuffer piece).addBlock (begin_ / blockSize) peerIp = some buffer) :
      Receipt (((context.entered piece (begin_ / blockSize) peerIp).settleBuffer piece buffer).1, after,
          .ok ((context.entered piece (begin_ / blockSize) peerIp).settleBuffer piece buffer).2)

end

theorem receiveBlock_receipt {result : TorrentContext × σ × Outcome (Option BlockSources)}
    (done : context.receiveBlock storage digests state piece begin_ blockData peerIp = result) :
    Receipt storage digests context state piece begin_ blockData peerIp result := by
  rw [← done]
  unfold receiveBlock
  split
  case h_1 reason invalid => exact .rejected invalid
  case h_2 dropped => exact .ignored dropped
  case h_3 admitted done =>
    obtain ⟨admissible, fresh, rfl⟩ := admitBlock_eq_some done
    dsimp only
    split
    case isTrue there => exact .present admissible fresh there
    case isFalse absent =>
      have enters : context.Enters piece begin_ blockData.length :=
        ⟨admissible, fresh, by simpa [pieceBuffer, getPieceLength] using absent⟩
      split
      case h_1 reason refusal => exact .refused enters refusal
      case h_2 verified =>
        split
        case h_1 after reason failure => exact .failed enters verified failure
        case h_2 after written =>
          split
          case h_1 none =>
            exact .overrun enters verified written
              (PieceBuffer.addBlock_eq_none_iff.mp none).2
          case h_2 buffer added => exact .stored enters verified written added

section

variable (context)

theorem pieceBuffer_setBuffer (piece : Nat) (buffer : PieceBuffer) :
    (context.setBuffer piece (some buffer)).pieceBuffer piece = buffer := by
  simp [pieceBuffer, setBuffer]

theorem pieceBuffer_entered (piece block : Nat) (peerIp : String) (other : Nat) :
    (context.entered piece block peerIp).pieceBuffer other = context.pieceBuffer other := by
  by_cases same : other = piece
  · simp [same, pieceBuffer, entered]
  · simp [same, pieceBuffer, entered, getPieceLength]

theorem settleBuffer_pieceBuffers (piece : Nat) (buffer : PieceBuffer) :
    (context.settleBuffer piece buffer).1.pieceBuffers =
      Function.update context.pieceBuffers piece (if buffer.allBlocksThere then none else some buffer) := by
  unfold settleBuffer
  split
  case isTrue => dsimp only; split <;> rfl
  case isFalse => rfl

theorem settleBuffer_complete (piece : Nat) (buffer : PieceBuffer) :
    (context.settleBuffer piece buffer).2 = if buffer.allBlocksThere then some buffer.blockSources else none := by
  unfold settleBuffer
  split <;> rfl

theorem settleBuffer_frame (piece : Nat) (buffer : PieceBuffer) :
    (context.settleBuffer piece buffer).1 =
      { context with
        endgameStaging := (context.settleBuffer piece buffer).1.endgameStaging
        pieceBuffers := (context.settleBuffer piece buffer).1.pieceBuffers } := by
  unfold settleBuffer
  split
  case isTrue => dsimp only; split <;> rfl
  case isFalse => rfl

end

/-- Until the piece is complete only the end game and the buffers change. -/
theorem receiveBlock_frame {outcome : Outcome (Option BlockSources)}
    (done : context.receiveBlock storage digests state piece begin_ blockData peerIp =
      (after, afterState, outcome)) :
    after = { context with
      endgameStaging := after.endgameStaging
      pieceBuffers := after.pieceBuffers } := by
  cases receiveBlock_receipt done with
  | rejected => rfl
  | ignored => rfl
  | present => exact settleBuffer_frame _ piece _
  | refused => rfl
  | failed => rfl
  | overrun => rfl
  | stored => exact settleBuffer_frame _ piece _

variable {blockSources : BlockSources}

theorem receiveBlock_complete (done : context.receiveBlock storage digests state piece begin_ blockData peerIp =
      (after, afterState, .ok (some blockSources))) : context.Admissible piece begin_ blockData.length := by
  generalize complete : some blockSources = found at done
  cases receiveBlock_receipt done with
  | ignored => cases complete
  | present admissible => exact admissible
  | stored enters => exact enters.admissible

/-- Every buffer has one slot for each block of its piece. -/
def BuffersFit (context : TorrentContext) : Prop :=
  ∀ piece buffer, context.pieceBuffers piece = some buffer →
    buffer.tableSize = PieceBuffer.blocksOf (context.getPieceLength piece)

theorem BuffersFit.pieceBuffer (fit : context.BuffersFit) (piece : Nat) :
    (context.pieceBuffer piece).tableSize = PieceBuffer.blocksOf (context.getPieceLength piece) := by
  unfold TorrentContext.pieceBuffer
  cases held : context.pieceBuffers piece with
  | none => exact PieceBuffer.new_tableSize _ _
  | some buffer => exact fit piece buffer held

/-- The piece has its hash in the table. -/
def HasPieceHash (context : TorrentContext) (piece : Nat) : Prop :=
  piece * hashLength + hashLength ≤ context.piecesInfoHash.length

section

variable (hash : context.HasPieceHash piece)
include hash

theorem checkPieceHashStreaming_isSome {numberOfBytes : Nat} :
    (checkPieceHashStreaming storage digests context state piece numberOfBytes).2 ≠ none := by
  unfold checkPieceHashStreaming
  split
  case h_1 => simp
  case h_2 =>
    rw [if_neg (Nat.not_lt.mpr hash)]
    simp

theorem verifySync_ne_panic : (context.verifySync storage digests state piece blockSources).2.2 ≠ .panic := by
  unfold verifySync
  dsimp only
  split
  case h_1 => simp
  case h_2 => simp
  case h_3 after outside =>
    exact absurd (congrArg Prod.snd outside) (checkPieceHashStreaming_isSome hash)

theorem finishPiece_ne_panic :
    (context.finishPiece storage digests state piece blockSources).2.2 ≠ .panic := by
  unfold finishPiece
  split
  case isFalse => exact verifySync_ne_panic hash
  case isTrue =>
    split
    case h_1 => simp
    case h_2 => exact verifySync_ne_panic hash

end

end TorrentContext

end BitTorrent
