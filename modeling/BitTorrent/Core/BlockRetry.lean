import BitTorrent.Core.PieceAssembly

/-! # Retrying a block that failed

The adaptive end game notes a block as committed before it is checked and written, and
forgets it only when its piece completes.  A block that then fails is absorbed from there
on, so that its piece never completes; without the end game every failed block can be
retried.
-/

namespace BitTorrent

open Runs AdaptiveErasureStaging PieceBuffer

namespace TorrentContext

variable {σ : Type} {storage : BlockStorage σ} {digests : Digests}
  {start context after later : TorrentContext} {startState state afterState laterState : σ}
  {piece block : Nat} {call bad retry : BlockCall} {reason : BitTorrentError}

/-- The right bytes for a block that is still missing, over a storage that takes them. -/
structure CorrectBlock (storage : BlockStorage σ) (digests : Digests) (context : TorrentContext) (state : σ)
    (call : BlockCall) : Prop where
  index : call.piece < context.pieceCount
  range : context.getPieceLength call.piece < u32Size
  aligned : call.begin_ % blockSize = 0
  inside : call.begin_ < context.getPieceLength call.piece
  full : call.data.length = min blockSize (context.getPieceLength call.piece - call.begin_)
  wanted : context.isPieceLocal call.piece = false
  absent : (context.pieceBuffer call.piece).isBlockPresent call.block = false
  verified : verifyV2Block digests.sha256 context.filesToDownload context.pieceLength context.v2 call.piece
    call.block call.data = .ok ()
  works : (storage.writeBlock state (call.piece * context.pieceLength + call.block * blockSize) call.data).2 = .ok ()

/-- The call writes its data and the block is present afterwards, in the buffer of the piece or
in the buffer that was found complete. -/
def StoresBlock (storage : BlockStorage σ) (digests : Digests) (context : TorrentContext) (state : σ)
    (call : BlockCall) : Prop :=
  ∃ after afterState found,
    context.receive storage digests state call = (after, afterState, .ok found) ∧
    storage.writeBlock state (call.piece * context.pieceLength + call.block * blockSize) call.data =
      (afterState, .ok ()) ∧
    match found with
    | none => ∃ buffer, after.pieceBuffers call.piece = some buffer ∧ buffer.isBlockPresent call.block = true
    | some sources => sources[call.block]? = some (some call.peerIp)

theorem CorrectBlock.admissible (correct : context.CorrectBlock storage digests state call) :
    context.Admissible call.piece call.begin_ call.data.length := by
  have inside := correct.inside
  have range := correct.range
  have fits : call.begin_ + call.data.length ≤ context.getPieceLength call.piece := by
    rw [correct.full]
    omega
  have whole : call.data.length % u32Size = call.data.length := Nat.mod_eq_of_lt (by omega)
  exact ⟨correct.index, correct.aligned, by omega, by omega, correct.wanted⟩

section

variable (fit : context.BuffersFit) (correct : context.CorrectBlock storage digests state call)
include fit correct

theorem CorrectBlock.slot : call.block < (context.pieceBuffer call.piece).tableSize := by
  have inside := correct.inside
  rw [fit.pieceBuffer, blocksOf, BlockCall.block]
  simp only [blockSize] at inside ⊢
  omega

theorem storesBlock_of_fresh
    (fresh : context.absorbs call.piece call.block = false) : context.StoresBlock storage digests state call := by
  have enters : context.Enters call.piece call.begin_ call.data.length := ⟨correct.admissible, fresh, correct.absent⟩
  have slot := correct.slot fit
  have works := correct.works
  generalize written : storage.writeBlock state _ call.data = result at works
  obtain ⟨afterState, outcome⟩ := result
  cases works
  cases added : (context.pieceBuffer call.piece).addBlock call.block call.peerIp with
  | none =>
    have beyond := (addBlock_eq_none_iff.mp added).2
    omega
  | some buffer =>
    have stored := @receiveBlock_of_enters _ storage digests _ _ _ call.peerIp _ state enters
    rw [show call.begin_ / blockSize = call.block from rfl, correct.verified] at stored
    simp only [written, added] at stored
    refine ⟨_, _, _, stored, written, ?_⟩
    rw [settleBuffer_complete, settleBuffer_pieceBuffers]
    by_cases all : buffer.allBlocksThere
    · rw [if_pos all]
      exact addBlock_source correct.absent added
    · rw [if_neg all, if_neg all]
      refine ⟨buffer, Function.update_self _ _ _, ?_⟩
      rw [(addBlock_eq_some added).2.2 call.block]
      simp

end

/-- A missing block that the end game holds for committed. -/
structure Absorbed (context : TorrentContext) (piece block : Nat) : Prop where
  adaptive : context.config.enableAdaptiveEndgame = true
  committed : (piece, block) ∈ context.endgameStaging.committedBlocks
  absent : (context.pieceBuffer piece).isBlockPresent block = false
  slot : block < (context.pieceBuffer piece).tableSize

section

variable (absorbed : context.Absorbed piece block)
include absorbed

theorem Absorbed.absorbs : context.absorbs piece block = true := by
  simp [TorrentContext.absorbs, absorbed.adaptive, absorbed.committed]

theorem Absorbed.entered (other otherBlock : Nat) (peerIp : String) :
    (context.entered other otherBlock peerIp).Absorbed piece block := by
  refine ⟨absorbed.adaptive, ?_, by rw [pieceBuffer_entered]; exact absorbed.absent,
    by rw [pieceBuffer_entered]; exact absorbed.slot⟩
  have committed := absorbed.committed
  by_cases known : (other, otherBlock) ∈ context.endgameStaging.committedBlocks
  · simpa [TorrentContext.entered, stagingAfter, absorbed.adaptive, onBlockArrived, known]
      using committed
  · simp [TorrentContext.entered, stagingAfter, absorbed.adaptive, onBlockArrived, known,
      committed]

/-- The piece of the missing block cannot be the one that is found complete. -/
theorem Absorbed.settle {other : Nat} {buffer : PieceBuffer}
    (missing : other = piece → block < buffer.tableSize ∧ buffer.isBlockPresent block = false) :
    (context.settleBuffer other buffer).1.Absorbed piece block := by
  by_cases same : other = piece
  · subst same
    obtain ⟨slot, absent⟩ := missing rfl
    rw [settleBuffer, if_neg fun all => Bool.false_ne_true (absent.symm.trans (allBlocksThere_iff.mp all block slot))]
    exact ⟨absorbed.adaptive, absorbed.committed, by rw [pieceBuffer_setBuffer]; exact absent,
      by rw [pieceBuffer_setBuffer]; exact slot⟩
  · have kept : (context.settleBuffer other buffer).1.pieceBuffer piece = context.pieceBuffer piece := by
      simp only [pieceBuffer, settleBuffer_pieceBuffers, Function.update_of_ne (Ne.symm same)]
      rw [settleBuffer_frame]
      rfl
    refine ⟨?_, ?_, by rw [kept]; exact absorbed.absent, by rw [kept]; exact absorbed.slot⟩
    · rw [settleBuffer_frame]
      exact absorbed.adaptive
    · simp only [settleBuffer]
      split
      case isFalse => exact absorbed.committed
      case isTrue =>
        simp [setBuffer, absorbed.adaptive, clearPiece, absorbed.committed, Ne.symm same]

theorem Absorbed.receive {outcome : Outcome (Option BlockSources)}
    (done : context.receive storage digests state call = (after, afterState, outcome)) :
    after.Absorbed piece block := by
  -- the only block that the end game absorbs here is another one
  have other (fresh : context.absorbs call.piece (call.begin_ / blockSize) = false) (same : call.piece = piece) :
      block ≠ call.begin_ / blockSize := by
    rintro rfl
    rw [same, absorbed.absorbs] at fresh
    cases fresh
  cases receiveBlock_receipt done with
  | rejected => exact absorbed
  | ignored => exact absorbed
  | refused => exact absorbed.entered _ _ _
  | failed => exact absorbed.entered _ _ _
  | overrun => exact absorbed.entered _ _ _
  | present =>
    refine (absorbed.entered _ _ _).settle fun same => ?_
    rw [same]
    exact ⟨absorbed.slot, absorbed.absent⟩
  | stored enters verified written added =>
    refine (absorbed.entered _ _ _).settle fun same => ?_
    obtain ⟨table, _, presence⟩ := addBlock_eq_some added
    rw [table, presence, same, absorbed.absent, decide_eq_false (other enters.fresh same)]
    exact ⟨absorbed.slot, rfl⟩

end

theorem SameAssembly.absorbed (same : SameAssembly context after) (absorbed : context.Absorbed piece block) :
    after.Absorbed piece block := by
  have buffer : after.pieceBuffer piece = context.pieceBuffer piece := by
    simp only [pieceBuffer, same.pieceBuffers, same.lengths]
  refine ⟨?_, ?_, ?_, ?_⟩
  · rw [same.config]
    exact absorbed.adaptive
  · rw [same.endgameStaging]
    exact absorbed.committed
  · rw [buffer]
    exact absorbed.absent
  · rw [buffer]
    exact absorbed.slot

theorem Absorbed.downloadStep {current : TorrentContext × σ} {event : DownloadEvent}
    (absorbed : current.1.Absorbed piece block) (timely : current.1.Timely event) :
    (downloadStep storage digests current event).1.Absorbed piece block := by
  cases event with
  | verdict result => exact (downloadStep_verdict timely).absorbed absorbed
  | block call =>
    generalize taken : TorrentContext.downloadStep storage digests current (.block call) = next
    cases downloadStep_block taken with
    | received done => exact absorbed.receive done
    | finished done => exact finishPiece_same.absorbed (absorbed.receive done)

theorem Absorbed.not_storesBlock (absorbed : context.Absorbed call.piece call.block) :
    ¬ context.StoresBlock storage digests state call := by
  rintro ⟨after, afterState, found, done, _, marked⟩
  have stale (fresh : context.absorbs call.piece (call.begin_ / blockSize) = false) : False := by
    have known := absorbed.absorbs
    rw [BlockCall.block, fresh] at known
    cases known
  cases receiveBlock_receipt done with
  | present _ fresh => exact stale fresh
  | stored enters => exact stale enters.fresh
  | ignored =>
    obtain ⟨buffer, held, present⟩ := marked
    have absent := absorbed.absent
    simp only [pieceBuffer, held, Option.getD_some, present] at absent
    cases absent

/-- A block that failed its check or its write can be retried, at any later time and from any
source, exactly when the adaptive end game is off. -/
theorem retry_stores_iff
    (fresh : ∀ piece, start.pieceBuffers piece = none)
    (reached : Reaches (downloadStep storage digests) (fun current event => current.1.Timely event)
      (start, startState) (context, state))
    (admissible : context.Admissible bad.piece bad.begin_ bad.data.length)
    (failed : context.receive storage digests state bad = (after, afterState, .err reason))
    (resumed : Reaches (downloadStep storage digests) (fun current event => current.1.Timely event)
      (after, afterState) (later, laterState))
    (samePiece : retry.piece = bad.piece) (sameBlock : retry.begin_ = bad.begin_)
    (correct : later.CorrectBlock storage digests laterState retry) :
    later.StoresBlock storage digests laterState retry ↔ context.config.enableAdaptiveEndgame = false := by
  have fitStart : start.BuffersFit := by
    intro piece buffer held
    rw [fresh piece] at held
    cases held
  have fit : context.BuffersFit := (reaches_frame fitStart reached).2
  have fitAfter := receive_buffersFit failed fit
  have fitLater : later.BuffersFit := (reaches_frame fitAfter resumed).2
  have sameLater : SameTorrent context later :=
    (receive_sameTorrent failed).trans (reaches_frame fitAfter resumed).1
  obtain ⟨entered, absent⟩ : after = context.entered bad.piece bad.block bad.peerIp ∧
      (context.pieceBuffer bad.piece).isBlockPresent bad.block = false := by
    cases receiveBlock_receipt failed with
    | refused enters => exact ⟨rfl, enters.absent⟩
    | failed enters => exact ⟨rfl, enters.absent⟩
    | rejected invalid => exact absurd invalid (admitBlock_ne_error admissible)
  have block : retry.block = bad.block := by rw [BlockCall.block, sameBlock, BlockCall.block]
  cases adaptive : context.config.enableAdaptiveEndgame with
  | false =>
    have passes : later.absorbs retry.piece retry.block = false := by
      simp [absorbs, sameLater.config, adaptive]
    simp [storesBlock_of_fresh fitLater correct passes]
  | true =>
    have slot : bad.block < (context.pieceBuffer bad.piece).tableSize := by
      have slotLater := correct.slot fitLater
      rw [fitLater.pieceBuffer, sameLater.lengths, samePiece, block] at slotLater
      rw [fit.pieceBuffer]
      exact slotLater
    have absorbedAfter : after.Absorbed bad.piece bad.block := by
      rw [entered]
      refine ⟨adaptive, ?_, by rw [pieceBuffer_entered]; exact absent, by rw [pieceBuffer_entered]; exact slot⟩
      simp only [TorrentContext.entered, stagingAfter, adaptive, if_true]
      exact mem_onBlockArrived _ _ _ _
    have absorbed : later.Absorbed bad.piece bad.block :=
      resumed.invariant (fun current => current.1.Absorbed bad.piece bad.block) absorbedAfter
        fun _ _ kept timely => kept.downloadStep timely
    rw [← samePiece, ← block] at absorbed
    simp [absorbed.not_storesBlock]

def twoBytes (peerIp : String) : BlockCall := ⟨0, 0, [1, 2], peerIp⟩

/-- A context of one piece of two bytes after a write of them has failed. -/
def afterFailedWrite (enableAdaptiveEndgame : Bool) :
    TorrentContext × FaultyBytes × Outcome (Option BlockSources) :=
  (blank 2 1 ⟨enableAdaptiveEndgame, false, false⟩).receive faultyStore.toBlockStorage .zero
    ⟨fun _ => 0, [true]⟩ (twoBytes "203.0.113.7")

theorem retry_stores_after_failed_write :
    (afterFailedWrite false).1.StoresBlock faultyStore.toBlockStorage .zero (afterFailedWrite false).2.1
      (twoBytes "203.0.113.8") := by
  have failed : (blank 2 1 ⟨false, false, false⟩).receive faultyStore.toBlockStorage .zero
      ⟨fun _ => 0, [true]⟩ (twoBytes "203.0.113.7") = ((afterFailedWrite false).1, (afterFailedWrite false).2.1,
        .err (.io "write failed")) := rfl
  have correct : (afterFailedWrite false).1.CorrectBlock faultyStore.toBlockStorage .zero
      (afterFailedWrite false).2.1 (twoBytes "203.0.113.8") :=
    ⟨by decide, by decide, by decide, by decide, by decide, by decide, by decide, by decide, by decide⟩
  have samePiece : (twoBytes "203.0.113.8").piece = (twoBytes "203.0.113.7").piece := rfl
  exact (retry_stores_iff (fun _ => rfl) .refl (by decide) failed .refl samePiece rfl correct).mpr rfl

/-- With the end game on the same retry is absorbed: it returns `Ok` without a write, and the
block stays missing. -/
theorem retry_absorbed_after_failed_write :
    (afterFailedWrite true).2.2 = .err (.io "write failed") ∧
      ((afterFailedWrite true).1.receive faultyStore.toBlockStorage .zero (afterFailedWrite true).2.1
        (twoBytes "203.0.113.8")).2.2 = .ok none ∧
      ¬ (afterFailedWrite true).1.StoresBlock faultyStore.toBlockStorage .zero (afterFailedWrite true).2.1
        (twoBytes "203.0.113.8") := by
  have absorbed : (afterFailedWrite true).1.Absorbed 0 0 :=
    ⟨by decide, by decide, by decide, by decide⟩
  exact ⟨by decide, by decide, absorbed.not_storesBlock⟩

end TorrentContext

end BitTorrent
