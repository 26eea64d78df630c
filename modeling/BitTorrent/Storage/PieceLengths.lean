import BitTorrent.Storage.ResumeSafety
import BitTorrent.Storage.BitfieldScanner
import BitTorrent.Storage.VerificationPool

/-! # The lengths of the pieces

The scans, the forced full bit field, the resume and the recheck of the pool each compute the length of a
piece.
-/

namespace BitTorrent

open FastResumeData TorrentContext List

/-- The last piece has what is left over, if there is any. -/
def lengthByRemainder (numberOfPieces pieceLength totalBytes piece : Nat) : Nat :=
  if piece = numberOfPieces - 1 then
    let rem := totalBytes % pieceLength % u32Size
    if rem = 0 then pieceLength else rem
  else pieceLength

section Scans

variable {σ : Type} (digests : Digests) (storage : BlockStorage σ) (numberOfPieces pieceLength totalBytes : Nat)
  (expectedHashes : Bytes)

/-- The loop of `scan_storage`.  The buffer keeps what earlier reads left in it. -/
def BitfieldScanner.scanPieces (state : σ) (buffer : Bytes) : List Nat → List PieceScanStatus
  | [] => []
  | piece :: pieces =>
    let length := lengthByRemainder numberOfPieces pieceLength totalBytes piece
    match storage.readBlock state (piece * pieceLength) (buffer.take length) with
    | (after, .ok (count, bytes)) =>
      ⟨piece, decide (count = length) && verifyHash digests piece bytes expectedHashes, length⟩ ::
        scanPieces after (bytes ++ buffer.drop length) pieces
    | (after, .error _) => ⟨piece, false, length⟩ :: scanPieces after buffer pieces

def BitfieldScanner.scanStorage (state : σ) : List PieceScanStatus :=
  scanPieces digests storage numberOfPieces pieceLength totalBytes expectedHashes state
    (replicate pieceLength 0) (range numberOfPieces)

theorem BitfieldScanner.scanPieces_lengths (state : σ) (buffer : Bytes) (pieces : List Nat) :
    (scanPieces digests storage numberOfPieces pieceLength totalBytes expectedHashes state buffer pieces).map
        PieceScanStatus.length =
      pieces.map (lengthByRemainder numberOfPieces pieceLength totalBytes) := by
  induction pieces generalizing state buffer with
  | nil => rfl
  | cons piece pieces ih =>
    rw [scanPieces]
    split <;> exact congrArg (_ :: ·) (ih ..)

/-- The jobs that the pool is sent. -/
def recheckPiecesParallel (state : σ) : List (VerificationPool.PieceVerificationJob UInt8 σ) :=
  (range numberOfPieces).map fun piece =>
    { pieceNumber := piece
      pieceLength := lengthByRemainder numberOfPieces pieceLength totalBytes piece
      pieceOffset := piece * pieceLength
      expectedV1Hash :=
        if fits : piece * 20 + 20 ≤ expectedHashes.length then
          some (Chunks.exactSlice expectedHashes piece 20 ((Nat.succ_mul ..).trans_le fits))
        else none
      expectedV2Root := none
      storage := some state
      directBuffer := none
      blockSources := [] }

end Scans

/-- A round of the loop of `create_torrent_bitfield_parallel`. -/
def recheckedPiece (lengths : Nat → Nat) (state : TorrentContext × Nat × Nat) (piece : Nat) :
    TorrentContext × Nat × Nat :=
  let (context, downloaded, missingCount) := state
  let context := context.setPieceLength piece (lengths piece)
  if bitSet context.bits.bitfield piece then (context, downloaded + lengths piece, missingCount)
  else
    ({ context with bits := { context.bits with piecesMissing := putBit context.bits.piecesMissing piece true } },
      downloaded, missingCount + 1)

/-- What is done with the bit field that the pool answers. -/
def TorrentContext.createTorrentBitfieldParallel (bitfield : Bytes) (context : TorrentContext) : TorrentContext :=
  let piecesMissing := replicate bitfield.length 0
  let lengths := lengthByRemainder context.pieceCount context.pieceLength context.totalBytesToDownload
  let (context, downloaded, missingPiecesCount) := (range context.pieceCount).foldl (recheckedPiece lengths)
    ({ context with bits := { context.bits with bitfield, piecesMissing } }, 0, 0)
  { context with bits := { context.bits with missingPiecesCount }, totalBytesDownloaded := downloaded }

/-- A piece of the forced full bit field. -/
def forcePiece (lengths : Nat → Nat) (marked : TorrentContext) (piece : Nat) : TorrentContext :=
  ((marked.markPieceLocal piece true).markPieceMissing piece false).setPieceLength piece (lengths piece)

theorem fullyDownloadedTorrentBitfield_eq (context : TorrentContext) :
    context.fullyDownloadedTorrentBitfield =
      (range context.pieceCount).foldl (forcePiece (countedLength context)) context := by
  have run (count : Nat) : (range count).foldl
      (fun (state : TorrentContext × Int) piece =>
        (((state.1.markPieceLocal piece true).markPieceMissing piece false).setPieceLength piece
          (curPieceLen context.pieceLength state.2), state.2 - context.pieceLength))
      (context, asI64 context.totalBytesToDownload) =
      ((range count).foldl (forcePiece (countedLength context)) context, leftBefore context count) := by
    induction count with
    | zero => simp [leftBefore]
    | succ count ih =>
      rw [range_succ, foldl_append, foldl_append, ih, leftBefore_succ]
      rfl
  exact congrArg Prod.fst (run _)

theorem measured_foldl {S : Type} {step : S → Nat → S} {view : S → TorrentContext} {start : S}
    {lengths : Nat → Nat} {context : TorrentContext} {pieces : Nat}
    (sets : ∀ state piece,
      (view (step state piece)).pieceData = ((view state).setPieceLength piece (lengths piece)).pieceData ∧
        (view (step state piece)).pieceLength = ((view state).setPieceLength piece (lengths piece)).pieceLength)
    (data : (view start).pieceData = context.pieceData) (size : (view start).pieceLength = context.pieceLength)
    (within : pieces ≤ context.pieceData.length) :
    Measured lengths context pieces (view ((range pieces).foldl step start)) := by
  induction pieces with
  | zero => exact .zero data size
  | succ pieces ih =>
    rw [range_succ, foldl_append]
    exact (ih (Nat.le_of_succ_le within)).step within (sets _ _).1 (sets _ _).2

/-- What gives each piece of a context a length. -/
inductive Measures (context : TorrentContext) : TorrentContext → Prop
  | full : Measures context context.fullyDownloadedTorrentBitfield
  | rechecked (bitfield : Bytes) : Measures context (context.createTorrentBitfieldParallel bitfield)
  | resumed {data : FastResumeData} {after : TorrentContext} (applied : data.applyToContext context = .ok after) :
      Measures context after

theorem Measures.getPieceLength {context after : TorrentContext} (measures : Measures context after)
    (few : context.numberOfPieces < u32Size) (entries : context.numberOfPieces ≤ context.pieceData.length)
    (agree : ∀ piece < context.numberOfPieces,
      lengthByRemainder context.numberOfPieces context.pieceLength context.totalBytesToDownload piece =
        countedLength context piece)
    (short : ∀ piece < context.numberOfPieces, countedLength context piece ≤ context.pieceLength)
    {piece : Nat} (below : piece < context.numberOfPieces) :
    after.getPieceLength piece = countedLength context piece := by
  have all : context.pieceCount = context.numberOfPieces := Nat.mod_eq_of_lt few
  cases measures with
  | full =>
    rw [fullyDownloadedTorrentBitfield_eq, all]
    have measured := @measured_foldl _ (forcePiece (countedLength context)) id context
      (countedLength context) context _
      (fun marked piece => by
        by_cases fits : countedLength context piece ≤ marked.pieceLength <;>
          simp [forcePiece, setPieceLength, markPieceMissing, markPieceLocal, fits]) rfl rfl entries
    exact (measured.measured piece).trans (if_pos ⟨below, short piece below⟩)
  | rechecked bitfield =>
    have measured := @measured_foldl _ (recheckedPiece _) Prod.fst
      ({ context with bits := { context.bits with bitfield, piecesMissing := replicate bitfield.length 0 } }, 0, 0)
      (lengthByRemainder context.numberOfPieces context.pieceLength context.totalBytesToDownload) context _
      (fun state piece => by
        rw [recheckedPiece]
        split <;> exact ⟨rfl, rfl⟩) rfl rfl entries
    rw [createTorrentBitfieldParallel, all]
    refine (measured.measured piece).trans ?_
    rw [agree piece below]
    exact if_pos ⟨below, short piece below⟩
  | resumed applied =>
    obtain ⟨hash, number⟩ := matches_of_applyToContext applied
    rcases applyToContext_run entries few hash number with ⟨-, ran⟩ | ⟨-, state, ran, reached⟩
    · cases applied.symm.trans ran
    · cases applied.symm.trans ran
      rw [finishResume_getPieceLength, reached.measured, if_pos ⟨below, short piece below⟩]

variable {pieceLength total piece : Nat}

theorem curPieceLen_eq (positive : 0 < pieceLength) (small : pieceLength < u32Size) (bounded : total < 2 ^ 63)
    (inside : piece * pieceLength < total) :
    curPieceLen pieceLength (asI64 total - piece * pieceLength) = min pieceLength (total - piece * pieceLength) := by
  rw [asI64, if_pos bounded, ← Nat.cast_mul, ← Nat.cast_sub inside.le, curPieceLen, ← Int.ofNat_tdiv]
  split
  case isTrue full =>
    rw [Int.natCast_ne_zero, Nat.div_ne_zero_iff] at full
    exact (Nat.min_eq_left full.2).symm
  case isFalse less =>
    rw [Int.natCast_ne_zero, Nat.div_ne_zero_iff] at less
    rw [wrapTo, ← Int.natCast_mod, Int.toNat_natCast, Nat.mod_eq_of_lt (by omega)]
    omega

theorem lengthByRemainder_eq (positive : 0 < pieceLength) (small : pieceLength < u32Size)
    (inside : piece * pieceLength < total) :
    lengthByRemainder ((total + pieceLength - 1) / pieceLength) pieceLength total piece =
      min pieceLength (total - piece * pieceLength) := by
  have here := (Chunks.lt_ceil_iff positive).mpr inside
  have next := @Chunks.lt_ceil_iff (piece + 1) _ total positive
  rw [Nat.succ_mul] at next
  rw [lengthByRemainder]
  split
  case isFalse => omega
  case isTrue =>
    have rest : total % pieceLength = (total - piece * pieceLength) % pieceLength := by
      rw [Nat.mul_comm] at inside ⊢
      exact (Nat.sub_mul_mod inside.le).symm
    rw [Nat.mod_eq_of_lt ((Nat.mod_lt _ positive).trans small), rest]
    rcases Nat.eq_or_lt_of_le (show total - piece * pieceLength ≤ pieceLength by omega) with full | less
    · rw [full, Nat.mod_self, min_self]
      rfl
    · rw [Nat.mod_eq_of_lt less, min_eq_right less.le]
      exact if_neg (by omega)

theorem sum_min (pieces : Nat) :
    ∑ piece ∈ Finset.range pieces, min pieceLength (total - piece * pieceLength) = min (pieces * pieceLength) total := by
  induction pieces with
  | zero => simp
  | succ pieces ih =>
    rw [Finset.sum_range_succ, ih, Nat.succ_mul]
    omega

/-- All lengths of a piece are the same, and together they are the whole torrent. -/
theorem piece_lengths_agree {context : TorrentContext} (positive : 1 ≤ context.pieceLength)
    (small : context.pieceLength < u32Size) (bounded : context.totalBytesToDownload < 2 ^ 63)
    (count : context.numberOfPieces =
      (context.totalBytesToDownload + context.pieceLength - 1) / context.pieceLength) :
    (∀ {σ : Type} (digests : Digests) (storage : BlockStorage σ) (hashes : Bytes) (state : σ),
      (BitfieldScanner.scanStorage digests storage context.numberOfPieces context.pieceLength
          context.totalBytesToDownload hashes state).map PieceScanStatus.length =
        (range context.numberOfPieces).map (countedLength context) ∧
      (recheckPiecesParallel context.numberOfPieces context.pieceLength context.totalBytesToDownload hashes state).map
          VerificationPool.PieceVerificationJob.pieceLength =
        (range context.numberOfPieces).map (countedLength context)) ∧
    (context.numberOfPieces < u32Size → context.numberOfPieces ≤ context.pieceData.length →
      ∀ after, Measures context after → ∀ piece < context.numberOfPieces,
        after.getPieceLength piece = countedLength context piece) ∧
    context.fullyDownloadedTorrentBitfield =
      (range context.pieceCount).foldl (forcePiece (countedLength context)) context ∧
    (∀ piece < context.numberOfPieces,
      1 ≤ countedLength context piece ∧ countedLength context piece ≤ context.pieceLength) ∧
    ∑ piece ∈ Finset.range context.numberOfPieces, countedLength context piece = context.totalBytesToDownload := by
  have inside (piece : Nat) (below : piece < context.numberOfPieces) :=
    (Chunks.lt_ceil_iff positive).mp (below.trans_eq count)
  have counted (piece : Nat) (below : piece < context.numberOfPieces) :=
    curPieceLen_eq positive small bounded (inside piece below)
  have agree (piece : Nat) (below : piece < context.numberOfPieces) :
      lengthByRemainder context.numberOfPieces context.pieceLength context.totalBytesToDownload piece =
        countedLength context piece := by
    rw [count, lengthByRemainder_eq positive small (inside piece below)]
    exact (counted piece below).symm
  have bounds (piece : Nat) (below : piece < context.numberOfPieces) :
      1 ≤ countedLength context piece ∧ countedLength context piece ≤ context.pieceLength := by
    have before := inside piece below
    rw [countedLength, leftBefore, counted piece below]
    omega
  have agreeAll := map_congr_left fun piece member => agree piece (mem_range.mp member)
  refine ⟨fun digests storage hashes state => ⟨?_, ?_⟩, fun few entries after measures piece below => ?_,
    fullyDownloadedTorrentBitfield_eq context, bounds, ?_⟩
  · exact (BitfieldScanner.scanPieces_lengths ..).trans agreeAll
  · rw [recheckPiecesParallel, map_map]
    exact agreeAll
  · exact measures.getPieceLength few entries agree (fun piece below => (bounds piece below).2) below
  · have whole := @Chunks.lt_ceil_iff context.numberOfPieces _ context.totalBytesToDownload positive
    refine (Finset.sum_congr rfl fun piece below => counted piece (Finset.mem_range.mp below)).trans ?_
    rw [sum_min]
    omega

theorem piece_lengths_agree_three :
    ∑ piece ∈ Finset.range 3,
      countedLength { TorrentContext.blank 4 3 ⟨false, false, false⟩ with totalBytesToDownload := 10 } piece = 10 :=
  (@piece_lengths_agree { TorrentContext.blank 4 3 ⟨false, false, false⟩ with totalBytesToDownload := 10 }
    (by decide) (by decide) (by decide) rfl).2.2.2.2

end BitTorrent
