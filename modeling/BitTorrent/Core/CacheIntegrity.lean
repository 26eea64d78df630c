import BitTorrent.Core.PieceAssembly
import BitTorrent.Storage.CacheJournal

/-! # What reaches the disk through the write cache

A flush writes every dirty block of the cache, whatever piece it belongs to, and a full cache
flushes itself.  Runs in which the dirty bytes always fit, and in which no other piece has
dirty bytes when a piece completes, write verified pieces only.
-/

namespace BitTorrent

open FlatStore Runs CachedBlockStorage PieceBuffer

namespace TorrentContext

variable {ι : Type} (inner : BlockStorage ι) (digests : Digests)

/-- The storage of a download with the cache on, over a journaled disk. -/
abbrev cached : BlockStorage (JournaledCache ι) := CachedBlockStorage.blockStorage (journaled inner)

variable (context : TorrentContext)

/-- The piece is checked on the spot, not by the worker pool. -/
def checkedHere (piece : Nat) (sources : BlockSources) : Bool :=
  !context.config.enableAsyncVerification ||
    !(context.verificationPool.submit (context.verificationJob piece sources)).2.isOk

/-- `finish_piece` runs the SHA-1 check and the piece passes it. -/
def passesHere (cache : JournaledCache ι) (piece : Nat) (sources : BlockSources) : Bool :=
  context.checkedHere piece sources &&
    decide ((checkPieceHashStreaming (cached inner) digests context cache piece
      (context.getPieceLength piece)).2 = some true)

/-- The pieces that have passed their check once the event is over. -/
def passedAfter (cache : JournaledCache ι) (passed : Set Nat) : DownloadEvent → Set Nat
  | .verdict result => if result.isValid then insert result.pieceNumber passed else passed
  | .block call =>
    match context.receive (cached inner) digests cache call with
    | (received, receivedCache, .ok (some sources)) =>
      if received.passesHere inner digests receivedCache call.piece sources then insert call.piece passed
      else passed
    | _ => passed

def InPieces (pieces : Set Nat) (position : Nat) : Prop :=
  ∃ piece ∈ pieces, piece * context.pieceLength ≤ position ∧
    position < piece * context.pieceLength + context.getPieceLength piece

/-- Each range that the event writes to the disk lies in pieces that have passed before that
write: a block is received before its piece is checked, and a piece is flushed after it. -/
def WritesVerified (cache : JournaledCache ι) (passed : Set Nat) : DownloadEvent → Prop
  | .verdict result =>
    WritesWithin (context.InPieces (context.passedAfter inner digests cache passed (.verdict result)))
      cache.inner.writes (downloadStep (cached inner) digests (context, cache) (.verdict result)).2.inner.writes
  | .block call =>
    WritesWithin (context.InPieces passed) cache.inner.writes
        (context.receive (cached inner) digests cache call).2.1.inner.writes ∧
      WritesWithin (context.InPieces (context.passedAfter inner digests cache passed (.block call)))
        (context.receive (cached inner) digests cache call).2.1.inner.writes
        (downloadStep (cached inner) digests (context, cache) (.block call)).2.inner.writes

/-- Every dirty byte of the cache lies in one of the pieces. -/
def DirtyWithin (cache : JournaledCache ι) (pieces : Set Nat) : Prop :=
  ∀ position, cache.DirtyCovers position → context.InPieces pieces position

/-- The block is the only one that its piece still lacks. -/
def LastBlock (call : BlockCall) : Prop :=
  ∀ block, block < (context.pieceBuffer call.piece).tableSize → block ≠ call.block →
    (context.pieceBuffer call.piece).isBlockPresent block = true

/-- A block leaves room in the cache, and when it completes its piece the cache holds no dirty
byte of a piece that was not checked. -/
structure CalmBlock (cache : JournaledCache ι) (passed : Set Nat) (call : BlockCall) : Prop where
  short : context.Enters call.piece call.begin_ call.data.length → call.data.length < u32Size
  room : context.Enters call.piece call.begin_ call.data.length →
    cache.dirtyBytes + call.data.length ≤ cache.maxCacheBytes
  last : context.LastBlock call → context.DirtyWithin cache (insert call.piece passed)

def Calm (cache : JournaledCache ι) (passed : Set Nat) : DownloadEvent → Prop
  | .block call => context.CalmBlock cache passed call
  | .verdict result => context.Timely (.verdict result) ∧
      (result.isValid = true → context.DirtyWithin cache (insert result.pieceNumber passed))

variable {inner digests} {context after : TorrentContext} {cache afterCache : JournaledCache ι}
  {passed : Set Nat} {call : BlockCall}

theorem SameTorrent.inPieces (same : SameTorrent context after) (pieces : Set Nat) :
    after.InPieces pieces = context.InPieces pieces := by
  funext position
  simp only [InPieces, same.pieceLength, same.lengths]

section Receive

variable {outcome : Outcome (Option BlockSources)} {sources : BlockSources}

theorem covers_inPiece (enters : context.Enters call.piece call.begin_ call.data.length)
    (short : call.data.length < u32Size) {position : Nat}
    (covered : Extent.Covers (call.piece * context.pieceLength + call.block * blockSize, call.data) position) :
    context.InPieces {call.piece} position := by
  have bounded := enters.admissible.bounded
  rw [Nat.mod_eq_of_lt short] at bounded
  have start : call.block * blockSize = call.begin_ :=
    Nat.div_mul_cancel (Nat.dvd_of_mod_eq_zero enters.admissible.aligned)
  obtain ⟨lower, upper⟩ := covered
  simp only at lower upper
  exact ⟨call.piece, rfl, by omega, by omega⟩

/-- While a block is received nothing is written, and only its own piece gets dirty bytes. -/
theorem receive_kept (accounted : cache.Accounted) (calm : context.CalmBlock cache passed call)
    (done : context.receive (cached inner) digests cache call = (after, afterCache, outcome)) :
    afterCache.inner.writes = cache.inner.writes ∧ afterCache.Accounted ∧
      ∀ position, afterCache.DirtyCovers position →
        cache.DirtyCovers position ∨ context.InPieces {call.piece} position := by
  have stored {written : JournaledCache ι} {result : Result Unit}
      (enters : context.Enters call.piece call.begin_ call.data.length)
      (wrote : (cached inner).writeBlock cache (call.piece * context.pieceLength + call.block * blockSize)
        call.data = (written, result)) :
      written.inner.writes = cache.inner.writes ∧ written.Accounted ∧
        ∀ position, written.DirtyCovers position →
          cache.DirtyCovers position ∨ context.InPieces {call.piece} position := by
    obtain ⟨writes, kept, dirty⟩ := @writeBlock_kept _ inner cache
      (call.piece * context.pieceLength + call.block * blockSize) call.data accounted (calm.room enters)
    have same : (cache.writeBlock (journaled inner) (call.piece * context.pieceLength + call.block * blockSize)
        call.data).1 = written := congrArg Prod.fst wrote
    rw [same] at writes kept dirty
    refine ⟨writes, kept, fun position covers => ?_⟩
    cases dirty position covers with
    | inl before => exact .inl before
    | inr own => exact .inr (covers_inPiece enters (calm.short enters) own)
  cases receiveBlock_receipt done with
  | rejected => exact ⟨rfl, accounted, fun _ => .inl⟩
  | ignored => exact ⟨rfl, accounted, fun _ => .inl⟩
  | present => exact ⟨rfl, accounted, fun _ => .inl⟩
  | refused => exact ⟨rfl, accounted, fun _ => .inl⟩
  | failed enters _ failure => exact stored enters failure
  | overrun enters _ written => exact stored enters written
  | stored enters _ written => exact stored enters written

theorem receive_lastBlock
    (done : context.receive (cached inner) digests cache call = (after, afterCache, .ok (some sources))) :
    context.LastBlock call := by
  generalize complete : some sources = found at done
  cases receiveBlock_receipt done with
  | ignored => cases complete
  | present =>
    rw [settleBuffer_complete] at complete
    split at complete
    case isTrue all => exact fun block slot _ => allBlocksThere_iff.mp all block slot
    case isFalse => cases complete
  | stored enters _ written added =>
    rw [settleBuffer_complete] at complete
    split at complete
    case isFalse => cases complete
    case isTrue all =>
      intro block slot different
      obtain ⟨table, _, presence⟩ := addBlock_eq_some added
      have present := allBlocksThere_iff.mp all block (by rw [table]; exact slot)
      rw [presence, ← BlockCall.block, decide_eq_false different, Bool.false_or] at present
      exact present

end Receive

section Finish

variable {piece : Nat} {sources : BlockSources}

theorem verifySync_writes (dirty : context.DirtyWithin cache (insert piece passed)) :
    WritesWithin
        (context.InPieces (if (checkPieceHashStreaming (cached inner) digests context cache piece
          (context.getPieceLength piece)).2 = some true then insert piece passed else passed))
        cache.inner.writes (context.verifySync (cached inner) digests cache piece sources).2.1.inner.writes ∧
      (cache.Accounted → (context.verifySync (cached inner) digests cache piece sources).2.1.Accounted) := by
  have quiet := @checkPieceHashStreaming_kept _ (cached inner) digests context cache (Quiet cache)
    (fun next _ _ before => before.trans (readBlock_quiet next _ _)) (.refl cache) piece (context.getPieceLength piece)
  simp only [verifySync]
  generalize checkPieceHashStreaming (cached inner) digests context cache piece (context.getPieceLength piece) =
    result at quiet ⊢
  obtain ⟨checked, verdict⟩ := result
  cases verdict with
  | none =>
    refine ⟨?_, quiet.accounted⟩
    rw [quiet.writes]
    exact .refl _
  | some valid =>
    cases valid with
    | true =>
      rw [if_pos rfl, ← quiet.writes]
      refine ⟨(flush_writes checked).mono fun position covers => dirty position (quiet.dirty position covers), ?_⟩
      exact fun accounted => flushInternal_accounted (quiet.accounted accounted)
    | false =>
      have rejected := quiet.trans (discardRange_quiet checked (piece * context.pieceLength)
        (context.getPieceLength piece))
      refine ⟨?_, rejected.accounted⟩
      have same : (context.rejectPiece (cached inner) checked piece (context.getPieceLength piece)
          sources).2.inner.writes = cache.inner.writes := rejected.writes
      rw [same]
      exact .refl _

theorem finishPiece_writes (dirty : context.DirtyWithin cache (insert piece passed)) :
    WritesWithin
        (context.InPieces (if context.passesHere inner digests cache piece sources then insert piece passed
          else passed))
        cache.inner.writes (context.finishPiece (cached inner) digests cache piece sources).2.1.inner.writes ∧
      (cache.Accounted → (context.finishPiece (cached inner) digests cache piece sources).2.1.Accounted) := by
  cases async : context.config.enableAsyncVerification with
  | false =>
    have here : context.checkedHere piece sources = true := by simp [checkedHere, async]
    simp only [finishPiece, async, passesHere, here, Bool.false_eq_true, if_false, Bool.true_and, decide_eq_true_eq]
    exact verifySync_writes dirty
  | true =>
    simp only [finishPiece, async, if_true]
    generalize submitted : context.verificationPool.submit (context.verificationJob piece sources) = answer
    obtain ⟨pool, outcome⟩ := answer
    cases outcome with
    | ok => exact ⟨.refl _, id⟩
    | error reason =>
      have here : context.checkedHere piece sources = true := by simp [checkedHere, submitted, Except.isOk, Except.toBool]
      simp only [passesHere, here, Bool.true_and, decide_eq_true_eq]
      exact verifySync_writes dirty

end Finish

theorem block_writesVerified (accounted : cache.Accounted) (calm : context.CalmBlock cache passed call) :
    context.WritesVerified inner digests cache passed (.block call) ∧
      (downloadStep (cached inner) digests (context, cache) (.block call)).2.Accounted := by
  generalize taken : downloadStep (cached inner) digests (context, cache) (.block call) = next
  cases downloadStep_block taken with
  | received done pending =>
    obtain ⟨writes, kept, _⟩ := receive_kept accounted calm done
    simp only [WritesVerified, taken, done, writes]
    exact ⟨⟨.refl _, .refl _⟩, kept⟩
  | @finished after afterCache sources done =>
    obtain ⟨writes, kept, dirty⟩ := receive_kept accounted calm done
    have same : SameTorrent context after := receive_sameTorrent done
    have within : after.DirtyWithin afterCache (insert call.piece passed) := by
      intro position covers
      rw [same.inPieces]
      cases dirty position covers with
      | inl before => exact calm.last (receive_lastBlock done) position before
      | inr own =>
        obtain ⟨piece, member, bounds⟩ := own
        exact ⟨piece, .inl member, bounds⟩
    obtain ⟨finished, accountedAfter⟩ := @finishPiece_writes _ inner digests after afterCache passed call.piece
      sources within
    rw [same.inPieces] at finished
    simp only [WritesVerified, passedAfter, taken, done]
    refine ⟨⟨?_, finished⟩, accountedAfter kept⟩
    rw [writes]
    exact .refl _

theorem verdict_writesVerified {result : PieceVerificationResult} (accounted : cache.Accounted)
    (dirty : result.isValid = true → context.DirtyWithin cache (insert result.pieceNumber passed)) :
    context.WritesVerified inner digests cache passed (.verdict result) ∧
      (downloadStep (cached inner) digests (context, cache) (.verdict result)).2.Accounted := by
  cases valid : result.isValid with
  | true =>
    simp only [WritesVerified, passedAfter, downloadStep, applyPieceVerificationResult, valid, if_true]
    exact ⟨(flush_writes cache).mono (dirty valid), flushInternal_accounted accounted⟩
  | false =>
    have rejected := discardRange_quiet cache (result.pieceNumber * context.pieceLength) result.pieceLength
    simp only [WritesVerified, passedAfter, downloadStep, applyPieceVerificationResult, valid, Bool.false_eq_true,
      if_false]
    refine ⟨?_, rejected.accounted accounted⟩
    exact .refl _

theorem calm_writesVerified {event : DownloadEvent} (accounted : cache.Accounted)
    (calm : context.Calm cache passed event) :
    context.WritesVerified inner digests cache passed event ∧
      (downloadStep (cached inner) digests (context, cache) event).2.Accounted := by
  cases event with
  | block call => exact block_writesVerified accounted calm
  | verdict result => exact verdict_writesVerified accounted calm.2

theorem passedAfter_block_subset : context.passedAfter inner digests cache passed (.block call) ⊆
    insert call.piece passed := by
  simp only [passedAfter]
  split
  case h_1 =>
    split
    case isTrue => exact Set.Subset.rfl
    case isFalse => exact Set.subset_insert _ _
  case h_2 => exact Set.subset_insert _ _

/-- One event, with the pieces that have passed carried along. -/
def integrityStep (inner : BlockStorage ι) (digests : Digests)
    (current : TorrentContext × JournaledCache ι × Set Nat) (event : DownloadEvent) :
    TorrentContext × JournaledCache ι × Set Nat :=
  let next := downloadStep (cached inner) digests (current.1, current.2.1) event
  (next.1, next.2, current.1.passedAfter inner digests current.2.1 current.2.2 event)

/-- In every calm run from an empty cache, what an event writes to the disk lies in pieces that
have passed their check. -/
theorem calm_run_writesVerified (inner : BlockStorage ι) (digests : Digests) {start context : TorrentContext}
    {disk : Journal ι} {maxCacheBytes : Nat} {clock : List Nat} {initially passed : Set Nat}
    {cache : JournaledCache ι} {event : DownloadEvent}
    (run : Reaches (integrityStep inner digests) (fun current event => current.1.Calm current.2.1 current.2.2 event)
      (start, .new disk maxCacheBytes clock, initially) (context, cache, passed))
    (calm : context.Calm cache passed event) :
    context.WritesVerified inner digests cache passed event := by
  have accounted := run.invariant (fun current => current.2.1.Accounted) rfl
    fun _ _ kept allowed => (calm_writesVerified kept allowed).2
  exact (calm_writesVerified accounted calm).1

/-- A piece of two blocks and one of a single byte; a cache of 64 KiB. -/
def twoPieces : TorrentContext := (blank 16385 2 ⟨false, false, false⟩).setPieceLength 1 1

def emptyCache : CachedBlockStorage (Journal FaultyBytes) := .new ⟨⟨fun _ => 0, []⟩, []⟩ 65536 []

def firstBlock : BlockCall := ⟨0, 0, [9], "203.0.113.7"⟩

def onlyByte : BlockCall := ⟨1, 0, [5], "203.0.113.7"⟩

/-- The context and the cache after a block of the first piece. -/
def firstBlockHeld : TorrentContext × CachedBlockStorage (Journal FaultyBytes) :=
  downloadStep (cached faultyStore.toBlockStorage) .zero (twoPieces, emptyCache) (.block firstBlock)

theorem calm_run_second_block :
    let held := integrityStep faultyStore.toBlockStorage .zero (twoPieces, emptyCache, ∅) (.block firstBlock)
    held.1.WritesVerified faultyStore.toBlockStorage .zero held.2.1 held.2.2
      (.block ⟨0, 16384, [4], "203.0.113.7"⟩) := by
  refine calm_run_writesVerified faultyStore.toBlockStorage .zero
    (.next .refl _ ⟨fun _ => by decide, fun _ => by decide, ?_⟩)
    ⟨fun _ => by decide, fun _ => by decide +kernel, ?_⟩
  · rintro _ position ⟨offset, block, found, _⟩
    simp [CachedBlockStorage.new] at found
  · rintro _ position ⟨offset, block, found, _, _, inside⟩
    have short : ∀ entry ∈ firstBlockHeld.2.blocks.toList, entry.1 + entry.2.data.length < 2 := by decide +kernel
    have length : 2 ≤ firstBlockHeld.1.getPieceLength 0 := by decide +kernel
    have stored := short (offset, block) (Std.TreeMap.mem_toList_iff_getElem?_eq_some.mpr found)
    refine ⟨0, Set.mem_insert .., ?_, ?_⟩
    · rw [Nat.zero_mul]
      exact Nat.zero_le _
    · rw [Nat.zero_mul, Nat.zero_add]
      exact inside.trans (stored.trans_le length)

/-- The byte completes its piece, and the flush that follows writes the block of the other
piece, which was never checked. -/
theorem flush_writes_unverified_piece :
    (downloadStep (cached faultyStore.toBlockStorage) .zero firstBlockHeld (.block onlyByte)).2.inner.writes =
        [(0, [9]), (16385, [5])] ∧
      ¬ firstBlockHeld.1.WritesVerified faultyStore.toBlockStorage .zero firstBlockHeld.2 ∅ (.block onlyByte) := by
  have flushed : (downloadStep (cached faultyStore.toBlockStorage) .zero firstBlockHeld
      (.block onlyByte)).2.inner.writes = [(0, [9]), (16385, [5])] := by decide +kernel
  have quiet : (firstBlockHeld.1.receive (cached faultyStore.toBlockStorage) .zero firstBlockHeld.2
      onlyByte).2.1.inner.writes = [] := by decide +kernel
  refine ⟨flushed, fun verified => ?_⟩
  obtain ⟨added, grown, within⟩ := verified.2
  rw [quiet, List.nil_append] at grown
  have zero : (0, [9]) ∈ added := by
    rw [← grown, flushed]
    exact List.mem_cons_self
  obtain ⟨piece, member, lower, _⟩ := within _ zero 0 (by decide)
  have second : piece = 1 := by simpa [onlyByte] using passedAfter_block_subset member
  have length : firstBlockHeld.1.pieceLength = 16385 := by decide +kernel
  rw [second, length] at lower
  omega

end TorrentContext

end BitTorrent
