import BitTorrent.Core.BitField
import BitTorrent.Core.FreshContext
import BitTorrent.Storage.FastResume

/-! # Resuming from an untrusted file

What applying fast-resume data to a new context does to its accounting, for data of any origin.  The
loop over the pieces trusts the length of the bit field, and it counts a length for each piece from
the bytes that are left, which it also tries to store.  The store refuses a length above the piece
length, so the two can part.
-/

namespace BitTorrent

open Bencode MetaInfoFile List TorrentContext

namespace TorrentContext

variable {context : TorrentContext} {piece other length : Nat}

theorem getPieceLength_set (within : piece < context.pieceData.length) :
    (context.setPieceLength piece length).getPieceLength other =
      if other = piece ∧ length ≤ context.pieceLength then length else context.getPieceLength other := by
  rw [setPieceLength]
  split
  case isTrue short =>
    by_cases same : other = piece
    · rw [if_pos ⟨same, short⟩, same]
      simp only [getPieceLength, getElem?_modify_eq, getElem?_eq_getElem within]
      rfl
    · rw [if_neg fun both => same both.1]
      simp only [getPieceLength, getElem?_modify_ne _ _ (Ne.symm same)]
  case isFalse long => rw [if_neg fun both => long both.2]

/-- The first pieces have been given lengths, of which those above the piece length are not kept. -/
structure Measured (lengths : Nat → Nat) (context : TorrentContext) (pieces : Nat) (after : TorrentContext) : Prop where
  pieceLength : after.pieceLength = context.pieceLength
  entries : after.pieceData.length = context.pieceData.length
  measured : ∀ piece, after.getPieceLength piece =
    if piece < pieces ∧ lengths piece ≤ context.pieceLength then lengths piece else context.getPieceLength piece

variable {lengths : Nat → Nat} {before after : TorrentContext}

theorem Measured.zero (data : after.pieceData = context.pieceData) (size : after.pieceLength = context.pieceLength) :
    Measured lengths context 0 after := by
  refine ⟨size, congrArg _ data, fun piece => ?_⟩
  rw [getPieceLength, data, size, if_neg fun both => Nat.not_lt_zero _ both.1, getPieceLength]

theorem Measured.step (reached : Measured lengths context piece before) (below : piece < context.pieceData.length)
    (data : after.pieceData = (before.setPieceLength piece (lengths piece)).pieceData)
    (size : after.pieceLength = (before.setPieceLength piece (lengths piece)).pieceLength) :
    Measured lengths context (piece + 1) after := by
  constructor
  case pieceLength => rw [size, setPieceLength_frame.2.1, reached.pieceLength]
  case entries => rw [data, setPieceLength_frame.2.2.2.2, reached.entries]
  case measured =>
    intro other
    have same : after.getPieceLength other = (before.setPieceLength piece (lengths piece)).getPieceLength other := by
      rw [getPieceLength, data, size, getPieceLength]
    rw [same, getPieceLength_set (reached.entries ▸ below), reached.pieceLength, reached.measured]
    by_cases isPiece : other = piece
    · simp [isPiece]
    · rw [if_neg fun both => isPiece both.1]
      exact if_congr (and_congr_left fun _ => by omega) rfl rfl

end TorrentContext

theorem PieceBits.bitSet_markPieceMissing {bits : PieceBits} {other : Nat} {missing : Bool}
    (within : piece / 8 < bits.piecesMissing.length) :
    bitSet (bits.markPieceMissing piece missing).piecesMissing other =
      if other = piece then missing else bitSet bits.piecesMissing other := by
  by_cases same : other = piece
  · rw [if_pos same, same, markPieceMissing]
    split
    case isTrue => exact bitSet_putBit_self within
    case isFalse unchanged => exact Decidable.not_not.mp fun differs => unchanged ⟨within, differs⟩
  · rw [if_neg same, markPieceMissing]
    split
    case isTrue => exact bitSet_putBit_other (Ne.symm same)
    case isFalse => rfl

theorem PieceBits.markPieceMissing_eq {bits : PieceBits} {piece : Nat} {missing : Bool} :
    (bits.markPieceMissing piece missing).bitfield = bits.bitfield ∧
      (bits.markPieceMissing piece missing).piecesMissing.length = bits.piecesMissing.length := by
  rw [markPieceMissing]
  split
  case isTrue => exact ⟨rfl, putBit_length⟩
  case isFalse => exact ⟨rfl, rfl⟩

namespace FastResumeData

variable {data : FastResumeData} {context : TorrentContext} {state : Resuming} {pieces : Nat}

section Loop

/-- The bytes that are left when the loop comes to a piece. -/
def leftBefore (context : TorrentContext) (piece : Nat) : Int :=
  asI64 context.totalBytesToDownload - piece * context.pieceLength

/-- The length that the loop counts for a piece. -/
def countedLength (context : TorrentContext) (piece : Nat) : Nat :=
  curPieceLen context.pieceLength (leftBefore context piece)

theorem leftBefore_succ (context : TorrentContext) (piece : Nat) :
    leftBefore context (piece + 1) = leftBefore context piece - context.pieceLength := by
  rw [leftBefore, leftBefore]
  push_cast
  ring

/-- The loop gets past a piece. -/
structure Passable (data : FastResumeData) (context : TorrentContext) (piece : Nat) : Prop where
  indexed : piece / 8 < data.bitfield.length
  nonzero : context.pieceLength ≠ 0
  inRange : -2 ^ 63 ≤ leftBefore context (piece + 1)

/-- Where the loop is after a number of pieces. -/
structure Reached (data : FastResumeData) (context : TorrentContext) (pieces : Nat) (state : Resuming) : Prop
    extends Measured (countedLength context) context pieces state.context where
  bitfield : state.context.bits.bitfield = data.bitfield
  marks : state.context.bits.piecesMissing.length = data.bitfield.length
  missing : ∀ piece, bitSet state.context.bits.piecesMissing piece = (decide (piece < pieces) && !bitSet data.bitfield piece)
  numberOfPieces : state.context.numberOfPieces = context.numberOfPieces
  piecesInfoHash : state.context.piecesInfoHash = context.piecesInfoHash
  total : state.totalDownloaded =
    ∑ piece ∈ Finset.range pieces with bitSet data.bitfield piece = true, countedLength context piece
  count : state.missingCount = (Finset.range pieces |>.filter fun piece => bitSet data.bitfield piece = false).card
  left : state.totalBytesLeft = leftBefore context pieces

theorem Reached.step_none (reached : Reached data context pieces state) (stuck : ¬Passable data context pieces) :
    resumePiece state pieces = none := by
  rw [resumePiece, reached.bitfield, reached.pieceLength, reached.left, ← leftBefore_succ]
  apply if_pos
  by_contra free
  obtain ⟨indexed, nonzero, inRange⟩ := not_or.mp free |>.imp_right not_or.mp
  exact stuck ⟨Nat.lt_of_not_le indexed, nonzero, Int.not_lt.mp inRange⟩

theorem Reached.step_some (reached : Reached data context pieces state) (below : pieces < context.pieceData.length)
    (free : Passable data context pieces) :
    ∃ next, resumePiece state pieces = some next ∧ Reached data context (pieces + 1) next := by
  have unstuck : ¬(data.bitfield.length ≤ pieces / 8 ∨ context.pieceLength = 0 ∨
      leftBefore context (pieces + 1) < -2 ^ 63) := by
    rintro (beyond | zero | low)
    · exact absurd free.indexed (Nat.not_lt.mpr beyond)
    · exact free.nonzero zero
    · exact absurd free.inRange (Int.not_le.mpr low)
  rw [resumePiece, reached.bitfield, reached.pieceLength, reached.left, ← leftBefore_succ, if_neg unstuck]
  refine ⟨_, rfl, ?_⟩
  have within : pieces / 8 < state.context.bits.piecesMissing.length := reached.marks ▸ free.indexed
  have marked := @PieceBits.markPieceMissing_eq state.context.bits pieces (!bitSet data.bitfield pieces)
  constructor
  case bitfield =>
    simpa only [markPieceMissing, setPieceLength_frame, marked.1] using reached.bitfield
  case marks =>
    simpa only [markPieceMissing, setPieceLength_frame, marked.2] using reached.marks
  case missing =>
    intro piece
    simp only [markPieceMissing, setPieceLength_frame,
      PieceBits.bitSet_markPieceMissing within, reached.missing]
    split
    case isTrue same => rw [same, decide_eq_true (Nat.lt_succ_self pieces), Bool.true_and]
    case isFalse apart => rw [decide_eq_decide.mpr (show piece < pieces ↔ piece < pieces + 1 by omega)]
  case toMeasured => exact reached.toMeasured.step below rfl rfl
  case numberOfPieces => exact setPieceLength_frame.2.2.1.trans reached.numberOfPieces
  case piecesInfoHash => exact setPieceLength_frame.2.2.2.1.trans reached.piecesInfoHash
  case total =>
    rw [Finset.sum_filter, Finset.sum_range_succ, ← Finset.sum_filter, ← reached.total]
    split
    case isTrue => rfl
    case isFalse => rfl
  case count =>
    rw [Finset.range_add_one, Finset.filter_insert]
    split
    case isTrue isLocal => rw [if_neg (by rw [isLocal]; exact Bool.noConfusion), reached.count]
    case isFalse isMissing =>
      rw [if_pos (Bool.eq_false_iff.mpr isMissing), Finset.card_insert_of_notMem (by simp), reached.count]
  case left => rfl

/-- The loop over the first pieces: it ends exactly when it gets past each of them. -/
theorem resume_run (within : pieces ≤ context.pieceData.length) :
    (¬(∀ piece < pieces, Passable data context piece) ∧ (range pieces).foldlM resumePiece
        ⟨data.withBitfield context, 0, 0, asI64 context.totalBytesToDownload⟩ = none) ∨
      ((∀ piece < pieces, Passable data context piece) ∧ ∃ state, (range pieces).foldlM resumePiece
        ⟨data.withBitfield context, 0, 0, asI64 context.totalBytesToDownload⟩ = some state ∧
          Reached data context pieces state) := by
  induction pieces with
  | zero =>
    refine .inr ⟨fun _ below => absurd below (Nat.not_lt_zero _), _, rfl, ?_⟩
    constructor
    case missing => exact fun piece => bitSet_replicate_zero _
    case marks => exact length_replicate
    case toMeasured => exact .zero rfl rfl
    case left => rw [leftBefore, Nat.cast_zero, zero_mul, sub_zero]
    all_goals rfl
  | succ pieces ih =>
    rw [range_succ, foldlM_append]
    rcases ih (Nat.le_of_succ_le within) with ⟨stuck, ran⟩ | ⟨past, state, ran, reached⟩
    · rw [ran]
      exact .inl ⟨fun past => stuck fun piece below => past piece (Nat.lt_succ_of_lt below), rfl⟩
    · rw [ran]
      by_cases free : Passable data context pieces
      · obtain ⟨next, stepped, after⟩ := reached.step_some within free
        refine .inr ⟨?_, next, ?_, after⟩
        · intro piece below
          rcases Nat.lt_succ_iff_lt_or_eq.mp below with earlier | rfl
          · exact past piece earlier
          · exact free
        · simpa using stepped
      · refine .inl ⟨fun past => free (past pieces (Nat.lt_succ_self pieces)), ?_⟩
        simpa using reached.step_none free

end Loop

section Accounting

/-- The accounting of a context in which the pieces with a set bit have been resumed. -/
structure Accounted (bits : Bytes) (context : TorrentContext) : Prop where
  isLocal : ∀ piece < context.numberOfPieces, context.isPieceLocal piece = bitSet bits piece
  missing : ∀ piece < context.numberOfPieces, context.isPieceMissing piece = !context.isPieceLocal piece
  count : context.bits.missingPiecesCount =
    (Finset.range context.numberOfPieces |>.filter fun piece => context.isPieceLocal piece = false).card
  total : context.totalBytesDownloaded =
    ∑ piece ∈ Finset.range context.numberOfPieces with context.isPieceLocal piece = true, context.getPieceLength piece
  bounded : context.totalBytesDownloaded < u64Size

theorem curPieceLen_lt {pieceLength : Nat} {left : Int} (small : pieceLength < u32Size) :
    curPieceLen pieceLength left < u32Size := by
  rw [curPieceLen]
  split
  case isTrue => exact small
  case isFalse =>
    rw [wrapTo]
    have := Int.emod_lt_of_pos left (show (0 : Int) < u32Size by decide)
    omega

theorem finishResume_bits : (data.finishResume state).bits =
    { state.context.bits with missingPiecesCount := state.missingCount } := by
  rw [finishResume]
  split <;> rfl

theorem finishResume_counts : (data.finishResume state).numberOfPieces = state.context.numberOfPieces ∧
    (data.finishResume state).totalBytesDownloaded = state.totalDownloaded ∧
    (data.finishResume state).piecesInfoHash = state.context.piecesInfoHash := by
  rw [finishResume]
  split <;> exact ⟨rfl, rfl, rfl⟩

theorem finishResume_getPieceLength (piece : Nat) :
    (data.finishResume state).getPieceLength piece = state.context.getPieceLength piece := by
  rw [finishResume]
  split <;> rfl

section Finished

variable (reached : Reached data context context.numberOfPieces state)
  (past : ∀ piece < context.numberOfPieces, Passable data context piece)
include reached past

theorem Reached.isPieceLocal (below : piece < context.numberOfPieces) :
    (data.finishResume state).isPieceLocal piece = bitSet data.bitfield piece := by
  rw [TorrentContext.isPieceLocal, finishResume_bits, reached.bitfield, if_pos (past piece below).indexed]

theorem Reached.isPieceMissing (below : piece < context.numberOfPieces) :
    (data.finishResume state).isPieceMissing piece = !bitSet data.bitfield piece := by
  rw [TorrentContext.isPieceMissing, finishResume_bits, reached.marks, if_pos (past piece below).indexed,
    reached.missing, decide_eq_true below, Bool.true_and]

theorem Reached.filter_isPieceLocal (value : Bool) :
    ((Finset.range context.numberOfPieces).filter fun piece => (data.finishResume state).isPieceLocal piece = value) =
      (Finset.range context.numberOfPieces).filter fun piece => bitSet data.bitfield piece = value := by
  apply Finset.filter_congr
  intro piece member
  rw [reached.isPieceLocal past (Finset.mem_range.mp member)]

omit past in
theorem Reached.bounded (few : context.numberOfPieces < u32Size) (small : context.pieceLength < u32Size) :
    state.totalDownloaded < u64Size := by
  have each : ∀ piece ∈ (Finset.range context.numberOfPieces).filter (fun piece => bitSet data.bitfield piece = true),
      countedLength context piece ≤ u32Size := fun piece _ => (curPieceLen_lt small).le
  have number := (Finset.card_filter_le (Finset.range context.numberOfPieces)
    fun piece => bitSet data.bitfield piece = true).trans_eq (Finset.card_range _)
  calc state.totalDownloaded
      ≤ ((Finset.range context.numberOfPieces).filter fun piece => bitSet data.bitfield piece = true).card * u32Size := by
        rw [reached.total]
        exact Finset.sum_le_card_nsmul _ _ _ each
    _ ≤ context.numberOfPieces * u32Size := Nat.mul_le_mul_right _ number
    _ < u32Size * u32Size := Nat.mul_lt_mul_of_pos_right few (by decide)
    _ = u64Size := by decide

/-- The accounting is right unless a local piece was counted with more than the piece length, which
is not stored. -/
theorem Reached.accounted_iff (fresh : ∀ piece, context.getPieceLength piece = context.pieceLength)
    (few : context.numberOfPieces < u32Size) (small : context.pieceLength < u32Size) :
    Accounted data.bitfield (data.finishResume state) ↔
      ∀ piece < context.numberOfPieces, bitSet data.bitfield piece = true →
        countedLength context piece ≤ context.pieceLength := by
  have number : (data.finishResume state).numberOfPieces = context.numberOfPieces :=
    finishResume_counts.1.trans reached.numberOfPieces
  have stored (piece : Nat) (below : piece < context.numberOfPieces) :
      (data.finishResume state).getPieceLength piece = min (countedLength context piece) context.pieceLength := by
    rw [finishResume_getPieceLength, reached.measured, fresh]
    simp only [below, true_and, min_def]
  have sums : (data.finishResume state).totalBytesDownloaded =
      (∑ piece ∈ Finset.range (data.finishResume state).numberOfPieces with
        (data.finishResume state).isPieceLocal piece = true, (data.finishResume state).getPieceLength piece) ↔
      ∀ piece < context.numberOfPieces, bitSet data.bitfield piece = true →
        countedLength context piece ≤ context.pieceLength := by
    rw [number, reached.filter_isPieceLocal past, finishResume_counts.2.1, reached.total, eq_comm,
      Finset.sum_eq_sum_iff_of_le]
    · simp only [Finset.mem_filter, Finset.mem_range, and_imp]
      refine forall₃_congr fun piece below _ => ?_
      rw [stored piece below, min_eq_left_iff]
    · intro piece member
      rw [stored piece (Finset.mem_range.mp (Finset.mem_filter.mp member).1)]
      exact min_le_left _ _
  constructor
  · intro accounted
    exact sums.mp accounted.total
  · intro short
    constructor
    case isLocal => exact fun piece below => reached.isPieceLocal past (number ▸ below)
    case missing =>
      intro piece below
      rw [reached.isPieceMissing past (number ▸ below), reached.isPieceLocal past (number ▸ below)]
    case count => rw [number, reached.filter_isPieceLocal past, finishResume_bits, reached.count]
    case total => exact sums.mpr short
    case bounded => exact finishResume_counts.2.1 ▸ reached.bounded few small

end Finished

end Accounting

section Bits

variable {root : BNode} {memory : Nat} {bits : Bytes}

/-- The number of pieces for which a bit field is made when the file has none. -/
def askedPieces (root : BNode) : Nat :=
  match getBytes root "pieces" with
  | some pieces => if 0 < getNumPieces root then getNumPieces root else pieces.length
  | none => getNumPieces root

/-- Whether a resume file says that a piece is there. -/
def claims (root : BNode) (piece : Nat) : Bool :=
  match getBytes root "bitfield" with
  | some bits => bitSet bits piece
  | none =>
    match getBytes root "pieces" with
    | some pieces => decide (pieces.getD piece 0 ≠ 0)
    | none => false

theorem bitSet_packStep {byte : UInt8} {start : Nat} (within : piece / 8 < bits.length) :
    bitSet (if byte ≠ 0 then putBit bits start true else bits) piece =
      (bitSet bits piece || decide (start = piece ∧ byte ≠ 0)) := by
  by_cases same : start = piece
  · subst same
    split
    case isTrue nonzero => simp [bitSet_putBit_self within, nonzero]
    case isFalse zero => simp [zero]
  · split
    case isTrue => simp [bitSet_putBit_other same, same]
    case isFalse => simp [same]

theorem bitSet_foldl_pack {pieces : Bytes} {start : Nat} (within : piece / 8 < bits.length) :
    bitSet ((pieces.zipIdx start).foldl
        (fun bits entry => if entry.1 ≠ 0 then putBit bits entry.2 true else bits) bits) piece =
      (bitSet bits piece || decide (start ≤ piece ∧ pieces.getD (piece - start) 0 ≠ 0)) := by
  induction pieces generalizing bits start with
  | nil => simp
  | cons byte pieces ih =>
    have kept : (if byte ≠ 0 then putBit bits start true else bits).length = bits.length := by
      split
      case isTrue => exact putBit_length
      case isFalse => rfl
    rw [zipIdx_cons, foldl_cons, ih (kept ▸ within), bitSet_packStep within, Bool.or_assoc]
    congr 1
    rcases Nat.lt_trichotomy start piece with less | rfl | greater
    · obtain ⟨offset, rfl⟩ := Nat.exists_eq_add_of_lt less
      have shifted : start + offset + 1 - start = offset + 1 := by omega
      have behind : start + offset + 1 - (start + 1) = offset := by omega
      rw [shifted, behind, getD_cons_succ]
      simp [less.ne, less.le]
    · simp
    · simp [Nat.not_le.mpr greater, Nat.ne_of_gt greater, Nat.not_lt.mpr greater.le]

theorem packPieces_length (bits pieces : Bytes) : (packPieces bits pieces).length = bits.length := by
  rw [packPieces]
  induction pieces.zipIdx generalizing bits with
  | nil => rfl
  | cons entry entries ih =>
    rw [foldl_cons, ih]
    split
    case isTrue => exact putBit_length
    case isFalse => rfl

/-- Zeros are asked for within the memory there is. -/
def Allocatable (memory pieces : Nat) : Prop := pieces + 7 < u64Size ∧ (pieces + 7) / 8 ≤ memory

theorem allocatable_iff : Allocatable memory pieces ↔ ¬(u64Size ≤ pieces + 7 ∨ memory < (pieces + 7) / 8) := by
  rw [not_or, not_le, not_lt, Allocatable]

theorem readBitfield_absent (absent : getBytes root "bitfield" = none) : readBitfield memory root =
    (zeroed memory (askedPieces root)).map fun bits =>
      packPieces bits (((getBytes root "pieces").getD []).take (askedPieces root)) := by
  rw [readBitfield, askedPieces, absent]
  cases getBytes root "pieces" with
  | none => simp [packPieces]
  | some pieces => rfl

theorem readBitfield_refused (absent : getBytes root "bitfield" = none)
    (refused : ¬Allocatable memory (askedPieces root)) : readBitfield memory root = none := by
  rw [readBitfield_absent absent, zeroed, if_pos (not_not.mp (mt allocatable_iff.mpr refused)), Option.map_none]

theorem readBitfield_made (absent : getBytes root "bitfield" = none) (allocatable : Allocatable memory (askedPieces root)) :
    ∃ bits, readBitfield memory root = some bits ∧ bits.length = (askedPieces root + 7) / 8 ∧
      ∀ piece < askedPieces root, bitSet bits piece = claims root piece := by
  rw [readBitfield_absent absent, zeroed, if_neg (allocatable_iff.mp allocatable), Option.map_some]
  refine ⟨_, rfl, (packPieces_length _ _).trans length_replicate, fun piece below => ?_⟩
  have within : piece / 8 < (replicate ((askedPieces root + 7) / 8) (0 : UInt8)).length := by
    rw [length_replicate]
    omega
  rw [packPieces, bitSet_foldl_pack within, bitSet_replicate_zero, claims, absent]
  cases getBytes root "pieces" with
  | none => simp
  | some pieces => simp [getElem?_take_of_lt below]

end Bits

section Safety

variable {memory : Nat} {bytes raw torrent : Bytes} {root : BNode} {params : TorrentContextParams}

/-- Decoding a resume file and applying it to a context never panics.  An error leaves the context
as it is; otherwise the accounting is that of the bits of the data. -/
def ResumesSafely (memory : Nat) (bytes : Bytes) (context : TorrentContext) : Prop :=
  match fromBencode memory bytes with
  | .panic => False
  | .err _ => True
  | .ok data =>
    match data.applyToContext context with
    | .panic => False
    | .err _ => True
    | .ok resumed => Accounted data.bitfield resumed

/-- A resume file with the hash and the piece count of a context can be applied to it. -/
structure Applicable (root : BNode) (context : TorrentContext) : Prop where
  long : ∀ bits, getBytes root "bitfield" = some bits → (context.numberOfPieces + 7) / 8 ≤ bits.length
  nonzero : 0 < context.numberOfPieces → context.pieceLength ≠ 0
  inRange : -2 ^ 63 ≤ leftBefore context context.numberOfPieces
  short : ∀ piece < context.numberOfPieces, claims root piece = true →
    countedLength context piece ≤ context.pieceLength

/-- The sizes in a resume file are those of the torrent, where they are used. -/
def Harmless (memory : Nat) (bytes : Bytes) (context : TorrentContext) : Prop :=
  ∀ root raw, decode bytes = .ok root → getBytes root "info-hash" = some raw → raw.length = 20 →
    (getBytes root "bitfield" = none → Allocatable memory (askedPieces root)) ∧
      (context.infoHash = raw → context.numberOfPieces = getNumPieces root → Applicable root context)

theorem asI64_ge (value : Nat) : -2 ^ 63 ≤ asI64 value := by
  rw [asI64]
  split <;> omega

theorem passable_iff : (∀ piece < context.numberOfPieces, Passable data context piece) ↔
    (context.numberOfPieces + 7) / 8 ≤ data.bitfield.length ∧
      (0 < context.numberOfPieces → context.pieceLength ≠ 0) ∧ -2 ^ 63 ≤ leftBefore context context.numberOfPieces := by
  constructor
  · intro past
    cases number : context.numberOfPieces with
    | zero =>
      refine ⟨Nat.zero_le _, fun positive => absurd positive (Nat.lt_irrefl 0), ?_⟩
      rw [leftBefore, Nat.cast_zero, zero_mul, sub_zero]
      exact asI64_ge _
    | succ last =>
      obtain ⟨indexed, nonzero, inRange⟩ := past last (by omega)
      exact ⟨by omega, fun _ => nonzero, inRange⟩
  · rintro ⟨long, nonzero, inRange⟩ piece below
    refine ⟨by omega, nonzero (Nat.zero_lt_of_lt below), inRange.trans ?_⟩
    have fewer : (piece + 1) * context.pieceLength ≤ context.numberOfPieces * context.pieceLength :=
      Nat.mul_le_mul_right _ below
    exact Int.sub_le_sub_left (by exact_mod_cast fewer) _

theorem matches_of_applyToContext {resumed : TorrentContext} (applied : data.applyToContext context = .ok resumed) :
    context.infoHash = data.infoHash.toList ∧ context.numberOfPieces = data.numPieces := by
  rw [applyToContext] at applied
  split at applied
  case isTrue => cases applied
  case isFalse hash =>
    split at applied
    case isTrue => cases applied
    case isFalse number => exact ⟨not_not.mp hash, not_not.mp number⟩

theorem applyToContext_run (entries : context.numberOfPieces ≤ context.pieceData.length)
    (few : context.numberOfPieces < u32Size) (hash : context.infoHash = data.infoHash.toList)
    (number : context.numberOfPieces = data.numPieces) :
    (¬(∀ piece < context.numberOfPieces, Passable data context piece) ∧ data.applyToContext context = .panic) ∨
      ((∀ piece < context.numberOfPieces, Passable data context piece) ∧ ∃ state,
        data.applyToContext context = .ok (data.finishResume state) ∧
          Reached data context context.numberOfPieces state) := by
  have all : context.pieceCount = context.numberOfPieces := Nat.mod_eq_of_lt few
  rw [applyToContext, if_neg (not_not.mpr hash), if_neg (not_not.mpr number), all]
  rcases @resume_run data context context.numberOfPieces entries with
    ⟨stuck, ran⟩ | ⟨past, state, ran, reached⟩
  · rw [ran]
    exact .inl ⟨stuck, rfl⟩
  · rw [ran]
    exact .inr ⟨past, state, rfl, reached⟩

theorem applyToContext_new (isNew : context = .new params)
    (small : context.pieceLength < u32Size) (few : context.numberOfPieces < u32Size)
    (hash : context.infoHash = data.infoHash.toList) (number : context.numberOfPieces = data.numPieces) :
    (match data.applyToContext context with
      | .panic => False
      | .err _ => True
      | .ok resumed => Accounted data.bitfield resumed) ↔
      (∀ piece < context.numberOfPieces, Passable data context piece) ∧
        ∀ piece < context.numberOfPieces, bitSet data.bitfield piece = true →
          countedLength context piece ≤ context.pieceLength := by
  have fresh : ∀ piece, context.getPieceLength piece = context.pieceLength := by
    intro piece
    rw [isNew]
    exact getPieceLength_new params piece
  rcases applyToContext_run (isNew ▸ length_replicate.ge) few hash number with ⟨stuck, ran⟩ | ⟨past, state, ran, reached⟩
  · rw [ran]
    exact ⟨False.elim, fun both => stuck both.1⟩
  · rw [ran]
    exact (reached.accounted_iff past fresh few small).trans ⟨fun short => ⟨past, short⟩, And.right⟩

section Decoded

variable (decoded : decode bytes = .ok root) (hashed : getBytes root "info-hash" = some raw) (sized : raw.length = 20)
include decoded hashed sized

theorem harmless_iff : Harmless memory bytes context ↔
    (getBytes root "bitfield" = none → Allocatable memory (askedPieces root)) ∧
      (context.infoHash = raw → context.numberOfPieces = getNumPieces root → Applicable root context) := by
  constructor
  · intro harmless
    exact harmless root raw decoded hashed sized
  · intro both other bytes found known _
    cases decoded.symm.trans found
    cases hashed.symm.trans known
    exact both

theorem fromBencode_refused (refused : readBitfield memory root = none) : fromBencode memory bytes = .panic := by
  rw [fromBencode, decoded]
  dsimp only
  rw [hashed]
  dsimp only
  rw [dif_pos sized, refused]

theorem fromBencode_read {bits : Bytes} (read : readBitfield memory root = some bits) :
    ∃ data, fromBencode memory bytes = .ok data ∧ data.infoHash.toList = raw ∧
      data.numPieces = getNumPieces root ∧ data.bitfield = bits := by
  rw [fromBencode, decoded]
  dsimp only
  rw [hashed]
  dsimp only
  rw [dif_pos sized, read]
  exact ⟨_, rfl, rfl, rfl, rfl⟩

/-- The data that is read is safe unless it passes for data of the context. -/
theorem resumesSafely_read {bits : Bytes} (isNew : context = .new params)
    (small : context.pieceLength < u32Size) (few : context.numberOfPieces < u32Size)
    (read : readBitfield memory root = some bits)
    (same : ∀ piece < getNumPieces root, bitSet bits piece = claims root piece)
    (long : (getNumPieces root + 7) / 8 ≤ bits.length ↔
      ∀ given, getBytes root "bitfield" = some given → (getNumPieces root + 7) / 8 ≤ given.length) :
    ResumesSafely memory bytes context ↔
      (context.infoHash = raw → context.numberOfPieces = getNumPieces root → Applicable root context) := by
  obtain ⟨data, ran, hash, number, field⟩ := fromBencode_read decoded hashed sized read
  rw [ResumesSafely, ran]
  dsimp only
  by_cases matching : context.infoHash = raw ∧ context.numberOfPieces = getNumPieces root
  · rw [applyToContext_new isNew small few (matching.1.trans hash.symm) (matching.2.trans number.symm), passable_iff, field]
    constructor
    · rintro ⟨⟨enough, nonzero, inRange⟩, short⟩ _ _
      refine ⟨?_, nonzero, inRange, ?_⟩
      · rw [matching.2] at enough ⊢
        exact long.mp enough
      · intro piece below claimed
        exact short piece below ((same piece (matching.2 ▸ below)).trans claimed)
    · intro applicable
      obtain ⟨enough, nonzero, inRange, short⟩ := applicable matching.1 matching.2
      refine ⟨⟨?_, nonzero, inRange⟩, ?_⟩
      · rw [matching.2] at enough ⊢
        exact long.mpr enough
      · intro piece below isLocal
        exact short piece below ((same piece (matching.2 ▸ below)).symm.trans isLocal)
  · have refused : ∃ reason, data.applyToContext context = .err reason := by
      rw [applyToContext, hash, number]
      by_cases isHash : context.infoHash = raw
      · rw [if_neg (not_not.mpr isHash), if_pos fun isNumber => matching ⟨isHash, isNumber⟩]
        exact ⟨_, rfl⟩
      · rw [if_pos isHash]
        exact ⟨_, rfl⟩
    obtain ⟨reason, refused⟩ := refused
    rw [refused]
    exact ⟨fun _ isHash isNumber => absurd ⟨isHash, isNumber⟩ matching, fun _ => trivial⟩

end Decoded

theorem fromBencode_unhashed
    (unhashed : ∀ root raw, decode bytes = .ok root → getBytes root "info-hash" = some raw → raw.length ≠ 20) :
    ∃ reason, fromBencode memory bytes = .err reason := by
  rw [fromBencode]
  cases decoded : decode bytes with
  | error reason => exact ⟨_, rfl⟩
  | ok root =>
    dsimp only
    cases hashed : getBytes root "info-hash" with
    | none => exact ⟨_, rfl⟩
    | some raw =>
      dsimp only
      rw [dif_neg (unhashed root raw decoded hashed)]
      exact ⟨_, rfl⟩

/-- A resume file is safe for a new context exactly when the sizes that it gives are harmless. -/
theorem resumesSafely_iff (opened : TorrentContext.OpenedFrom torrent context) :
    ResumesSafely memory bytes context ↔ Harmless memory bytes context := by
  obtain ⟨params, isNew, smallParams, short⟩ := opened.params
  have small : context.pieceLength < u32Size := isNew ▸ smallParams
  have few : context.numberOfPieces < u32Size := by
    have bound : params.piecesInfoHash.length / hashLength ≤ maxStringLen / hashLength := Nat.div_le_div_right short
    rw [isNew]
    exact bound.trans_lt (by decide)
  by_cases readable : ∃ root raw, decode bytes = .ok root ∧ getBytes root "info-hash" = some raw ∧ raw.length = 20
  · obtain ⟨root, raw, decoded, hashed, sized⟩ := readable
    rw [harmless_iff decoded hashed sized]
    cases given : getBytes root "bitfield" with
    | some bits =>
      have same : ∀ piece < getNumPieces root, bitSet bits piece = claims root piece := by
        intro piece _
        rw [claims, given]
      rw [resumesSafely_read decoded hashed sized isNew small few (by rw [readBitfield, given]) same (by simp [given])]
      exact ⟨fun applies => ⟨fun absent => (nomatch absent), applies⟩, And.right⟩
    | none =>
      by_cases allocatable : Allocatable memory (askedPieces root)
      · obtain ⟨bits, read, length, same⟩ := readBitfield_made given allocatable
        have asked : getNumPieces root ≤ askedPieces root := by
          rw [askedPieces]
          split
          case h_1 => split <;> omega
          case h_2 => exact le_rfl
        have long : (getNumPieces root + 7) / 8 ≤ bits.length := by
          omega
        rw [resumesSafely_read decoded hashed sized isNew small few read
          (fun piece below => same piece (below.trans_le asked)) (by simp [given, long])]
        exact ⟨fun applies => ⟨fun _ => allocatable, applies⟩, And.right⟩
      · rw [ResumesSafely, fromBencode_refused decoded hashed sized (readBitfield_refused given allocatable)]
        exact ⟨False.elim, fun both => allocatable (both.1 rfl)⟩
  · obtain ⟨reason, refused⟩ := @fromBencode_unhashed memory bytes fun root raw decoded hashed sized =>
      readable ⟨root, raw, decoded, hashed, sized⟩
    rw [ResumesSafely, refused]
    exact ⟨fun _ root raw decoded hashed sized => absurd ⟨root, raw, decoded, hashed, sized⟩ readable, fun _ => trivial⟩

section Examples

open TorrentContext

/-- A resume file for one piece of a torrent whose hash is zero. -/
def onePiece (bits : Bytes) : Bytes :=
  ascii "d8:bitfield" ++ encodeString bits ++ ascii "9:info-hash20:" ++ replicate 20 0 ++ ascii "10:num_piecesi1ee"

theorem apartFiles_sizes : ((acceptTorrent apartFiles).map fun accepted =>
    (accepted.2.numberOfPieces, accepted.2.pieceLength, accepted.2.totalBytesToDownload)).toOption = some (1, 8, 7) := by
  decide +kernel

theorem onePiece_fields : ((decode (onePiece [0x80])).map fun root =>
    (getBytes root "info-hash", getBytes root "bitfield", getNumPieces root)).toOption =
      some (some (replicate 20 0), some [0x80], 1) := by
  decide +kernel

theorem onePiece_resumed : ∃ context, OpenedFrom apartFiles context ∧
    ResumesSafely 64 (onePiece [0x80]) context := by
  obtain ⟨⟨file, context⟩, accepted, values⟩ := map_eq_ok.mp (eq_ok_of_toOption apartFiles_sizes)
  obtain ⟨number, size, total⟩ := Prod.mk.inj values |>.imp_right Prod.mk.inj
  obtain ⟨root, decoded, fields⟩ := map_eq_ok.mp (eq_ok_of_toOption onePiece_fields)
  obtain ⟨hashed, given, _⟩ := Prod.mk.inj fields |>.imp_right Prod.mk.inj
  have opened := openedFrom_of_accept accepted
  dsimp only at number size total
  refine ⟨context, opened, (resumesSafely_iff opened).mpr ((harmless_iff decoded hashed rfl).mpr ⟨?_, ?_⟩)⟩
  · intro absent
    cases given.symm.trans absent
  · intro _ _
    constructor
    case long =>
      intro bits found
      cases given.symm.trans found
      rw [number]
      decide
    case nonzero => exact fun _ => size ▸ by decide
    case inRange =>
      rw [leftBefore, total, number, size]
      decide
    case short =>
      intro piece below _
      rw [number] at below
      rw [countedLength, leftBefore, total, size, Nat.lt_one_iff.mp below]
      decide

def emptyBitsPanic (context : TorrentContext) : Bool :=
  match fromBencode 64 (onePiece []) with
  | .ok data =>
    match data.applyToContext context with
    | .panic => true
    | _ => false
  | _ => false

/-- The hash and the number of pieces are right, and the bit field is empty. -/
theorem emptyBits_panics : ∃ context data, OpenedFrom apartFiles context ∧
    fromBencode 64 (onePiece []) = .ok data ∧ data.applyToContext context = .panic ∧
    ¬ResumesSafely 64 (onePiece []) context := by
  have panics : ((acceptTorrent apartFiles).map fun accepted => emptyBitsPanic accepted.2).toOption =
      some true := by
    decide +kernel
  obtain ⟨⟨file, context⟩, accepted, ran⟩ := map_eq_ok.mp (eq_ok_of_toOption panics)
  rw [emptyBitsPanic] at ran
  split at ran
  case h_2 => cases ran
  case h_1 data read =>
    split at ran
    case h_2 => cases ran
    case h_1 applied =>
      refine ⟨context, data, openedFrom_of_accept accepted, read, applied, ?_⟩
      rw [ResumesSafely, read]
      dsimp only
      rw [applied]
      exact id

end Examples

end Safety

end FastResumeData

end BitTorrent
