import BitTorrent.Basic
import Mathlib.Data.Finset.Card
import Mathlib.Data.Finset.Range
import Mathlib.Tactic

/-! # Pieces under assembly

`storage/piece_buffer.rs` and `storage/erasure_staging.rs`.  A buffer knows which of its
blocks are present, from whom they came and how many are missing; that the count is right
and that the presence words cover the source table is part of its type.  `none` as the
result of `addBlock` is an out-of-range index, a panic of the code.
-/

namespace BitTorrent

open List

/-- The bit of a block in its presence word. -/
def blockBit (block : Nat) : BitVec 64 := 1#64 <<< (block % 64)

def presentIn (words : List (BitVec 64)) (block : Nat) : Bool :=
  match words[block / 64]? with
  | some word => word &&& blockBit block != 0#64
  | none => false

theorem and_blockBit_ne_zero (word : BitVec 64) (block : Nat) :
    (word &&& blockBit block != 0#64) = word.getLsbD (block % 64) := by
  have small : block % 64 < 64 := Nat.mod_lt _ (by decide)
  have bits (index : Nat) : (word &&& blockBit block).getLsbD index =
      (word.getLsbD index && decide (index = block % 64)) := by
    simp only [blockBit, BitVec.getLsbD_and, BitVec.getLsbD_shiftLeft, BitVec.getLsbD_one]
    by_cases same : index = block % 64
    · simp [same, small]
    · by_cases below : index < block % 64
      · simp [same, below]
      · have apart : ¬ index - block % 64 = 0 := by omega
        simp [same, apart]
  cases bit : word.getLsbD (block % 64) with
  | true =>
    rw [bne_iff_ne]
    intro zero
    have here := bits (block % 64)
    simp [zero, bit] at here
  | false =>
    rw [bne_eq_false_iff_eq]
    apply BitVec.eq_of_getLsbD_eq
    intro index _
    rw [bits, BitVec.getLsbD_zero]
    by_cases same : index = block % 64 <;> simp [same, bit]

theorem or_blockBit (word : BitVec 64) (block other : Nat) :
    (word ||| blockBit block).getLsbD (other % 64) =
      (decide (other % 64 = block % 64) || word.getLsbD (other % 64)) := by
  simp only [blockBit, BitVec.getLsbD_or, BitVec.getLsbD_shiftLeft, BitVec.getLsbD_one]
  by_cases same : other % 64 = block % 64
  · simp [same]
    omega
  · by_cases below : other % 64 < block % 64
    · simp [same, below]
    · have apart : ¬ other % 64 - block % 64 = 0 := by omega
      simp [same, apart]

theorem presentIn_set {words : List (BitVec 64)} {block : Nat} {word : BitVec 64}
    (found : words[block / 64]? = some word) (other : Nat) :
    presentIn (words.set (block / 64) (word ||| blockBit block)) other =
      (decide (other = block) || presentIn words other) := by
  have inside := (List.getElem?_eq_some_iff.mp found).1
  unfold presentIn
  rw [getElem?_set]
  by_cases sameWord : block / 64 = other / 64
  · rw [if_pos sameWord, if_pos inside, ← sameWord, found]
    simp only [and_blockBit_ne_zero, or_blockBit]
    congr 1
    exact decide_eq_decide.mpr ⟨fun same => by omega, fun same => by rw [same]⟩
  · have different : other ≠ block := by
      intro same
      rw [same] at sameWord
      exact sameWord rfl
    rw [if_neg sameWord, decide_eq_false different, Bool.false_or]

/-- The blocks of a table of the given size that are not present. -/
def absentBlocks (words : List (BitVec 64)) (tableSize : Nat) : Finset Nat :=
  (Finset.range tableSize).filter fun block => presentIn words block = false

structure PieceBuffer where
  number : Nat
  length : Nat
  presentBlocks : List (BitVec 64)
  blockSources : BlockSources
  blockCount : Int
  covered : presentBlocks.length = (blockSources.length + 63) / 64
  counted : blockCount = (absentBlocks presentBlocks blockSources.length).card

namespace PieceBuffer

variable (buffer : PieceBuffer)

def isBlockPresent (block : Nat) : Bool :=
  presentIn buffer.presentBlocks block

def allBlocksThere : Bool := decide (buffer.blockCount = 0)

def blocksOf (length : Nat) : Nat := (length + blockSize - 1) / blockSize

theorem presentIn_replicate_zero (count block : Nat) : presentIn (replicate count 0#64) block = false := by
  unfold presentIn
  by_cases inside : block / 64 < count
  · simp [inside]
  · simp [inside]

def new (number length : Nat) : PieceBuffer where
  number
  length
  presentBlocks := replicate ((blocksOf length + 63) / 64) 0#64
  blockSources := replicate (blocksOf length) none
  blockCount := blocksOf length
  covered := by simp
  counted := by
    have all : absentBlocks (replicate ((blocksOf length + 63) / 64) 0#64) (blocksOf length) =
        Finset.range (blocksOf length) :=
      Finset.filter_true_of_mem fun block _ => presentIn_replicate_zero _ block
    rw [length_replicate, all, Finset.card_range]

theorem absentBlocks_set {words : List (BitVec 64)} {block tableSize : Nat} {word : BitVec 64}
    (found : words[block / 64]? = some word) :
    absentBlocks (words.set (block / 64) (word ||| blockBit block)) tableSize =
      (absentBlocks words tableSize).erase block := by
  ext other
  simp only [absentBlocks, Finset.mem_filter, Finset.mem_erase, presentIn_set found,
    Bool.or_eq_false_iff, decide_eq_false_iff_not]
  tauto

def addBlock (block : Nat) (sourceIp : String) : Option PieceBuffer :=
  if absent : buffer.isBlockPresent block then some buffer
  else
    match found : buffer.presentBlocks[block / 64]? with
    | none => none
    | some word =>
      if inside : block < buffer.blockSources.length then
        some {
          buffer with
          presentBlocks := buffer.presentBlocks.set (block / 64) (word ||| blockBit block)
          blockSources := buffer.blockSources.set block (some sourceIp)
          blockCount := buffer.blockCount - 1
          covered := by simpa using buffer.covered
          counted := by
            have member : block ∈ absentBlocks buffer.presentBlocks buffer.blockSources.length :=
              Finset.mem_filter.mpr ⟨Finset.mem_range.mpr inside, Bool.not_eq_true _ ▸ absent⟩
            have positive := Finset.card_pos.mpr ⟨block, member⟩
            rw [length_set, absentBlocks_set found, Finset.card_erase_of_mem member,
              buffer.counted]
            omega }
      else none

variable {buffer after : PieceBuffer} {block : Nat} {sourceIp : String}

def tableSize (buffer : PieceBuffer) : Nat := buffer.blockSources.length

@[simp] theorem new_tableSize (number length : Nat) : (new number length).tableSize = blocksOf length :=
  length_replicate

theorem new_isBlockPresent (number length block : Nat) : (new number length).isBlockPresent block = false :=
  presentIn_replicate_zero _ block

theorem allBlocksThere_iff :
    buffer.allBlocksThere = true ↔ ∀ block, block < buffer.tableSize → buffer.isBlockPresent block = true := by
  rw [allBlocksThere, decide_eq_true_eq, buffer.counted, Int.natCast_eq_zero, Finset.card_eq_zero,
    Finset.eq_empty_iff_forall_notMem]
  constructor
  · intro none block inside
    have present := none block
    simp only [absentBlocks, Finset.mem_filter, Finset.mem_range, not_and, Bool.not_eq_false] at present
    exact present inside
  · intro all block absent
    simp only [absentBlocks, Finset.mem_filter, Finset.mem_range] at absent
    have present := all block absent.1
    rw [isBlockPresent, absent.2] at present
    cases present

/-- The only way for `addBlock` to panic is a block beyond the source table. -/
theorem addBlock_eq_none_iff :
    buffer.addBlock block sourceIp = none ↔
      buffer.isBlockPresent block = false ∧ buffer.tableSize ≤ block := by
  unfold addBlock
  split
  case isTrue present => simp [present]
  case isFalse absent =>
    split
    case h_1 found =>
      have beyond := getElem?_eq_none_iff.mp found
      rw [buffer.covered] at beyond
      simp only [absent, true_and, true_iff, tableSize]
      omega
    case h_2 word found =>
      split
      case isTrue inside => simp [absent, tableSize, inside]
      case isFalse beyond =>
        simp only [absent, true_and, true_iff, tableSize]
        omega

theorem addBlock_eq_some (added : buffer.addBlock block sourceIp = some after) :
    after.tableSize = buffer.tableSize ∧ after.length = buffer.length ∧
      ∀ other, after.isBlockPresent other = (decide (other = block) || buffer.isBlockPresent other) := by
  unfold addBlock at added
  split at added
  case isTrue present =>
    cases added
    refine ⟨rfl, rfl, ?_⟩
    intro other
    by_cases same : other = block
    · simp [same, present]
    · simp [same]
  case isFalse =>
    split at added
    case h_1 => cases added
    case h_2 word found =>
      split at added
      case isFalse => cases added
      case isTrue =>
        cases added
        exact ⟨length_set, rfl, presentIn_set found⟩

theorem addBlock_source (absent : buffer.isBlockPresent block = false)
    (added : buffer.addBlock block sourceIp = some after) : after.blockSources[block]? = some (some sourceIp) := by
  unfold addBlock at added
  split at added
  case isTrue present =>
    rw [absent] at present
    cases present
  case isFalse =>
    split at added
    case h_1 => cases added
    case h_2 =>
      split at added
      case isFalse => cases added
      case isTrue inside =>
        cases added
        exact getElem?_set_self inside

end PieceBuffer

inductive BlockArrivalOutcome where
  | commitAndCancelOthers (peersToCancel : List String)
  | absorbDuplicate (sourcePeer : String)
deriving DecidableEq

/-- `staged` gives the peers that were asked for a block. -/
structure AdaptiveErasureStaging where
  staged : Nat × Nat → Option (List String)
  committedBlocks : Finset (Nat × Nat)

namespace AdaptiveErasureStaging

def empty : AdaptiveErasureStaging where
  staged _ := none
  committedBlocks := ∅

variable (staging : AdaptiveErasureStaging)

def onBlockArrived (piece blockIndex : Nat) (fromPeer : String) : AdaptiveErasureStaging × BlockArrivalOutcome :=
  let key := (piece, blockIndex)
  if key ∈ staging.committedBlocks then (staging, .absorbDuplicate fromPeer)
  else
    let peersToCancel := ((staging.staged key).getD []).filter fun peer => peer ≠ fromPeer
    ({ staged := Function.update staging.staged key none
       committedBlocks := insert key staging.committedBlocks },
      .commitAndCancelOthers peersToCancel)

theorem mem_onBlockArrived (piece blockIndex : Nat) (fromPeer : String) :
    (piece, blockIndex) ∈ (staging.onBlockArrived piece blockIndex fromPeer).1.committedBlocks := by
  by_cases known : (piece, blockIndex) ∈ staging.committedBlocks
  · simp [onBlockArrived, known]
  · simp [onBlockArrived, known]

def clearPiece (piece : Nat) : AdaptiveErasureStaging where
  staged key := if key.1 = piece then none else staging.staged key
  committedBlocks := staging.committedBlocks.filter fun key => key.1 ≠ piece

end AdaptiveErasureStaging

end BitTorrent
