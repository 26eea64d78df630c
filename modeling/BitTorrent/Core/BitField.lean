import BitTorrent.Core.TorrentContext

/-! # Bit fields

Reading a bit of a packed bit field after a bit was written.
-/

namespace BitTorrent

open List

variable {bits : Bytes} {piece other : Nat} {value : Bool}

theorem bitMask_mod (piece : Nat) : bitMask (piece % 8) = bitMask piece := by
  rw [bitMask, bitMask, Nat.mod_mod]

theorem bitMask_ne_zero (piece : Nat) : bitMask piece ≠ 0 := by
  have masks : ∀ bit < 8, bitMask bit ≠ 0 := by decide
  rw [← bitMask_mod]
  exact masks _ (Nat.mod_lt _ (by decide))

theorem bitMask_apart (apart : piece % 8 ≠ other % 8) :
    bitMask piece &&& bitMask other = 0 ∧ ~~~bitMask piece &&& bitMask other = bitMask other := by
  have masks : ∀ bit < 8, ∀ next < 8, bit ≠ next →
      bitMask bit &&& bitMask next = 0 ∧ ~~~bitMask bit &&& bitMask next = bitMask next := by decide
  rw [← bitMask_mod piece, ← bitMask_mod other]
  exact masks _ (Nat.mod_lt _ (by decide)) _ (Nat.mod_lt _ (by decide)) apart

theorem or_and_mask (byte mask test : UInt8) : (byte ||| mask) &&& test = byte &&& test ||| mask &&& test :=
  UInt8.toBitVec_inj.mp BitVec.and_or_distrib_right

@[simp]
theorem putBit_length : (putBit bits piece value).length = bits.length := length_modify _ _ _

theorem bitSet_of_length_le (beyond : bits.length ≤ piece / 8) : bitSet bits piece = false := by
  rw [bitSet, getElem?_eq_none beyond]

theorem bitSet_putBit_self (within : piece / 8 < bits.length) : bitSet (putBit bits piece value) piece = value := by
  rw [bitSet, putBit, getElem?_modify_eq, getElem?_eq_getElem within]
  cases value with
  | true =>
    have kept : (bits[piece / 8] &&& bitMask piece ||| bitMask piece) ≠ 0 := fun none =>
      bitMask_ne_zero piece (UInt8.or_eq_zero_iff.mp none).2
    simpa [or_and_mask] using kept
  | false => simp [UInt8.and_assoc]

theorem bitSet_putBit_other (apart : piece ≠ other) : bitSet (putBit bits piece value) other = bitSet bits other := by
  rw [bitSet, bitSet, putBit]
  by_cases byte : piece / 8 = other / 8
  · have masks := bitMask_apart (show piece % 8 ≠ other % 8 by omega)
    rw [byte, getElem?_modify_eq]
    cases bits[other / 8]? with
    | none => rfl
    | some found =>
      cases value with
      | true => simp [or_and_mask, masks.1]
      | false => simp [UInt8.and_assoc, masks.2]
  · rw [getElem?_modify_ne _ _ byte]

theorem bitSet_replicate_zero (length : Nat) : bitSet (replicate length 0) piece = false := by
  rw [bitSet, getElem?_replicate]
  split
  case h_1 byte found =>
    split at found
    case isTrue =>
      cases found
      rw [UInt8.zero_and]
      rfl
    case isFalse => cases found
  case h_2 => rfl

end BitTorrent
