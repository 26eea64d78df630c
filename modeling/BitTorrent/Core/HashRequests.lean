import BitTorrent.Core.HashExchange
import Mathlib.Data.Nat.Bitwise

/-! # Answering hash requests

The payload that a tree gives for a `hash_request` carries the audit path of the requested
subtree, so that the peer that asked can check it.
-/

namespace BitTorrent

open HashTree Chunks List

variable {β : Type} [Zero β] (sha256 : List β → Hash β)

theorem sibling_eq_xor (index : Nat) : sibling index = index ^^^ 1 := by
  rw [sibling]
  split
  case isTrue even => rw [Nat.xor_one_of_even (Nat.even_iff.mpr even)]
  case isFalse odd => rw [Nat.xor_one_of_odd (Nat.odd_iff.mpr (by omega))]

theorem uncleHashes_eq_auditPath {leaves : List (Hash β)} {height level maxUncles : Nat} (index : Nat)
    (enough : height - level ≤ maxUncles) :
    uncleHashes ((range (height + 1)).map (layer (combine sha256) leaves)) maxUncles level index =
      auditPath (combine sha256) zeroHash leaves (height - level) level index := by
  induction maxUncles generalizing level index with
  | zero =>
    have top : height - level = 0 := Nat.le_zero.mp enough
    rw [top]
    rfl
  | succ maxUncles ih =>
    rw [uncleHashes, length_map, length_range]
    by_cases below : level < height
    · have step : height - level = height - (level + 1) + 1 := by omega
      rw [if_pos (by omega), step, auditPath, ih (index / 2) (by omega), getElem?_map,
        getElem?_range (by omega), sibling_eq_xor]
      rfl
    · have top : height - level = 0 := by omega
      rw [if_neg (by omega), top]
      rfl

namespace MerkleTree

variable {sha256} {leaves : List (Hash β)} {fileLength baseLayer index levels proofLayers : Nat}
  {base : List (Hash β)}

section

variable (known : (fromLeafHashes sha256 leaves fileLength).layers[baseLayer]? = some base)
include known

theorem range_fits (inside : index + 2 ^ levels ≤ base.length) :
    leaves ≠ [] ∧ base = layer (combine sha256) (padLeaves leaves) baseLayer ∧
      baseLayer + levels ≤ Nat.clog 2 leaves.length := by
  have nonempty : leaves ≠ [] := by
    rintro rfl
    cases known
  rw [fromLeafHashes_layers_getElem? sha256 nonempty] at known
  split at known
  case isTrue low =>
    cases known
    rw [layer_length (combine sha256) _ _ (padLeaves_length leaves) low] at inside
    have fits : levels ≤ Nat.clog 2 leaves.length - baseLayer :=
      (Nat.pow_le_pow_iff_right (by decide)).mp ((Nat.le_add_left _ _).trans inside)
    exact ⟨nonempty, rfl, by omega⟩
  case isFalse => cases known

theorem generateHashesResponse_eq
    (positive : 1 ≤ levels) (aligned : 2 ^ levels ∣ index) (inside : index + 2 ^ levels ≤ base.length)
    (enough : (levels - 1) + ((fromLeafHashes sha256 leaves fileLength).layers.length - 1 - baseLayer - levels) ≤
      proofLayers) :
    (fromLeafHashes sha256 leaves fileLength).generateHashesResponse baseLayer index (2 ^ levels) proofLayers =
      some ((slice base index (2 ^ levels) ++
        auditPath (combine sha256) zeroHash (padLeaves leaves)
          (Nat.clog 2 leaves.length - (baseLayer + levels)) (baseLayer + levels) (index / 2 ^ levels)).flatMap
        List.Vector.toList) := by
  obtain ⟨nonempty, _, fits⟩ := range_fits known inside
  have layers := fromLeafHashes_layers sha256 nonempty fileLength
  have power : isPowerOfTwo (2 ^ levels) = true := (isPowerOfTwo_iff (by omega)).mpr ⟨levels, rfl⟩
  rw [generateHashesResponse, hashesResponse, if_neg (by simp [power]; omega),
    if_neg (by rw [Nat.mod_eq_zero_of_dvd aligned]; exact fun absurd => absurd rfl), known]
  dsimp only
  rw [if_neg (Nat.not_lt.mpr inside), Nat.log_pow (by decide), layers, uncleHashes_eq_auditPath]
  rw [layers, length_map, length_range] at enough
  omega

end

variable [DecidableEq β] [ByteValue β]

/-- What a tree answers to a request with enough proof layers, its peer accepts. -/
theorem hashes_exchange_complete
    (known : (fromLeafHashes sha256 leaves fileLength).layers[baseLayer]? = some base)
    (positive : 1 ≤ levels) (aligned : 2 ^ levels ∣ index) (inside : index + 2 ^ levels ≤ base.length)
    (enough : (levels - 1) + ((fromLeafHashes sha256 leaves fileLength).layers.length - 1 - baseLayer - levels) ≤
      proofLayers) :
    ∃ bytes, (fromLeafHashes sha256 leaves fileLength).generateHashesResponse baseLayer index (2 ^ levels)
        proofLayers = some bytes ∧
      verifyHashesResponse sha256 (fromLeafHashes sha256 leaves fileLength).root baseLayer index (2 ^ levels)
        proofLayers bytes = .ok (slice base index (2 ^ levels)) := by
  refine ⟨_, generateHashesResponse_eq known positive aligned inside enough, ?_⟩
  obtain ⟨nonempty, same, fits⟩ := range_fits known inside
  have width : (slice base index (2 ^ levels)).length = 2 ^ levels := by
    rw [slice_length]
    omega
  obtain ⟨baseHashes, uncleHashes⟩ := payload_parts (slice base index (2 ^ levels))
    (auditPath (combine sha256) zeroHash (padLeaves leaves) (Nat.clog 2 leaves.length - (baseLayer + levels))
      (baseLayer + levels) (index / 2 ^ levels))
  rw [width] at baseHashes uncleHashes
  rw [verifyHashesResponse_eq_ok_iff]
  refine ⟨?_, ?_, ?_, baseHashes.symm, ?_⟩
  · exact ⟨Nat.le_self_pow (by omega) 2, (isPowerOfTwo_iff (Nat.two_pow_pos _)).mpr ⟨levels, rfl⟩,
      Nat.mod_eq_zero_of_dvd aligned⟩
  · rw [flatMap_toList_length, length_append, width]
    exact Nat.mul_le_mul_right 32 (Nat.le_add_right _ _)
  · rw [flatMap_toList_length, Nat.mul_mod_left]
  · rw [uncleHashes]
    apply climb_root (combine sha256) zeroHash (padLeaves_length leaves)
      (fromLeafHashes_root sha256 nonempty fileLength) fits
    have folded := @reduce_top _ sha256 _ _ _ width
    rw [← Nat.div_mul_cancel aligned, slice, same] at folded
    rw [← layer_layer, getElem?_of_fold folded, Nat.div_mul_cancel aligned, ← same]
    rfl

theorem hashes_exchange_four_blocks :
    ∃ bytes, (fromLeafHashes idealSha256 (replicate 4 zeroHash) 65536).generateHashesResponse 0 2 (2 ^ 1) 1 =
        some bytes ∧
      verifyHashesResponse idealSha256 (fromLeafHashes idealSha256 (replicate 4 zeroHash) 65536).root 0 2 (2 ^ 1)
        1 bytes = .ok (slice (replicate 4 zeroHash) 2 (2 ^ 1)) :=
  hashes_exchange_complete rfl (by decide) (by decide) (by decide) (by decide)

end MerkleTree

end BitTorrent
