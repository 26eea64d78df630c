import BitTorrent.Core.Merkle
import Mathlib.Logic.Encodable.Basic
import Mathlib.Logic.Equiv.List

/-! # The layers of a Merkle tree and its proofs

A tree of `core/merkle.rs` is the padded leaf layer and the layers over it, so that a proof
of a block is the audit path of its leaf.
-/

namespace BitTorrent

open HashTree Chunks List MerkleTree

variable {β : Type} {sha256 : List β → Hash β} {index : Nat}

theorem isPowerOfTwo_iff {length : Nat} (positive : 0 < length) :
    isPowerOfTwo length ↔ ∃ levels, length = 2 ^ levels := by
  rw [isPowerOfTwo, beq_iff_eq, Nat.and_sub_one_eq_zero_iff_isPowerOfTwo (by omega)]
  rfl

theorem combine_injective (injective : Function.Injective sha256) : Function.Injective2 (combine sha256) := by
  intro left left' right right' same
  have bytes := injective same
  have parts := append_inj bytes (by simp)
  exact ⟨List.Vector.toList_injective parts.1, List.Vector.toList_injective parts.2⟩

variable [Zero β]

theorem padLeaves_length (leaves : List (Hash β)) : (padLeaves leaves).length = 2 ^ Nat.clog 2 leaves.length := by
  have covers : leaves.length ≤ 2 ^ Nat.clog 2 leaves.length := Nat.le_pow_clog (by decide) _
  simp only [padLeaves, nextPowerOfTwo, length_append, length_replicate]
  omega

theorem padLeaves_full {leaves : List (Hash β)} {height : Nat}
    (full : leaves.length = 2 ^ height) : padLeaves leaves = leaves := by
  simp [padLeaves, nextPowerOfTwo, full]

theorem reduce_top {nodes : List (Hash β)} {levels : Nat} (full : nodes.length = 2 ^ levels) :
    layer (combine sha256) nodes levels =
      [(reduce (combine sha256) nodes.length nodes).headD zeroHash] := by
  have one := layer_length (combine sha256) nodes levels full (Nat.le_refl _)
  rw [Nat.sub_self, Nat.pow_zero] at one
  obtain ⟨top, topEq⟩ := length_eq_one_iff.mp one
  rw [reduce_eq_layer (combine sha256) full (by rw [full]; exact Nat.lt_two_pow_self.le), topEq]
  rfl

variable (sha256)

namespace MerkleTree

variable {leaves : List (Hash β)} {proof : MerkleProof β} {fileLength : Nat}

theorem fromLeafHashes_layers (nonempty : leaves ≠ []) (fileLength : Nat) :
    (fromLeafHashes sha256 leaves fileLength).layers =
      (range (Nat.clog 2 leaves.length + 1)).map
        (layer (combine sha256) (padLeaves leaves)) := by
  match leaves with
  | [] => exact (nonempty rfl).elim
  | [leaf] =>
    have single : padLeaves [leaf] = [leaf] := @padLeaves_full _ _ [leaf] 0 rfl
    simp [fromLeafHashes, single]
  | first :: second :: rest =>
    have length := padLeaves_length (first :: second :: rest)
    exact layersFrom_eq_map _ length (by rw [length]; exact Nat.lt_two_pow_self.le)

theorem fromLeafHashes_root (nonempty : leaves ≠ []) (fileLength : Nat) :
    layer (combine sha256) (padLeaves leaves) (Nat.clog 2 leaves.length) =
      [(fromLeafHashes sha256 leaves fileLength).root] := by
  have one := layer_length (combine sha256) _ _ (padLeaves_length leaves) (Nat.le_refl _)
  rw [Nat.sub_self, Nat.pow_zero] at one
  obtain ⟨top, topEq⟩ := length_eq_one_iff.mp one
  rw [topEq]
  match leaves with
  | [] => exact (nonempty rfl).elim
  | [leaf] =>
    have single : padLeaves [leaf] = [leaf] := @padLeaves_full _ _ [leaf] 0 rfl
    simpa [single, fromLeafHashes] using topEq.symm
  | first :: second :: rest =>
    have layers := fromLeafHashes_layers sha256 nonempty fileLength
    simp only [fromLeafHashes] at layers ⊢
    rw [layers, getLast?_map, getLast?_range, if_neg (Nat.succ_ne_zero _),
      Option.map_some, Nat.add_sub_cancel, topEq]
    rfl

theorem fromLeafHashes_layers_getElem? (nonempty : leaves ≠ []) (fileLength level : Nat) :
    (fromLeafHashes sha256 leaves fileLength).layers[level]? =
      if level ≤ Nat.clog 2 leaves.length then
        some (layer (combine sha256) (padLeaves leaves) level)
      else none := by
  rw [fromLeafHashes_layers sha256 nonempty, getElem?_map]
  by_cases inside : level ≤ Nat.clog 2 leaves.length
  · rw [if_pos inside, getElem?_range (by omega), Option.map_some]
  · rw [if_neg inside, getElem?_eq_none (by simp; omega), Option.map_none]

theorem fromLeafHashes_height {height : Nat}
    (layers : (fromLeafHashes sha256 leaves fileLength).layers.length = height + 1) :
    leaves ≠ [] ∧ Nat.clog 2 leaves.length = height := by
  have nonempty : leaves ≠ [] := by
    intro empty
    subst leaves
    simp [fromLeafHashes] at layers
  rw [fromLeafHashes_layers sha256 nonempty, length_map, length_range] at layers
  exact ⟨nonempty, by omega⟩

theorem fromLeafHashes_numBlocks (leaves : List (Hash β)) (fileLength : Nat) :
    (fromLeafHashes sha256 leaves fileLength).numBlocks = leaves.length := by
  match leaves with
  | [] => rfl
  | [leaf] => rfl
  | first :: second :: rest => rfl

theorem padLeaves_getElem? (inside : index < leaves.length) :
    (padLeaves leaves)[index]? = leaves[index]? := by
  rw [padLeaves, getElem?_append_left inside]

theorem fromLeafHashes_blockHash (leaves : List (Hash β)) (fileLength index : Nat) :
    (fromLeafHashes sha256 leaves fileLength).blockHash index = leaves[index]? := by
  rw [blockHash, fromLeafHashes_numBlocks]
  split
  case isTrue inside =>
    have nonempty : leaves ≠ [] := ne_nil_of_length_pos (by omega)
    rw [head?_eq_getElem?, fromLeafHashes_layers_getElem? sha256 nonempty, if_pos (Nat.zero_le _)]
    exact padLeaves_getElem? inside
  case isFalse outside => rw [getElem?_eq_none (by omega)]

theorem siblings_range (leaves : List (Hash β)) (count level index : Nat) :
    siblings ((range' level count).map (layer (combine sha256) leaves)) index =
      auditPath (combine sha256) zeroHash leaves count level index := by
  induction count generalizing level index with
  | zero => rfl
  | succ count ih =>
    rw [range'_succ, map_cons, siblings, ih]
    rfl

theorem fromLeafHashes_proof (fileLength : Nat) (inside : index < leaves.length) :
    (fromLeafHashes sha256 leaves fileLength).proof index =
      some ⟨index, auditPath (combine sha256) zeroHash (padLeaves leaves) (Nat.clog 2 leaves.length) 0 index⟩ := by
  have nonempty : leaves ≠ [] := ne_nil_of_length_pos (by omega)
  have layers := fromLeafHashes_layers sha256 nonempty fileLength
  have short : (fromLeafHashes sha256 leaves fileLength).layers.dropLast =
      (range' 0 (Nat.clog 2 leaves.length)).map (layer (combine sha256) (padLeaves leaves)) := by
    rw [layers, range_succ, map_append, map_singleton, dropLast_concat, range_eq_range']
  rw [proof, if_neg, short, siblings_range]
  rw [fromLeafHashes_numBlocks, layers]
  simp [inside]

theorem climb_proof {leaf : Hash β} (found : leaves[index]? = some leaf)
    (known : (fromLeafHashes sha256 leaves fileLength).proof index = some proof) :
    climb (combine sha256) proof.blockIndex leaf proof.path = (fromLeafHashes sha256 leaves fileLength).root := by
  have inside := (List.getElem?_eq_some_iff.mp found).1
  have nonempty : leaves ≠ [] := ne_nil_of_length_pos (by omega)
  rw [fromLeafHashes_proof sha256 fileLength inside] at known
  cases known
  apply climb_root (combine sha256) zeroHash (padLeaves_length leaves)
    (fromLeafHashes_root sha256 nonempty fileLength) (Nat.zero_le _)
  rw [layer_zero, padLeaves_getElem? inside, found]

section Files

variable {data : List β}

theorem fromBytes_eq (nonempty : data ≠ []) :
    fromBytes sha256 data = fromLeafHashes sha256 ((chunks blockSize data).map sha256) data.length := by
  rw [fromBytes, if_neg (by simpa using nonempty)]

theorem fromBytes_numBlocks (data : List β) :
    (fromBytes sha256 data).numBlocks = (data.length + blockSize - 1) / blockSize := by
  by_cases empty : data = []
  · have none : (0 + blockSize - 1) / blockSize = 0 := by decide
    rw [empty, length_nil, none]
    rfl
  · rw [fromBytes_eq sha256 empty, fromLeafHashes_numBlocks, length_map, chunks_length]

variable {index : Nat}

omit [Zero β] in
theorem ne_nil_of_block (inside : index < (data.length + blockSize - 1) / blockSize) : data ≠ [] := by
  rintro rfl
  have none : (0 + blockSize - 1) / blockSize = 0 := by decide
  rw [length_nil, none] at inside
  exact absurd inside (Nat.not_lt_zero _)

omit [Zero β] in
theorem leaves_getElem? (inside : index < (data.length + blockSize - 1) / blockSize) :
    ((chunks blockSize data).map sha256)[index]? =
      some (sha256 (slice data (index * blockSize) blockSize)) := by
  rw [getElem?_map, chunks_getElem? _ _ _ inside, Option.map_some]

theorem fromBytes_blockHash (inside : index < (fromBytes sha256 data).numBlocks) :
    (fromBytes sha256 data).blockHash index = some (sha256 (slice data (index * blockSize) blockSize)) := by
  rw [fromBytes_numBlocks] at inside
  have nonempty := ne_nil_of_block inside
  rw [fromBytes_eq sha256 nonempty, fromLeafHashes_blockHash, leaves_getElem? sha256 inside]

theorem fromBytes_proof (inside : index < (fromBytes sha256 data).numBlocks) :
    ∃ proof, (fromBytes sha256 data).proof index = some proof ∧
      climb (combine sha256) proof.blockIndex (sha256 (slice data (index * blockSize) blockSize)) proof.path =
        (fromBytes sha256 data).root := by
  rw [fromBytes_numBlocks] at inside
  have nonempty := ne_nil_of_block inside
  have leaf := leaves_getElem? sha256 inside
  have known := fromLeafHashes_proof sha256 data.length (List.getElem?_eq_some_iff.mp leaf).1
  rw [fromBytes_eq sha256 nonempty]
  exact ⟨_, known, climb_proof sha256 leaf known⟩

variable [DecidableEq β]

theorem fromBytes_verifyBlock (inside : index < (fromBytes sha256 data).numBlocks) (blockData : List β) :
    (fromBytes sha256 data).verifyBlock sha256 index blockData = true ↔
      sha256 blockData = sha256 (slice data (index * blockSize) blockSize) := by
  rw [verifyBlock, fromBytes_blockHash sha256 inside]
  exact decide_eq_true_iff

/-- A proof accepts its own block and nothing else, and so does the tree. -/
theorem proof_exact (injective : Function.Injective sha256) {data : List β} {index : Nat}
    (inside : index < (fromBytes sha256 data).numBlocks) (blockData : List β) :
    ∃ proof, (fromBytes sha256 data).proof index = some proof ∧
      (proof.verify sha256 blockData (fromBytes sha256 data).root = true ↔
        blockData = slice data (index * blockSize) blockSize) ∧
      (fromBytes sha256 data).verifyBlock sha256 index blockData =
        proof.verify sha256 blockData (fromBytes sha256 data).root := by
  obtain ⟨proof, known, climbed⟩ := fromBytes_proof sha256 inside
  have exact : proof.verify sha256 blockData (fromBytes sha256 data).root = true ↔
      blockData = slice data (index * blockSize) blockSize := by
    rw [MerkleProof.verify, decide_eq_true_iff, ← climbed]
    constructor
    · intro same
      exact injective (climb_injective (combine_injective injective) same)
    · rintro rfl
      rfl
  refine ⟨proof, known, exact, ?_⟩
  rw [Bool.eq_iff_iff, exact, fromBytes_verifyBlock sha256 inside]
  exact injective.eq_iff

end Files

end MerkleTree

/-! An injective hash without cycles exists over the natural numbers as bytes: number the
byte strings, and put the number in the first place of the digest. -/

def idealSha256 (bytes : List ℕ) : Hash ℕ :=
  Encodable.encode bytes ::ᵥ List.Vector.replicate 31 0

theorem idealSha256_injective : Function.Injective idealSha256 := by
  intro left right same
  have heads := congrArg List.Vector.head same
  exact Encodable.encode_injective heads

private theorem lt_encode_of_mem {value : ℕ} {values : List ℕ} (member : value ∈ values) :
    value < Encodable.encode values := by
  induction values with
  | nil => cases member
  | cons first rest ih =>
    rw [Encodable.encode_list_cons, Nat.lt_succ_iff]
    cases member with
    | head => exact Nat.left_le_pair _ _
    | tail _ member => exact (ih member).le.trans (Nat.right_le_pair _ _)

theorem idealSha256_acyclic : Acyclic (combine idealSha256) := by
  have rises {child parent : Hash ℕ} (step : Child (combine idealSha256) child parent) :
      child.head < parent.head := by
    have member : child.head ∈ child.toList := by
      rw [← List.Vector.cons_head_tail child]
      exact mem_cons_self
    obtain ⟨other, rfl | rfl⟩ := step
    · exact lt_encode_of_mem (mem_append_left _ member)
    · exact lt_encode_of_mem (mem_append_right _ member)
  intro node cycle
  have climbs := cycle.lift List.Vector.head fun _ _ => rises
  rw [Relation.transGen_eq_self] at climbs
  exact Nat.lt_irrefl _ climbs

def threeBlocks : List ℕ := replicate blockSize 7 ++ (replicate blockSize 8 ++ [9])

/-- The proof of the second of three blocks takes it and refuses the first. -/
theorem proof_exact_three_blocks :
    ∃ proof, (fromBytes idealSha256 threeBlocks).proof 1 = some proof ∧
      proof.verify idealSha256 (replicate blockSize 8) (fromBytes idealSha256 threeBlocks).root = true ∧
      (fromBytes idealSha256 threeBlocks).verifyBlock idealSha256 1 (replicate blockSize 7) = false := by
  have inside : 1 < (fromBytes idealSha256 threeBlocks).numBlocks := by
    rw [fromBytes_numBlocks, threeBlocks, length_append, length_append, length_replicate, length_replicate]
    decide
  have second : slice threeBlocks (1 * blockSize) blockSize = replicate blockSize 8 := by
    rw [Nat.one_mul]
    exact slice_append_middle length_replicate length_replicate
  obtain ⟨proof, known, taken, _⟩ := proof_exact idealSha256 idealSha256_injective inside (replicate blockSize 8)
  obtain ⟨_, same, refused, block⟩ := proof_exact idealSha256 idealSha256_injective inside (replicate blockSize 7)
  cases known.symm.trans same
  refine ⟨proof, known, taken.mpr second.symm, ?_⟩
  rw [block, ← Bool.not_eq_true, refused, second, replicate_right_inj (by decide)]
  decide

end BitTorrent
