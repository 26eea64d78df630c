import BitTorrent.Core.MerkleProofs
import BitTorrent.Storage.PieceLayersCache

/-! # The piece layer of a file

`piece_layer` cuts a layer of the tree to the pieces of the file.  The padding that it cuts off
is the root of a subtree of zero hashes, while the functions that start from a piece layer pad
it with the zero hash itself.
-/

namespace BitTorrent

open HashTree Chunks List Nat

variable {β : Type} [Zero β] (sha256 : List β → Hash β) {pieceLength index : Nat}

theorem rootOfHashes_top {hashes : List (Hash β)} (nonempty : hashes ≠ []) :
    layer (combine sha256) (padLeaves hashes) (clog 2 hashes.length) = [rootOfHashes sha256 hashes] := by
  match hashes with
  | [] => exact absurd rfl nonempty
  | [hash] =>
    rfl
  | first :: second :: rest => exact reduce_top (padLeaves_length _)

theorem fromLeafHashes_root_eq (hashes : List (Hash β)) (fileLength : Nat) :
    (MerkleTree.fromLeafHashes sha256 hashes fileLength).root = rootOfHashes sha256 hashes := by
  by_cases empty : hashes = []
  · rw [empty]
    rfl
  · have top := (MerkleTree.fromLeafHashes_root sha256 empty fileLength).symm.trans (rootOfHashes_top sha256 empty)
    exact singleton_inj.mp top

theorem reconstructTreeFromPieceLayer_eq (hashes : List (Hash β)) (fileLength : Nat) :
    reconstructTreeFromPieceLayer sha256 hashes =
      ((MerkleTree.fromLeafHashes sha256 hashes fileLength).layers,
        (MerkleTree.fromLeafHashes sha256 hashes fileLength).root) := by
  match hashes with
  | [] => rfl
  | [hash] => rfl
  | first :: second :: rest => rfl

section Sizes

theorem pieceLength_eq (large : blockSize ≤ pieceLength) (power : isPowerOfTwo pieceLength = true) :
    pieceLength = 2 ^ Nat.log 2 (pieceLength / blockSize) * blockSize := by
  obtain ⟨total, rfl⟩ := (isPowerOfTwo_iff (blockSize_pos.trans_le large)).mp power
  have size : blockSize = 2 ^ 14 := rfl
  have fits : 14 ≤ total := by
    rw [size] at large
    exact (Nat.pow_le_pow_iff_right (by decide)).mp large
  rw [size, Nat.pow_div fits (by decide), Nat.log_pow (by decide), ← Nat.pow_add, Nat.sub_add_cancel fits]

theorem blocks_bounds {length levels : Nat} (nonempty : 0 < length) :
    (length + blockSize - 1) / blockSize ≤
        (length + 2 ^ levels * blockSize - 1) / (2 ^ levels * blockSize) * 2 ^ levels ∧
      ((length + 2 ^ levels * blockSize - 1) / (2 ^ levels * blockSize) - 1) * 2 ^ levels <
        (length + blockSize - 1) / blockSize := by
  have positive : 0 < 2 ^ levels * blockSize := Nat.mul_pos (Nat.two_pow_pos levels) blockSize_pos
  have some := (@lt_ceil_iff 0 _ length positive).mpr (by omega)
  constructor
  · rw [ceil_le_iff blockSize_pos, Nat.mul_assoc, ← ceil_le_iff positive]
  · rw [lt_ceil_iff blockSize_pos, Nat.mul_assoc, ← lt_ceil_iff positive]
    omega

theorem clog_pieces {blocks pieces levels : Nat} (cover : blocks ≤ pieces * 2 ^ levels)
    (needed : (pieces - 1) * 2 ^ levels < blocks) : Nat.clog 2 pieces = Nat.clog 2 blocks - levels := by
  apply eq_of_forall_ge_iff
  intro height
  rw [Nat.clog_le_iff_le_pow (by decide), Nat.sub_le_iff_le_add, Nat.clog_le_iff_le_pow (by decide), Nat.pow_add]
  constructor
  · intro fits
    exact cover.trans (Nat.mul_le_mul_right _ fits)
  · intro fits
    have fewer := Nat.lt_of_mul_lt_mul_right (needed.trans_le fits)
    omega

theorem eq_pow_clog_iff {pieces : Nat} (positive : 0 < pieces) :
    pieces = 2 ^ clog 2 pieces ↔ isPowerOfTwo pieces = true := by
  rw [isPowerOfTwo_iff positive]
  constructor
  · intro full
    exact ⟨_, full⟩
  · rintro ⟨levels, rfl⟩
    rw [clog_pow 2 _ (by decide)]

end Sizes

section Layer

variable {leaves : List (Hash β)} {levels pieces : Nat}

/-- Past the pieces of the file, a layer holds roots of subtrees of zero hashes. -/
theorem layer_padLeaves (inside : levels ≤ clog 2 leaves.length) (cover : leaves.length ≤ pieces * 2 ^ levels) :
    layer (combine sha256) (padLeaves leaves) levels =
      (layer (combine sha256) (padLeaves leaves) levels).take pieces ++
        replicate (2 ^ (clog 2 leaves.length - levels) - pieces) (tower (combine sha256) zeroHash levels) := by
  have width : 2 ^ clog 2 leaves.length = 2 ^ (clog 2 leaves.length - levels) * 2 ^ levels := by
    rw [← Nat.pow_add, Nat.sub_add_cancel inside]
  have rest : (padLeaves leaves).drop (pieces * 2 ^ levels) =
      replicate ((2 ^ (clog 2 leaves.length - levels) - pieces) * 2 ^ levels) zeroHash := by
    rw [padLeaves, nextPowerOfTwo, drop_append, drop_eq_nil_of_le cover, nil_append, drop_replicate,
      width, Nat.sub_mul]
    congr 1
    omega
  have back := @layer_drop _ (combine sha256) (padLeaves leaves) levels pieces
  rw [rest, layer_replicate_mul] at back
  rw [back, take_append_drop]

/-- The root over a cut layer is the root of the file when the layer was full or the padding is the same. -/
theorem rootOfHashes_take (injective : Function.Injective sha256) (nonempty : leaves ≠ []) (positive : 0 < pieces)
    (inside : levels ≤ clog 2 leaves.length) (cover : leaves.length ≤ pieces * 2 ^ levels)
    (needed : (pieces - 1) * 2 ^ levels < leaves.length) :
    rootOfHashes sha256 ((layer (combine sha256) (padLeaves leaves) levels).take pieces) =
        rootOfHashes sha256 leaves ↔
      isPowerOfTwo pieces = true ∨ tower (combine sha256) zeroHash levels = (zeroHash : Hash β) := by
  have height := clog_pieces cover needed
  have fits : pieces ≤ 2 ^ (clog 2 leaves.length - levels) := by
    rw [← height]
    exact le_pow_clog (by decide) _
  have length := layer_length (combine sha256) (padLeaves leaves) _ (padLeaves_length leaves) inside
  have split := layer_padLeaves sha256 inside cover
  have top := rootOfHashes_top sha256 nonempty
  rw [← add_sub_of_le inside, ← layer_layer] at top
  generalize layer (combine sha256) (padLeaves leaves) levels = nodes at length split top ⊢
  have taken : (nodes.take pieces).length = pieces := by
    rw [length_take, length]
    omega
  have cut := rootOfHashes_top sha256 (ne_nil_of_length_pos (taken ▸ positive))
  have padded : padLeaves (nodes.take pieces) =
      nodes.take pieces ++ replicate (2 ^ (clog 2 leaves.length - levels) - pieces) zeroHash := by
    rw [padLeaves, nextPowerOfTwo, taken, height]
  rw [taken, height] at cut
  have roots : rootOfHashes sha256 (nodes.take pieces) = rootOfHashes sha256 leaves ↔
      padLeaves (nodes.take pieces) = nodes := by
    rw [← singleton_inj, ← cut, ← top]
    constructor
    · intro same
      refine layer_injective (combine_injective injective) ?_ ?_ (le_refl _) same
      · rw [padLeaves_length, taken, height]
      · rw [padLeaves_length, taken, height, length]
    · intro same
      rw [same]
  rw [roots, padded]
  nth_rewrite 2 [split]
  rw [append_cancel_left_eq, replicate_inj, ← eq_pow_clog_iff positive, height]
  constructor
  · rintro ⟨-, full | same⟩
    · exact .inl (by omega)
    · exact .inr same.symm
  · rintro (full | same)
    · exact ⟨rfl, .inl (by omega)⟩
    · exact ⟨rfl, .inr same.symm⟩

/-- An entry of a layer hashes the tree over its own leaves with roots of subtrees of zero hashes. -/
theorem layer_padLeaves_getElem? (inside : levels ≤ Nat.clog 2 leaves.length)
    (within : index * 2 ^ levels < leaves.length) :
    (layer (combine sha256) (padLeaves leaves) levels)[index]? =
      some (climb (combine sha256) 0 (rootOfHashes sha256 (slice leaves (index * 2 ^ levels) (2 ^ levels)))
        (padPath (combine sha256) zeroHash (Nat.clog 2 (slice leaves (index * 2 ^ levels) (2 ^ levels)).length)
          (levels - Nat.clog 2 (slice leaves (index * 2 ^ levels) (2 ^ levels)).length))) := by
  generalize partEq : slice leaves (index * 2 ^ levels) (2 ^ levels) = part
  have size : part.length = min (2 ^ levels) (leaves.length - index * 2 ^ levels) := by
    rw [← partEq, slice_length]
  have positive := Nat.two_pow_pos levels
  have room : (index + 1) * 2 ^ levels ≤ 2 ^ Nat.clog 2 leaves.length := by
    have covers : leaves.length ≤ 2 ^ Nat.clog 2 leaves.length := Nat.le_pow_clog (by decide) _
    rw [← Nat.sub_add_cancel inside, Nat.pow_add] at covers ⊢
    exact Nat.mul_le_mul_right _ (Nat.lt_of_mul_lt_mul_right (within.trans_le covers))
  rw [Nat.succ_mul] at room
  have low : Nat.clog 2 part.length ≤ levels := (Nat.clog_le_iff_le_pow (by decide)).mpr (by omega)
  have covers : part.length ≤ 2 ^ Nat.clog 2 part.length := Nat.le_pow_clog (by decide) _
  have fits : 2 ^ Nat.clog 2 part.length ≤ 2 ^ levels := Nat.pow_le_pow_right (by decide) low
  have cut : ((padLeaves leaves).drop (index * 2 ^ levels)).take (2 ^ levels) =
      padLeaves part ++ replicate (2 ^ levels - 2 ^ Nat.clog 2 part.length) zeroHash := by
    rw [padLeaves, drop_append_of_le_length within.le, take_append, take_replicate, length_drop,
      padLeaves, append_assoc, replicate_append_replicate, nextPowerOfTwo, nextPowerOfTwo, ← partEq]
    congr 2
    rw [partEq]
    omega
  have top := layer_pad (combine sha256) zeroHash (levels - Nat.clog 2 part.length) (padLeaves_length part)
    (rootOfHashes_top sha256 (ne_nil_of_length_pos (by omega)))
  rw [Nat.add_sub_cancel' low] at top
  exact getElem?_of_fold (cut ▸ top)

end Layer

namespace MerkleTree

omit [Zero β] in
theorem leaves_length (data : List β) :
    ((chunks blockSize data).map sha256).length = (data.length + blockSize - 1) / blockSize := by
  rw [length_map, chunks_length]

variable {data : List β}

omit [Zero β] in
theorem leaves_ne_nil (nonempty : data ≠ []) : (chunks blockSize data).map sha256 ≠ [] := by
  rw [chunks_cons blockSize_pos nonempty]
  exact cons_ne_nil _ _

theorem fromLeafHashes_fileLength (leaves : List (Hash β)) (fileLength : Nat) :
    (fromLeafHashes sha256 leaves fileLength).fileLength = fileLength := by
  match leaves with
  | [] => rfl
  | [leaf] => rfl
  | first :: second :: rest => rfl

variable {leaves : List (Hash β)}

section PieceLength

variable (large : blockSize ≤ pieceLength) (power : isPowerOfTwo pieceLength = true)
include large power

theorem fromLeafHashes_pieceLayer {fileLength : Nat} (nonempty : leaves ≠ []) :
    (fromLeafHashes sha256 leaves fileLength).pieceLayer pieceLength =
      .ok (if log 2 (pieceLength / blockSize) ≤ clog 2 leaves.length then
          (layer (combine sha256) (padLeaves leaves) (log 2 (pieceLength / blockSize))).take
            ((fileLength + pieceLength - 1) / pieceLength)
        else [rootOfHashes sha256 leaves]) := by
  have valid : ¬(pieceLength < blockSize ∨ (!isPowerOfTwo pieceLength) = true) := by
    rw [power]
    simpa using large
  rw [pieceLayer, if_neg valid]
  dsimp only
  rw [fromLeafHashes_layers_getElem? sha256 nonempty]
  by_cases inside : log 2 (pieceLength / blockSize) ≤ clog 2 leaves.length
  · simp only [if_pos inside, fromLeafHashes_fileLength]
    exact congrArg _ (take_eq_take_iff.mpr (by omega))
  · simp only [if_neg inside, fromLeafHashes_root_eq]

section Entry

variable (long : pieceLength < data.length) (inside : index * pieceLength < data.length)
  (leavesEq : leaves = (chunks blockSize (slice data (index * pieceLength) pieceLength)).map sha256)
include long inside leavesEq

theorem pieceLayer_getElem? :
    ∃ hashes, (fromBytes sha256 data).pieceLayer pieceLength = .ok hashes ∧
      hashes[index]? = some (climb (combine sha256) 0 (rootOfHashes sha256 leaves)
        (padPath (combine sha256) zeroHash (Nat.clog 2 leaves.length)
          (Nat.log 2 (pieceLength / blockSize) - Nat.clog 2 leaves.length))) := by
  have size := pieceLength_eq large power
  generalize levelsEq : Nat.log 2 (pieceLength / blockSize) = levels at size ⊢
  have nonempty : data ≠ [] := ne_nil_of_length_pos (by omega)
  have count := leaves_length sha256 data
  have within : index * 2 ^ levels < ((chunks blockSize data).map sha256).length := by
    rw [count, lt_ceil_iff blockSize_pos, Nat.mul_assoc, ← size]
    exact inside
  have tall : levels ≤ Nat.clog 2 ((chunks blockSize data).map sha256).length := by
    rw [size, ← lt_ceil_iff blockSize_pos, ← count] at long
    exact ((Nat.lt_clog_iff_pow_lt (by decide)).mpr long).le
  have part : leaves = slice ((chunks blockSize data).map sha256) (index * 2 ^ levels) (2 ^ levels) := by
    rw [leavesEq, size, ← Nat.mul_assoc, chunks_slice blockSize_pos, slice, slice, map_take,
      map_drop]
  rw [fromBytes_eq sha256 nonempty, fromLeafHashes_pieceLayer sha256 large power (leaves_ne_nil sha256 nonempty),
    levelsEq, if_pos tall]
  refine ⟨_, rfl, ?_⟩
  have pieces := (lt_ceil_iff (blockSize_pos.trans_le large)).mpr inside
  rw [getElem?_take_of_lt pieces, layer_padLeaves_getElem? sha256 tall within, part]

/-- The root over the blocks of a piece is its entry when the blocks need the whole height of a
piece, and only then if no hash stands below itself. -/
theorem pieceLayer_entry :
    ∃ hashes entry, (fromBytes sha256 data).pieceLayer pieceLength = .ok hashes ∧ hashes[index]? = some entry ∧
      (nextPowerOfTwo leaves.length = pieceLength / blockSize → rootOfHashes sha256 leaves = entry) ∧
      (Acyclic (combine sha256) → rootOfHashes sha256 leaves = entry →
        nextPowerOfTwo leaves.length = pieceLength / blockSize) := by
  obtain ⟨hashes, known, entry⟩ := pieceLayer_getElem? sha256 large power long inside leavesEq
  have size := pieceLength_eq large power
  have width : pieceLength / blockSize = 2 ^ log 2 (pieceLength / blockSize) :=
    Nat.div_eq_of_eq_mul_left blockSize_pos size
  refine ⟨hashes, _, known, entry, ?_, ?_⟩
  · intro full
    rw [width, nextPowerOfTwo] at full
    rw [Nat.pow_right_injective (Nat.le_refl 2) full, Nat.sub_self]
    rfl
  · intro acyclic same
    have flat : log 2 (pieceLength / blockSize) - clog 2 leaves.length = 0 := by
      by_contra tall
      have path : padPath (combine sha256) zeroHash (clog 2 leaves.length)
          (log 2 (pieceLength / blockSize) - clog 2 leaves.length) ≠ [] := by
        simpa [padPath] using tall
      have cycle := @climb_above _ (combine sha256) _ path 0 (rootOfHashes sha256 leaves)
      rw [← same] at cycle
      exact acyclic _ cycle
    have few : leaves.length ≤ 2 ^ log 2 (pieceLength / blockSize) := by
      rw [leavesEq, length_map, chunks_length, slice_length]
      nth_rewrite 1 [size]
      rw [ceil_min blockSize_pos]
      exact min_le_left _ _
    have low := (clog_le_iff_le_pow (b := 2) (by decide)).mpr few
    rw [width, nextPowerOfTwo]
    congr 1
    omega

end Entry

theorem rootOfHashes_pieceLayer (injective : Function.Injective sha256) (nonempty : data ≠ []) :
    ∃ hashes, (fromBytes sha256 data).pieceLayer pieceLength = .ok hashes ∧
      (rootOfHashes sha256 hashes = (fromBytes sha256 data).root ↔
        isPowerOfTwo ((data.length + pieceLength - 1) / pieceLength) = true ∨
          tower (combine sha256) zeroHash (log 2 (pieceLength / blockSize)) = (zeroHash : Hash β)) := by
  have size := pieceLength_eq large power
  generalize levelsEq : log 2 (pieceLength / blockSize) = levels at size ⊢
  have bytes := length_pos_of_ne_nil nonempty
  have count := leaves_length sha256 data
  have bounds := @blocks_bounds data.length levels bytes
  rw [← size, ← count] at bounds
  obtain ⟨cover, needed⟩ := bounds
  have positive : 0 < (data.length + pieceLength - 1) / pieceLength :=
    div_pos (by omega) (blockSize_pos.trans_le large)
  have leaves := leaves_ne_nil sha256 nonempty
  rw [fromBytes_eq sha256 nonempty, fromLeafHashes_pieceLayer sha256 large power leaves, levelsEq,
    fromLeafHashes_root_eq]
  refine ⟨_, rfl, ?_⟩
  by_cases inside : levels ≤ clog 2 ((chunks blockSize data).map sha256).length
  · rw [if_pos inside]
    exact rootOfHashes_take sha256 injective leaves positive inside cover needed
  · -- the whole file fits below the piece layer, which is then its root
    have fits := le_pow_clog (b := 2) (by decide) ((chunks blockSize data).map sha256).length
    have wide := Nat.pow_lt_pow_right (a := 2) (by decide) (Nat.lt_of_not_le inside)
    have single : (data.length + pieceLength - 1) / pieceLength - 1 < 1 :=
      Nat.lt_of_mul_lt_mul_right (a := 2 ^ levels) (by omega)
    have one : (data.length + pieceLength - 1) / pieceLength = 1 := by omega
    rw [if_neg inside, one]
    exact iff_of_true rfl (.inl rfl)

end PieceLength

/-- The root computed from a piece layer is the root of the file exactly when the pieces need no
padding or the padding is the same at both levels. -/
theorem pieceLayer_root_iff (injective : Function.Injective sha256) {data : List β} {pieceLength : Nat}
    (nonempty : data ≠ []) (large : blockSize ≤ pieceLength) (power : isPowerOfTwo pieceLength = true) :
    ∃ hashes, (fromBytes sha256 data).pieceLayer pieceLength = .ok hashes ∧
      (computeRootFromPieceHashes sha256 hashes = (fromBytes sha256 data).root ∧
          (reconstructTreeFromPieceLayer sha256 hashes).2 = (fromBytes sha256 data).root ↔
        isPowerOfTwo ((data.length + pieceLength - 1) / pieceLength) = true ∨
          tower (combine sha256) zeroHash (log 2 (pieceLength / blockSize)) = (zeroHash : Hash β)) := by
  obtain ⟨hashes, known, exact⟩ := rootOfHashes_pieceLayer sha256 large power injective nonempty
  refine ⟨hashes, known, ?_⟩
  rw [reconstructTreeFromPieceLayer_eq sha256 hashes 0, fromLeafHashes_root_eq, computeRootFromPieceHashes, and_self]
  exact exact

/-- Four pieces of two blocks. -/
theorem pieceLayer_root_four_pieces :
    ∃ hashes, (fromBytes idealSha256 (replicate 131072 0)).pieceLayer 32768 = .ok hashes ∧
      computeRootFromPieceHashes idealSha256 hashes = (fromBytes idealSha256 (replicate 131072 0)).root := by
  have nonempty : replicate 131072 0 ≠ [] := ne_nil_of_length_pos (by rw [length_replicate]; decide)
  obtain ⟨hashes, known, exact⟩ := pieceLayer_root_iff idealSha256 idealSha256_injective nonempty
    (show blockSize ≤ 32768 by decide) (by decide)
  refine ⟨hashes, known, (exact.mpr (.inl ?_)).1⟩
  rw [length_replicate]
  decide

/-- Three pieces of two blocks, the last of them half full. -/
theorem pieceLayer_root_five_blocks :
    ∃ hashes, (fromBytes idealSha256 (replicate 81920 0)).pieceLayer 32768 = .ok hashes ∧
      ¬computeRootFromPieceHashes idealSha256 hashes = (fromBytes idealSha256 (replicate 81920 0)).root := by
  have nonempty : replicate 81920 0 ≠ [] := ne_nil_of_length_pos (by rw [length_replicate]; decide)
  obtain ⟨hashes, known, exact⟩ :=
    rootOfHashes_pieceLayer idealSha256 (show blockSize ≤ 32768 by decide) (by decide) idealSha256_injective nonempty
  refine ⟨hashes, known, ?_⟩
  rw [computeRootFromPieceHashes, exact, length_replicate]
  rintro (three | zero)
  · exact absurd three (by decide)
  · -- the zero hash is the hash of no bytes at all, never that of two zero hashes
    have level : log 2 (32768 / blockSize) = 1 := by decide +kernel
    rw [level, tower_succ] at zero
    have bytes := idealSha256_injective (zero.trans (show zeroHash = idealSha256 [] from rfl))
    exact absurd (congrArg length bytes) (by decide)

end MerkleTree

end BitTorrent
