import BitTorrent.Core.MerkleProofs
import BitTorrent.Core.V2Verification
import Mathlib.Logic.Encodable.Basic
import Mathlib.Logic.Equiv.List

/-! # What an accepted `hashes` message proves

`verify_hashes_response` folds the base hashes and then the uncles up to the root.
How many levels that climbs is decided by the payload alone, so an accepted payload
pins its base hashes to a layer only when the named layer, the length and the number
of uncles add up to the height of the tree.
-/

namespace BitTorrent

open HashTree MerkleTree List Chunks

variable {β : Type} {sha256 : List β → Hash β}

variable {hashesData : List β}
  {proofLayers length baseLayer index uncles fileLength : Nat} {hashes leaves : List (Hash β)} {root : Hash β}

private theorem payload_lengths (size : hashesData.length = (length + uncles) * 32) :
    (chunksExact 32 (hashesData.take (length * 32))).length = length ∧
      (chunksExact 32 (hashesData.drop (length * 32))).length = uncles := by
  simp only [chunksExact_length, length_take, length_drop, size]
  omega

theorem payload_parts (base uncles : List (Hash β)) :
    chunksExact 32 (((base ++ uncles).flatMap List.Vector.toList).take (base.length * 32)) = base ∧
      chunksExact 32 (((base ++ uncles).flatMap List.Vector.toList).drop (base.length * 32)) = uncles := by
  have size := flatMap_toList_length base
  rw [flatMap_append, take_left' size, drop_left' size, flatMap_def, flatMap_def,
    chunksExact_flatten (by decide), chunksExact_flatten (by decide)]
  exact ⟨rfl, rfl⟩

/-- The payload of a uniform answer: `length` copies of one digest and the uncles it needs. -/
private def uniformPayload (sha256 : List β → Hash β) (base : Hash β) (levels uncles : Nat) : List β :=
  ((replicate (2 ^ levels) base ++
    towerPath (combine sha256) (tower (combine sha256) base levels) uncles).map
      List.Vector.toList).flatten

private theorem uniformPayload_length (base : Hash β) (levels uncles : Nat) :
    (uniformPayload sha256 base levels uncles).length = (2 ^ levels + uncles) * 32 := by
  rw [uniformPayload, ← flatMap_def, flatMap_toList_length]
  simp

private theorem uniformTree_nonempty (leaf : Hash β) (height : Nat) : replicate (2 ^ height) leaf ≠ [] := by
  simp

variable [Zero β]

variable (sha256)

/-- A tree of `2 ^ height` equal leaves: its root is the top of the tower over its leaf. -/
private theorem uniformTree_root (leaf : Hash β) (height fileLength : Nat) :
    (fromLeafHashes sha256 (replicate (2 ^ height) leaf) fileLength).root =
      tower (combine sha256) leaf height := by
  have full : (replicate (2 ^ height) leaf).length = 2 ^ height := length_replicate
  have top := fromLeafHashes_root sha256 (uniformTree_nonempty leaf height) fileLength
  rw [padLeaves_full full, full, Nat.clog_pow 2 height (by decide), layer_replicate _ _ _ (Nat.le_refl _),
    Nat.sub_self, Nat.pow_zero, replicate_one, cons.injEq] at top
  exact top.1.symm

private theorem uniformTree_layers_getElem? (leaf : Hash β) (height fileLength level : Nat) :
    (fromLeafHashes sha256 (replicate (2 ^ height) leaf) fileLength).layers[level]? =
      if level ≤ height then
        some (replicate (2 ^ (height - level)) (tower (combine sha256) leaf level))
      else none := by
  have full : (replicate (2 ^ height) leaf).length = 2 ^ height := length_replicate
  rw [fromLeafHashes_layers_getElem? sha256 (uniformTree_nonempty leaf height), full,
    Nat.clog_pow 2 height (by decide)]
  split
  · rw [padLeaves_full full, layer_replicate _ _ _ (by assumption)]
  · rfl

private theorem uniformTree_height (leaf : Hash β) (height fileLength : Nat) :
    (fromLeafHashes sha256 (replicate (2 ^ height) leaf) fileLength).layers.length =
      height + 1 := by
  rw [fromLeafHashes_layers sha256 (uniformTree_nonempty leaf height), length_map,
    length_range, length_replicate, Nat.clog_pow 2 height (by decide)]

/-- The checks of `verify_hashes_response` that do not look at the payload. -/
def HashesHeader (index length : Nat) : Prop :=
  2 ≤ length ∧ isPowerOfTwo length ∧ index % length = 0

instance (index length : Nat) : Decidable (HashesHeader index length) :=
  inferInstanceAs (Decidable (2 ≤ length ∧ isPowerOfTwo length ∧ index % length = 0))

variable [DecidableEq β] [ByteValue β]

/-- An accepted payload is the base hashes followed by the uncles, and hashing up the
former and then climbing along the latter gives the root. -/
theorem verifyHashesResponse_eq_ok_iff
    :
    verifyHashesResponse sha256 root baseLayer index length proofLayers hashesData = .ok hashes ↔
      HashesHeader index length ∧ length * 32 ≤ hashesData.length ∧ hashesData.length % 32 = 0 ∧
      hashes = chunksExact 32 (hashesData.take (length * 32)) ∧
      climb (combine sha256) (index / length)
        ((reduce (combine sha256) hashes.length hashes).headD zeroHash)
        (chunksExact 32 (hashesData.drop (length * 32))) = root := by
  unfold verifyHashesResponse HashesHeader
  split
  case isTrue malformed =>
    simp only [reduceCtorEq, false_iff]
    rintro ⟨⟨big, power, -⟩, -⟩
    rcases malformed with small | notPower
    · omega
    · simp [power] at notPower
  case isFalse wellFormed =>
    simp only [not_or, not_lt, Bool.not_eq_true'] at wellFormed
    split
    case isTrue unaligned =>
      simp only [reduceCtorEq, false_iff]
      rintro ⟨⟨-, -, aligned⟩, -⟩
      exact unaligned aligned
    case isFalse aligned =>
      split
      case isTrue badLength =>
        simp only [reduceCtorEq, false_iff]
        rintro ⟨-, enough, whole, -⟩
        omega
      case isFalse goodLength =>
        simp only [ne_eq, not_not] at aligned
        constructor
        · intro accepted
          dsimp only at accepted
          split at accepted
          · simp only [Except.ok.injEq] at accepted
            subst accepted
            refine ⟨⟨wellFormed.1, by simpa using wellFormed.2, aligned⟩, by omega, by omega, rfl, ?_⟩
            assumption
          · cases accepted
        · rintro ⟨-, -, -, rfl, climbed⟩
          exact if_pos climbed

/-- The property an accepted answer should have: the base hashes are the named part of
the named layer. -/
def DeliversLayer (tree : MerkleTree β) (baseLayer index length proofLayers : Nat) (hashesData : List β) : Prop :=
  ∀ hashes, verifyHashesResponse sha256 tree.root baseLayer index length proofLayers hashesData =
      .ok hashes →
    ∃ layer, tree.layers[baseLayer]? = some layer ∧ index + length ≤ layer.length ∧
      hashes = slice layer index length

/-- An answer for layer 0 leaves a cache entry from which `verify_v2_block` takes the true
leaf hash of every block the entry covers. -/
def CachesTrueLeaves (tree : MerkleTree β) (index length proofLayers : Nat) (hashesData : List β) : Prop :=
  ∀ v2 v2' hashes, handleHashesResponse sha256 v2 tree.root 0 index length proofLayers hashesData =
      .ok (v2', hashes) →
    ∃ entry ∈ v2'.verifiedV2Hashes, entry.1 = (tree.root, 0, index) ∧
      ∀ block, index ≤ block → block < index + length → block < tree.numBlocks →
        entryLeaf tree.root block entry = tree.blockHash block

theorem handleHashesResponse_eq_ok {v2 v2' : V2State β}
    (handled : handleHashesResponse sha256 v2 root baseLayer index length proofLayers hashesData =
      .ok (v2', hashes)) :
    verifyHashesResponse sha256 root baseLayer index length proofLayers hashesData = .ok hashes ∧
      ((root, baseLayer, index), hashes) ∈ v2'.verifiedV2Hashes := by
  unfold handleHashesResponse at handled
  cases verified : verifyHashesResponse sha256 root baseLayer index length proofLayers hashesData with
  | error reason => simp [verified, bind, Except.bind] at handled
  | ok found =>
    simp only [verified, bind, Except.bind, pure, Except.pure, Except.ok.injEq, Prod.mk.injEq] at handled
    obtain ⟨rfl, rfl⟩ := handled
    exact ⟨rfl, mem_cons_self⟩

theorem cachesTrueLeaves_of_deliversLayer
    (delivers : DeliversLayer sha256 (fromLeafHashes sha256 leaves fileLength) 0 index
      length proofLayers hashesData) :
    CachesTrueLeaves sha256 (fromLeafHashes sha256 leaves fileLength) index length
      proofLayers hashesData := by
  intro v2 v2' hashes handled
  obtain ⟨verified, cached⟩ := handleHashesResponse_eq_ok sha256 handled
  obtain ⟨leafLayer, found, room, rfl⟩ := delivers hashes verified
  refine ⟨_, cached, rfl, ?_⟩
  intro block above below real
  have head : (fromLeafHashes sha256 leaves fileLength).layers.head? = some leafLayer := by
    rw [head?_eq_getElem?, found]
  rw [blockHash, if_pos real, head, entryLeaf, if_pos ⟨rfl, rfl, above⟩, Option.bind_some,
    slice, getElem?_take_of_lt (by omega), getElem?_drop]
  congr 1
  omega

section Shape

variable {sha256}

/-- When the levels of the answer add up to the height of the tree and the named range
lies in the named layer, an accepted answer is that range. -/
theorem deliversLayer_of_shape (injective : Function.Injective sha256) {height : Nat}
    (tall : (fromLeafHashes sha256 leaves fileLength).layers.length = height + 1)
    (size : hashesData.length = (length + uncles) * 32) (levelsEq : baseLayer + Nat.log 2 length + uncles = height)
    (room : index + length ≤ 2 ^ (height - baseLayer)) :
    DeliversLayer sha256 (fromLeafHashes sha256 leaves fileLength) baseLayer index length
      proofLayers hashesData := by
  intro hashes verified
  obtain ⟨nonempty, rfl⟩ := fromLeafHashes_height sha256 tall
  obtain ⟨⟨big, power, aligned⟩, -, -, hashesEq, climbed⟩ := (verifyHashesResponse_eq_ok_iff sha256).mp verified
  obtain ⟨levels, rfl⟩ := (isPowerOfTwo_iff (by omega)).mp power
  obtain ⟨baseLength, uncleLength⟩ := payload_lengths size
  rw [← hashesEq] at baseLength
  rw [Nat.log_pow (by decide)] at levelsEq
  have full := padLeaves_length leaves
  have top := fromLeafHashes_root sha256 nonempty fileLength
  have widthEq : 2 ^ (Nat.clog 2 leaves.length - baseLayer) = 2 ^ levels * 2 ^ uncles := by
    rw [← Nat.pow_add]
    congr 1
    omega
  have indexEq : index / 2 ^ levels * 2 ^ levels = index := Nat.div_mul_cancel (Nat.dvd_of_mod_eq_zero aligned)
  have small : index / 2 ^ levels < 2 ^ uncles := by
    exact Nat.div_lt_of_lt_mul (by omega)
  have pinned := climb_sound (combine_injective injective) full top (by omega) climbed
  rw [uncleLength, Nat.mod_eq_of_lt small,
    show Nat.clog 2 leaves.length - uncles = baseLayer + levels by omega] at pinned
  have slice := fold_sound (combine_injective injective) full (by omega) baseLength
    (reduce_top baseLength) pinned
  rw [indexEq] at slice
  refine ⟨_, ?_, ?_, slice⟩
  · rw [fromLeafHashes_layers_getElem? sha256 nonempty, if_pos (by omega)]
  · rwa [layer_length _ _ _ full (by omega)]

/-- Whatever layer the message names, a uniform answer is accepted for the root that it
hashes up to. -/
private theorem uniformPayload_accepted (base : Hash β) (baseLayer proofLayers : Nat)
    {index length levels : Nat} (uncles : Nat) (header : HashesHeader index length) (power : length = 2 ^ levels) :
    verifyHashesResponse sha256 (tower (combine sha256) base (levels + uncles)) baseLayer index length
      proofLayers (uniformPayload sha256 base levels uncles) =
      .ok (replicate length base) := by
  subst length
  have size := @uniformPayload_length _ sha256 base levels uncles
  obtain ⟨baseHashes, uncleHashes⟩ := payload_parts (replicate (2 ^ levels) base)
    (towerPath (combine sha256) (tower (combine sha256) base levels) uncles)
  rw [length_replicate, flatMap_def, ← uniformPayload] at baseHashes uncleHashes
  have folded := layer_replicate (combine sha256) base levels (Nat.le_refl _)
  rw [reduce_top (length_replicate ..), Nat.sub_self, Nat.pow_zero, replicate_one, cons.injEq] at folded
  refine (verifyHashesResponse_eq_ok_iff sha256).mpr
    ⟨header, by rw [size]; omega, by rw [size]; omega, baseHashes.symm, ?_⟩
  rw [uncleHashes, folded.1, climb_towerPath, tower_add]

omit [Zero β] [DecidableEq β] [ByteValue β] in
private theorem oneUncle_payload (base : Hash β) :
    uniformPayload sha256 base 1 1 = base.toList ++ base.toList ++ (combine sha256 base base).toList := by
  simp [uniformPayload, towerPath, tower, List.replicate_succ]

private theorem innerNodes_accepted (leaf : Hash β) (baseLayer proofLayers fileLength : Nat) :
    verifyHashesResponse sha256
      (fromLeafHashes sha256 (replicate 4 leaf) fileLength).root baseLayer 0 2 proofLayers
      ((combine sha256 leaf leaf).toList ++ (combine sha256 leaf leaf).toList) =
      .ok [combine sha256 leaf leaf, combine sha256 leaf leaf] := by
  have uniform := @uniformPayload_accepted _ sha256 _ _ _ (tower (combine sha256) leaf 1) baseLayer
    proofLayers 0 2 1 0 (by decide) rfl
  have payload (base : Hash β) : uniformPayload sha256 base 1 0 = base.toList ++ base.toList := by
    simp [uniformPayload, towerPath, List.replicate_succ]
  rw [tower_add, payload, ← uniformTree_root sha256 leaf 2 fileLength] at uniform
  exact uniform

/-- If every accepted answer of a shape delivers the layer it names, the shape is right:
otherwise a uniform tree and a uniform answer with the same root disagree. -/
theorem shape_of_deliversLayer (acyclic : Acyclic (combine sha256)) {height : Nat} (header : HashesHeader index length)
    (delivers : ∀ leaves fileLength hashesData,
      (fromLeafHashes sha256 leaves fileLength).layers.length = height + 1 →
      hashesData.length = (length + uncles) * 32 →
      DeliversLayer sha256 (fromLeafHashes sha256 leaves fileLength) baseLayer index
        length proofLayers hashesData) :
    baseLayer + Nat.log 2 length + uncles = height ∧ index + length ≤ 2 ^ (height - baseLayer) := by
  have big : 2 ≤ length := header.1
  obtain ⟨levels, power⟩ := (isPowerOfTwo_iff (by omega)).mp header.2.1
  -- The leaf of the tree stands `depth` above the zero hash, the base of the answer `rise`.
  set depth := levels + uncles - height with depthDef
  set rise := height - (levels + uncles) with riseDef
  have heights : depth + height = rise + (levels + uncles) := by omega
  have rootEq := uniformTree_root sha256 (tower (combine sha256) zeroHash depth) height 0
  have accepted := @uniformPayload_accepted _ sha256 _ _ _ (tower (combine sha256) zeroHash rise) baseLayer
    proofLayers index length levels uncles header power
  rw [tower_add, heights, ← tower_add] at rootEq
  rw [← rootEq] at accepted
  obtain ⟨found, foundEq, room, slice⟩ := delivers _ 0 _ (uniformTree_height sha256 _ height 0)
    (by rw [uniformPayload_length, power]) _ accepted
  rw [uniformTree_layers_getElem?] at foundEq
  obtain ⟨inside, foundEq⟩ := Option.ite_none_right_eq_some.mp foundEq
  rw [Option.some.injEq] at foundEq
  subst found
  rw [length_replicate] at room
  have first := congrArg (fun hashes => hashes[0]?) slice
  simp only [Chunks.slice, drop_replicate, take_replicate, getElem?_replicate] at first
  rw [if_pos (by omega), if_pos (by omega), Option.some.injEq, tower_add] at first
  have same := tower_injective acyclic (zeroHash : Hash β) first
  refine ⟨?_, room⟩
  rw [power, Nat.log_pow (by decide)]
  omega

/-- Exactly which shapes of answer prove what they name.  The tree has `height + 1`
layers, the payload `length` base hashes and `uncles` uncles. -/
theorem verifyHashesResponse_sound_iff (injective : Function.Injective sha256)
    (acyclic : Acyclic (combine sha256)) (height baseLayer index length proofLayers uncles : Nat) :
    (∀ leaves fileLength hashesData,
      (fromLeafHashes sha256 leaves fileLength).layers.length = height + 1 →
      hashesData.length = (length + uncles) * 32 →
      DeliversLayer sha256 (fromLeafHashes sha256 leaves fileLength) baseLayer index
          length proofLayers hashesData ∧
        (baseLayer = 0 → CachesTrueLeaves sha256
          (fromLeafHashes sha256 leaves fileLength) index length proofLayers hashesData)) ↔
      (HashesHeader index length →
        baseLayer + Nat.log 2 length + uncles = height ∧
          index + length ≤ 2 ^ (height - baseLayer)) := by
  constructor
  · intro sound header
    exact shape_of_deliversLayer acyclic header fun leaves fileLength hashesData tall size =>
      (sound leaves fileLength hashesData tall size).1
  · intro shape leaves fileLength hashesData tall size
    have delivers : DeliversLayer sha256 (fromLeafHashes sha256 leaves fileLength) baseLayer
        index length proofLayers hashesData := by
      intro hashes verified
      have header := ((verifyHashesResponse_eq_ok_iff sha256).mp verified).1
      obtain ⟨levelsEq, room⟩ := shape header
      exact deliversLayer_of_shape injective tall size levelsEq room hashes verified
    refine ⟨delivers, ?_⟩
    rintro rfl
    exact cachesTrueLeaves_of_deliversLayer sha256 delivers

end Shape

/-- The last two leaf hashes of a four-leaf tree with one uncle are accepted, and are the layer. -/
theorem verifyHashesResponse_sound_one_uncle :
    verifyHashesResponse idealSha256
        (fromLeafHashes idealSha256 (replicate 4 zeroHash) 65536).root 0 2 2 1
        (zeroHash.toList ++ zeroHash.toList ++ (combine idealSha256 zeroHash zeroHash).toList) =
        .ok [zeroHash, zeroHash] ∧
      DeliversLayer idealSha256 (fromLeafHashes idealSha256 (replicate 4 zeroHash) 65536) 0 2 2 1
        (zeroHash.toList ++ zeroHash.toList ++ (combine idealSha256 zeroHash zeroHash).toList) := by
  have shape := verifyHashesResponse_sound_iff idealSha256_injective idealSha256_acyclic 2 0 2 2 1 1
  have log : Nat.log 2 2 = 1 := Nat.log_pow (by decide) 1
  have tall := uniformTree_height idealSha256 zeroHash 2 65536
  constructor
  · have uniform := @uniformPayload_accepted _ idealSha256 _ _ _ zeroHash 0 1 2 2 1 1 (by decide) rfl
    rw [oneUncle_payload, ← uniformTree_root idealSha256 zeroHash 2 65536] at uniform
    exact uniform
  · refine (shape.mpr ?_ (replicate 4 zeroHash) 65536 _ tall ?_).1
    · intro _
      exact ⟨by rw [log], by decide⟩
    · simp only [length_append, List.Vector.toList_length]

/-- Two nodes of layer 1 of a four-leaf tree, sent as the first two leaf hashes, are accepted
and cached as leaf hashes. -/
theorem verifyHashesResponse_accepts_inner_nodes :
    verifyHashesResponse idealSha256
        (fromLeafHashes idealSha256 (replicate 4 zeroHash) 65536).root 0 0 2 0
        ((combine idealSha256 zeroHash zeroHash).toList ++
          (combine idealSha256 zeroHash zeroHash).toList) =
        .ok [combine idealSha256 zeroHash zeroHash, combine idealSha256 zeroHash zeroHash] ∧
      ¬ DeliversLayer idealSha256
        (fromLeafHashes idealSha256 (replicate 4 zeroHash) 65536) 0 0 2 0
        ((combine idealSha256 zeroHash zeroHash).toList ++
          (combine idealSha256 zeroHash zeroHash).toList) := by
  have accepted := @innerNodes_accepted _ idealSha256 _ _ _ zeroHash 0 0 65536
  refine ⟨accepted, ?_⟩
  intro delivers
  obtain ⟨found, foundEq, -, slice⟩ := delivers _ accepted
  have leaves := uniformTree_layers_getElem? idealSha256 zeroHash 2 65536 0
  rw [if_pos (Nat.zero_le 2)] at leaves
  obtain rfl := Option.some.inj (foundEq.symm.trans leaves)
  have same : tower (combine idealSha256) zeroHash 1 = tower (combine idealSha256) zeroHash 0 :=
    (cons.inj slice).1
  exact absurd (tower_injective idealSha256_acyclic _ same) (by decide)

end BitTorrent
