import BitTorrent.Core.PieceLayers
import BitTorrent.Storage.CacheRead

/-! # The verification pool

`storage/verification_pool.rs`.  A worker runs one job at a time, so a job is a function of the job
and of the state of the storage that it reads.  As for Merkle trees the type of bytes is a parameter.
-/

namespace BitTorrent.VerificationPool

open HashTree FlatStore List Chunks

structure PieceVerificationJob (β σ : Type) where
  pieceNumber : Nat
  pieceLength : Nat
  pieceOffset : Nat
  expectedV1Hash : Option (List.Vector β 20)
  expectedV2Root : Option (Hash β)
  storage : Option σ
  directBuffer : Option (List β)
  blockSources : BlockSources

structure PieceVerificationResult (β : Type) where
  pieceNumber : Nat
  pieceLength : Nat
  pieceOffset : Nat
  isValid : Bool
  actualV1Hash : Option (List.Vector β 20)
  expectedV1Hash : Option (List.Vector β 20)
  actualV2Root : Option (Hash β)
  expectedV2Root : Option (Hash β)
  blockSources : BlockSources
  error : Option String

section Jobs

variable {β σ : Type} [Zero β] (sha1 : List β → List.Vector β 20) (sha256 : List β → Hash β)
  (readBlock : σ → Nat → List β → σ × Result (Nat × List β))

def computeMerkleRootFromLeaves (leaves : List (Hash β)) : Hash β := rootOfHashes sha256 leaves

def computeV2PieceMerkleRoot (data : List β) : Hash β :=
  if data.isEmpty then zeroHash
  else computeMerkleRootFromLeaves sha256 ((chunks blockSize data).map sha256)

/-- The loop that reads a piece block by block.  Both hashers are there only when a hash of their
kind is expected, and `tempBuf` keeps what earlier reads left in it. -/
def streamBlocks (state : σ) (readOffset remaining : Nat) (tempBuf : List β) (v1Hasher : Option (List β))
    (v2LeafHashes : Option (List (Hash β))) : σ × Except String (Option (List β) × Option (List (Hash β))) :=
  if remaining = 0 then (state, .ok (v1Hasher, v2LeafHashes))
  else
    let toRead := min remaining blockSize
    match readBlock state readOffset (tempBuf.take toRead) with
    | (after, .ok (count, bytes)) =>
      if count = toRead then
        streamBlocks after (readOffset + toRead) (remaining - toRead) (bytes ++ tempBuf.drop toRead)
          (v1Hasher.map (· ++ bytes)) (v2LeafHashes.map (· ++ [sha256 bytes]))
      else (after, .error s!"Short read from storage: expected {toRead} bytes, got {count}")
    | (after, .error reason) => (after, .error ("Storage read error: " ++ reason.display))
termination_by remaining
decreasing_by
  have := blockSize_pos
  omega

/-- A hash that was computed is the one that was expected. -/
def hashMatches {α : Type} [DecidableEq α] (actual expected : Option α) : Bool :=
  match actual, expected with
  | some actual, some expected => decide (actual = expected)
  | _, _ => true

namespace PieceVerificationJob

variable [DecidableEq β] (job : PieceVerificationJob β σ)

def result (actualV1Hash : Option (List.Vector β 20)) (actualV2Root : Option (Hash β)) (error : Option String) :
    PieceVerificationResult β where
  pieceNumber := job.pieceNumber
  pieceLength := job.pieceLength
  pieceOffset := job.pieceOffset
  isValid := error.isNone && hashMatches actualV1Hash job.expectedV1Hash && hashMatches actualV2Root job.expectedV2Root
  actualV1Hash
  expectedV1Hash := job.expectedV1Hash
  actualV2Root
  expectedV2Root := job.expectedV2Root
  blockSources := job.blockSources
  error

def executeVerificationJob : Option σ × PieceVerificationResult β :=
  match job.directBuffer with
  | some buffer =>
    let slice := buffer.take (min job.pieceLength buffer.length)
    (job.storage, job.result (job.expectedV1Hash.map fun _ => sha1 slice)
      (job.expectedV2Root.map fun _ => computeV2PieceMerkleRoot sha256 slice) none)
  | none =>
    match job.storage with
    | some state =>
      match streamBlocks sha256 readBlock state job.pieceOffset job.pieceLength (replicate blockSize 0)
          (job.expectedV1Hash.map fun _ => []) (job.expectedV2Root.map fun _ => []) with
      | (after, .ok (v1Hasher, v2LeafHashes)) =>
        (some after, job.result (v1Hasher.map sha1) (v2LeafHashes.map (computeMerkleRootFromLeaves sha256)) none)
      | (after, .error reason) => (some after, job.result none none (some reason))
    | none => (none, job.result none none (some "No data source provided for verification job"))

end PieceVerificationJob

end Jobs

/-- A storage as a job sees it: one flat run of bytes, of which any read may fail. -/
structure FlatReader (β σ : Type) where
  readBlock : σ → Nat → List β → σ × Result (Nat × List β)
  content : σ → Nat → β
  read_ok : ∀ {state after : σ} {start count : Nat} {buffer bytes : List β},
    readBlock state start buffer = (after, .ok (count, bytes)) → bytes = read (content state) start buffer.length
  read_content : ∀ {state : σ} {start : Nat} {buffer : List β},
    content (readBlock state start buffer).1 = content state

section Streaming

variable {β σ : Type} {sha256 : List β → Hash β} {reader : FlatReader β σ}

theorem streamBlocks_ok {state after : σ} {readOffset remaining : Nat} {tempBuf : List β}
    {v1Hasher v1Hashed : Option (List β)} {v2LeafHashes v2Hashed : Option (List (Hash β))}
    (room : tempBuf.length = blockSize)
    (streamed : streamBlocks sha256 reader.readBlock state readOffset remaining tempBuf v1Hasher v2LeafHashes =
      (after, .ok (v1Hashed, v2Hashed))) :
    v1Hashed = v1Hasher.map (· ++ read (reader.content state) readOffset remaining) ∧
      v2Hashed = v2LeafHashes.map
        (· ++ (chunks blockSize (read (reader.content state) readOffset remaining)).map sha256) := by
  fun_induction streamBlocks sha256 reader.readBlock state readOffset remaining tempBuf v1Hasher v2LeafHashes with
  | case1 state readOffset tempBuf v1Hasher v2LeafHashes =>
    cases streamed
    simp [FlatStore.read]
  | case2 state readOffset remaining tempBuf v1Hasher v2LeafHashes more toRead next bytes answered ih =>
    have width : (tempBuf.take toRead).length = toRead := by
      rw [length_take, room]
      omega
    have content := reader.read_ok answered
    have same : reader.content next = reader.content state := by
      have kept := @FlatReader.read_content _ _ reader state readOffset (tempBuf.take toRead)
      rwa [answered] at kept
    rw [width] at content
    have filled : (bytes ++ tempBuf.drop toRead).length = blockSize := by
      rw [length_append, content, read_length, length_drop, room]
      omega
    obtain ⟨v1Rest, v2Rest⟩ := ih filled streamed
    have length : bytes.length = toRead := by rw [content, read_length]
    have whole : read (reader.content state) readOffset remaining =
        bytes ++ read (reader.content state) (readOffset + toRead) (remaining - toRead) := by
      rw [content, ← read_add, Nat.add_sub_cancel' (Nat.min_le_left _ _)]
    have leaves : chunks blockSize (read (reader.content state) readOffset remaining) =
        bytes :: chunks blockSize (read (reader.content state) (readOffset + toRead) (remaining - toRead)) := by
      rw [whole]
      have positive := blockSize_pos
      refine chunks_append (ne_nil_of_length_pos (by omega)) (by omega) ?_
      rcases Nat.le_total remaining blockSize with last | full
      · have all : toRead = remaining := Nat.min_eq_left last
        rw [all, Nat.sub_self]
        exact .inl rfl
      · exact .inr (length.trans (Nat.min_eq_right full))
    rw [same] at v1Rest v2Rest
    rw [v1Rest, v2Rest, leaves, whole]
    simp [Function.comp_def]
  | case3 => cases streamed
  | case4 => cases streamed

theorem streamBlocks_served
    (served : ∀ state start buffer, ∃ after bytes, reader.readBlock state start buffer = (after, .ok (buffer.length, bytes)))
    (state : σ) (readOffset remaining : Nat) {tempBuf : List β} (v1Hasher : Option (List β))
    (v2LeafHashes : Option (List (Hash β))) (room : tempBuf.length = blockSize) :
    ∃ after hashed, streamBlocks sha256 reader.readBlock state readOffset remaining tempBuf v1Hasher v2LeafHashes =
      (after, .ok hashed) := by
  induction remaining using Nat.strong_induction_on generalizing state readOffset tempBuf v1Hasher v2LeafHashes with
  | _ remaining ih =>
    rw [streamBlocks]
    split
    case isTrue => exact ⟨_, _, rfl⟩
    case isFalse more =>
      have width : (tempBuf.take (min remaining blockSize)).length = min remaining blockSize := by
        rw [length_take, room]
        omega
      obtain ⟨after, bytes, answered⟩ := served state readOffset (tempBuf.take (min remaining blockSize))
      have content := reader.read_ok answered
      have filled : (bytes ++ tempBuf.drop (min remaining blockSize)).length = blockSize := by
        rw [length_append, content, read_length, width, length_drop, room]
        omega
      have small : remaining - min remaining blockSize < remaining := by
        have := blockSize_pos
        omega
      rw [width] at answered
      simp only [answered, if_true]
      exact ih _ small _ _ _ _ filled

end Streaming

section Roots

variable {β σ : Type} [Zero β] (sha1 : List β → List.Vector β 20) (sha256 : List β → Hash β)
  (reader : FlatReader β σ)

/-- A job for the bytes of a piece, which it has in a buffer or finds in the storage. -/
structure PieceJob (piece : List β) (job : PieceVerificationJob β σ) : Prop where
  length : job.pieceLength = piece.length
  wanted : job.expectedV2Root.isSome
  source : (∃ buffer, job.directBuffer = some buffer ∧ buffer.take piece.length = piece) ∨
    job.directBuffer = none ∧ ∃ state, job.storage = some state ∧
      read (reader.content state) job.pieceOffset piece.length = piece

theorem computeV2PieceMerkleRoot_eq (data : List β) :
    computeV2PieceMerkleRoot sha256 data = rootOfHashes sha256 ((chunks blockSize data).map sha256) := by
  rw [computeV2PieceMerkleRoot]
  split
  case isTrue empty =>
    rw [isEmpty_iff.mp empty, chunks_nil]
    rfl
  case isFalse => rfl

variable [DecidableEq β] {reader} {piece : List β} {job : PieceVerificationJob β σ}

theorem executeVerificationJob_root (asked : PieceJob reader piece job)
    (finished : (job.executeVerificationJob sha1 sha256 reader.readBlock).2.error = none) :
    (job.executeVerificationJob sha1 sha256 reader.readBlock).2.actualV2Root =
      some (rootOfHashes sha256 ((chunks blockSize piece).map sha256)) := by
  obtain ⟨expected, wanted⟩ := Option.isSome_iff_exists.mp asked.wanted
  unfold PieceVerificationJob.executeVerificationJob at finished ⊢
  rcases asked.source with ⟨buffer, direct, bytes⟩ | ⟨absent, state, stored, bytes⟩
  · have taken : buffer.take (min job.pieceLength buffer.length) = piece := by
      rw [asked.length, ← bytes, take_eq_take_iff]
      simp
    simp only [direct, taken, PieceVerificationJob.result, wanted, Option.map_some, computeV2PieceMerkleRoot_eq]
  · simp only [absent, stored, wanted, Option.map_some, asked.length] at finished ⊢
    split at finished
    case h_2 => cases finished
    case h_1 after v1Hashed v2Hashed streamed =>
      have hashed := (streamBlocks_ok (length_replicate ..) streamed).2
      rw [bytes] at hashed
      simp only [PieceVerificationJob.result, hashed]
      rfl

theorem executeVerificationJob_served
    (served : ∀ state start buffer, ∃ after bytes, reader.readBlock state start buffer = (after, .ok (buffer.length, bytes)))
    (stored : job.storage.isSome) : (job.executeVerificationJob sha1 sha256 reader.readBlock).2.error = none := by
  obtain ⟨state, stored⟩ := Option.isSome_iff_exists.mp stored
  cases direct : job.directBuffer with
  | some buffer => simp only [PieceVerificationJob.executeVerificationJob, direct, PieceVerificationJob.result]
  | none =>
    obtain ⟨after, hashed, streamed⟩ := @streamBlocks_served _ _ sha256 _ served state job.pieceOffset job.pieceLength
      (replicate blockSize 0) (job.expectedV1Hash.map fun _ => []) (job.expectedV2Root.map fun _ => [])
      (length_replicate ..)
    simp only [PieceVerificationJob.executeVerificationJob, direct, stored, streamed, PieceVerificationJob.result]

/-- The pool and the piece layer agree when the blocks of the piece fill more than half of its
tree, and only then if no hash stands below itself. -/
theorem executeVerificationJob_pieceLayer {data : List β} {pieceLength index : Nat}
    (large : blockSize ≤ pieceLength) (power : isPowerOfTwo pieceLength = true) (long : pieceLength < data.length)
    (inside : index * pieceLength < data.length)
    (asked : PieceJob reader (slice data (index * pieceLength) pieceLength) job)
    (finished : (job.executeVerificationJob sha1 sha256 reader.readBlock).2.error = none) :
    ∃ hashes entry, (MerkleTree.fromBytes sha256 data).pieceLayer pieceLength = .ok hashes ∧
      hashes[index]? = some entry ∧
      (nextPowerOfTwo ((job.pieceLength + blockSize - 1) / blockSize) = pieceLength / blockSize →
        (job.executeVerificationJob sha1 sha256 reader.readBlock).2.actualV2Root = some entry) ∧
      (Acyclic (combine sha256) →
        (job.executeVerificationJob sha1 sha256 reader.readBlock).2.actualV2Root = some entry →
        nextPowerOfTwo ((job.pieceLength + blockSize - 1) / blockSize) = pieceLength / blockSize) := by
  have root := executeVerificationJob_root sha1 sha256 asked finished
  have count : ((chunks blockSize (slice data (index * pieceLength) pieceLength)).map sha256).length =
      (job.pieceLength + blockSize - 1) / blockSize := by
    rw [length_map, chunks_length, asked.length]
  obtain ⟨hashes, entry, known, found, agrees, only⟩ :=
    MerkleTree.pieceLayer_entry sha256 large power long inside rfl
  rw [count] at agrees only
  refine ⟨hashes, entry, known, found, ?_, ?_⟩
  · intro full
    rw [root, agrees full]
  · intro acyclic same
    rw [root] at same
    exact only acyclic (Option.some.inj same)

end Roots

section Example

/-- A storage of natural numbers as bytes that serves every read. -/
def memoryReader : FlatReader Nat (Nat → Nat) where
  readBlock state start buffer := (state, .ok (buffer.length, read state start buffer.length))
  content state := state
  read_ok done := by
    cases done
    rfl
  read_content := rfl

def streamJob (content : Nat → Nat) (offset length : Nat) : PieceVerificationJob Nat (Nat → Nat) where
  pieceNumber := 0
  pieceLength := length
  pieceOffset := offset
  expectedV1Hash := none
  expectedV2Root := some zeroHash
  storage := some content
  directBuffer := none
  blockSources := []

def bufferJob (buffer : List Nat) : PieceVerificationJob Nat (Nat → Nat) where
  pieceNumber := 1
  pieceLength := buffer.length
  pieceOffset := 32768
  expectedV1Hash := none
  expectedV2Root := some zeroHash
  storage := none
  directBuffer := some buffer
  blockSources := []

private theorem slice_zeros (start count : Nat) :
    slice (replicate 49152 0) start count = replicate (min count (49152 - start)) 0 := by
  rw [slice, drop_replicate, take_replicate]

private theorem streamJob_zeros (length : Nat) :
    PieceJob memoryReader (replicate length 0) (streamJob (fun _ => 0) 0 length) where
  length := length_replicate.symm
  wanted := rfl
  source := by
    refine .inr ⟨rfl, _, rfl, ?_⟩
    simp [FlatStore.read, memoryReader]

private theorem bufferJob_piece (piece : List Nat) : PieceJob memoryReader piece (bufferJob piece) where
  length := rfl
  wanted := rfl
  source := .inl ⟨piece, rfl, take_length⟩

theorem executeVerificationJob_first_piece :
    ∃ hashes entry, (MerkleTree.fromBytes idealSha256 (replicate 49152 0)).pieceLayer 32768 = .ok hashes ∧
      hashes[0]? = some entry ∧
      (nextPowerOfTwo (((streamJob (fun _ => 0) 0 32768).pieceLength + blockSize - 1) / blockSize) = 32768 / blockSize →
        ((streamJob (fun _ => 0) 0 32768).executeVerificationJob (fun _ => List.Vector.replicate 20 0) idealSha256
          memoryReader.readBlock).2.actualV2Root = some entry) ∧
      (Acyclic (combine idealSha256) →
        ((streamJob (fun _ => 0) 0 32768).executeVerificationJob (fun _ => List.Vector.replicate 20 0) idealSha256
          memoryReader.readBlock).2.actualV2Root = some entry →
        nextPowerOfTwo (((streamJob (fun _ => 0) 0 32768).pieceLength + blockSize - 1) / blockSize) = 32768 / blockSize) :=
  executeVerificationJob_pieceLayer _ _ (by decide) (by decide) (by rw [length_replicate]; decide)
    (by rw [length_replicate]; decide) (by rw [slice_zeros]; exact streamJob_zeros 32768)
    (executeVerificationJob_served _ _ (fun _ _ _ => ⟨_, _, rfl⟩) rfl)

/-- The last piece has one block of two: the pool gives the hash of the block, while its entry
hashes it with the zero hash. -/
theorem executeVerificationJob_last_piece :
    ∃ hashes entry, (MerkleTree.fromBytes idealSha256 (replicate 49152 0)).pieceLayer 32768 = .ok hashes ∧
      hashes[1]? = some entry ∧
      ((bufferJob (slice (replicate 49152 0) (1 * 32768) 32768)).executeVerificationJob
        (fun _ => List.Vector.replicate 20 0) idealSha256 memoryReader.readBlock).2.actualV2Root ≠ some entry := by
  obtain ⟨hashes, entry, known, found, -, only⟩ := MerkleTree.pieceLayer_entry idealSha256
    (show blockSize ≤ 32768 by decide) (by decide) (show 32768 < (replicate 49152 0).length by
      rw [length_replicate]; decide)
    (show 1 * 32768 < (replicate 49152 0).length by rw [length_replicate]; decide) rfl
  refine ⟨hashes, entry, known, found, ?_⟩
  rw [executeVerificationJob_root _ idealSha256 (bufferJob_piece _) rfl]
  intro same
  have full := only idealSha256_acyclic (Option.some.inj same)
  rw [length_map, chunks_length, slice_zeros, length_replicate] at full
  exact absurd full (by decide +kernel)

end Example

section Cached

open CachedBlockStorage

variable {ι : Type} (store : ByteStore ι)

/-- The write cache as a job reads it, with the blocks that no flush has written yet. -/
def cacheReader : FlatReader UInt8 { cache // Coherent store cache } where
  readBlock cache start buffer :=
    let ran := readBlock store.toBlockStorage cache.1 start buffer
    (⟨ran.1, (readBlock_refines cache.2 rfl).1⟩, ran.2)
  content cache := logical store cache.1
  read_ok {state _ _ count _ bytes} done := ((readBlock_refines state.2 rfl).2.2 count bytes (congrArg Prod.snd done)).2
  read_content {state _ _} := (readBlock_refines state.2 rfl).2.1

theorem hashMatches_map {α : Type} [DecidableEq α] {expected : Option α} {value : α} :
    hashMatches (expected.map fun _ => value) expected = true ↔ ∀ hash, expected = some hash → value = hash := by
  cases expected <;> simp [hashMatches]

/-- A job that streams through the cache is valid exactly when all reads succeed and the logical content
has the hashes. -/
theorem cached_verdict (sha1 : Bytes → List.Vector UInt8 20) (sha256 : Bytes → Hash UInt8)
    (cache : { cache // Coherent store cache }) (job : PieceVerificationJob UInt8 { cache // Coherent store cache }) :
    let result := ({ job with storage := some cache, directBuffer := none }.executeVerificationJob sha1 sha256
      (cacheReader store).readBlock).2
    let piece := FlatStore.read (logical store cache.1) job.pieceOffset job.pieceLength
    result.isValid = true ↔ result.error = none ∧ (∀ hash, job.expectedV1Hash = some hash → sha1 piece = hash) ∧
      ∀ root, job.expectedV2Root = some root → rootOfHashes sha256 ((chunks blockSize piece).map sha256) = root := by
  dsimp only [PieceVerificationJob.executeVerificationJob]
  split
  case h_1 after v1Hasher v2LeafHashes streamed =>
    obtain ⟨rfl, rfl⟩ := streamBlocks_ok (length_replicate ..) streamed
    simp only [PieceVerificationJob.result, Option.map_map, Function.comp_def, nil_append, Option.isNone_none,
      Bool.true_and, Bool.and_eq_true, true_and]
    exact and_congr hashMatches_map hashMatches_map
  case h_2 after reason _ => simp [PieceVerificationJob.result]

end Cached

end BitTorrent.VerificationPool
