import BitTorrent.Basic
import BitTorrent.Library.Chunks
import BitTorrent.Library.HashTree

/-! # Merkle trees of v2 torrents

`core/merkle.rs`.  SHA-256 is a parameter, and so is the type of bytes: no function
on all strings of 8-bit bytes into 32 of them is injective, so the results that
read SHA-256 as injective are about an unbounded byte type.
-/

namespace BitTorrent

open HashTree

variable {β : Type}

def combine (sha256 : List β → Hash β) (left right : Hash β) : Hash β :=
  sha256 (left.toList ++ right.toList)

/-- The number of a byte that the texts of errors show. -/
class ByteValue (β : Type) where
  value : β → Nat

instance : ByteValue UInt8 := ⟨UInt8.toNat⟩

instance : ByteValue Nat := ⟨id⟩

def debugText [ByteValue β] (digits : Nat → List Char) (hash : Hash β) : String :=
  "[" ++ ", ".intercalate (hash.toList.map fun byte => String.ofList (digits (ByteValue.value byte))) ++ "]"

/-- `{:?}` -/
def decimalText [ByteValue β] : Hash β → String := debugText (Nat.toDigits 10)

/-- `{:02x?}` -/
def hexText [ByteValue β] : Hash β → String := debugText fun value => (Nat.toDigits 16 value).leftpad 2 '0'

structure MerkleProof (β : Type) where
  blockIndex : Nat
  path : List (Hash β)

def MerkleProof.verify [DecidableEq β] (sha256 : List β → Hash β) (proof : MerkleProof β)
    (blockData : List β) (expectedRoot : Hash β) : Bool :=
  decide (climb (combine sha256) proof.blockIndex (sha256 blockData) proof.path =
    expectedRoot)

/-- Layers run from the leaves (index 0) to the root layer. -/
structure MerkleTree (β : Type) where
  fileLength : Nat
  numBlocks : Nat
  layers : List (List (Hash β))
  root : Hash β

/-- The least power of two that is not below `count`. -/
def nextPowerOfTwo (count : Nat) : Nat := 2 ^ Nat.clog 2 count

section Build

variable [Zero β] (sha256 : List β → Hash β)

/-- `while leaf_layer.len() < power_of_two { leaf_layer.push([0u8; 32]) }`. -/
def padLeaves (leaves : List (Hash β)) : List (Hash β) :=
  leaves ++ List.replicate (nextPowerOfTwo leaves.length - leaves.length) zeroHash

namespace MerkleTree

def fromLeafHashes (leaves : List (Hash β)) (fileLength : Nat) : MerkleTree β :=
  match leaves with
  | [] => { fileLength, numBlocks := 0, layers := [], root := zeroHash }
  | [leaf] => { fileLength, numBlocks := 1, layers := [[leaf]], root := leaf }
  | leaves =>
    let leafLayer := padLeaves leaves
    let layers := layersFrom (combine sha256) leafLayer.length leafLayer
    { fileLength
      numBlocks := leaves.length
      layers
      root := (layers.getLast?.bind List.head?).getD zeroHash }

def fromBytes (data : List β) : MerkleTree β :=
  if data.isEmpty then { fileLength := 0, numBlocks := 0, layers := [], root := zeroHash }
  else fromLeafHashes sha256 ((Chunks.chunks blockSize data).map sha256) data.length

def blockHash (tree : MerkleTree β) (blockIndex : Nat) : Option (Hash β) :=
  if blockIndex < tree.numBlocks then
    tree.layers.head?.bind fun leafLayer => leafLayer[blockIndex]?
  else none

def siblings : List (List (Hash β)) → Nat → List (Hash β)
  | [], _ => []
  | layer :: upper, index =>
    (layer[if index % 2 = 0 then index + 1 else index - 1]?).getD zeroHash ::
      siblings upper (index / 2)

def proof (tree : MerkleTree β) (blockIndex : Nat) : Option (MerkleProof β) :=
  if tree.numBlocks ≤ blockIndex ∨ tree.layers.isEmpty then none
  else some { blockIndex, path := siblings tree.layers.dropLast blockIndex }

def verifyBlock [DecidableEq β] (tree : MerkleTree β) (blockIndex : Nat) (blockData : List β) : Bool :=
  match tree.blockHash blockIndex with
  | some expected => decide (sha256 blockData = expected)
  | none => false

end MerkleTree

def isPowerOfTwo (length : Nat) : Bool := length &&& (length - 1) == 0

def MerkleTree.pieceLayer (tree : MerkleTree β) (pieceLength : Nat) : Result (List (Hash β)) :=
  if pieceLength < blockSize ∨ !isPowerOfTwo pieceLength then
    .error (.parse "Piece length must be a power of two and at least 16 KiB")
  else
    let layerHeight := Nat.log 2 (pieceLength / blockSize)
    match tree.layers[layerHeight]? with
    | none => .ok [tree.root]
    | some layer =>
      let numPieces := (tree.fileLength + pieceLength - 1) / pieceLength
      .ok (layer.take (min numPieces layer.length))

/-- The root over hashes that are padded with zero hashes. -/
def rootOfHashes (hashes : List (Hash β)) : Hash β :=
  match hashes with
  | [] => zeroHash
  | [hash] => hash
  | hashes =>
    let cur := padLeaves hashes
    (reduce (combine sha256) cur.length cur).headD zeroHash

def MerkleTree.computeRootFromPieceHashes (pieceHashes : List (Hash β)) : Hash β :=
  rootOfHashes sha256 pieceHashes

/-- The uncles on the way from a node to the root, at most `maxUncles` of them. -/
def uncleHashes (layers : List (List (Hash β))) : Nat → Nat → Nat → List (Hash β)
  | 0, _, _ => []
  | maxUncles + 1, curLayer, index =>
    if curLayer < layers.length ∧ 1 < layers.length ∧ curLayer < layers.length - 1 then
      ((layers[curLayer]?).bind fun layer => layer[index ^^^ 1]?).getD zeroHash ::
        uncleHashes layers maxUncles (curLayer + 1) (index / 2)
    else []

/-- The payload that answers a `hash_request`.  The source has this twice, for a tree and for
layers alone. -/
def hashesResponse (layers : List (List (Hash β))) (baseLayer index length proofLayers : Nat) : Option (List β) :=
  if length < 2 ∨ !isPowerOfTwo length then none
  else if index % length ≠ 0 then none
  else
    match layers[baseLayer]? with
    | none => none
    | some layer =>
      if layer.length < index + length then none
      else
        let levels := Nat.log 2 length
        let omitted := levels - 1
        let maxUncles := proofLayers - omitted
        some ((Chunks.slice layer index length ++
          uncleHashes layers maxUncles (baseLayer + levels) (index / length)).flatMap List.Vector.toList)

def MerkleTree.generateHashesResponse (tree : MerkleTree β) (baseLayer index length proofLayers : Nat) :
    Option (List β) :=
  hashesResponse tree.layers baseLayer index length proofLayers

/-- The layer and the number of proof layers that the message names are not looked at. -/
def verifyHashesResponse [DecidableEq β] [ByteValue β] (expectedRoot : Hash β)
    (_baseLayer index length _proofLayers : Nat) (hashesData : List β) : Result (List (Hash β)) :=
  if length < 2 ∨ !isPowerOfTwo length then
    .error (.parse "Length must be a power of two and >= 2")
  else if index % length ≠ 0 then
    .error (.parse "Index must be a multiple of length")
  else if hashesData.length < length * 32 ∨ hashesData.length % 32 ≠ 0 then
    .error (.parse "Invalid hashes data byte length")
  else
    let baseHashes := Chunks.chunksExact 32 (hashesData.take (length * 32))
    let uncleHashes := Chunks.chunksExact 32 (hashesData.drop (length * 32))
    let curLevel := reduce (combine sha256) baseHashes.length baseHashes
    -- `curLevel` holds one hash: there are `length ≥ 2` base hashes
    let subRoot := climb (combine sha256) (index / length) (curLevel.headD zeroHash) uncleHashes
    if subRoot = expectedRoot then
      .ok baseHashes
    else
      .error (.parse (s!"BEP 52 hashes verification failed: root mismatch (expected {hexText expectedRoot}, " ++
        s!"got {hexText subRoot})"))

end Build

namespace MerkleTree

/-! `from_reader` fills a block from reads of any size before it hashes it. -/

section Stream

open Chunks
open List hiding Vector

variable {σ ε : Type}

section Loops

variable (read : σ → Nat → Except ε (List β × σ)) (sha256 : List β → Hash β)

/-- The inner loop.  A round that does not end it adds a byte, so a block has enough rounds. -/
def fillBlock : Nat → σ → List β → Except ε (List β × σ)
  | 0, reader, buffer => return (buffer, reader)
  | rounds + 1, reader, buffer => do
    if buffer.length < blockSize then
      let (bytes, reader) ← read reader (blockSize - buffer.length)
      if bytes.isEmpty then return (buffer, reader) else fillBlock rounds reader (buffer ++ bytes)
    else return (buffer, reader)

/-- The outer loop: the leaves from here on, and the bytes read in all. -/
def readLeaves (fileLength : Nat) : Nat → σ → Nat → Except ε (List (Hash β) × Nat)
  | 0, _, totalRead => return ([], totalRead)
  | rounds + 1, reader, totalRead => do
    let (chunk, reader) ← fillBlock read blockSize reader []
    if chunk.isEmpty then return ([], totalRead)
    else if fileLength ≤ totalRead + chunk.length then return ([sha256 chunk], totalRead + chunk.length)
    else
      let (leaves, totalRead) ← readLeaves fileLength rounds reader (totalRead + chunk.length)
      return (sha256 chunk :: leaves, totalRead)

def fromReader [Zero β] (reader : σ) (fileLength : Nat) : Except ε (MerkleTree β) := do
  if fileLength = 0 then return { fileLength := 0, numBlocks := 0, layers := [], root := zeroHash }
  else
    let (leaves, totalRead) ← readLeaves read sha256 fileLength fileLength reader 0
    return fromLeafHashes sha256 leaves totalRead

/-- A reader that has some bytes left: it gives a part of them that fits into the room, of any size
but zero, and at the end nothing. -/
inductive Delivers : σ → List β → Prop
  | done {reader : σ} (next : Nat → σ) (ends : ∀ room, read reader room = .ok ([], next room)) : Delivers reader []
  | more {reader : σ} {data : List β} (nonempty : data ≠ []) (size : Nat → Nat) (next : Nat → σ)
      (bounds : ∀ room > 0, 0 < size room ∧ size room ≤ room)
      (gives : ∀ room > 0, read reader room = .ok (data.take (size room), next room))
      (rest : ∀ room > 0, Delivers (next room) (data.drop (size room))) : Delivers reader data

end Loops

variable {read : σ → Nat → Except ε (List β × σ)} {sha256 : List β → Hash β} {reader : σ} {data buffer : List β}
  {rounds : Nat}

/-- At the end of the stream nothing is known of the reader, so it is only followed while bytes are left. -/
theorem fillBlock_delivers (delivers : Delivers read reader data) (fits : buffer.length ≤ blockSize)
    (enough : blockSize ≤ buffer.length + rounds) :
    ∃ next, fillBlock read rounds reader buffer = .ok ((buffer ++ data).take blockSize, next) ∧
      ((buffer ++ data).drop blockSize ≠ [] → Delivers read next ((buffer ++ data).drop blockSize)) := by
  induction rounds generalizing reader data buffer with
  | zero =>
    have full : buffer.length = blockSize := Nat.le_antisymm fits enough
    rw [take_left' full, drop_left' full]
    exact ⟨reader, rfl, fun _ => delivers⟩
  | succ rounds ih =>
    rw [fillBlock]
    split
    case isFalse full =>
      have full : buffer.length = blockSize := Nat.le_antisymm fits (Nat.not_lt.mp full)
      rw [take_left' full, drop_left' full]
      exact ⟨reader, rfl, fun _ => delivers⟩
    case isTrue short =>
      cases delivers with
      | done next ends =>
        rw [ends, append_nil, take_of_length_le fits, drop_of_length_le fits]
        exact ⟨_, rfl, fun more => absurd rfl more⟩
      | more nonempty size next bounds gives rest =>
        have room : blockSize - buffer.length > 0 := Nat.sub_pos_of_lt short
        obtain ⟨positive, small⟩ := bounds _ room
        have given : (buffer ++ data.take (size (blockSize - buffer.length))).length =
            buffer.length + min (size (blockSize - buffer.length)) data.length := by
          rw [length_append, length_take]
        have bytes : 0 < data.length := length_pos_iff.mpr nonempty
        have further := @ih _ _ (buffer ++ data.take (size (blockSize - buffer.length))) (rest _ room)
          (by omega) (by omega)
        rw [append_assoc, take_append_drop] at further
        simpa [gives _ room, nonempty, positive.ne', bind, Except.bind] using further

/-- The reads do not show: the leaves are those of the blocks of the data. -/
theorem readLeaves_delivers {fileLength totalRead : Nat} (delivers : Delivers read reader data)
    (nonempty : data ≠ []) (all : fileLength = totalRead + data.length) (enough : data.length ≤ rounds) :
    readLeaves read sha256 fileLength rounds reader totalRead =
      .ok ((chunks blockSize data).map sha256, fileLength) := by
  induction rounds generalizing reader data totalRead with
  | zero => exact absurd (length_eq_zero_iff.mp (Nat.le_zero.mp enough)) nonempty
  | succ rounds ih =>
    have bytes : 0 < data.length := length_pos_iff.mpr nonempty
    have positive : 0 < blockSize := by decide
    have block : (data.take blockSize).isEmpty = false := by simp [nonempty, positive.ne']
    obtain ⟨next, filled, further⟩ := @fillBlock_delivers _ _ _ _ _ _ [] blockSize delivers
      (Nat.zero_le _) (Nat.le_add_left _ _)
    rw [nil_append] at filled further
    rw [readLeaves, filled, chunks_cons positive nonempty]
    by_cases last : data.length ≤ blockSize
    · have ends : totalRead + (data.take blockSize).length = fileLength := by rw [all, take_of_length_le last]
      simp only [bind, Except.bind, block, ends, le_refl, if_true, drop_of_length_le last, chunks_nil]
      rfl
    · have taken : (data.take blockSize).length = blockSize := length_take_of_le (Nat.le_of_not_le last)
      have left : (data.drop blockSize).length = data.length - blockSize := length_drop
      have goesOn : ¬fileLength ≤ totalRead + blockSize := by omega
      have more : data.drop blockSize ≠ [] := by simpa using last
      have later := @ih _ _ (totalRead + blockSize) (further more) more (by omega) (by omega)
      simp only [bind, Except.bind, block, taken, if_neg goesOn, later]
      rfl

theorem fromReader_eq_fromBytes [Zero β] (delivers : Delivers read reader data) :
    fromReader read sha256 reader data.length = .ok (fromBytes sha256 data) := by
  cases data with
  | nil => rfl
  | cons byte rest =>
    have leaves : readLeaves read sha256 (rest.length + 1) (rest.length + 1) reader 0 = _ :=
      readLeaves_delivers delivers (cons_ne_nil byte rest) (Nat.zero_add _).symm le_rfl
    simp [fromReader, fromBytes, leaves]

/-- A reader of at most one byte at a time. -/
theorem fromReader_eq_fromBytes_bytewise : @Delivers Nat _ String (fun left _ => .ok (left.take 1, left.drop 1)) [1, 2] [1, 2] ∧
    ∀ sha256 : List Nat → Hash Nat, fromReader (fun left _ => .ok (left.take 1, left.drop 1)) sha256 [1, 2] 2 =
      (.ok (fromBytes sha256 [1, 2]) : Except String _) := by
  have delivers : @Delivers Nat _ String (fun left _ => .ok (left.take 1, left.drop 1)) [1, 2] [1, 2] := by
    refine .more (by simp) (fun _ => 1) (fun _ => [2]) (fun _ _ => by omega) (fun _ _ => rfl) fun _ _ => ?_
    refine .more (by simp) (fun _ => 1) (fun _ => []) (fun _ _ => by omega) (fun _ _ => rfl) fun _ _ => ?_
    exact .done (fun _ => []) fun _ => rfl
  exact ⟨delivers, fun sha256 => fromReader_eq_fromBytes delivers⟩

end Stream

end MerkleTree

end BitTorrent
