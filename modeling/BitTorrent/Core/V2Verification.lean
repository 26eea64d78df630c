import BitTorrent.Core.Merkle

/-! # Block verification of v2 torrents

The part of `core/torrent_context.rs` that checks a block against the Merkle data
known for its file.  A hash map that the code only looks up is a function; the
cache of verified leaf hashes is a list of entries, because `verify_v2_block` walks
it in the map's iteration order and stops at the first entry that fits.
-/

namespace BitTorrent

variable {β : Type}

inductive FilePriority where
  | skip
  | low
  | normal
  | high
deriving DecidableEq, Repr

def FilePriority.rank : FilePriority → Nat
  | .skip => 0
  | .low => 1
  | .normal => 4
  | .high => 7

structure FileDetails (β : Type) where
  name : String
  torrentPath : String := ""
  length : Nat
  md5sum : Option String := none
  offset : Nat
  piecesRoot : Option (Hash β)
  priority : FilePriority := .normal

abbrev Files := List (FileDetails UInt8)

def FileDetails.spans (file : FileDetails β) (globalOffset : Nat) : Bool :=
  decide (file.offset ≤ globalOffset ∧ globalOffset < file.offset + file.length)

theorem FileDetails.spans_iff {file : FileDetails β} {globalOffset : Nat} :
    file.spans globalOffset = true ↔ file.offset ≤ globalOffset ∧ globalOffset < file.offset + file.length :=
  decide_eq_true_iff

/-- Root, base layer and index of the first hash of an answer. -/
abbrev HashesKey (β : Type) := Hash β × Nat × Nat

structure V2State (β : Type) where
  fileMerkleTrees : Nat → Option (MerkleTree β)
  fileMerkleProofs : Nat × Nat → Option (MerkleProof β)
  verifiedV2Hashes : List (HashesKey β × List (Hash β))

def V2State.empty : V2State β where
  fileMerkleTrees _ := none
  fileMerkleProofs _ := none
  verifiedV2Hashes := []

section

variable [DecidableEq β]

def V2State.registerFileMerkleTree (v2 : V2State β) (fileIndex : Nat) (tree : MerkleTree β) : V2State β :=
  { v2 with fileMerkleTrees := Function.update v2.fileMerkleTrees fileIndex (some tree) }

def V2State.registerMerkleProof (v2 : V2State β) (fileIndex : Nat) (proof : MerkleProof β) : V2State β :=
  { v2 with
    fileMerkleProofs :=
      Function.update v2.fileMerkleProofs (fileIndex, proof.blockIndex) (some proof) }

/-- The leaf hash that one cache entry holds for a block of the file with root `root`. -/
def entryLeaf (root : Hash β) (fileBlockIdx : Nat) (entry : HashesKey β × List (Hash β)) : Option (Hash β) :=
  let ((entryRoot, baseLayer, chunkIndex), hashes) := entry
  if entryRoot = root ∧ baseLayer = 0 ∧ chunkIndex ≤ fileBlockIdx then
    hashes[fileBlockIdx - chunkIndex]?
  else none

def V2State.cachedLeaf (v2 : V2State β) (root : Hash β) (fileBlockIdx : Nat) : Option (Hash β) :=
  v2.verifiedV2Hashes.findSome? (entryLeaf root fileBlockIdx)

variable [ByteValue β]

def verifyV2Block (sha256 : List β → Hash β) (filesToDownload : List (FileDetails β))
    (pieceLength : Nat) (v2 : V2State β) (pieceNumber blockIndex : Nat) (blockData : List β) :
    Result Unit :=
  let globalOffset := pieceNumber * pieceLength + blockIndex * blockSize
  match filesToDownload.zipIdx.find? fun entry => entry.1.spans globalOffset with
  | none => .ok ()
  | some (file, fileIdx) =>
    let fileBlockIdx := (globalOffset - file.offset) / blockSize
    match v2.fileMerkleTrees fileIdx, file.piecesRoot with
    | some tree, _ =>
      if tree.verifyBlock sha256 fileBlockIdx blockData then .ok ()
      else .error (.parse
        s!"BEP 52 Merkle block hash mismatch for file {fileIdx} at block {fileBlockIdx}")
    | none, none => .ok ()
    | none, some expectedRoot =>
      match v2.fileMerkleProofs (fileIdx, fileBlockIdx) with
      | some proof =>
        if proof.verify sha256 blockData expectedRoot then .ok ()
        else .error (.parse
          s!"BEP 52 Merkle audit path proof mismatch for file {fileIdx} at block {fileBlockIdx}")
      | none =>
        if file.length ≤ blockSize then
          -- the root of a file of one block is its leaf hash
          let actualHash := sha256 blockData
          if actualHash = expectedRoot then .ok ()
          else .error (.parse (s!"BEP 52 block hash mismatch for file {file.name}: " ++
            s!"expected {decimalText expectedRoot}, got {decimalText actualHash}"))
        else
          match v2.cachedLeaf expectedRoot fileBlockIdx with
          | some expectedLeaf =>
            if sha256 blockData = expectedLeaf then .ok ()
            else .error (.parse
              s!"BEP 52 Merkle verified leaf mismatch for file {fileIdx} at block {fileBlockIdx}")
          | none => .ok ()

/-- Checks the answer against the root and caches its base hashes under the layer and
the index that the message names. -/
def handleHashesResponse [Zero β] (sha256 : List β → Hash β) (v2 : V2State β)
    (piecesRoot : Hash β) (baseLayer index length proofLayers : Nat) (hashesData : List β) :
    Result (V2State β × List (Hash β)) := do
  let verified ← verifyHashesResponse sha256 piecesRoot baseLayer index length proofLayers
    hashesData
  let key : HashesKey β := (piecesRoot, baseLayer, index)
  let others := v2.verifiedV2Hashes.filter fun entry => entry.1 ≠ key
  return ({ v2 with verifiedV2Hashes := (key, verified) :: others }, verified)

end

end BitTorrent
