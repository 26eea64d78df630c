import BitTorrent.Core.Merkle
import BitTorrent.Storage.LayerFormat

/-! # The cache of piece layers

`storage/piece_layers_cache.rs`.  A hash map is a function, and the file of a root is found by the
root: its name is the root in hexadecimal.  The counters of hits and bytes are left out.
-/

namespace BitTorrent

open Function

section Layers

variable {β : Type} [Zero β] (sha256 : List β → Hash β)

/-- The layers over a piece layer, and their root. -/
def reconstructTreeFromPieceLayer (pieceLayer : List (Hash β)) : List (List (Hash β)) × Hash β :=
  match pieceLayer with
  | [] => ([], zeroHash)
  | [hash] => ([[hash]], hash)
  | hashes =>
    let baseLayer := padLeaves hashes
    let layers := HashTree.layersFrom (combine sha256) baseLayer.length baseLayer
    (layers, (layers.getLast?.bind List.head?).getD zeroHash)

def generateHashesResponseFromLayers (layers : List (List (Hash β)))
    (baseLayer index length proofLayers : Nat) : Option (List β) :=
  hashesResponse layers baseLayer index length proofLayers

end Layers

def hashCount (layers : Layers) : Nat := (layers.map List.length).sum

structure MemoryTier where
  layersByRoot : Hash UInt8 → Option Layers
  lruOrder : List (Hash UInt8)
  totalHashes : Nat
  maxHashes : Nat

namespace MemoryTier

def new (maxHashes : Nat) : MemoryTier where
  layersByRoot _ := none
  lruOrder := []
  totalHashes := 0
  maxHashes

variable (tier : MemoryTier)

def get (root : Hash UInt8) : MemoryTier × Option Layers :=
  match tier.layersByRoot root with
  | some layers => ({ tier with lruOrder := tier.lruOrder.erase root ++ [root] }, some layers)
  | none => (tier, none)

/-- Forgets a root and what it counts for. -/
def drop (root : Hash UInt8) : MemoryTier :=
  match tier.layersByRoot root with
  | some layers =>
    { tier with
      layersByRoot := update tier.layersByRoot root none
      totalHashes := tier.totalHashes - hashCount layers }
  | none => tier

/-- Evicts the oldest roots until there is room for `needed` hashes or none is left. -/
def evict (tier : MemoryTier) (needed : Nat) : List (Hash UInt8) → MemoryTier
  | [] => { tier with lruOrder := [] }
  | oldest :: order =>
    if tier.maxHashes < tier.totalHashes + needed then (tier.drop oldest).evict needed order
    else { tier with lruOrder := oldest :: order }

def insert (root : Hash UInt8) (layers : Layers) : MemoryTier :=
  let evicted := tier.evict (hashCount layers) tier.lruOrder
  let freed :=
    match evicted.layersByRoot root with
    | some old =>
      { evicted with
        totalHashes := evicted.totalHashes - hashCount old
        lruOrder := evicted.lruOrder.erase root }
    | none => evicted
  { freed with
    layersByRoot := update freed.layersByRoot root (some layers)
    lruOrder := freed.lruOrder ++ [root]
    totalHashes := freed.totalHashes + hashCount layers }

def remove (root : Hash UInt8) : MemoryTier :=
  { tier.drop root with lruOrder := tier.lruOrder.erase root }

def clear : MemoryTier := new tier.maxHashes

end MemoryTier

/-- The directory of layer files.  `faults` tells of each coming operation whether it fails and
with which message. -/
structure LayerFiles where
  files : Hash UInt8 → Option Bytes
  faults : List (Option String)

namespace LayerFiles

variable (disk : LayerFiles)

def attempt : LayerFiles × Option String :=
  ({ disk with faults := disk.faults.tail }, disk.faults.head?.join)

/-- Writes a temporary file and renames it. -/
def write (root : Hash UInt8) (bytes : Bytes) : LayerFiles × Result Unit :=
  match disk.attempt with
  | (disk, some message) => (disk, .error (.io message))
  | (disk, none) => ({ disk with files := update disk.files root (some bytes) }, .ok ())

def read (bytes : Bytes) : LayerFiles × Result Bytes :=
  match disk.attempt with
  | (disk, some message) => (disk, .error (.io message))
  | (disk, none) => (disk, .ok bytes)

/-- A file that cannot be removed stays, and nobody is told. -/
def removeFile (root : Hash UInt8) : LayerFiles :=
  match disk.attempt with
  | (disk, some _) => disk
  | (disk, none) => { disk with files := update disk.files root none }

end LayerFiles

structure PieceLayersDiskCache where
  memoryTier : MemoryTier
  disk : LayerFiles

namespace PieceLayersDiskCache

/-- `new` over a directory; a hash takes 32 bytes of memory. -/
def new (disk : LayerFiles) (maxMemoryMb : Nat) : PieceLayersDiskCache where
  memoryTier := .new (max maxMemoryMb 1 * 1024 * 1024 / 32)
  disk

variable (sha256 : Bytes → Hash UInt8) (cache : PieceLayersDiskCache)

def remove (piecesRoot : Hash UInt8) : PieceLayersDiskCache :=
  { memoryTier := cache.memoryTier.remove piecesRoot
    disk := if (cache.disk.files piecesRoot).isSome then cache.disk.removeFile piecesRoot else cache.disk }

def saveLayers (piecesRoot : Hash UInt8) (layers : Layers) : PieceLayersDiskCache × Result Unit :=
  if layers.isEmpty then (cache, .ok ())
  else
    let (disk, written) := cache.disk.write piecesRoot (encodeLayers sha256 piecesRoot layers)
    ({ memoryTier := cache.memoryTier.insert piecesRoot layers, disk }, written)

/-- A root that does not come out of the layer is only logged. -/
def savePieceLayer (piecesRoot : Hash UInt8) (pieceLayer : List (Hash UInt8)) :
    PieceLayersDiskCache × Result Unit :=
  cache.saveLayers sha256 piecesRoot (reconstructTreeFromPieceLayer sha256 pieceLayer).1

def loadLayers (piecesRoot : Hash UInt8) : PieceLayersDiskCache × Result (Option Layers) :=
  match cache.memoryTier.get piecesRoot with
  | (memoryTier, some layers) => ({ cache with memoryTier }, .ok (some layers))
  | (_, none) =>
    match cache.disk.files piecesRoot with
    | none => (cache, .ok none)
    | some bytes =>
      match cache.disk.read bytes with
      | (disk, .error reason) => ({ cache with disk }, .error reason)
      | (disk, .ok data) =>
        match decodeLayers sha256 data with
        | .error reason => ({ cache with disk }, .error reason)
        | .ok (root, layers) =>
          if root ≠ piecesRoot then
            ({ cache with disk }, .error (.parse "Cached layer file root does not match requested root"))
          else ({ memoryTier := cache.memoryTier.insert piecesRoot layers, disk }, .ok (some layers))

def serveHashRequest (piecesRoot : Hash UInt8)
    (baseLayer index length proofLayers : Nat) : PieceLayersDiskCache × Option Bytes :=
  match cache.loadLayers sha256 piecesRoot with
  | (cache, .ok (some layers)) =>
    (cache, generateHashesResponseFromLayers layers baseLayer index length proofLayers)
  | (cache, _) => (cache, none)

/-- The loop of `prune` over the files, oldest first. -/
def pruneLoop (disk : LayerFiles) (maxFiles maxBytes totalCount : Nat) : List (Hash UInt8) → Nat → Nat → LayerFiles
  | [], _, _ => disk
  | root :: entries, pruned, totalSize =>
    if maxFiles < totalCount - pruned ∨ maxBytes < totalSize then
      pruneLoop (disk.removeFile root) maxFiles maxBytes totalCount entries (pruned + 1)
        (totalSize - ((disk.files root).map List.length).getD 0)
    else disk

/-- `entries` lists the files by the time of their last change. -/
def prune (entries : List (Hash UInt8)) (maxFiles maxBytes : Nat) : PieceLayersDiskCache :=
  let totalSize := (entries.map fun root => ((cache.disk.files root).map List.length).getD 0).sum
  { cache with disk := pruneLoop cache.disk maxFiles maxBytes entries.length entries 0 totalSize }

/-- `entries` lists the files. -/
def clear (entries : List (Hash UInt8)) : PieceLayersDiskCache :=
  { memoryTier := cache.memoryTier.clear
    disk := entries.foldl LayerFiles.removeFile cache.disk }

end PieceLayersDiskCache

end BitTorrent
