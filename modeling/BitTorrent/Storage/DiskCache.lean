import BitTorrent.Storage.BlockStorage
import Mathlib.Data.List.Sort

/-! # The write cache

`storage/disk_cache.rs`.  The blocks are kept sorted by offset.  `clock` holds the values
that the coming calls of `Instant::now` return.  The operation counters and the pool of
reusable buffers have no influence on what is stored and are left out.
-/

namespace BitTorrent

open FlatStore Chunks

structure CacheBlock where
  data : Bytes
  dirty : Bool
  lastAccessed : Nat
deriving DecidableEq

abbrev CacheBlocks := Std.TreeMap Nat CacheBlock

structure CachedBlockStorage (ι : Type) where
  inner : ι
  maxCacheBytes : Nat
  blocks : CacheBlocks
  currentCachedBytes : Nat
  currentDirtyBytes : Nat
  clock : List Nat

namespace CachedBlockStorage

variable {ι : Type}

def new (inner : ι) (maxCacheBytes : Nat) (clock : List Nat) : CachedBlockStorage ι where
  inner
  maxCacheBytes
  blocks := ∅
  currentCachedBytes := 0
  currentDirtyBytes := 0
  clock

def saturatingAdd (first second : Nat) : Nat := min (first + second) (u64Size - 1)

/-- Whether a flush limited to `rangeFilter` looks at the block. -/
def inRange (rangeFilter : Option (Nat × Nat)) (offset : Nat) (block : CacheBlock) : Bool :=
  match rangeFilter with
  | none => true
  | some (rangeStart, rangeEnd) =>
    decide (rangeStart < saturatingAdd offset block.data.length ∧ offset < rangeEnd)

def flushes (rangeFilter : Option (Nat × Nat)) (offset : Nat) (block : CacheBlock) : Bool :=
  block.dirty && inRange rangeFilter offset block

def markClean (rangeFilter : Option (Nat × Nat)) (offset : Nat) (block : CacheBlock) : CacheBlock :=
  if flushes rangeFilter offset block then { block with dirty := false } else block

def extent (entry : Nat × CacheBlock) : Extent UInt8 := (entry.1, entry.2.data)

variable (cache : CachedBlockStorage ι)

def dirtyBlocks (rangeFilter : Option (Nat × Nat)) : List (Nat × CacheBlock) :=
  cache.blocks.toList.filter fun entry => flushes rangeFilter entry.1 entry.2

/-- The least recently used entries first; entries of equal age stay in offset order. -/
def leastRecent (entries : List (Nat × CacheBlock)) : List (Nat × Nat) :=
  (entries.insertionSort fun first second => first.2.lastAccessed ≤ second.2.lastAccessed).map
    fun entry => (entry.1, entry.2.data.length)

/-- Drop the listed blocks until the cache fits. -/
def evictLoop : List (Nat × Nat) → CachedBlockStorage ι → CachedBlockStorage ι
  | [], cache => cache
  | (offset, size) :: rest, cache =>
    let cache := { cache with
      blocks := cache.blocks.erase offset
      currentCachedBytes := cache.currentCachedBytes - size }
    if cache.currentCachedBytes ≤ cache.maxCacheBytes then cache else evictLoop rest cache

def dataLength (entries : List (Nat × CacheBlock)) : Nat :=
  (entries.map fun entry => entry.2.data.length).sum

def discardRange (start length : Nat) : CachedBlockStorage ι :=
  let discarded := fun offset => decide (start ≤ offset ∧ offset < saturatingAdd start length)
  let removed := cache.blocks.toList.filter fun entry => discarded entry.1
  { cache with
    blocks := cache.blocks.filter fun offset _ => !discarded offset
    currentCachedBytes := cache.currentCachedBytes - dataLength removed
    currentDirtyBytes :=
      cache.currentDirtyBytes - dataLength (removed.filter fun entry => entry.2.dirty) }

def clear : CachedBlockStorage ι :=
  { cache with blocks := ∅, currentCachedBytes := 0, currentDirtyBytes := 0 }

section Operations

variable (storage : BlockStorage ι)

def writeChunks : ι → List (Extent UInt8) → ι × Result Unit
  | inner, [] => (inner, .ok ())
  | inner, (start, data) :: chunks =>
    match storage.writeBlock inner start data with
    | (inner, .ok ()) => writeChunks inner chunks
    | (inner, .error reason) => (inner, .error reason)

variable (cache : CachedBlockStorage ι)

def flushInternal (rangeFilter : Option (Nat × Nat)) : CachedBlockStorage ι × Result Unit :=
  let dirty := cache.dirtyBlocks rangeFilter
  let chunks := coalesce (dirty.map extent)
  if chunks.isEmpty then (cache, .ok ())
  else
    match writeChunks storage cache.inner chunks with
    | (inner, .error reason) => ({ cache with inner }, .error reason)
    | (inner, .ok ()) =>
      ({ cache with
          inner
          blocks := cache.blocks.map (markClean rangeFilter)
          currentDirtyBytes := cache.currentDirtyBytes - dataLength dirty }, .ok ())

def flush : CachedBlockStorage ι × Result Unit :=
  flushInternal storage cache none

def flushRange (start length : Nat) : CachedBlockStorage ι × Result Unit :=
  flushInternal storage cache (some (start, saturatingAdd start length))

def evictIfNeeded : CachedBlockStorage ι × Result Unit :=
  if cache.currentCachedBytes ≤ cache.maxCacheBytes then (cache, .ok ())
  else
    let clean := cache.blocks.toList.filter fun entry => !entry.2.dirty
    let cache := evictLoop (leastRecent clean) cache
    if cache.currentCachedBytes ≤ cache.maxCacheBytes then (cache, .ok ())
    else
      match flushInternal storage cache none with
      | (cache, .error reason) => (cache, .error reason)
      | (cache, .ok ()) => (evictLoop (leastRecent cache.blocks.toList) cache, .ok ())

/-- The cache after a block was stored and before the eviction that follows. -/
def storeBlock (offset : Nat) (data : Bytes) : CachedBlockStorage ι :=
  let old := cache.blocks[offset]?
  let oldLength := (old.map fun block => block.data.length).getD 0
  let oldDirty := ((old.filter fun block => block.dirty).map fun block => block.data.length).getD 0
  { cache with
    blocks := cache.blocks.insert offset { data, dirty := true, lastAccessed := cache.clock.headD 0 }
    currentCachedBytes := cache.currentCachedBytes - oldLength + data.length
    currentDirtyBytes := cache.currentDirtyBytes - oldDirty + data.length
    clock := cache.clock.tail }

def writeBlock (offset : Nat) (data : Bytes) : CachedBlockStorage ι × Result Unit :=
  if data.isEmpty then (cache, .ok ())
  else if u64Size ≤ offset + data.length then
    (cache, .error (.io "write offset + length overflowed u64"))
  else evictIfNeeded storage (cache.storeBlock offset data)

def overlaps (targetStart targetEnd : Nat) (entry : Nat × CacheBlock) : Bool :=
  decide (entry.1 < targetEnd ∧ targetStart < entry.1 + entry.2.data.length)

/-- Copy the part of one block that lies in the target range, and note what is covered. -/
def copyBlock (targetStart targetEnd : Nat) (state : Bytes × List Bool)
    (entry : Nat × CacheBlock) : Bytes × List Bool :=
  if overlaps targetStart targetEnd entry then
    let overlapStart := max targetStart entry.1
    let overlapEnd := min targetEnd (entry.1 + entry.2.data.length)
    let source := slice entry.2.data (overlapStart - entry.1) (overlapEnd - overlapStart)
    (splice state.1 (overlapStart - targetStart) source,
      splice state.2 (overlapStart - targetStart) (List.replicate (overlapEnd - overlapStart) true))
  else state

/-- The loop that fills the uncovered runs of the buffer from the inner storage. -/
def readGaps (targetStart : Nat) (covered : List Bool) :
    Nat → Nat → ι → Bytes → ι × Result Bytes
  | 0, _, inner, buffer => (inner, .ok buffer)
  | fuel + 1, i, inner, buffer =>
    match covered[i]? with
    | none => (inner, .ok buffer)
    | some true => readGaps targetStart covered fuel (i + 1) inner buffer
    | some false =>
      let gapLen := ((covered.drop i).takeWhile fun c => !c).length
      match storage.readBlock inner (targetStart + i) (slice buffer i gapLen) with
      | (inner, .error reason) => (inner, .error reason)
      | (inner, .ok (_, bytes)) =>
        readGaps targetStart covered fuel (i + gapLen) inner (splice buffer i bytes)

def touch (accessed : Nat × CacheBlock → Bool) : CachedBlockStorage ι :=
  { cache with
    blocks := cache.blocks.map fun offset block =>
      if accessed (offset, block) then { block with lastAccessed := cache.clock.headD 0 } else block
    clock := cache.clock.tail }

def readBlock (offset : Nat) (buffer : Bytes) : CachedBlockStorage ι × Result (Nat × Bytes) :=
  let targetLen := buffer.length
  if targetLen = 0 then (cache, .ok (0, buffer))
  else if u64Size ≤ offset + targetLen then
    (cache, .error (.io "read offset + length overflowed u64"))
  else
    match cache.blocks[offset]?.filter fun block => decide (targetLen ≤ block.data.length) with
    | some block =>
      (cache.touch fun entry => decide (entry.1 = offset), .ok (targetLen, block.data.take targetLen))
    | none =>
      let targetEnd := offset + targetLen
      let (filled, covered) := cache.blocks.toList.foldl (copyBlock offset targetEnd)
        (buffer, List.replicate targetLen false)
      let cache := cache.touch (overlaps offset targetEnd)
      if covered.all id then (cache, .ok (targetLen, filled))
      else
        match readGaps storage offset covered targetLen 0 cache.inner filled with
        | (inner, .error reason) => ({ cache with inner }, .error reason)
        | (inner, .ok bytes) => ({ cache with inner }, .ok (targetLen, bytes))

def blockStorage : BlockStorage (CachedBlockStorage ι) where
  readBlock := readBlock storage
  writeBlock := writeBlock storage
  flush := flush storage
  discardRange := discardRange

end Operations

end CachedBlockStorage

end BitTorrent
