import BitTorrent.Library.MapWeight
import BitTorrent.Storage.CacheRefinement

/-! # What the write cache writes

The inner storage is wrapped in a journal of the ranges it was asked to write.  Reading,
discarding and storing a block for which there is room among the dirty bytes write nothing;
a flush writes bytes of dirty blocks only.
-/

namespace BitTorrent

open FlatStore MapWeight Std.TreeMap List

structure Journal (ι : Type) where
  disk : ι
  writes : List (Extent UInt8)

abbrev JournaledCache (ι : Type) := CachedBlockStorage (Journal ι)

def journaled {ι : Type} (inner : BlockStorage ι) : BlockStorage (Journal ι) where
  readBlock state start buffer :=
    ({ state with disk := (inner.readBlock state.disk start buffer).1 },
      (inner.readBlock state.disk start buffer).2)
  writeBlock state start data :=
    ({ disk := (inner.writeBlock state.disk start data).1, writes := state.writes ++ [(start, data)] },
      (inner.writeBlock state.disk start data).2)
  flush state := ({ state with disk := (inner.flush state.disk).1 }, (inner.flush state.disk).2)
  discardRange state start length := { state with disk := inner.discardRange state.disk start length }

/-- The journal grew by writes to allowed positions only. -/
def WritesWithin (allowed : Nat → Prop) (before after : List (Extent UInt8)) : Prop :=
  ∃ added, after = before ++ added ∧ ∀ item ∈ added, ∀ position, Extent.Covers item position → allowed position

theorem WritesWithin.refl {allowed : Nat → Prop} (writes : List (Extent UInt8)) : WritesWithin allowed writes writes :=
  ⟨[], (append_nil _).symm, by simp⟩

theorem WritesWithin.mono {allowed wider : Nat → Prop} {before after : List (Extent UInt8)}
    (within : WritesWithin allowed before after) (le : ∀ position, allowed position → wider position) :
    WritesWithin wider before after := by
  obtain ⟨added, grown, inside⟩ := within
  exact ⟨added, grown, fun item member position covers => le position (inside item member position covers)⟩

namespace CachedBlockStorage

variable {ι : Type} (cache : CachedBlockStorage ι)

def DirtyCovers (position : Nat) : Prop :=
  ∃ (offset : Nat) (block : CacheBlock), cache.blocks[offset]? = some block ∧ block.dirty = true ∧
    Extent.Covers (offset, block.data) position

def dirtyLength (block : CacheBlock) : Nat := if block.dirty then block.data.length else 0

def dirtyBytes : Nat := weight dirtyLength cache.blocks

/-- The byte count is the sum of the lengths of the blocks. -/
def Accounted : Prop :=
  cache.currentCachedBytes = weight (fun block => block.data.length) cache.blocks

/-- Nothing was written and no byte became dirty. -/
structure Quiet (before after : JournaledCache ι) : Prop where
  writes : after.inner.writes = before.inner.writes
  accounted : before.Accounted → after.Accounted
  dirty : ∀ position, after.DirtyCovers position → before.DirtyCovers position

variable {inner : BlockStorage ι} {cache first second third : JournaledCache ι}

theorem Quiet.refl (cache : JournaledCache ι) : Quiet cache cache :=
  ⟨rfl, id, fun _ => id⟩

theorem Quiet.trans (left : Quiet first second) (right : Quiet second third) : Quiet first third where
  writes := right.writes.trans left.writes
  accounted := right.accounted ∘ left.accounted
  dirty position := left.dirty position ∘ right.dirty position

section Read

theorem touch_quiet (cache : JournaledCache ι) (accessed : Nat × CacheBlock → Bool) :
    Quiet cache (cache.touch accessed) where
  writes := rfl
  accounted accounted := by
    refine Eq.trans accounted (weight_map ?_).symm
    intro offset block
    split <;> rfl
  dirty position := by
    rintro ⟨offset, changed, found, dirty, covers⟩
    obtain ⟨block, foundBefore, rfl⟩ := getElem?_map_block found
    refine ⟨offset, block, foundBefore, ?_, ?_⟩
    · split at dirty <;> exact dirty
    · split at covers <;> exact covers

theorem readGaps_writes {start fuel index : Nat} {covered : List Bool} {state : Journal ι} {buffer : Bytes} :
    (readGaps (journaled inner) start covered fuel index state buffer).1.writes = state.writes := by
  induction fuel generalizing index state buffer with
  | zero => rfl
  | succ fuel ih =>
    simp only [readGaps]
    split
    case h_1 => rfl
    case h_2 => exact ih
    case h_3 =>
      split
      case h_1 failure =>
        have := congrArg (fun result => result.1.writes) failure
        exact this.symm
      case h_2 answer =>
        have := congrArg (fun result => result.1.writes) answer
        exact ih.trans this.symm

theorem quiet_of_inner {state : Journal ι} (quiet : Quiet first cache) (writes : state.writes = cache.inner.writes) :
    Quiet first { cache with inner := state } :=
  ⟨writes.trans quiet.writes, quiet.accounted, quiet.dirty⟩

theorem readBlock_quiet (cache : JournaledCache ι) (offset : Nat) (buffer : Bytes) :
    Quiet cache (cache.readBlock (journaled inner) offset buffer).1 := by
  simp only [readBlock]
  split
  case isTrue => exact .refl cache
  case isFalse =>
    split
    case isTrue => exact .refl cache
    case isFalse =>
      split
      case h_1 => exact touch_quiet cache fun entry => decide (entry.1 = offset)
      case h_2 =>
        split
        case isTrue => exact touch_quiet cache _
        case isFalse =>
          split
          case h_1 failure =>
            refine quiet_of_inner (touch_quiet cache _) ?_
            exact (congrArg (fun result => result.1.writes) failure).symm.trans readGaps_writes
          case h_2 answer =>
            refine quiet_of_inner (touch_quiet cache _) ?_
            exact (congrArg (fun result => result.1.writes) answer).symm.trans readGaps_writes

end Read

theorem discardRange_accounted {cache : CachedBlockStorage ι} (start length : Nat) (accounted : cache.Accounted) :
    (cache.discardRange start length).Accounted := by
  simp only [Accounted, discardRange, dataLength] at accounted ⊢
  rw [weight_filter, accounted]

theorem discardRange_quiet (cache : JournaledCache ι) (start length : Nat) :
    Quiet cache (cache.discardRange start length) where
  writes := rfl
  accounted := discardRange_accounted start length
  dirty position := by
    rintro ⟨offset, block, found, dirty, covers⟩
    refine ⟨offset, block, ?_, dirty, covers⟩
    simp only [discardRange] at found
    rw [getElem?_filter', Option.filter_eq_some_iff] at found
    exact found.1

section Evict

/-- The entries are clean blocks of the cache, each listed once. -/
structure Listed (cache : CachedBlockStorage ι) (entries : List (Nat × Nat)) : Prop where
  distinct : (entries.map Prod.fst).Nodup
  clean : ∀ entry ∈ entries, ∃ block, cache.blocks[entry.1]? = some block ∧ block.dirty = false ∧
    block.data.length = entry.2

theorem leastRecent_listed (cache : CachedBlockStorage ι) :
    Listed cache (leastRecent (cache.blocks.toList.filter fun entry => !entry.2.dirty)) where
  distinct := by
    have keys : (cache.blocks.toList.map Prod.fst).Nodup := by
      rw [map_fst_toList_eq_keys]
      exact nodup_keys
    have kept : ((cache.blocks.toList.filter fun entry => !entry.2.dirty).map Prod.fst).Nodup :=
      keys.sublist (filter_sublist.map _)
    have sorted := (perm_insertionSort (fun first second => first.2.lastAccessed ≤ second.2.lastAccessed)
      (cache.blocks.toList.filter fun entry => !entry.2.dirty)).map Prod.fst
    rw [leastRecent, map_map]
    exact sorted.nodup_iff.mpr kept
  clean _ := leastRecent_clean

theorem Listed.tail {entry : Nat × Nat} {rest : List (Nat × Nat)} {cachedBytes : Nat}
    {cache : CachedBlockStorage ι} (listed : Listed cache (entry :: rest)) :
    Listed { cache with blocks := cache.blocks.erase entry.1, currentCachedBytes := cachedBytes } rest where
  distinct := (nodup_cons.mp listed.distinct).2
  clean other member := by
    obtain ⟨block, found, clean, length⟩ := listed.clean other (mem_cons_of_mem _ member)
    refine ⟨block, ?_, clean, length⟩
    have different : entry.1 ≠ other.1 := by
      intro same
      exact (nodup_cons.mp listed.distinct).1 (same ▸ mem_map_of_mem member)
    rw [getElem?_erase_block, if_neg different]
    exact found

theorem erase_clean {cache : CachedBlockStorage ι} {entry : Nat × Nat} {rest : List (Nat × Nat)}
    (listed : Listed cache (entry :: rest)) :
    (cache.Accounted → Accounted { cache with
        blocks := cache.blocks.erase entry.1
        currentCachedBytes := cache.currentCachedBytes - entry.2 }) ∧
      weight dirtyLength (cache.blocks.erase entry.1) = cache.dirtyBytes := by
  obtain ⟨block, found, clean, length⟩ := listed.clean entry mem_cons_self
  constructor
  · intro accounted
    have split := @weight_erase _ (fun block : CacheBlock => block.data.length) cache.blocks entry.1
    simp only [Accounted, found, Option.map_some, Option.getD_some] at accounted split ⊢
    omega
  · have split := @weight_erase _ dirtyLength cache.blocks entry.1
    simpa [dirtyLength, found, clean, dirtyBytes] using split

/-- A pass of the eviction: either the cache fits, or no listed block is left. -/
theorem evictLoop_clean {cache : CachedBlockStorage ι} {entries : List (Nat × Nat)} (listed : Listed cache entries) :
    (cache.Accounted → (evictLoop entries cache).Accounted) ∧
      (evictLoop entries cache).dirtyBytes = cache.dirtyBytes ∧
      ((evictLoop entries cache).inner = cache.inner ∧
        (evictLoop entries cache).maxCacheBytes = cache.maxCacheBytes ∧
        (evictLoop entries cache).currentDirtyBytes = cache.currentDirtyBytes) ∧
      (∀ (offset : Nat) (block : CacheBlock), (evictLoop entries cache).blocks[offset]? = some block →
        cache.blocks[offset]? = some block) ∧
      ((evictLoop entries cache).currentCachedBytes ≤ cache.maxCacheBytes ∨
        ∀ entry ∈ entries, (evictLoop entries cache).blocks[entry.1]? = none) := by
  induction entries generalizing cache with
  | nil => exact ⟨id, rfl, ⟨rfl, rfl, rfl⟩, fun _ _ => id, .inr (by simp)⟩
  | cons entry rest ih =>
    obtain ⟨accounted, dirty⟩ := erase_clean listed
    simp only [evictLoop]
    split
    case isTrue fits =>
      exact ⟨accounted, dirty, ⟨rfl, rfl, rfl⟩, fun _ _ => getElem?_of_erase, .inl fits⟩
    case isFalse =>
      obtain ⟨accountedRest, dirtyRest, same, older, done⟩ := ih listed.tail
      refine ⟨accountedRest ∘ accounted, dirtyRest.trans dirty, same, ?_, ?_⟩
      · intro offset block found
        exact getElem?_of_erase (older offset block found)
      · rcases done with fits | gone
        · exact .inl fits
        · refine .inr ?_
          intro other member
          rcases mem_cons.mp member with rfl | inRest
          · cases left : (evictLoop rest _).blocks[other.1]? with
            | none => rfl
            | some block =>
              have kept := older _ _ left
              simp at kept
          · exact gone other inRest

theorem listed_of_left {cache after : CachedBlockStorage ι} {listed : Nat × CacheBlock → Bool} {offset : Nat}
    {block : CacheBlock} (gone : ∀ entry ∈ leastRecent (cache.blocks.toList.filter listed), after.blocks[entry.1]? = none)
    (found : cache.blocks[offset]? = some block) (left : after.blocks[offset]? = some block) :
    listed (offset, block) = false := by
  by_contra isListed
  have member : (offset, block) ∈ cache.blocks.toList.filter listed :=
    mem_filter.mpr ⟨mem_toList_iff_getElem?_eq_some.mpr found, by simpa using isListed⟩
  rw [gone (offset, block.data.length) (mem_map.mpr ⟨_, (mem_insertionSort _).mpr member, rfl⟩)] at left
  cases left

variable {cache : JournaledCache ι}

theorem evictLoop_quiet {entries : List (Nat × Nat)} (listed : Listed cache entries) :
    Quiet cache (evictLoop entries cache) := by
  obtain ⟨accounted, _, ⟨same, _⟩, older, _⟩ := evictLoop_clean listed
  refine ⟨congrArg Journal.writes same, accounted, ?_⟩
  rintro position ⟨offset, block, found, dirty, covers⟩
  exact ⟨offset, block, older offset block found, dirty, covers⟩

theorem evictIfNeeded_quiet (accounted : cache.Accounted) (room : cache.dirtyBytes ≤ cache.maxCacheBytes) :
    Quiet cache (cache.evictIfNeeded (journaled inner)).1 := by
  simp only [evictIfNeeded]
  split
  case isTrue => exact .refl cache
  case isFalse =>
    have listed := leastRecent_listed cache
    generalize entries : leastRecent (cache.blocks.toList.filter fun entry => !entry.2.dirty) = clean at listed
    have quiet := evictLoop_quiet listed
    obtain ⟨_, dirty, ⟨_, limit, _⟩, older, done⟩ := evictLoop_clean listed
    have fits : (evictLoop clean cache).currentCachedBytes ≤ cache.maxCacheBytes := by
      rcases done with fits | gone
      · exact fits
      · have allDirty : weight (fun block => block.data.length) (evictLoop clean cache).blocks =
            (evictLoop clean cache).dirtyBytes := by
          refine weight_congr_count fun offset block found => ?_
          cases isDirty : block.dirty with
          | true => simp [dirtyLength, isDirty]
          | false =>
            -- a clean block was listed, so that the loop has dropped it
            subst entries
            have kept := listed_of_left gone (older offset block found) found
            simp [isDirty] at kept
        rw [quiet.accounted accounted, allDirty, dirty]
        exact room
    rw [if_pos (by rw [limit]; exact fits)]
    exact quiet

end Evict

section Write

variable {offset : Nat} {data : Bytes}

theorem storeBlock_accounted {cache : CachedBlockStorage ι} (accounted : cache.Accounted) :
    (cache.storeBlock offset data).Accounted := by
  simp only [Accounted, storeBlock] at accounted ⊢
  rw [weight_insert, accounted]

theorem storeBlock_dirtyBytes (cache : CachedBlockStorage ι) :
    (cache.storeBlock offset data).dirtyBytes ≤ cache.dirtyBytes + data.length :=
  (weight_insert _ _ _).trans_le (Nat.add_le_add_right (Nat.sub_le _ _) _)

theorem storeBlock_dirty {cache : CachedBlockStorage ι} {position : Nat}
    (dirty : (cache.storeBlock offset data).DirtyCovers position) :
    cache.DirtyCovers position ∨ Extent.Covers (offset, data) position := by
  obtain ⟨other, block, found, isDirty, covers⟩ := dirty
  simp only [storeBlock] at found
  rw [getElem?_insert_block] at found
  split at found
  case isTrue same =>
    cases found
    exact .inr (same ▸ covers)
  case isFalse => exact .inl ⟨other, block, found, isDirty, covers⟩

/-- A block for which there is room among the dirty bytes is kept in the cache. -/
theorem writeBlock_kept (accounted : cache.Accounted)
    (room : cache.dirtyBytes + data.length ≤ cache.maxCacheBytes) :
    (cache.writeBlock (journaled inner) offset data).1.inner.writes = cache.inner.writes ∧
      (cache.writeBlock (journaled inner) offset data).1.Accounted ∧
      ∀ position, (cache.writeBlock (journaled inner) offset data).1.DirtyCovers position →
        cache.DirtyCovers position ∨ Extent.Covers (offset, data) position := by
  simp only [writeBlock]
  split
  case isTrue => exact ⟨rfl, accounted, fun _ => .inl⟩
  case isFalse =>
    split
    case isTrue => exact ⟨rfl, accounted, fun _ => .inl⟩
    case isFalse =>
      have fits : (cache.storeBlock offset data).dirtyBytes ≤ (cache.storeBlock offset data).maxCacheBytes :=
        Nat.le_trans (storeBlock_dirtyBytes cache) room
      have quiet : Quiet (cache.storeBlock offset data)
          ((cache.storeBlock offset data).evictIfNeeded (journaled inner)).1 :=
        evictIfNeeded_quiet (storeBlock_accounted accounted) fits
      exact ⟨quiet.writes, quiet.accounted (storeBlock_accounted accounted),
        fun position dirty => storeBlock_dirty (quiet.dirty position dirty)⟩

end Write

section Flush

theorem writeChunks_writes (chunks : List (Extent UInt8)) (state : Journal ι) :
    ∃ added, (writeChunks (journaled inner) state chunks).1.writes = state.writes ++ added ∧
      ∀ item ∈ added, item ∈ chunks := by
  induction chunks generalizing state with
  | nil => exact ⟨[], (append_nil _).symm, by simp⟩
  | cons chunk chunks ih =>
    obtain ⟨start, data⟩ := chunk
    have first : ((journaled inner).writeBlock state start data).1.writes = state.writes ++ [(start, data)] := rfl
    simp only [writeChunks]
    split
    case h_1 next written =>
      rw [written] at first
      obtain ⟨added, grown, listed⟩ := ih next
      refine ⟨(start, data) :: added, by rw [grown, first, append_assoc, singleton_append], ?_⟩
      intro item member
      rcases mem_cons.mp member with rfl | inRest
      · exact mem_cons_self
      · exact mem_cons_of_mem _ (listed item inRest)
    case h_2 next reason written =>
      rw [written] at first
      exact ⟨[(start, data)], first, by simp⟩

theorem flush_writes (cache : JournaledCache ι) :
    WritesWithin cache.DirtyCovers cache.inner.writes (cache.flush (journaled inner)).1.inner.writes := by
  obtain ⟨added, grown, listed⟩ := @writeChunks_writes _ inner
    (coalesce ((cache.dirtyBlocks none).map extent)) cache.inner
  have dirty : ∀ item ∈ added, ∀ position, Extent.Covers item position → cache.DirtyCovers position := by
    intro item member position covers
    obtain ⟨original, originalMember, originalCovers⟩ := coalesce_covers (listed item member) covers
    obtain ⟨entry, entryMember, rfl⟩ := mem_map.mp originalMember
    obtain ⟨found, flushed⟩ := mem_dirtyBlocks.mp entryMember
    exact ⟨entry.1, entry.2, found, by simpa [flushes, inRange] using flushed, originalCovers⟩
  simp only [flush, flushInternal]
  split
  case isTrue => exact .refl _
  case isFalse =>
    split
    case h_1 written =>
      rw [written] at grown
      exact ⟨added, grown, dirty⟩
    case h_2 written =>
      rw [written] at grown
      exact ⟨added, grown, dirty⟩

theorem flushInternal_accounted {storage : BlockStorage ι} {cache : CachedBlockStorage ι}
    {rangeFilter : Option (Nat × Nat)} (accounted : cache.Accounted) :
    (cache.flushInternal storage rangeFilter).1.Accounted := by
  simp only [flushInternal]
  split
  case isTrue => exact accounted
  case isFalse =>
    split
    case h_1 => exact accounted
    case h_2 =>
      refine Eq.trans accounted (weight_map ?_).symm
      intro offset block
      simp only [markClean]
      split <;> rfl

end Flush

end CachedBlockStorage

end BitTorrent
