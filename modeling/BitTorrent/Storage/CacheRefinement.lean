import BitTorrent.Storage.DiskCache

/-! # The write cache refines a flat store

The logical content of a cache is the content of the inner storage overlaid with the cached
blocks.  It is defined over any inner storage that behaves as a flat store when it succeeds,
so the results hold for every pattern of inner failures.
-/

namespace BitTorrent.CachedBlockStorage

open FlatStore Chunks List Std.TreeMap

variable {ι : Type} {store : ByteStore ι} {cache : CachedBlockStorage ι}
variable {offset position : Nat} {block : CacheBlock}

def extents (blocks : CacheBlocks) : List (Extent UInt8) :=
  blocks.toList.map extent

def logical (store : ByteStore ι) (cache : CachedBlockStorage ι) : Nat → UInt8 :=
  writeAll (store.content cache.inner) (extents cache.blocks)

variable {blocks : CacheBlocks} {content : Nat → UInt8}

theorem mem_extents {item : Extent UInt8} :
    item ∈ extents blocks ↔ ∃ block, blocks[item.1]? = some block ∧ block.data = item.2 := by
  unfold extents
  rw [mem_map]
  constructor
  · rintro ⟨⟨offset, block⟩, member, rfl⟩
    exact ⟨block, mem_toList_iff_getElem?_eq_some.mp member, rfl⟩
  · rintro ⟨block, found, data⟩
    exact ⟨(item.1, block), mem_toList_iff_getElem?_eq_some.mpr found, Prod.ext rfl data⟩

def NoOverlap (blocks : CacheBlocks) : Prop :=
  ∀ (first second : Nat) (lower upper : CacheBlock), blocks[first]? = some lower →
    blocks[second]? = some upper → first < second → first + lower.data.length ≤ second

def CleanAgree (content : Nat → UInt8) (blocks : CacheBlocks) : Prop :=
  ∀ (offset : Nat) (block : CacheBlock), blocks[offset]? = some block → block.dirty = false →
    ∀ position, Extent.Covers (offset, block.data) position →
      write content offset block.data position = content position

structure Coherent (store : ByteStore ι) (cache : CachedBlockStorage ι) : Prop where
  disjoint : NoOverlap cache.blocks
  clean : CleanAgree (store.content cache.inner) cache.blocks

theorem NoOverlap.unique (disjoint : NoOverlap blocks)
    {first second : Nat} {lower upper : CacheBlock} (foundFirst : blocks[first]? = some lower)
    (foundSecond : blocks[second]? = some upper) (coversFirst : Extent.Covers (first, lower.data) position)
    (coversSecond : Extent.Covers (second, upper.data) position) : first = second := by
  obtain ⟨lowerFirst, upperFirst⟩ := coversFirst
  obtain ⟨lowerSecond, upperSecond⟩ := coversSecond
  simp only at lowerFirst upperFirst lowerSecond upperSecond
  rcases Nat.lt_trichotomy first second with less | equal | greater
  · have apart := disjoint _ _ _ _ foundFirst foundSecond less
    omega
  · exact equal
  · have apart := disjoint _ _ _ _ foundSecond foundFirst greater
    omega

theorem overlay_covered (disjoint : NoOverlap blocks) (found : blocks[offset]? = some block)
    (covers : Extent.Covers (offset, block.data) position) (base : Nat → UInt8) :
    writeAll content (extents blocks) position = write base offset block.data position := by
  have member : (offset, block.data) ∈ extents blocks := mem_extents.mpr ⟨block, found, rfl⟩
  refine writeAll_of_unique member covers ?_
  intro other otherMember otherCovers
  obtain ⟨otherBlock, otherFound, otherData⟩ := mem_extents.mp otherMember
  have sameOffset : other.1 = offset := by
    refine disjoint.unique otherFound found ?_ covers
    rw [otherData]
    exact otherCovers
  rw [sameOffset, found, Option.some.injEq] at otherFound
  subst otherFound
  exact Prod.ext sameOffset otherData.symm

theorem overlay_uncovered (uncovered : ∀ offset block, blocks[offset]? = some block →
      ¬ Extent.Covers (offset, block.data) position) :
    writeAll content (extents blocks) position = content position := by
  refine writeAll_uncovered ?_
  intro item member covers
  obtain ⟨block, found, data⟩ := mem_extents.mp member
  refine uncovered item.1 block found ?_
  rw [data]
  exact covers

theorem overlay_congr {first second : Nat → UInt8} (agree : ∀ position, (∀ offset block, blocks[offset]? = some block →
      ¬ Extent.Covers (offset, block.data) position) → first position = second position) :
    writeAll first (extents blocks) = writeAll second (extents blocks) := by
  funext position
  by_cases covered : ∃ item ∈ extents blocks, Extent.Covers item position
  · exact writeAll_covered covered
  · have uncovered : ∀ offset block, blocks[offset]? = some block →
        ¬ Extent.Covers (offset, block.data) position := by
      intro offset block found covers
      exact covered ⟨_, mem_extents.mpr ⟨block, found, rfl⟩, covers⟩
    rw [overlay_uncovered uncovered, overlay_uncovered uncovered, agree position uncovered]

theorem overlay_same {other : CacheBlocks} (disjoint : NoOverlap blocks)
    (disjointOther : NoOverlap other)
    (same : ∀ (offset : Nat) (block : CacheBlock), Extent.Covers (offset, block.data) position →
      (other[offset]? = some block ↔ blocks[offset]? = some block)) :
    writeAll content (extents other) position = writeAll content (extents blocks) position := by
  by_cases covered : ∃ offset block, blocks[offset]? = some block ∧ Extent.Covers (offset, block.data) position
  · obtain ⟨offset, block, found, covers⟩ := covered
    rw [overlay_covered disjoint found covers content,
      overlay_covered disjointOther ((same offset block covers).mpr found) covers content]
  · rw [overlay_uncovered fun offset block found covers => covered ⟨offset, block, found, covers⟩,
      overlay_uncovered fun offset block found covers =>
        covered ⟨offset, block, (same offset block covers).mp found, covers⟩]

theorem getElem?_insert_block (blocks : CacheBlocks) (offset other : Nat) (block : CacheBlock) :
    (blocks.insert offset block)[other]? = if offset = other then some block else blocks[other]? := by
  simp [Std.TreeMap.getElem?_insert]

theorem getElem?_erase_block (blocks : CacheBlocks) (offset other : Nat) :
    (blocks.erase offset)[other]? = if offset = other then none else blocks[other]? := by
  simp [getElem?_erase]

variable {change : Nat → CacheBlock → CacheBlock} {after : CachedBlockStorage ι}

theorem extents_map (same : ∀ offset block, (change offset block).data = block.data) :
    extents (blocks.map change) = extents blocks := by
  rw [extents, extents, toList_map, map_map]
  refine map_congr_left ?_
  intro entry _
  exact Prod.ext rfl (same entry.1 entry.2)

theorem getElem?_map_block {changed : CacheBlock} (found : (blocks.map change)[offset]? = some changed) :
    ∃ block, blocks[offset]? = some block ∧ changed = change offset block := by
  rw [Std.TreeMap.getElem?_map, Option.map_eq_some_iff] at found
  obtain ⟨block, blockFound, rfl⟩ := found
  exact ⟨block, blockFound, rfl⟩

theorem NoOverlap.map (disjoint : NoOverlap blocks) (same : ∀ offset block, (change offset block).data = block.data) :
    NoOverlap (blocks.map change) := by
  intro first second lower upper foundFirst foundSecond less
  obtain ⟨lower, foundLower, rfl⟩ := getElem?_map_block foundFirst
  obtain ⟨upper, foundUpper, rfl⟩ := getElem?_map_block foundSecond
  rw [same]
  exact disjoint _ _ _ _ foundLower foundUpper less

section Flush

variable {chunks : List (Extent UInt8)}

theorem writeChunks_ok {inner after : ι} (written : writeChunks store.toBlockStorage inner chunks = (after, .ok ())) :
    store.content after = writeAll (store.content inner) chunks := by
  induction chunks generalizing inner with
  | nil =>
    cases written
    rfl
  | cons chunk chunks ih =>
    unfold writeChunks at written
    split at written
    case h_1 next first =>
      rw [ih written, store.write_ok first]
      rfl
    case h_2 => cases written

variable {outcome : Result Unit}

theorem writeChunks_outside {inner after : ι}
    (written : writeChunks store.toBlockStorage inner chunks = (after, outcome))
    (outside : ∀ chunk ∈ chunks, ¬ Extent.Covers chunk position) :
    store.content after position = store.content inner position := by
  induction chunks generalizing inner with
  | nil =>
    cases written
    rfl
  | cons chunk chunks ih =>
    obtain ⟨start, data⟩ := chunk
    have outsideFirst := outside (start, data) mem_cons_self
    unfold writeChunks at written
    split at written
    case h_1 next first =>
      have rest := ih written fun chunk member => outside chunk (mem_cons_of_mem _ member)
      rw [rest, store.write_ok first, write_outside outsideFirst]
    case h_2 next reason first =>
      cases written
      exact store.write_error first position outsideFirst

variable {rangeFilter : Option (Nat × Nat)}

theorem mem_dirtyBlocks {entry : Nat × CacheBlock} :
    entry ∈ cache.dirtyBlocks rangeFilter ↔
      cache.blocks[entry.1]? = some entry.2 ∧ flushes rangeFilter entry.1 entry.2 = true := by
  rw [dirtyBlocks, mem_filter, ← mem_toList_iff_getElem?_eq_some]

theorem flushed_outside {after : ι} (written : writeChunks store.toBlockStorage cache.inner
      (coalesce ((cache.dirtyBlocks rangeFilter).map extent)) = (after, outcome))
    (outside : ∀ offset block, cache.blocks[offset]? = some block →
      flushes rangeFilter offset block = true → ¬ Extent.Covers (offset, block.data) position) :
    store.content after position = store.content cache.inner position := by
  refine writeChunks_outside written ?_
  intro chunk member covers
  obtain ⟨item, itemMember, itemCovers⟩ := coalesce_covers member covers
  obtain ⟨entry, entryMember, rfl⟩ := mem_map.mp itemMember
  obtain ⟨found, flushed⟩ := mem_dirtyBlocks.mp entryMember
  exact outside entry.1 entry.2 found flushed itemCovers

theorem flushed_inside (disjoint : NoOverlap cache.blocks) {after : ι}
    (written : writeChunks store.toBlockStorage cache.inner
      (coalesce ((cache.dirtyBlocks rangeFilter).map extent)) = (after, .ok ()))
    (found : cache.blocks[offset]? = some block) (flushed : flushes rangeFilter offset block = true)
    (covers : Extent.Covers (offset, block.data) position) (base : Nat → UInt8) :
    store.content after position = write base offset block.data position := by
  rw [writeChunks_ok written, writeAll_coalesce]
  have member : (offset, block.data) ∈ (cache.dirtyBlocks rangeFilter).map extent :=
    mem_map.mpr ⟨(offset, block), mem_dirtyBlocks.mpr ⟨found, flushed⟩, rfl⟩
  refine writeAll_of_unique member covers ?_
  intro other otherMember otherCovers
  obtain ⟨entry, entryMember, rfl⟩ := mem_map.mp otherMember
  have entryFound := (mem_dirtyBlocks.mp entryMember).1
  have sameOffset := disjoint.unique entryFound found otherCovers covers
  rw [sameOffset, found, Option.some.injEq] at entryFound
  rw [extent, sameOffset, ← entryFound]

theorem clean_outside (disjoint : NoOverlap cache.blocks) {after : ι}
    (written : writeChunks store.toBlockStorage cache.inner
      (coalesce ((cache.dirtyBlocks rangeFilter).map extent)) = (after, outcome))
    (found : cache.blocks[offset]? = some block) (clean : block.dirty = false)
    (covers : Extent.Covers (offset, block.data) position) :
    store.content after position = store.content cache.inner position := by
  refine flushed_outside written ?_
  intro other otherBlock otherFound otherFlushed otherCovers
  have same := disjoint.unique otherFound found otherCovers covers
  rw [same, found, Option.some.injEq] at otherFound
  rw [← otherFound, flushes, clean, Bool.false_and] at otherFlushed
  cases otherFlushed

/-- A flush changes neither the logical content nor the agreement of the clean blocks,
whether it succeeds, fails at once or fails half way. -/
theorem flushInternal_refines (coherent : Coherent store cache)
    (flushed : flushInternal store.toBlockStorage cache rangeFilter = (after, outcome)) :
    Coherent store after ∧ logical store after = logical store cache := by
  unfold flushInternal at flushed
  dsimp only at flushed
  split at flushed
  case isTrue =>
    cases flushed
    exact ⟨coherent, rfl⟩
  case isFalse =>
    split at flushed
    case h_1 inner reason written =>
      cases flushed
      refine ⟨⟨coherent.disjoint, ?_⟩, overlay_congr ?_⟩
      · intro offset block found clean position covers
        have kept := clean_outside coherent.disjoint written found clean covers
        rw [kept, write_covered covers]
        exact coherent.clean offset block found clean position covers
      · intro position uncovered
        exact flushed_outside written fun offset block found _ => uncovered offset block found
    case h_2 inner written =>
      cases flushed
      have sameData : ∀ offset block, (markClean rangeFilter offset block).data = block.data := by
        intro offset block
        unfold markClean
        split <;> rfl
      refine ⟨⟨coherent.disjoint.map sameData, ?_⟩, ?_⟩
      · intro offset changed foundChanged clean position covers
        obtain ⟨block, found, rfl⟩ := getElem?_map_block foundChanged
        rw [sameData] at covers ⊢
        by_cases now : flushes rangeFilter offset block = true
        · exact (flushed_inside coherent.disjoint written found now covers _).symm
        · have before : block.dirty = false := by
            rwa [markClean, if_neg now] at clean
          have kept := clean_outside coherent.disjoint written found before covers
          rw [kept, write_covered covers]
          exact coherent.clean offset block found before position covers
      · unfold logical
        simp only [extents_map sameData]
        refine overlay_congr ?_
        intro position uncovered
        exact flushed_outside written fun offset block found _ => uncovered offset block found

theorem flush_all_clean {storage : BlockStorage ι} (flushed : flushInternal storage cache none = (after, .ok ())) :
    ∀ (offset : Nat) (block : CacheBlock), after.blocks[offset]? = some block → block.dirty = false := by
  intro offset block found
  unfold flushInternal at flushed
  dsimp only at flushed
  split at flushed
  case isTrue empty =>
    cases flushed
    have noDirty := coalesce_eq_nil (isEmpty_iff.mp empty)
    cases dirty : block.dirty with
    | false => rfl
    | true =>
      have member : (offset, block) ∈ cache.dirtyBlocks none :=
        mem_dirtyBlocks.mpr ⟨found, by simp [flushes, inRange, dirty]⟩
      rw [map_eq_nil_iff.mp noDirty] at member
      cases member
  case isFalse =>
    split at flushed
    case h_1 => cases flushed
    case h_2 inner written =>
      cases flushed
      obtain ⟨before, _, rfl⟩ := getElem?_map_block found
      unfold markClean
      split
      case isTrue => rfl
      case isFalse kept => simpa [flushes, inRange] using kept

end Flush

/-- The blocks that start in the discarded range give way to the inner content; every other
position keeps its logical content. -/
structure Discards (store : ByteStore ι) (before after : CachedBlockStorage ι) (discarded : Nat → Prop) : Prop where
  inner : after.inner = before.inner
  coherent : Coherent store after
  reverted : ∀ (offset : Nat) (block : CacheBlock) (position : Nat),
    before.blocks[offset]? = some block → discarded offset →
    Extent.Covers (offset, block.data) position →
    logical store after position = store.content before.inner position
  kept : ∀ position, (∀ (offset : Nat) (block : CacheBlock), before.blocks[offset]? = some block →
      discarded offset → ¬ Extent.Covers (offset, block.data) position) →
    logical store after position = logical store before position

theorem discards_of_blocks (coherent : Coherent store cache)
    {discarded : Nat → Prop} (inner : after.inner = cache.inner)
    (blocks : ∀ (offset : Nat) (block : CacheBlock), after.blocks[offset]? = some block ↔
      cache.blocks[offset]? = some block ∧ ¬ discarded offset) : Discards store cache after discarded := by
  have disjoint : NoOverlap after.blocks := fun first second lower upper foundFirst foundSecond =>
    coherent.disjoint first second lower upper ((blocks first lower).mp foundFirst).1
      ((blocks second upper).mp foundSecond).1
  refine ⟨inner, ⟨disjoint, ?_⟩, ?_, ?_⟩
  · intro offset block found
    rw [inner]
    exact coherent.clean offset block ((blocks offset block).mp found).1
  · intro offset block position found dropped covers
    unfold logical
    rw [overlay_uncovered, inner]
    intro other otherBlock otherFound otherCovers
    obtain ⟨before, kept⟩ := (blocks other otherBlock).mp otherFound
    rw [coherent.disjoint.unique before found otherCovers covers] at kept
    exact kept dropped
  · intro position untouched
    unfold logical
    rw [inner]
    refine overlay_same coherent.disjoint disjoint ?_
    intro offset block covers
    rw [blocks]
    exact and_iff_left_of_imp fun found dropped => untouched offset block found dropped covers

section Evict

theorem getElem?_of_erase {dropped : Nat}
    (found : (blocks.erase dropped)[offset]? = some block) : blocks[offset]? = some block := by
  rw [getElem?_erase_block] at found
  split at found
  · cases found
  · exact found

theorem erase_refines (coherent : Coherent store cache) (dropped cachedBytes : Nat)
    (clean : ∀ block, cache.blocks[dropped]? = some block → block.dirty = false) :
    Coherent store
        { cache with blocks := cache.blocks.erase dropped, currentCachedBytes := cachedBytes } ∧
      logical store
        { cache with blocks := cache.blocks.erase dropped, currentCachedBytes := cachedBytes } =
        logical store cache := by
  have drops : Discards store cache
      { cache with blocks := cache.blocks.erase dropped, currentCachedBytes := cachedBytes } (dropped = ·) := by
    refine discards_of_blocks coherent rfl ?_
    intro offset block
    rw [getElem?_erase_block]
    split <;> simp_all
  refine ⟨drops.coherent, ?_⟩
  funext position
  by_cases covered : ∃ block, cache.blocks[dropped]? = some block ∧ Extent.Covers (dropped, block.data) position
  · -- the dropped block is clean
    obtain ⟨block, found, covers⟩ := covered
    rw [drops.reverted dropped block position found rfl covers, logical,
      overlay_covered coherent.disjoint found covers (store.content cache.inner)]
    exact (coherent.clean dropped block found (clean block found) position covers).symm
  · refine drops.kept position ?_
    rintro offset block found rfl covers
    exact covered ⟨block, found, covers⟩

theorem evictLoop_refines {entries : List (Nat × Nat)} (coherent : Coherent store cache)
    (clean : ∀ entry ∈ entries, ∀ block, cache.blocks[entry.1]? = some block → block.dirty = false) :
    Coherent store (evictLoop entries cache) ∧
      logical store (evictLoop entries cache) = logical store cache := by
  induction entries generalizing cache with
  | nil => exact ⟨coherent, rfl⟩
  | cons entry rest ih =>
    obtain ⟨dropped, size⟩ := entry
    obtain ⟨kept, same⟩ := erase_refines coherent dropped (cache.currentCachedBytes - size)
      (clean (dropped, size) mem_cons_self)
    unfold evictLoop
    dsimp only
    split
    · exact ⟨kept, same⟩
    · obtain ⟨keptRest, sameRest⟩ := ih kept fun entry member block found =>
        clean entry (mem_cons_of_mem _ member) block (getElem?_of_erase found)
      exact ⟨keptRest, sameRest.trans same⟩

theorem leastRecent_clean {entry : Nat × Nat}
    (listed : entry ∈ leastRecent (cache.blocks.toList.filter fun entry => !entry.2.dirty)) :
    ∃ block, cache.blocks[entry.1]? = some block ∧ block.dirty = false ∧ block.data.length = entry.2 := by
  obtain ⟨original, originalMember, rfl⟩ := mem_map.mp listed
  obtain ⟨inCache, clean⟩ := mem_filter.mp ((mem_insertionSort _).mp originalMember)
  exact ⟨original.2, mem_toList_iff_getElem?_eq_some.mp inCache, by simpa using clean, rfl⟩

theorem evictIfNeeded_refines (coherent : Coherent store cache) {outcome : Result Unit}
    (evicted : evictIfNeeded store.toBlockStorage cache = (after, outcome)) :
    Coherent store after ∧ logical store after = logical store cache := by
  unfold evictIfNeeded at evicted
  split at evicted
  case isTrue =>
    cases evicted
    exact ⟨coherent, rfl⟩
  case isFalse =>
    dsimp only at evicted
    obtain ⟨keptClean, sameClean⟩ := evictLoop_refines coherent fun entry member block found => by
      obtain ⟨_, listed, clean, _⟩ := leastRecent_clean member
      cases listed.symm.trans found
      exact clean
    split at evicted
    case isTrue =>
      cases evicted
      exact ⟨keptClean, sameClean⟩
    case isFalse =>
      split at evicted
      case h_1 flushedCache reason flushed =>
        cases evicted
        obtain ⟨kept, same⟩ := flushInternal_refines keptClean flushed
        exact ⟨kept, same.trans sameClean⟩
      case h_2 flushedCache flushed =>
        cases evicted
        obtain ⟨kept, same⟩ := flushInternal_refines keptClean flushed
        obtain ⟨keptLast, sameLast⟩ := @evictLoop_refines _ store flushedCache
          (leastRecent flushedCache.blocks.toList) kept
          fun _ _ block found => flush_all_clean flushed _ block found
        exact ⟨keptLast, sameLast.trans (same.trans sameClean)⟩

end Evict

section Write

/-- The range to be written is the range of a cached block, or meets none of them. -/
def Separate (cache : CachedBlockStorage ι) (offset : Nat) (data : Bytes) : Prop :=
  ∀ (start : Nat) (block : CacheBlock), cache.blocks[start]? = some block →
    (start = offset ∧ block.data.length = data.length) ∨
      start + block.data.length ≤ offset ∨ offset + data.length ≤ start

variable {data : Bytes}

theorem storeBlock_blocks (cache : CachedBlockStorage ι) (offset : Nat) (data : Bytes) (other : Nat) :
    (cache.storeBlock offset data).blocks[other]? =
      if offset = other then some { data, dirty := true, lastAccessed := cache.clock.headD 0 }
      else cache.blocks[other]? :=
  getElem?_insert_block _ _ _ _

theorem storeBlock_disjoint (disjoint : NoOverlap cache.blocks)
    (separate : Separate cache offset data) : NoOverlap (cache.storeBlock offset data).blocks := by
  intro first second lower upper foundFirst foundSecond less
  rw [storeBlock_blocks] at foundFirst foundSecond
  split at foundFirst
  case isTrue isFirst =>
    rw [if_neg (by omega)] at foundSecond
    cases foundFirst
    rcases separate second upper foundSecond with same | below | above
    · omega
    · omega
    · simp only
      omega
  case isFalse =>
    split at foundSecond
    case isTrue isSecond =>
      rcases separate first lower foundFirst with same | below | above
      · omega
      · omega
      · omega
    case isFalse => exact disjoint first second lower upper foundFirst foundSecond less

theorem storeBlock_refines (coherent : Coherent store cache) (separate : Separate cache offset data)
    (nonempty : 0 < data.length) :
    Coherent store (cache.storeBlock offset data) ∧
      logical store (cache.storeBlock offset data) = write (logical store cache) offset data := by
  have disjoint := storeBlock_disjoint coherent.disjoint separate
  have stored := storeBlock_blocks cache offset data
  refine ⟨⟨disjoint, ?_⟩, ?_⟩
  · intro start block found clean
    rw [stored] at found
    split at found
    · cases found
      cases clean
    · exact coherent.clean start block found clean
  · funext position
    by_cases written : Extent.Covers (offset, data) position
    · exact overlay_covered disjoint ((stored offset).trans (if_pos rfl)) written _
    · rw [write_outside written]
      refine overlay_same coherent.disjoint disjoint ?_
      intro start block covers
      rw [stored]
      by_cases same : offset = start
      · -- the position lies in no block at the offset, neither the old nor the new one
        subst same
        constructor
        · intro found
          rw [if_pos rfl, Option.some.injEq] at found
          subst found
          exact absurd covers written
        · intro found
          refine absurd ⟨covers.1, ?_⟩ written
          have upper := covers.2
          simp only at upper ⊢
          rcases separate offset block found with sameRange | below | above <;> omega
      · rw [if_neg same]

/-- A write changes the logical content exactly on its range, also when the eviction that
follows it fails; a write that is refused changes nothing. -/
theorem writeBlock_refines (coherent : Coherent store cache) (separate : Separate cache offset data)
    {outcome : Result Unit}
    (written : writeBlock store.toBlockStorage cache offset data = (after, outcome)) :
    Coherent store after ∧
      logical store after =
        if offset + data.length < u64Size then write (logical store cache) offset data
        else logical store cache := by
  unfold writeBlock at written
  split at written
  case isTrue empty =>
    cases written
    rw [isEmpty_iff.mp empty, write_nil, ite_self]
    exact ⟨coherent, rfl⟩
  case isFalse nonempty =>
    split at written
    case isTrue overflow =>
      cases written
      rw [if_neg (by omega)]
      exact ⟨coherent, rfl⟩
    case isFalse fits =>
      obtain ⟨keptStore, sameStore⟩ := storeBlock_refines coherent separate
        (length_pos_iff.mpr (by simpa using nonempty))
      obtain ⟨kept, same⟩ := evictIfNeeded_refines keptStore written
      rw [if_pos (by omega)]
      exact ⟨kept, same.trans sameStore⟩

end Write

section Discard

theorem discardRange_refines (coherent : Coherent store cache) (start length : Nat) :
    Discards store cache (cache.discardRange start length)
      fun offset => start ≤ offset ∧ offset < saturatingAdd start length := by
  refine discards_of_blocks coherent rfl ?_
  intro offset block
  simp only [discardRange]
  rw [getElem?_filter', Option.filter_eq_some_iff, Bool.not_eq_true', decide_eq_false_iff_not]

theorem clear_refines (coherent : Coherent store cache) : Discards store cache cache.clear fun _ => True := by
  refine discards_of_blocks coherent rfl ?_
  intro offset block
  simp [clear]

end Discard

end BitTorrent.CachedBlockStorage
