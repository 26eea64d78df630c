import BitTorrent.Library.Runs
import BitTorrent.Storage.CacheJournal

/-! # The byte counts of the write cache

Over any inner storage, whether or not its writes fail.
-/

namespace BitTorrent.CachedBlockStorage

open MapWeight Std.TreeMap List

variable {ι : Type} {storage : BlockStorage ι} {cache : CachedBlockStorage ι} {offset start length : Nat}
  {data : Bytes} {rangeFilter : Option (Nat × Nat)}

inductive Call
  | write (offset : Nat) (data : Bytes)
  | flush
  | flushRange (start length : Nat)
  | discard (start length : Nat)
  | clear

def call (storage : BlockStorage ι) (cache : CachedBlockStorage ι) : Call → CachedBlockStorage ι
  | .write offset data => (cache.writeBlock storage offset data).1
  | .flush => (cache.flush storage).1
  | .flushRange start length => (cache.flushRange storage start length).1
  | .discard start length => cache.discardRange start length
  | .clear => cache.clear

/-- Both counts are the sums over the blocks. -/
structure Counted (cache : CachedBlockStorage ι) : Prop where
  cached : cache.Accounted
  dirty : cache.currentDirtyBytes = cache.dirtyBytes

theorem dataLength_dirty (entries : List (Nat × CacheBlock)) :
    dataLength (entries.filter fun entry => entry.2.dirty) = (entries.map fun entry => dirtyLength entry.2).sum := by
  induction entries with
  | nil => rfl
  | cons entry entries ih =>
    rw [map_cons, sum_cons, ← ih, dirtyLength, filter_cons]
    split
    case isTrue => rfl
    case isFalse => exact (Nat.zero_add _).symm

theorem discardRange_counted (counted : cache.Counted) : (cache.discardRange start length).Counted := by
  refine ⟨discardRange_accounted start length counted.cached, ?_⟩
  have total := counted.dirty
  simp only [dirtyBytes, discardRange] at total ⊢
  rw [weight_filter, dataLength_dirty, total]

theorem weight_markClean (rangeFilter : Option (Nat × Nat)) (blocks : CacheBlocks) :
    weight dirtyLength (blocks.map (markClean rangeFilter)) +
      dataLength (blocks.toList.filter fun entry => flushes rangeFilter entry.1 entry.2) = weight dirtyLength blocks := by
  simp only [weight, toList_map, dataLength]
  induction blocks.toList with
  | nil => rfl
  | cons entry entries ih =>
    have first : dirtyLength (markClean rangeFilter entry.1 entry.2) +
        (if flushes rangeFilter entry.1 entry.2 then entry.2.data.length else 0) = dirtyLength entry.2 := by
      rw [markClean]
      cases cleaned : flushes rangeFilter entry.1 entry.2 with
      | false => simp
      | true =>
        have dirty : entry.2.dirty = true := (Bool.and_eq_true_iff.mp cleaned).1
        simp [dirtyLength, dirty]
    rw [filter_cons]
    split at first
    case isTrue cleaned =>
      rw [if_pos cleaned]
      simp only [map_cons, sum_cons]
      omega
    case isFalse cleaned =>
      rw [if_neg cleaned]
      simp only [map_cons, sum_cons]
      omega

theorem flushInternal_counted (counted : cache.Counted) : (cache.flushInternal storage rangeFilter).1.Counted := by
  refine ⟨flushInternal_accounted counted.cached, ?_⟩
  have total := counted.dirty
  simp only [flushInternal]
  split
  case isTrue => exact total
  case isFalse =>
    split
    case h_1 => exact total
    case h_2 =>
      have split := weight_markClean rangeFilter cache.blocks
      simp only [dirtyBytes, dirtyBlocks] at total ⊢
      omega

theorem evictLoop_counted {entries : List (Nat × Nat)} (listed : Listed cache entries) (counted : cache.Counted) :
    (evictLoop entries cache).Counted := by
  obtain ⟨accounted, dirty, ⟨_, _, same⟩, _⟩ := evictLoop_clean listed
  exact ⟨accounted counted.cached, same.trans (counted.dirty.trans dirty.symm)⟩

theorem evictLoop_fits (counted : cache.Counted)
    (clean : ∀ (offset : Nat) (block : CacheBlock), cache.blocks[offset]? = some block → block.dirty = false) :
    (evictLoop (leastRecent cache.blocks.toList) cache).Counted ∧
      (evictLoop (leastRecent cache.blocks.toList) cache).currentCachedBytes ≤
        (evictLoop (leastRecent cache.blocks.toList) cache).maxCacheBytes := by
  have all : (cache.blocks.toList.filter fun entry => !entry.2.dirty) = cache.blocks.toList := by
    refine filter_eq_self.mpr fun entry member => ?_
    rw [clean entry.1 entry.2 (mem_toList_iff_getElem?_eq_some.mp member), Bool.not_false]
  rw [← all]
  obtain ⟨_, _, ⟨_, limit, _⟩, older, done⟩ := evictLoop_clean (leastRecent_listed cache)
  have kept := evictLoop_counted (leastRecent_listed cache) counted
  refine ⟨kept, limit ▸ done.elim id fun gone => ?_⟩
  have nothing : (evictLoop (leastRecent (cache.blocks.toList.filter fun entry => !entry.2.dirty)) cache).blocks.toList = [] := by
    refine eq_nil_iff_forall_not_mem.mpr fun entry member => ?_
    have found := mem_toList_iff_getElem?_eq_some.mp member
    have dirty := listed_of_left gone (older _ _ found) found
    rw [clean _ _ (older _ _ found)] at dirty
    cases dirty
  rw [kept.cached, weight, nothing]
  exact Nat.zero_le _

theorem evictIfNeeded_counted (counted : cache.Counted) :
    (cache.evictIfNeeded storage).1.Counted ∧
      ((cache.evictIfNeeded storage).2 = .ok () →
        (cache.evictIfNeeded storage).1.currentCachedBytes ≤ (cache.evictIfNeeded storage).1.maxCacheBytes) := by
  simp only [evictIfNeeded]
  split
  case isTrue fits => exact ⟨counted, fun _ => fits⟩
  case isFalse =>
    have kept := evictLoop_counted (leastRecent_listed cache) counted
    split
    case isTrue fits => exact ⟨kept, fun _ => fits⟩
    case isFalse =>
      have flushed := @flushInternal_counted _ storage _ none kept
      split
      case h_1 failed =>
        rw [failed] at flushed
        refine ⟨flushed, fun never => ?_⟩
        cases never
      case h_2 done =>
        rw [done] at flushed
        exact (evictLoop_fits flushed (flush_all_clean done)).imp_right fun fits _ => fits

theorem storeBlock_counted (counted : cache.Counted) : (cache.storeBlock offset data).Counted := by
  refine ⟨storeBlock_accounted counted.cached, ?_⟩
  have old : ((cache.blocks[offset]?.filter fun block => block.dirty).map fun block => block.data.length).getD 0 =
      (cache.blocks[offset]?.map dirtyLength).getD 0 := by
    cases cache.blocks[offset]? with
    | none => rfl
    | some block => cases dirty : block.dirty <;> simp [dirtyLength, dirty, Option.filter]
  have total := counted.dirty
  simp only [dirtyBytes, storeBlock] at total ⊢
  rw [weight_insert, old, total]
  rfl

theorem writeBlock_counted (counted : cache.Counted) :
    (cache.writeBlock storage offset data).1.Counted ∧
      ((cache.writeBlock storage offset data).2 = .ok () → data ≠ [] →
        (cache.writeBlock storage offset data).1.currentCachedBytes ≤
          (cache.writeBlock storage offset data).1.maxCacheBytes) := by
  simp only [writeBlock]
  split
  case isTrue empty => exact ⟨counted, fun _ some_ => absurd (isEmpty_iff.mp empty) some_⟩
  case isFalse =>
    split
    case isTrue =>
      refine ⟨counted, fun never => ?_⟩
      cases never
    case isFalse => exact (evictIfNeeded_counted (storeBlock_counted counted)).imp_right fun fits done _ => fits done

/-- The counts are right after any calls, and a block that is written leaves no more than the limit. -/
theorem counted_of_calls {inner : ι} {maxCacheBytes : Nat} {clock : List Nat}
    (run : Runs.Reaches (call storage) (fun _ _ => True) (new inner maxCacheBytes clock) cache) :
    cache.currentCachedBytes = weight (fun block => block.data.length) cache.blocks ∧
      cache.currentDirtyBytes = weight dirtyLength cache.blocks ∧
      ∀ offset data, (cache.writeBlock storage offset data).2 = .ok () → data ≠ [] →
        (cache.writeBlock storage offset data).1.currentCachedBytes ≤
          (cache.writeBlock storage offset data).1.maxCacheBytes := by
  have counted : cache.Counted := by
    have empty : (new inner maxCacheBytes clock).Counted := ⟨rfl, rfl⟩
    refine run.invariant Counted empty fun cache called counted _ => ?_
    cases called with
    | write offset data => exact (writeBlock_counted counted).1
    | flush => exact flushInternal_counted counted
    | flushRange start length => exact flushInternal_counted counted
    | discard start length => exact discardRange_counted counted
    | clear => exact ⟨rfl, rfl⟩
  exact ⟨counted.cached, counted.dirty, fun offset data => (writeBlock_counted counted).2⟩

/-- An inner storage that takes no writes. -/
def refusing : BlockStorage Unit where
  readBlock state _ _ := (state, .error (.io "refused"))
  writeBlock state _ _ := (state, .error (.io "refused"))
  flush state := (state, .ok ())
  discardRange state _ _ := state

theorem counted_of_calls_overwritten :
    ((call refusing (new () 1 []) (.write 0 [1])).writeBlock refusing 0 [2]).1.currentCachedBytes ≤ 1 :=
  (@counted_of_calls _ refusing _ () 1 [] (.next .refl (.write 0 [1]) trivial)).2.2 0 [2] rfl (by decide)

/-- A cache without room, after a write that could not be flushed. -/
def overfull : CachedBlockStorage Unit := call refusing (new () 0 []) (.write 0 [1])

/-- Writing no bytes succeeds there, and evicts nothing. -/
theorem empty_write_overfull :
    (overfull.writeBlock refusing 0 []).2 = .ok () ∧
      (overfull.writeBlock refusing 0 []).1.maxCacheBytes < (overfull.writeBlock refusing 0 []).1.currentCachedBytes :=
  ⟨rfl, by decide⟩

end BitTorrent.CachedBlockStorage
