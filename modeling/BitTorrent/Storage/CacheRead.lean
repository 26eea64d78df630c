import BitTorrent.Storage.CacheRefinement
import Mathlib.Data.List.TakeWhile

/-! # Reads through the write cache

A read copies the overlapping parts of all cached blocks in offset order, notes what they
covered, and then fills each uncovered run from the inner storage.
-/

namespace BitTorrent.CachedBlockStorage

open FlatStore Chunks List

variable {ι : Type} {store : ByteStore ι} {cache : CachedBlockStorage ι}
variable {targetStart targetLen : Nat}

theorem touch_refines (coherent : Coherent store cache) (accessed : Nat × CacheBlock → Bool) :
    Coherent store (cache.touch accessed) ∧ logical store (cache.touch accessed) = logical store cache := by
  have sameData : ∀ offset block, (if accessed (offset, block) then
      { block with lastAccessed := cache.clock.headD 0 } else block).data = block.data := by
    intro offset block
    split <;> rfl
  refine ⟨⟨coherent.disjoint.map sameData, ?_⟩, ?_⟩
  · intro offset changed foundChanged clean position covers
    obtain ⟨block, found, rfl⟩ := getElem?_map_block foundChanged
    rw [sameData] at covers ⊢
    refine coherent.clean offset block found ?_ position covers
    split at clean <;> exact clean
  · unfold logical touch
    simp only [extents_map sameData]

/-- The buffer and the cover marks after the blocks of `copied` were looked at: a marked
position holds the overlay of those blocks, an unmarked one is covered by none of them. -/
structure Copied (targetStart targetLen : Nat) (copied : List (Nat × CacheBlock))
    (state : Bytes × List Bool) : Prop where
  bufferLength : state.1.length = targetLen
  coverLength : state.2.length = targetLen
  marked : ∀ (base : Nat → UInt8) (index : Nat), state.2[index]? = some true →
    state.1[index]? = some (writeAll base (copied.map extent) (targetStart + index))
  unmarked : ∀ index, state.2[index]? = some false →
    ∀ entry ∈ copied, ¬ Extent.Covers (extent entry) (targetStart + index)

variable {copied : List (Nat × CacheBlock)} {state : Bytes × List Bool} {buffer : Bytes}

/-- Inside the target exactly the positions that the block covers are copied and marked. -/
theorem copyBlock_spec (bufferLength : state.1.length = targetLen) (coverLength : state.2.length = targetLen)
    (entry : Nat × CacheBlock) :
    let after := copyBlock targetStart (targetStart + targetLen) state entry
    (after.1.length = targetLen ∧ after.2.length = targetLen) ∧
      ∀ index < targetLen,
        if Extent.Covers (extent entry) (targetStart + index) then
          after.2[index]? = some true ∧
            ∀ base, after.1[index]? = some (write base entry.1 entry.2.data (targetStart + index))
        else after.2[index]? = state.2[index]? ∧ after.1[index]? = state.1[index]? := by
  obtain ⟨offset, block⟩ := entry
  unfold copyBlock
  split
  case isFalse apart =>
    refine ⟨⟨bufferLength, coverLength⟩, fun index inside => ?_⟩
    simp only [overlaps, decide_eq_true_eq, not_and, not_lt] at apart
    rw [if_neg (by simp only [Extent.Covers, extent]; omega)]
    exact ⟨rfl, rfl⟩
  case isTrue meets =>
    simp only [overlaps, decide_eq_true_eq] at meets
    set first := max targetStart offset with firstDef
    set last := min (targetStart + targetLen) (offset + block.data.length) with lastDef
    have sourceLength : (slice block.data (first - offset) (last - first)).length = last - first := by
      rw [slice_length]
      omega
    have bufferFits : first - targetStart + (slice block.data (first - offset) (last - first)).length ≤
        state.1.length := by
      omega
    have coverFits : first - targetStart + (replicate (last - first) true).length ≤ state.2.length := by
      rw [length_replicate]
      omega
    refine ⟨⟨(splice_length bufferFits).trans bufferLength, (splice_length coverFits).trans coverLength⟩, ?_⟩
    intro index inside
    dsimp only
    rw [splice_getElem? coverFits, splice_getElem? bufferFits]
    simp only [Extent.Covers, extent, sourceLength, length_replicate]
    split
    case isTrue covers =>
      have inRange : first - targetStart ≤ index ∧ index < first - targetStart + (last - first) := by omega
      rw [if_pos inRange, if_pos inRange, getElem?_replicate_of_lt (by omega)]
      refine ⟨rfl, fun base => ?_⟩
      have byteInside : targetStart + index - offset < block.data.length := by omega
      rw [write_inside covers.1 byteInside, slice, getElem?_take_of_lt (by omega),
        getElem?_drop, ← getElem?_eq_getElem byteInside]
      congr 1
      omega
    case isFalse uncovered =>
      rw [if_neg (by omega), if_neg (by omega)]
      exact ⟨rfl, rfl⟩

section

variable (done : Copied targetStart targetLen copied state)
include done

theorem copyBlock_copied (entry : Nat × CacheBlock) :
    Copied targetStart targetLen (copied ++ [entry]) (copyBlock targetStart (targetStart + targetLen) state entry) := by
  obtain ⟨⟨bufferLength, coverLength⟩, spec⟩ := @copyBlock_spec targetStart _ _ done.bufferLength done.coverLength entry
  refine ⟨bufferLength, coverLength, ?_, ?_⟩
  · intro base index mark
    have copies := spec index (coverLength ▸ (List.getElem?_eq_some_iff.mp mark).1)
    rw [map_append, writeAll_append]
    split at copies
    case isTrue => exact copies.2 _
    case isFalse uncovered =>
      rw [copies.2, done.marked base index (copies.1 ▸ mark)]
      exact congrArg some (write_outside uncovered).symm
  · intro index mark other member
    have copies := spec index (coverLength ▸ (List.getElem?_eq_some_iff.mp mark).1)
    split at copies
    case isTrue => cases copies.1.symm.trans mark
    case isFalse uncovered =>
      rcases mem_append.mp member with early | late
      · exact done.unmarked index (copies.1 ▸ mark) other early
      · rw [mem_singleton.mp late]
        exact uncovered

theorem copyBlocks_copied (entries : List (Nat × CacheBlock)) :
    Copied targetStart targetLen (copied ++ entries)
      (entries.foldl (copyBlock targetStart (targetStart + targetLen)) state) := by
  induction entries generalizing copied state with
  | nil => rwa [append_nil]
  | cons entry entries ih =>
    rw [foldl_cons, append_cons]
    exact ih (copyBlock_copied done entry)

end

theorem copied_toList (blocks : CacheBlocks) (targetStart : Nat) (buffer : Bytes) :
    Copied targetStart buffer.length blocks.toList
      (blocks.toList.foldl (copyBlock targetStart (targetStart + buffer.length))
        (buffer, replicate buffer.length false)) := by
  have nothing : Copied targetStart buffer.length [] (buffer, replicate buffer.length false) := by
    refine ⟨rfl, length_replicate, ?_, ?_⟩
    · intro base index mark
      rw [getElem?_replicate] at mark
      split at mark <;> cases mark
    · intro index mark entry member
      cases member
  exact copyBlocks_copied nothing blocks.toList

theorem coherent_of_content (coherent : Coherent store cache) {inner : ι}
    (content : store.content inner = store.content cache.inner) :
    Coherent store { cache with inner } ∧
      logical store { cache with inner } = logical store cache := by
  refine ⟨⟨coherent.disjoint, ?_⟩, ?_⟩
  · rw [content]
    exact coherent.clean
  · simp only [logical, content]

section Gaps

variable {covered : List Bool} {expected : Nat → UInt8}

/-- The first uncovered run from `start` on is uncovered, and not empty. -/
private theorem gap_uncovered {start : Nat} (open_ : covered[start]? = some false) :
    0 < ((covered.drop start).takeWhile fun c => !c).length ∧
      ∀ step, step < ((covered.drop start).takeWhile fun c => !c).length →
        covered[start + step]? = some false := by
  obtain ⟨inside, value⟩ := List.getElem?_eq_some_iff.mp open_
  constructor
  · rw [drop_eq_getElem_cons inside, value]
    simp
  · intro step short
    have member := getElem_mem short
    have isOpen := mem_takeWhile_imp member
    have same := IsPrefix.getElem (List.takeWhile_prefix fun c => !c) short
    rw [same] at isOpen
    rw [← getElem?_drop, getElem?_eq_getElem
      (short.trans_le (List.takeWhile_prefix _).length_le)]
    simpa using isOpen

/-- The fill loop leaves the expected bytes everywhere: what it has passed and what was
covered is right already, and the uncovered rest is what the inner storage holds. -/
theorem readGaps_refines {fuel start : Nat} {inner after : ι} {outcome : Result Bytes}
    (filled : readGaps store.toBlockStorage targetStart covered fuel start inner buffer = (after, outcome))
    (sizes : buffer.length = covered.length) (enough : covered.length ≤ start + fuel)
    (right : ∀ index < covered.length, index < start ∨ covered[index]? = some true →
      buffer[index]? = some (expected (targetStart + index))) (unmarked : ∀ index, covered[index]? = some false →
      store.content inner (targetStart + index) = expected (targetStart + index)) :
    store.content after = store.content inner ∧
      ∀ bytes, outcome = .ok bytes → bytes = read expected targetStart covered.length := by
  induction fuel generalizing start inner buffer with
  | zero =>
    cases filled
    refine ⟨rfl, ?_⟩
    intro bytes same
    cases same
    exact eq_read sizes fun index inside => right index inside (.inl (by omega))
  | succ fuel ih =>
    unfold readGaps at filled
    split at filled
    case h_1 ended =>
      cases filled
      refine ⟨rfl, ?_⟩
      intro bytes same
      cases same
      have ended := getElem?_eq_none_iff.mp ended
      exact eq_read sizes fun index inside => right index inside (.inl (by omega))
    case h_2 mark =>
      refine ih filled sizes (by omega) (fun index inside known => right index inside ?_) unmarked
      rcases known with before | isMarked
      · rcases Nat.lt_succ_iff_lt_or_eq.mp before with earlier | rfl
        · exact .inl earlier
        · exact .inr mark
      · exact .inr isMarked
    case h_3 mark =>
      dsimp only at filled
      obtain ⟨positive, uncovered⟩ := gap_uncovered mark
      set gapLen := ((covered.drop start).takeWhile fun c => !c).length with gapDef
      have gapFits : start + gapLen ≤ covered.length := by
        have short := (List.takeWhile_prefix (l := covered.drop start) fun c => !c).length_le
        rw [length_drop] at short
        omega
      have sliceLength : (slice buffer start gapLen).length = gapLen := by
        rw [slice_length]
        omega
      split at filled
      case h_1 next reason failed =>
        cases filled
        have kept := @ByteStore.read_content _ store inner (targetStart + start) (slice buffer start gapLen)
        rw [failed] at kept
        exact ⟨kept, fun bytes same => by cases same⟩
      case h_2 next count bytes succeeded =>
        have kept := @ByteStore.read_content _ store inner (targetStart + start) (slice buffer start gapLen)
        rw [succeeded] at kept
        have bytesEq := store.read_ok succeeded
        rw [sliceLength] at bytesEq
        have bytesLength : bytes.length = gapLen := by rw [bytesEq, read_length]
        have fits : start + bytes.length ≤ buffer.length := by omega
        -- Where the run was filled the buffer now holds the inner content.
        have spliced (index : Nat) : (splice buffer start bytes)[index]? =
            if start ≤ index ∧ index < start + gapLen then
              some (expected (targetStart + index)) else buffer[index]? := by
          rw [splice_getElem? fits]
          by_cases inGap : start ≤ index ∧ index < start + gapLen
          · rw [if_pos (by simpa only [Extent.Covers, bytesLength] using inGap), if_pos inGap, bytesEq,
              read_getElem? _ _ _ (by omega)]
            have open_ := uncovered (index - start) (by omega)
            rw [show start + (index - start) = index by omega] at open_
            rw [show targetStart + start + (index - start) = targetStart + index by omega, unmarked index open_]
          · rw [if_neg (by simpa only [Extent.Covers, bytesLength] using inGap), if_neg inGap]
        have rest := ih filled (by rw [splice_length fits]; exact sizes) (by omega) ?_ ?_
        · exact ⟨rest.1.trans kept, rest.2⟩
        · intro index inside known
          rw [spliced]
          split
          · rfl
          · exact right index inside (known.imp_left fun before => by omega)
        · intro index isOpen
          rw [show store.content next = store.content inner from kept]
          exact unmarked index isOpen

end Gaps

theorem take_eq_read (coherent : Coherent store cache) {offset count : Nat} {block : CacheBlock}
    (found : cache.blocks[offset]? = some block) (long : count ≤ block.data.length) :
    block.data.take count = read (logical store cache) offset count := by
  refine eq_read (length_take_of_le long) ?_
  intro step inside
  have covers : Extent.Covers (offset, block.data) (offset + step) := ⟨Nat.le_add_right _ _, by simp only; omega⟩
  rw [getElem?_take_of_lt inside, logical, overlay_covered coherent.disjoint found covers
    (store.content cache.inner), write_inside covers.1 (by omega), getElem?_eq_getElem (by omega)]
  congr 2
  omega

theorem readBlock_refines (coherent : Coherent store cache) {offset : Nat}
    {after : CachedBlockStorage ι} {outcome : Result (Nat × Bytes)}
    (done : readBlock store.toBlockStorage cache offset buffer = (after, outcome)) :
    Coherent store after ∧ logical store after = logical store cache ∧
      ∀ count bytes, outcome = .ok (count, bytes) →
        count = buffer.length ∧ bytes = read (logical store cache) offset buffer.length := by
  unfold readBlock at done
  dsimp only at done
  split at done
  case isTrue empty =>
    cases done
    refine ⟨coherent, rfl, ?_⟩
    intro count bytes same
    cases same
    exact ⟨empty.symm, eq_read rfl fun step inside => by omega⟩
  case isFalse =>
    split at done
    case isTrue =>
      cases done
      exact ⟨coherent, rfl, fun count bytes same => by cases same⟩
    case isFalse =>
      split at done
      case h_1 block hit =>
        cases done
        obtain ⟨kept, same⟩ := touch_refines coherent fun entry => decide (entry.1 = offset)
        refine ⟨kept, same, ?_⟩
        intro count bytes result
        cases result
        obtain ⟨found, long⟩ := Option.filter_eq_some_iff.mp hit
        exact ⟨rfl, take_eq_read coherent found (of_decide_eq_true long)⟩
      case h_2 =>
        have copied := copied_toList cache.blocks offset buffer
        obtain ⟨kept, same⟩ := touch_refines coherent (overlaps offset (offset + buffer.length))
        generalize cache.blocks.toList.foldl (copyBlock offset (offset + buffer.length))
          (buffer, replicate buffer.length false) = filled at done copied
        have marked : ∀ index, filled.2[index]? = some true →
            filled.1[index]? = some (logical store cache (offset + index)) := copied.marked _
        have unmarked (index : Nat) (mark : filled.2[index]? = some false) :
            store.content cache.inner (offset + index) = logical store cache (offset + index) := by
          refine (overlay_uncovered ?_).symm
          intro start block found
          exact copied.unmarked index mark (start, block)
            (Std.TreeMap.mem_toList_iff_getElem?_eq_some.mpr found)
        split at done
        case isTrue all =>
          cases done
          refine ⟨kept, same, ?_⟩
          intro count bytes result
          cases result
          refine ⟨rfl, eq_read copied.bufferLength fun step inside => marked step ?_⟩
          have inCover : step < filled.2.length := by rwa [copied.coverLength]
          rw [getElem?_eq_getElem inCover]
          exact congrArg some (all_eq_true.mp all _ (getElem_mem inCover))
        case isFalse =>
          have gaps {inner : ι} {result : Result Bytes}
              (read : readGaps store.toBlockStorage offset filled.2 buffer.length 0
                (cache.touch (overlaps offset (offset + buffer.length))).inner filled.1 = (inner, result)) :=
            readGaps_refines read (copied.bufferLength.trans copied.coverLength.symm)
              (by rw [copied.coverLength]; omega)
              (fun index _ known => marked index (known.resolve_left (Nat.not_lt_zero index))) unmarked
          split at done
          case h_1 inner reason failed =>
            cases done
            obtain ⟨content, -⟩ := gaps failed
            obtain ⟨keptInner, sameInner⟩ := coherent_of_content kept content
            exact ⟨keptInner, sameInner.trans same, fun count bytes result => by cases result⟩
          case h_2 inner bytes succeeded =>
            cases done
            obtain ⟨content, exactBytes⟩ := gaps succeeded
            obtain ⟨keptInner, sameInner⟩ := coherent_of_content kept content
            refine ⟨keptInner, sameInner.trans same, ?_⟩
            intro count bytes result
            cases result
            refine ⟨rfl, ?_⟩
            rw [exactBytes bytes rfl, copied.coverLength]

section

variable (store : ByteStore ι)

/-- The states of a cache that starts empty and is used by calls in any order, where every
written range is the range of a cached block or meets none. -/
inductive Reachable : CachedBlockStorage ι → Prop
  | new (inner : ι) (maxCacheBytes : Nat) (clock : List Nat) : Reachable (new inner maxCacheBytes clock)
  | write {cache : CachedBlockStorage ι} (before : Reachable cache) (offset : Nat)
      (data : Bytes) (separate : Separate cache offset data) :
      Reachable (writeBlock store.toBlockStorage cache offset data).1
  | read {cache : CachedBlockStorage ι} (before : Reachable cache) (offset : Nat)
      (buffer : Bytes) : Reachable (readBlock store.toBlockStorage cache offset buffer).1
  | flush {cache : CachedBlockStorage ι} (before : Reachable cache) : Reachable (flush store.toBlockStorage cache).1
  | flushRange {cache : CachedBlockStorage ι} (before : Reachable cache) (start length : Nat) :
      Reachable (flushRange store.toBlockStorage cache start length).1
  | discardRange {cache : CachedBlockStorage ι} (before : Reachable cache) (start length : Nat) :
      Reachable (cache.discardRange start length)
  | clear {cache : CachedBlockStorage ι} (before : Reachable cache) : Reachable cache.clear

end

theorem Reachable.coherent (reachable : Reachable store cache) : Coherent store cache := by
  induction reachable with
  | new inner maxCacheBytes clock =>
    constructor
    · intro first second lower upper found
      simp [CachedBlockStorage.new] at found
    · intro offset block found
      simp [CachedBlockStorage.new] at found
  | write _ offset data separate ih => exact (writeBlock_refines ih separate rfl).1
  | read _ offset buffer ih => exact (readBlock_refines ih rfl).1
  | flush _ ih => exact (flushInternal_refines ih rfl).1
  | flushRange _ start length ih => exact (flushInternal_refines ih rfl).1
  | discardRange _ start length ih => exact (discardRange_refines ih start length).coherent
  | clear _ ih => exact (clear_refines ih).coherent

/-- What every call does to the logical content. -/
structure RefinesFlatStore (store : ByteStore ι) (cache : CachedBlockStorage ι) : Prop where
  write : ∀ offset data, Separate cache offset data →
    logical store (writeBlock store.toBlockStorage cache offset data).1 =
      if offset + data.length < u64Size then FlatStore.write (logical store cache) offset data
      else logical store cache
  flush : logical store (flush store.toBlockStorage cache).1 = logical store cache
  flushRange : ∀ start length,
    logical store (flushRange store.toBlockStorage cache start length).1 = logical store cache
  evict : logical store (evictIfNeeded store.toBlockStorage cache).1 = logical store cache
  read : ∀ offset buffer,
    logical store (readBlock store.toBlockStorage cache offset buffer).1 = logical store cache ∧
      ∀ count bytes, (readBlock store.toBlockStorage cache offset buffer).2 = .ok (count, bytes) →
        count = buffer.length ∧ bytes = FlatStore.read (logical store cache) offset buffer.length
  discardRange : ∀ start length, Discards store cache (cache.discardRange start length)
    fun offset => start ≤ offset ∧ offset < saturatingAdd start length
  clear : Discards store cache cache.clear fun _ => True

/-- In every reachable state the cache behaves as a flat store, whichever writes to the
inner storage fail. -/
theorem refines_flat_store (reachable : Reachable store cache) : RefinesFlatStore store cache where
  write _ _ separate := (writeBlock_refines reachable.coherent separate rfl).2
  flush := (flushInternal_refines reachable.coherent rfl).2
  flushRange _ _ := (flushInternal_refines reachable.coherent rfl).2
  evict := (evictIfNeeded_refines reachable.coherent rfl).2
  read _ _ := by
    obtain ⟨-, same, exactBytes⟩ := readBlock_refines reachable.coherent rfl
    exact ⟨same, exactBytes⟩
  discardRange := discardRange_refines reachable.coherent
  clear := clear_refines reachable.coherent

/-- A cache without room whose only flush fails still shows the written bytes. -/
theorem refines_flat_store_failed_flush :
    read (logical faultyStore (writeBlock faultyStore.toBlockStorage
      (new { content := fun _ => 0, failures := [true] } 0 []) 7 [1, 2]).1) 6 4 = [0, 1, 2, 0] := by
  have reachable : Reachable faultyStore (new { content := fun _ => 0, failures := [true] } 0 []) :=
    .new _ _ _
  rw [(refines_flat_store reachable).write 7 [1, 2] (by intro start block found; simp [new] at found)]
  rfl

end BitTorrent.CachedBlockStorage
