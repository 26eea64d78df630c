import BitTorrent.Library.Chunks

/-! # Flat stores

A store is a function from positions to values.  `write` replaces a contiguous range,
`writeAll` a sequence of ranges in order, `read` copies a range out.  The second half is
about finite stores: lists whose range is replaced by `splice` and copied by `slice`.
-/

namespace FlatStore

open List

universe u

variable {α : Type u}

/-- A contiguous range of values: where it starts and what it holds. -/
abbrev Extent (α : Type u) := Nat × List α

def Extent.Covers (extent : Extent α) (position : Nat) : Prop :=
  extent.1 ≤ position ∧ position < extent.1 + extent.2.length

instance (extent : Extent α) (position : Nat) : Decidable (Extent.Covers extent position) :=
  inferInstanceAs (Decidable (_ ∧ _))

variable (content : Nat → α)

def write (start : Nat) (data : List α) : Nat → α := fun position =>
  if start ≤ position then (data[position - start]?).getD (content position) else content position

def read (start count : Nat) : List α :=
  (range count).map fun step => content (start + step)

def writeAll (extents : List (Extent α)) : Nat → α :=
  extents.foldl (fun content extent => write content extent.1 extent.2) content

variable {content base : Nat → α} {start position : Nat} {data : List α}

theorem write_inside (lower : start ≤ position) (upper : position - start < data.length) :
    write content start data position = data[position - start] := by
  simp [write, lower, upper]

theorem write_outside (outside : ¬ Extent.Covers (start, data) position) :
    write content start data position = content position := by
  unfold write
  split
  case isTrue lower =>
    have above : data.length ≤ position - start := by
      simp only [Extent.Covers, not_and, not_lt] at outside
      omega
    rw [getElem?_eq_none above, Option.getD_none]
  case isFalse => rfl

theorem write_covered (covered : Extent.Covers (start, data) position) :
    write content start data position = write base start data position := by
  obtain ⟨lower, upper⟩ := covered
  have inside : position - start < data.length := by
    simp only at lower upper
    omega
  rw [write_inside lower inside, write_inside lower inside]

@[simp] theorem write_nil (content : Nat → α) (start : Nat) : write content start [] = content := by
  funext position
  simp [write]

theorem write_append (content : Nat → α) (start : Nat) (first second : List α) :
    write content start (first ++ second) =
      write (write content start first) (start + first.length) second := by
  funext position
  unfold write
  by_cases above : start ≤ position
  · rw [if_pos above, if_pos above]
    by_cases inFirst : position - start < first.length
    · rw [getElem?_append_left inFirst, if_neg (by omega)]
    · rw [getElem?_append_right (by omega), if_pos (by omega),
        getElem?_eq_none (by omega : first.length ≤ position - start), Nat.sub_add_eq]
      rfl
  · rw [if_neg above, if_neg above, if_neg (by omega)]

theorem read_length (content : Nat → α) (start count : Nat) : (read content start count).length = count := by
  simp [read]

theorem read_add (content : Nat → α) (start first second : Nat) :
    read content start (first + second) = read content start first ++ read content (start + first) second := by
  rw [read, range_add, map_append, map_map]
  congr 1
  apply map_congr_left
  intro step _
  rw [Function.comp_apply, Nat.add_assoc]

theorem read_getElem? (content : Nat → α) (start count : Nat) {step : Nat} (inside : step < count) :
    (read content start count)[step]? = some (content (start + step)) := by
  simp [read, inside]

theorem read_congr {other : Nat → α} {count : Nat}
    (agree : ∀ position, start ≤ position → position < start + count → other position = content position) :
    read other start count = read content start count :=
  map_congr_left fun step member => agree _ (by omega) (by have := mem_range.mp member; omega)

theorem eq_read {bytes : List α} {count : Nat} (length : bytes.length = count)
    (values : ∀ step, step < count → bytes[step]? = some (content (start + step))) :
    bytes = read content start count := by
  apply ext_getElem?
  intro step
  by_cases inside : step < count
  · rw [values step inside, read_getElem? _ _ _ inside]
  · rw [getElem?_eq_none (by omega), getElem?_eq_none (by rw [read_length]; omega)]

theorem read_write (content : Nat → α) (start : Nat) (data : List α) :
    read (write content start data) start data.length = data := by
  refine (eq_read rfl fun step inside => ?_).symm
  rw [write_inside (by omega) (by omega), getElem?_eq_getElem inside]
  simp

theorem writeAll_append (content : Nat → α) (first second : List (Extent α)) :
    writeAll content (first ++ second) = writeAll (writeAll content first) second :=
  foldl_append

variable {extents : List (Extent α)} {extent joined : Extent α}

theorem writeAll_uncovered (uncovered : ∀ extent ∈ extents, ¬ Extent.Covers extent position) :
    writeAll content extents position = content position := by
  induction extents generalizing content with
  | nil => rfl
  | cons extent extents ih =>
    have rest := @ih (write content extent.1 extent.2)
      fun other member => uncovered other (mem_cons_of_mem _ member)
    exact rest.trans (write_outside (uncovered extent mem_cons_self))

theorem writeAll_congr {first second : Nat → α} (same : first position = second position) :
    writeAll first extents position = writeAll second extents position := by
  induction extents generalizing first second with
  | nil => exact same
  | cons extent extents ih =>
    exact @ih (write first extent.1 extent.2) (write second extent.1 extent.2) (by rw [write, write, same])

theorem writeAll_covered (covered : ∃ extent ∈ extents, Extent.Covers extent position) :
    writeAll content extents position = writeAll base extents position := by
  induction extents generalizing content base with
  | nil =>
    obtain ⟨extent, member, -⟩ := covered
    cases member
  | cons extent extents ih =>
    by_cases here : Extent.Covers extent position
    · exact @writeAll_congr _ position extents (write content extent.1 extent.2)
        (write base extent.1 extent.2) (write_covered here)
    · refine ih ?_
      obtain ⟨found, member, covers⟩ := covered
      cases member with
      | head => exact (here covers).elim
      | tail _ member => exact ⟨found, member, covers⟩

theorem writeAll_of_unique (member : extent ∈ extents) (covers : Extent.Covers extent position)
    (unique : ∀ other ∈ extents, Extent.Covers other position → other = extent) :
    writeAll content extents position = write base extent.1 extent.2 position := by
  induction extents generalizing content with
  | nil => cases member
  | cons first rest ih =>
    by_cases later : extent ∈ rest
    · exact ih later fun other inRest => unique other (mem_cons_of_mem _ inRest)
    · have isFirst : extent = first := by
        cases member with
        | head => rfl
        | tail _ inRest => exact (later inRest).elim
      subst isFirst
      have uncovered : ∀ other ∈ rest, ¬ Extent.Covers other position := by
        intro other inRest covered
        have same := unique other (mem_cons_of_mem _ inRest) covered
        rw [same] at inRest
        exact later inRest
      exact (writeAll_uncovered uncovered).trans (write_covered covers)

/-- Join an extent to the last one of the list when it starts where that one ends. -/
def appendExtent (extents : List (Extent α)) (extent : Extent α) : List (Extent α) :=
  match extents.getLast? with
  | some last =>
    if extent.1 = last.1 + last.2.length then
      extents.dropLast ++ [(last.1, last.2 ++ extent.2)]
    else extents ++ [extent]
  | none => [extent]

def coalesce (extents : List (Extent α)) : List (Extent α) :=
  extents.foldl appendExtent []

theorem writeAll_appendExtent (content : Nat → α) (extents : List (Extent α)) (extent : Extent α) :
    writeAll content (appendExtent extents extent) = writeAll content (extents ++ [extent]) := by
  unfold appendExtent
  split
  case h_1 last lastEq =>
    split
    case isTrue adjacent =>
      obtain ⟨initial, rfl⟩ := getLast?_eq_some_iff.mp lastEq
      simp [writeAll, write_append, adjacent]
    case isFalse => rfl
  case h_2 none =>
    rw [getLast?_eq_none_iff.mp none]
    rfl

theorem coalesce_concat (extents : List (Extent α)) (extent : Extent α) :
    coalesce (extents ++ [extent]) = appendExtent (coalesce extents) extent :=
  foldl_append

theorem writeAll_coalesce (content : Nat → α) (extents : List (Extent α)) :
    writeAll content (coalesce extents) = writeAll content extents := by
  induction extents using List.reverseRecOn with
  | nil => rfl
  | append_singleton extents extent ih =>
    rw [coalesce_concat, writeAll_appendExtent, writeAll_append, ih, ← writeAll_append]

private theorem appendExtent_covers
    (member : joined ∈ appendExtent extents extent) (covers : Extent.Covers joined position) :
    ∃ original ∈ extents ++ [extent], Extent.Covers original position := by
  unfold appendExtent at member
  split at member
  case h_2 => exact ⟨joined, mem_append_right _ member, covers⟩
  case h_1 last lastEq =>
    split at member
    case isFalse => exact ⟨joined, member, covers⟩
    case isTrue adjacent =>
      obtain ⟨initial, rfl⟩ := getLast?_eq_some_iff.mp lastEq
      rw [dropLast_concat] at member
      rcases mem_append.mp member with early | late
      · exact ⟨joined, by simp [early], covers⟩
      · rw [mem_singleton] at late
        subst late
        obtain ⟨lower, upper⟩ := covers
        simp only [length_append] at lower upper
        by_cases inLast : position < last.1 + last.2.length
        · exact ⟨last, by simp, lower, inLast⟩
        · exact ⟨extent, by simp, by omega, by omega⟩

theorem coalesce_covers (member : joined ∈ coalesce extents) (covers : Extent.Covers joined position) :
    ∃ extent ∈ extents, Extent.Covers extent position := by
  induction extents using List.reverseRecOn generalizing joined with
  | nil => cases member
  | append_singleton extents extent ih =>
    rw [coalesce_concat] at member
    obtain ⟨found, foundMember, foundCovers⟩ := appendExtent_covers member covers
    rcases mem_append.mp foundMember with early | late
    · obtain ⟨original, originalMember, originalCovers⟩ := ih early foundCovers
      exact ⟨original, mem_append_left _ originalMember, originalCovers⟩
    · exact ⟨found, mem_append_right _ late, foundCovers⟩

theorem coalesce_eq_nil (empty : coalesce extents = []) : extents = [] := by
  rcases eq_nil_or_concat extents with none | ⟨initial, last, rfl⟩
  · exact none
  · rw [concat_eq_append, coalesce_concat, appendExtent] at empty
    split at empty
    · split at empty <;> simp at empty
    · cases empty

section Lists

/-- Replace the values from `start` on by `data`. -/
def splice (values : List α) (start : Nat) (data : List α) : List α :=
  values.take start ++ data ++ values.drop (start + data.length)

theorem splice_length {values : List α} (inside : start + data.length ≤ values.length) :
    (splice values start data).length = values.length := by
  simp only [splice, length_append, length_take, length_drop]
  omega

variable {first : List α}

theorem splice_append_left (second : List α) (inside : start + data.length ≤ first.length) :
    splice (first ++ second) start data = splice first start data ++ second := by
  rw [splice, take_append_of_le_length (by omega), drop_append_of_le_length inside,
    splice, append_assoc (_ ++ _)]

theorem splice_append_right {second : List α} (beyond : first.length ≤ start) :
    splice (first ++ second) start data = first ++ splice second (start - first.length) data := by
  rw [splice, take_append, take_of_length_le beyond, drop_append,
    drop_of_length_le (by omega), nil_append, splice, append_assoc, append_assoc,
    append_assoc, show start + data.length - first.length = start - first.length + data.length by omega]

theorem splice_append_across {second : List α} (starts : start ≤ first.length)
    (reaches : first.length ≤ start + data.length) :
    splice (first ++ second) start data =
      splice first start (data.take (first.length - start)) ++
        splice second 0 (data.drop (first.length - start)) := by
  have taken : (data.take (first.length - start)).length = first.length - start := by
    rw [length_take]
    omega
  have firstPart : splice first start (data.take (first.length - start)) =
      first.take start ++ data.take (first.length - start) := by
    rw [splice, taken, drop_of_length_le (by omega), append_nil]
  have secondPart : splice second 0 (data.drop (first.length - start)) =
      data.drop (first.length - start) ++ second.drop (start + data.length - first.length) := by
    rw [splice, take_zero, nil_append, length_drop]
    congr 2
    omega
  rw [firstPart, secondPart, splice, take_append_of_le_length starts, drop_append,
    drop_of_length_le reaches, nil_append, append_assoc, append_assoc,
    ← append_assoc (data.take _), take_append_drop]

theorem slice_append (first second : List α) (start count : Nat) :
    Chunks.slice (first ++ second) start count =
      Chunks.slice first start count ++
        Chunks.slice second (start - first.length) (count - (first.length - start)) := by
  simp [Chunks.slice, drop_append, take_append]

theorem splice_getElem? {values : List α} (inside : start + data.length ≤ values.length) (position : Nat) :
    (splice values start data)[position]? =
      if Extent.Covers (start, data) position then data[position - start]? else values[position]? := by
  have firstLength : (values.take start).length = start := length_take_of_le (by omega)
  unfold splice
  by_cases covered : Extent.Covers (start, data) position
  · rw [if_pos covered]
    obtain ⟨lower, upper⟩ := covered
    rw [getElem?_append_left (by rw [length_append, firstLength]; omega),
      getElem?_append_right (by rw [firstLength]; omega), firstLength]
  · rw [if_neg covered]
    simp only [Extent.Covers, not_and, not_lt] at covered
    by_cases before : position < start
    · rw [append_assoc, getElem?_append_left (by omega), getElem?_take_of_lt before]
    · have after := covered (by omega)
      rw [getElem?_append_right (by rw [length_append, firstLength]; omega),
        getElem?_drop, length_append, firstLength]
      congr 1
      omega

end Lists

end FlatStore
