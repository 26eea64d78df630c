import Mathlib.Data.Vector.Basic
import Mathlib.Tactic

/-! # Cutting a list into consecutive pieces -/

namespace Chunks

open List Nat

universe u

variable {α : Type u}

/-- The part of `values` that starts at `start` and has at most `count` elements. -/
def slice (values : List α) (start count : Nat) : List α :=
  (values.drop start).take count

theorem slice_length (values : List α) (start count : Nat) :
    (slice values start count).length = min count (values.length - start) := by
  simp [slice]

theorem flatMap_slice (size count : Nat) (values : List α) :
    ((range count).flatMap fun index => slice values (index * size) size) =
      values.take (count * size) := by
  induction count with
  | zero => simp
  | succ count ih =>
    rw [range_succ, flatMap_append, ih, flatMap_singleton, succ_mul, take_add]
    rfl

/-- Consecutive runs of `size` elements; the last one may be shorter. -/
def chunks (size : Nat) (values : List α) : List (List α) :=
  (range ((values.length + size - 1) / size)).map fun index =>
    slice values (index * size) size

theorem chunks_length (size : Nat) (values : List α) :
    (chunks size values).length = (values.length + size - 1) / size := by
  simp [chunks]

theorem chunks_getElem? (size : Nat) (values : List α) (index : Nat)
    (inside : index < (values.length + size - 1) / size) :
    (chunks size values)[index]? = some (slice values (index * size) size) := by
  simp [chunks, inside]

@[simp] theorem chunks_nil (size : Nat) : chunks size ([] : List α) = [] := by
  have none : (0 + size - 1) / size = 0 := by
    rcases Nat.eq_zero_or_pos size with rfl | positive
    · rfl
    · exact div_eq_of_lt (by omega)
  rw [chunks, length_nil, none]
  rfl

theorem slice_append_middle {left middle right : List α} {start count : Nat} (before : left.length = start)
    (size : middle.length = count) : slice (left ++ (middle ++ right)) start count = middle := by
  rw [slice, drop_left' before, take_left' size]

theorem slice_flatten {parts : List (List α)} {index : Nat} {part : List α} (there : parts[index]? = some part) :
    slice parts.flatten ((parts.take index).map length).sum part.length = part := by
  induction parts generalizing index with
  | nil => cases there
  | cons first parts ih =>
    cases index with
    | zero =>
      cases there
      simp [slice]
    | succ index =>
      have later := ih there
      rw [slice, flatten_cons, take_succ_cons, map_cons, sum_cons, List.drop_append,
        drop_of_length_le (Nat.le_add_right _ _), Nat.add_sub_cancel_left, nil_append]
      exact later

theorem slice_slice (values : List α) {start count inner size : Nat} (fits : inner + size ≤ count) :
    slice (slice values start count) inner size = slice values (start + inner) size := by
  rw [slice, slice, slice, drop_take, take_take, drop_drop, min_eq_left (by omega)]

variable {count size total : Nat}

theorem ceil_le_iff (positive : 0 < size) : (total + size - 1) / size ≤ count ↔ total ≤ count * size := by
  rw [← Nat.lt_succ_iff, Nat.div_lt_iff_lt_mul positive, Nat.succ_mul]
  omega

theorem lt_ceil_iff (positive : 0 < size) : count < (total + size - 1) / size ↔ count * size < total := by
  rw [← not_le, ceil_le_iff positive, not_le]

theorem ceil_sub (positive : 0 < size) (length start : Nat) :
    (length - start * size + size - 1) / size = (length + size - 1) / size - start := by
  apply eq_of_forall_ge_iff
  intro count
  rw [ceil_le_iff positive, Nat.sub_le_iff_le_add, Nat.sub_le_iff_le_add, ceil_le_iff positive, add_mul]

theorem ceil_min (positive : 0 < size) (count length : Nat) :
    (min (count * size) length + size - 1) / size = min count ((length + size - 1) / size) := by
  apply eq_of_forall_ge_iff
  intro bound
  rw [ceil_le_iff positive, min_le_iff, min_le_iff, ceil_le_iff positive, Nat.mul_le_mul_right_iff positive]

theorem chunks_cons {values : List α} (positive : 0 < size) (nonempty : values ≠ []) :
    chunks size values = values.take size :: chunks size (values.drop size) := by
  have elements := length_pos_of_ne_nil nonempty
  have count : (values.length + size - 1) / size = ((values.drop size).length + size - 1) / size + 1 := by
    have some : 0 < (values.length + size - 1) / size := Nat.div_pos (by omega) positive
    have fewer := ceil_sub positive values.length 1
    rw [one_mul] at fewer
    rw [length_drop]
    omega
  rw [chunks, count, range_succ_eq_map, map_cons, map_map, chunks]
  congr 1
  · rw [zero_mul]
    rfl
  · apply map_congr_left
    intro index _
    rw [Function.comp_apply, slice, slice, drop_drop, succ_mul, add_comm]

theorem chunks_append {first rest : List α} (nonempty : first ≠ []) (short : first.length ≤ size)
    (full : rest = [] ∨ first.length = size) : chunks size (first ++ rest) = first :: chunks size rest := by
  have positive := length_pos_of_ne_nil nonempty
  rw [chunks_cons (by omega) (append_ne_nil_of_left_ne_nil nonempty rest)]
  rcases full with rfl | full
  · rw [append_nil, take_of_length_le short, drop_of_length_le short]
  · rw [take_left' full, drop_left' full]

theorem chunks_slice (positive : 0 < size) (values : List α) (start count : Nat) :
    chunks size (slice values (start * size) (count * size)) = slice (chunks size values) start count := by
  have number : ((slice values (start * size) (count * size)).length + size - 1) / size =
      min count ((values.length + size - 1) / size - start) := by
    rw [slice_length, ← ceil_sub positive, ceil_min positive]
  apply ext_getElem?
  intro index
  rcases lt_or_ge index (min count ((values.length + size - 1) / size - start)) with inside | outside
  · have below : index + 1 ≤ count := by omega
    have width := mul_le_mul_right size below
    rw [succ_mul] at width
    have right : (slice (chunks size values) start count)[index]? = (chunks size values)[start + index]? := by
      rw [slice, getElem?_take_of_lt (by omega), getElem?_drop]
    rw [chunks_getElem? _ _ _ (by omega), slice_slice _ width, right, chunks_getElem? _ _ _ (by omega), add_mul]
  · rw [getElem?_eq_none (by rw [chunks_length]; omega),
      getElem?_eq_none (by rw [slice_length, chunks_length]; omega)]

/-- The run of `size` elements at position `index * size`, with its length. -/
def exactSlice (values : List α) (index size : Nat) (fits : (index + 1) * size ≤ values.length) : List.Vector α size :=
  ⟨slice values (index * size) size, by
    rw [slice_length]
    rw [add_mul, one_mul] at fits
    omega⟩

theorem exactSlice_toList (values : List α) (index size : Nat) (fits : (index + 1) * size ≤ values.length) :
    (exactSlice values index size fits).toList = slice values (index * size) size := rfl

/-- Consecutive runs of exactly `size` elements; a shorter rest is dropped. -/
def chunksExact (size : Nat) (values : List α) : List (List.Vector α size) :=
  ofFn fun index : Fin (values.length / size) =>
    exactSlice values index size
      ((mul_le_mul_right size index.isLt).trans (div_mul_le_self _ _))

theorem chunksExact_length (size : Nat) (values : List α) :
    (chunksExact size values).length = values.length / size := by
  rw [chunksExact, length_ofFn]

theorem chunksExact_append (positive : 0 < size) (chunk : List.Vector α size) (rest : List α) :
    chunksExact size (chunk.toList ++ rest) = chunk :: chunksExact size rest := by
  have count : (chunk.toList ++ rest).length / size = rest.length / size + 1 := by
    rw [length_append, List.Vector.toList_length, add_div_left _ positive]
  apply ext_getElem
  · rw [chunksExact_length, length_cons, chunksExact_length, count]
  · intro index _ _
    apply List.Vector.toList_injective
    cases index with
    | zero => simp [chunksExact, exactSlice_toList, slice]
    | succ index =>
      simp only [chunksExact, exactSlice_toList, slice, List.getElem_ofFn, getElem_cons_succ]
      rw [List.drop_append, drop_of_length_le (by simp [add_mul]), nil_append,
        List.Vector.toList_length, Nat.add_mul, Nat.one_mul, Nat.add_sub_cancel]

theorem chunksExact_flatten (positive : 0 < size) (parts : List (List.Vector α size)) :
    chunksExact size (parts.map List.Vector.toList).flatten = parts := by
  induction parts with
  | nil => exact eq_nil_of_length_eq_zero (by simp [chunksExact_length])
  | cons part parts ih => simp [chunksExact_append positive, ih]

theorem flatMap_toList_length (parts : List (List.Vector α size)) :
    (parts.flatMap List.Vector.toList).length = parts.length * size := by
  induction parts with
  | nil => rw [flatMap_nil, length_nil, length_nil, zero_mul]
  | cons part parts ih =>
    rw [flatMap_cons, length_append, List.Vector.toList_length, length_cons, ih, succ_mul]
    omega

section Tiling

/-- Parts of `size` positions each, such that every position below `total` lies in one of them and
each of them starts at such a position. -/
structure Tiles (count size total : Nat) : Prop where
  covered : ∀ position < total, ∃! part, part < count ∧ part * size ≤ position ∧ position < (part + 1) * size
  inside : ∀ part < count, part * size < total

theorem tiles_iff (positive : 0 < size) : Tiles count size total ↔ count = (total + size - 1) / size := by
  constructor
  · intro tiles
    apply le_antisymm
    · by_contra more
      have last := tiles.inside ((total + size - 1) / size) (Nat.lt_of_not_le more)
      exact Nat.lt_irrefl _ ((lt_ceil_iff positive).mpr last)
    · rw [ceil_le_iff positive]
      rcases Nat.eq_zero_or_pos total with none | some
      · rw [none]
        exact zero_le _
      · obtain ⟨part, ⟨known, _, upper⟩, _⟩ := tiles.covered (total - 1) (by omega)
        have within : (part + 1) * size ≤ count * size := mul_le_mul_right size known
        omega
  · intro exact
    have enough : total ≤ count * size := (ceil_le_iff positive).mp (le_of_eq exact.symm)
    refine ⟨?_, ?_⟩
    · intro position below
      refine ⟨position / size, ⟨?_, div_mul_le_self position size, ?_⟩, ?_⟩
      · exact (div_lt_iff_lt_mul positive).mpr (lt_of_lt_of_le below enough)
      · rw [mul_comm]
        exact lt_mul_div_succ position positive
      · intro part held
        obtain ⟨_, lower, upper⟩ := held
        exact (Nat.div_eq_of_lt_le lower upper).symm
    · intro part known
      exact (lt_ceil_iff positive).mp (known.trans_eq exact)

end Tiling

end Chunks
