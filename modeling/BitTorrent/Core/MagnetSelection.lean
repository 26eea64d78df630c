import BitTorrent.Core.MagnetRoundTrip

/-! # The selection of a magnet link

BEP 53: what is written is read back, and every operation keeps the indices in order, on which the
binary search relies.
-/

namespace BitTorrent

open List RangeRuns

/-- Sorted and without duplicates. -/
def Ordered (indices : List Nat) : Prop := indices.Pairwise (· < ·)

section Operations

variable (selected : List Nat)

/-- `push` of the indices that are not there, and `sort_unstable`. -/
def selectAll (indices : List Nat) : List Nat := (indices.foldl pushNew selected).insertionSort (· ≤ ·)

def addSelectedFile (index : Nat) : List Nat :=
  if index ∈ selected then selected else (selected ++ [index]).insertionSort (· ≤ ·)

def addSelectedRange (first last : Nat) : List Nat := selectAll selected (numbers (first, last))

def withSelectedFiles (indices : List Nat) : List Nat := selectAll selected indices

def withSelectedRange (first last : Nat) : List Nat := selectAll selected (numbers (first, last))

def selectFile (index : Nat) : List Nat := addSelectedFile selected index

/-- The operations of a link and of the builder of a link. -/
inductive SelectionCall
  | addSelectedFile (index : Nat)
  | addSelectedRange (first last : Nat)
  | clearSelection
  | withSelectedFiles (indices : List Nat)
  | withSelectedRange (first last : Nat)
  | selectFile (index : Nat)

def SelectionCall.perform : SelectionCall → List Nat
  | .addSelectedFile index => BitTorrent.addSelectedFile selected index
  | .addSelectedRange first last => BitTorrent.addSelectedRange selected first last
  | .clearSelection => []
  | .withSelectedFiles indices => BitTorrent.withSelectedFiles selected indices
  | .withSelectedRange first last => BitTorrent.withSelectedRange selected first last
  | .selectFile index => BitTorrent.selectFile selected index

/-- `binary_search` of a slice from `base` on. -/
def searchFrom (index base size : Nat) : Bool :=
  if size ≤ 1 then selected[base]? == some index
  else
    let half := size / 2
    if selected[base + half]?.any (index < ·) then searchFrom index base (size - half)
    else searchFrom index (base + half) (size - half)
termination_by size

def isFileSelected (index : Nat) : Bool := selected.isEmpty || searchFrom selected index 0 selected.length

end Operations

variable {selected indices : List Nat}

theorem pushNew_nodup {index : Nat} (distinct : selected.Nodup) : (pushNew selected index).Nodup := by
  rw [pushNew]
  split
  case isTrue => exact distinct
  case isFalse absent => exact nodup_append.mpr ⟨distinct, nodup_singleton _, by grind⟩

theorem foldl_pushNew_nodup (distinct : selected.Nodup) : (indices.foldl pushNew selected).Nodup := by
  induction indices generalizing selected with
  | nil => exact distinct
  | cons index indices ih => exact ih (pushNew_nodup distinct)

theorem ordered_insertionSort (distinct : indices.Nodup) : Ordered (indices.insertionSort (· ≤ ·)) := by
  have sorted := pairwise_insertionSort (· ≤ ·) indices
  have apart := (perm_insertionSort (· ≤ ·) indices).nodup_iff.mpr distinct
  exact (sorted.and apart).imp fun both => Nat.lt_of_le_of_ne both.1 both.2

theorem selectPart_nodup (distinct : selected.Nodup) (part : Text) : (selectPart selected part).Nodup := by
  rw [selectPart]
  split
  case isTrue => exact distinct
  case isFalse =>
    split
    case isTrue =>
      split
      case h_1 =>
        split
        case isTrue => exact foldl_pushNew_nodup distinct
        case isFalse => exact distinct
      case h_2 => exact distinct
    case isFalse =>
      split
      case h_1 => exact pushNew_nodup distinct
      case h_2 => exact distinct

theorem ordered_parse (distinct : selected.Nodup) (value : Text) :
    Ordered (parseBep53SelectOnly value selected) := by
  refine ordered_insertionSort ?_
  generalize value.splitOn ',' = parts
  induction parts generalizing selected with
  | nil => exact distinct
  | cons part parts ih => exact ih (selectPart_nodup distinct part)

theorem SelectionCall.ordered (call : SelectionCall) (ordered : Ordered selected) :
    Ordered (call.perform selected) := by
  have distinct : selected.Nodup := ordered.imp Nat.ne_of_lt
  have single : ∀ index, Ordered (BitTorrent.addSelectedFile selected index) := by
    intro index
    rw [BitTorrent.addSelectedFile]
    split
    case isTrue => exact ordered
    case isFalse absent =>
      exact ordered_insertionSort (by simpa [pushNew, absent] using @pushNew_nodup _ index distinct)
  cases call with
  | addSelectedFile index => exact single index
  | selectFile index => exact single index
  | clearSelection => exact .nil
  | _ => exact ordered_insertionSort (foldl_pushNew_nodup distinct)

theorem searchFrom_sound {index base size : Nat} (found : searchFrom selected index base size = true) :
    index ∈ selected := by
  fun_induction searchFrom selected index base size with
  | case1 => exact mem_of_getElem? (beq_iff_eq.mp found)
  | case2 _ _ _ _ _ ih => exact ih found
  | case3 _ _ _ _ _ ih => exact ih found

/-- Of the two halves the one that is kept has the index. -/
theorem searchFrom_complete {base size place : Nat} (ordered : Ordered selected)
    (inside : place < selected.length) (lower : base ≤ place) (upper : place < base + size)
    (within : base + size ≤ selected.length) :
    searchFrom selected selected[place] base size = true := by
  have rises := pairwise_iff_getElem.mp ordered
  fun_induction searchFrom selected selected[place] base size with
  | case1 base size single =>
    obtain rfl : place = base := by omega
    simp
  | case2 base size several half below ih =>
    rw [getElem?_eq_getElem (by omega), Option.any_some, decide_eq_true_eq] at below
    have left : place < base + half := by
      by_contra right
      rcases Nat.eq_or_lt_of_le (Nat.le_of_not_lt right) with same | later
      · exact absurd below (by simp [same])
      · exact Nat.lt_asymm below (rises _ _ _ _ later)
    exact ih lower (by omega) (by omega)
  | case3 base size several half above ih =>
    rw [getElem?_eq_getElem (by omega), Option.any_some, decide_eq_true_eq] at above
    have right : base + half ≤ place := by
      by_contra left
      exact above (rises _ _ _ _ (Nat.lt_of_not_le left))
    exact ih right (by omega) (by omega)

theorem isFileSelected_iff {index : Nat} (ordered : Ordered selected) :
    isFileSelected selected index = true ↔ selected = [] ∨ index ∈ selected := by
  rw [isFileSelected, Bool.or_eq_true, List.isEmpty_iff]
  refine or_congr_right ⟨searchFrom_sound, fun member => ?_⟩
  obtain ⟨place, inside, rfl⟩ := getElem_of_mem member
  exact searchFrom_complete ordered inside (Nat.zero_le _) (by omega) (by omega)

theorem mem_parse_format (small : ∀ index ∈ indices, index < u64Size) {index : Nat} :
    index ∈ parseBep53SelectOnly (formatBep53SelectOnly indices) [] ↔ index ∈ indices := by
  let once := (indices.insertionSort (· ≤ ·)).dedup
  have member : ∀ index, index ∈ once ↔ index ∈ indices := fun index => by
    rw [mem_dedup, mem_insertionSort]
  have sorted := pairwise_insertionSort (· ≤ ·) indices
  have ordered : Ordered once :=
    ((sorted.sublist (dedup_sublist _)).and (nodup_dedup _)).imp fun both => Nat.lt_of_le_of_ne both.1 both.2
  have whole : formatBep53SelectOnly indices = formatBep53SelectOnly once := by
    rw [formatBep53SelectOnly, formatBep53SelectOnly, sorted.destutter_eq_dedup,
      (ordered.imp Nat.le_of_lt).insertionSort_eq, destutter_of_isChain _ _ (ordered.imp Nat.ne_of_lt).isChain]
  rcases eq_or_ne once [] with none | nonempty
  · have read : parseBep53SelectOnly (formatBep53SelectOnly []) [] = [] := by decide
    rw [← member, whole, none, read]
  · rw [whole, parseBep53_format ordered (fun index inside => small index ((member index).mp inside)) nonempty,
      member]

/-- A list that is written is read back sorted and without duplicates, what is read into an ordered
selection keeps it ordered, and after any calls the binary search finds what is selected. -/
theorem selection_codec :
    (∀ indices : List Nat, (∀ index ∈ indices, index < u64Size - 1) →
      Ordered (parseBep53SelectOnly (formatBep53SelectOnly indices) []) ∧
        ∀ index, index ∈ parseBep53SelectOnly (formatBep53SelectOnly indices) [] ↔ index ∈ indices) ∧
    (∀ selected value, Ordered selected → Ordered (parseBep53SelectOnly value selected)) ∧
    ∀ (calls : List SelectionCall) selected, Ordered selected →
      Ordered (calls.foldl SelectionCall.perform selected) ∧
        ∀ index, isFileSelected (calls.foldl SelectionCall.perform selected) index = true ↔
          calls.foldl SelectionCall.perform selected = [] ∨ index ∈ calls.foldl SelectionCall.perform selected := by
  refine ⟨?_, ?_, ?_⟩
  · intro indices small
    refine ⟨ordered_parse nodup_nil _, fun index => mem_parse_format fun index member => ?_⟩
    exact (small index member).trans_le (Nat.sub_le _ _)
  · intro selected value ordered
    exact ordered_parse (ordered.imp Nat.ne_of_lt) value
  · intro calls selected ordered
    have kept : Ordered (calls.foldl SelectionCall.perform selected) := by
      induction calls generalizing selected with
      | nil => exact ordered
      | cons call calls ih => exact ih _ (call.ordered ordered)
    exact ⟨kept, fun index => isFileSelected_iff kept⟩

end BitTorrent
