import Mathlib.Tactic

/-! # Runs of consecutive numbers

A list of numbers as the list of its maximal runs `first..last`, and back.
-/

namespace RangeRuns

open List

/-- The runs of a list that starts with the run from `first` to `last`. -/
def runsFrom (first last : Nat) : List Nat → List (Nat × Nat)
  | [] => [(first, last)]
  | next :: rest => if next = last + 1 then runsFrom first next rest else (first, last) :: runsFrom next next rest

def runs : List Nat → List (Nat × Nat)
  | [] => []
  | first :: rest => runsFrom first first rest

def numbers (run : Nat × Nat) : List Nat := range' run.1 (run.2 + 1 - run.1)

theorem numbers_flatMap_runsFrom {first last : Nat} (ordered : first ≤ last) (rest : List Nat) :
    (runsFrom first last rest).flatMap numbers = numbers (first, last) ++ rest := by
  induction rest generalizing first last with
  | nil => rw [runsFrom, flatMap_singleton, append_nil]
  | cons next rest ih =>
    rw [runsFrom]
    split
    case isTrue follows =>
      have longer : numbers (first, next) = numbers (first, last) ++ [next] := by
        have count : next + 1 - first = last + 1 - first + 1 := by omega
        have final : first + (last + 1 - first) = next := by omega
        simp only [numbers, count, range'_concat, Nat.one_mul, final]
      rw [ih (by omega), longer, append_assoc, singleton_append]
    case isFalse =>
      have single : numbers (next, next) = [next] := by
        simp only [numbers, Nat.add_sub_cancel_left, range'_one]
      rw [flatMap_cons, ih (Nat.le_refl next), single, singleton_append]

theorem numbers_flatMap_runs (values : List Nat) : (runs values).flatMap numbers = values := by
  cases values with
  | nil => rfl
  | cons first rest =>
    rw [runs, numbers_flatMap_runsFrom (Nat.le_refl first)]
    simp only [numbers, Nat.add_sub_cancel_left, range'_one, singleton_append]

variable {run : Nat × Nat}

theorem le_of_mem_runsFrom {first last : Nat} (ordered : first ≤ last) {rest : List Nat}
    (member : run ∈ runsFrom first last rest) : run.1 ≤ run.2 := by
  induction rest generalizing first last with
  | nil =>
    rw [runsFrom, mem_singleton] at member
    rw [member]
    exact ordered
  | cons next rest ih =>
    rw [runsFrom] at member
    split at member
    case isTrue follows => exact ih (by omega) member
    case isFalse =>
      rcases mem_cons.mp member with rfl | later
      · exact ordered
      · exact ih (Nat.le_refl next) later

variable {values : List Nat}

theorem le_of_mem_runs (member : run ∈ runs values) : run.1 ≤ run.2 := by
  cases values with
  | nil => cases member
  | cons first rest => exact le_of_mem_runsFrom (Nat.le_refl first) member

theorem mem_of_mem_runs (member : run ∈ runs values) : run.1 ∈ values ∧ run.2 ∈ values := by
  have ordered := le_of_mem_runs member
  have inside : ∀ value, run.1 ≤ value → value ≤ run.2 → value ∈ values := by
    intro value lower upper
    rw [← numbers_flatMap_runs values]
    refine mem_flatMap.mpr ⟨run, member, ?_⟩
    rw [numbers, mem_range'_1]
    omega
  exact ⟨inside _ (Nat.le_refl _) ordered, inside _ ordered (Nat.le_refl _)⟩

theorem runs_ne_nil (nonempty : values ≠ []) : runs values ≠ [] := by
  intro none
  have written := numbers_flatMap_runs values
  rw [none] at written
  exact nonempty written.symm

end RangeRuns
