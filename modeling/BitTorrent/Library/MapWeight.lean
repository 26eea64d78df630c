import Mathlib.Algebra.BigOperators.Group.List.Basic
import Mathlib.Data.List.Perm.Basic
import Mathlib.Tactic

/-! # Weights of finite maps

The sum of a count over the entries of a tree map, and what the map's operations do to it.
-/

namespace MapWeight

open Std.TreeMap Finset

variable {β : Type} {count : β → Nat} {map : Std.TreeMap Nat β} {key : Nat} {value : β}

def weight (count : β → Nat) (map : Std.TreeMap Nat β) : Nat :=
  (map.toList.map fun entry => count entry.2).sum

theorem toList_nodup (map : Std.TreeMap Nat β) : map.toList.Nodup := by
  apply List.Nodup.of_map Prod.fst
  rw [map_fst_toList_eq_keys]
  exact nodup_keys

theorem weight_congr {other : Std.TreeMap Nat β} (same : ∀ key : Nat, other[key]? = map[key]?) :
    weight count other = weight count map := by
  rw [weight, weight, (Equiv.of_forall_constGet?_eq same).toList_eq]

theorem weight_congr_count {other : β → Nat}
    (same : ∀ (key : Nat) (value : β), map[key]? = some value → other value = count value) :
    weight other map = weight count map := by
  refine congrArg List.sum (List.map_congr_left ?_)
  rintro ⟨key, value⟩ member
  exact same key value (mem_toList_iff_getElem?_eq_some.mp member)

theorem weight_erase (map : Std.TreeMap Nat β) (key : Nat) :
    weight count (map.erase key) + (map[key]?.map count).getD 0 = weight count map := by
  cases found : map[key]? with
  | none =>
    refine weight_congr fun other => ?_
    rw [getElem?_erase]
    by_cases same : key = other
    · subst same
      simp [found]
    · simp [same]
  | some value =>
    have perm : map.toList.Perm ((key, value) :: (map.erase key).toList) := by
      refine (List.perm_ext_iff_of_nodup (toList_nodup _) (List.nodup_cons.mpr ⟨?_, toList_nodup _⟩)).mpr ?_
      · simp [mem_toList_iff_getElem?_eq_some]
      · rintro ⟨other, held⟩
        rw [List.mem_cons, mem_toList_iff_getElem?_eq_some, mem_toList_iff_getElem?_eq_some, getElem?_erase]
        by_cases same : key = other
        · subst same
          simp [found, eq_comm]
        · simp [same, Ne.symm same]
    have total : weight count map = count value + weight count (map.erase key) := (perm.map _).sum_eq
    exact (Nat.add_comm _ _).trans total.symm

theorem weight_insert (map : Std.TreeMap Nat β) (key : Nat) (value : β) :
    weight count (map.insert key value) = weight count map - (map[key]?.map count).getD 0 + count value := by
  have erased : weight count ((map.insert key value).erase key) = weight count (map.erase key) := by
    refine weight_congr fun other => ?_
    rw [getElem?_erase, getElem?_erase, getElem?_insert]
    by_cases same : key = other
    · simp [same]
    · simp [same]
  rw [← weight_erase (map.insert key value) key, ← weight_erase map key, erased, getElem?_insert_self,
    Nat.add_sub_cancel]
  rfl

theorem weight_filter (drops : Nat → β → Bool) (map : Std.TreeMap Nat β) :
    weight count (map.filter fun key value => !drops key value) =
      weight count map - ((map.toList.filter fun entry => drops entry.1 entry.2).map fun entry => count entry.2).sum := by
  apply Nat.eq_sub_of_add_eq
  have parts := List.filter_append_perm (fun entry : Nat × β => drops entry.1 entry.2) map.toList
  have total := (parts.map fun entry => count entry.2).sum_eq
  rw [List.map_append, List.sum_append, Nat.add_comm] at total
  simpa only [weight, toList_filter] using total

theorem weight_map {change : Nat → β → β} (same : ∀ key value, count (change key value) = count value) :
    weight count (map.map change) = weight count map := by
  simp [weight, toList_map, same, Function.comp_def]

theorem card_keys (map : Std.TreeMap Nat β) : map.keys.toFinset.card = map.size := by
  rw [List.toFinset_card_of_nodup nodup_keys, length_keys]

/-- When all keys below a bound are there, counting the entries tells whether others are. -/
theorem size_eq_iff {bound : Nat} (filled : ∀ key < bound, key ∈ map) :
    map.size = bound ↔ ∀ key ∈ map, key < bound := by
  have below : range bound ⊆ map.keys.toFinset := by
    intro key member
    simpa using filled key (mem_range.mp member)
  constructor
  · intro same key member
    have equal := eq_of_subset_of_card_le below (by rw [card_keys, same, card_range])
    rw [← mem_range, equal]
    simpa using member
  · intro bounded
    have above : map.keys.toFinset ⊆ range bound := by
      intro key member
      exact mem_range.mpr (bounded key (by simpa using member))
    rw [← card_keys, above.antisymm below, card_range]

end MapWeight
