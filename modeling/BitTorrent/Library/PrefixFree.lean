import Mathlib.Tactic

/-! # Prefix-free families of paths

Lists none of which is an initial segment of another.  Paths with this property can be the files
of one tree of directories.
-/

namespace BitTorrent

section

variable {α β : Type}

/-- Neither of two lists is an initial segment of the other; they differ in particular. -/
def Incomparable (left right : List α) : Prop := ¬left <+: right ∧ ¬right <+: left

def PrefixFree (paths : List (List α)) : Prop := paths.Pairwise Incomparable

instance [DecidableEq α] (left right : List α) : Decidable (Incomparable left right) :=
  inferInstanceAs (Decidable (_ ∧ _))

instance [DecidableEq α] (paths : List (List α)) : Decidable (PrefixFree paths) :=
  inferInstanceAs (Decidable (paths.Pairwise Incomparable))

theorem Incomparable.symm {left right : List α} (apart : Incomparable left right) : Incomparable right left :=
  ⟨apart.2, apart.1⟩

/-- A map that keeps and reflects initial segments keeps and reflects prefix-free families. -/
theorem prefixFree_map_iff {image : List α → List β} {paths : List (List α)}
    (segments : ∀ left right, image left <+: image right ↔ left <+: right) :
    PrefixFree (paths.map image) ↔ PrefixFree paths := by
  rw [PrefixFree, List.pairwise_map]
  simp only [Incomparable, segments]
  rfl

end

end BitTorrent
