import Mathlib.Tactic

/-! # Numbers as big-endian bytes -/

namespace BigEndian

open List

/-- The `width` low bytes of a number, most significant first. -/
def toBytes : Nat → Nat → List UInt8
  | 0, _ => []
  | width + 1, value => UInt8.ofNat (value / 256 ^ width) :: toBytes width value

def fromBytes (bytes : List UInt8) : Nat :=
  bytes.foldl (fun value byte => value * 256 + byte.toNat) 0

@[simp] theorem toBytes_length (width value : Nat) : (toBytes width value).length = width := by
  induction width with
  | zero => rfl
  | succ width ih => rw [toBytes, length_cons, ih]

theorem fromBytes_eq_ofDigits (bytes : List UInt8) :
    fromBytes bytes = Nat.ofDigits 256 (bytes.map UInt8.toNat).reverse := by
  rw [Nat.ofDigits_eq_foldr, foldr_reverse, foldl_map]
  simp only [fromBytes, Nat.cast_id, Nat.mul_comm, Nat.add_comm]

theorem digits_lt {bytes : List UInt8} : ∀ digit ∈ (bytes.map UInt8.toNat).reverse, digit < 256 := by
  intro digit member
  obtain ⟨byte, _, rfl⟩ := mem_map.mp (mem_reverse.mp member)
  exact byte.toNat_lt

theorem fromBytes_cons (byte : UInt8) (bytes : List UInt8) :
    fromBytes (byte :: bytes) = byte.toNat * 256 ^ bytes.length + fromBytes bytes := by
  rw [fromBytes_eq_ofDigits, map_cons, Nat.ofDigits_reverse_cons, ← fromBytes_eq_ofDigits, length_map,
    Nat.mul_comm, Nat.add_comm]

theorem fromBytes_lt (bytes : List UInt8) : fromBytes bytes < 256 ^ bytes.length := by
  have bound := Nat.ofDigits_lt_base_pow_length (by decide) (@digits_lt bytes)
  rwa [← fromBytes_eq_ofDigits, length_reverse, length_map] at bound

theorem eq_of_fromBytes_eq {left right : List UInt8} (sized : left.length = right.length)
    (same : fromBytes left = fromBytes right) : left = right := by
  rw [fromBytes_eq_ofDigits, fromBytes_eq_ofDigits] at same
  have digits := Nat.ofDigits_inj_of_len_eq (by decide) (by simpa using sized) digits_lt digits_lt same
  exact map_injective_iff.mpr (fun _ _ => UInt8.toNat_inj.mp) (reverse_injective digits)

theorem fromBytes_toBytes_mod (width value : Nat) : fromBytes (toBytes width value) = value % 256 ^ width := by
  induction width with
  | zero => rw [Nat.pow_zero, Nat.mod_one]; rfl
  | succ width ih =>
    rw [toBytes, fromBytes_cons, toBytes_length, ih, Nat.pow_succ, Nat.mod_mul, UInt8.toNat_ofNat']
    ring

theorem fromBytes_toBytes {width value : Nat} (fits : value < 256 ^ width) :
    fromBytes (toBytes width value) = value := by
  rw [fromBytes_toBytes_mod, Nat.mod_eq_of_lt fits]

theorem toBytes_fromBytes (bytes : List UInt8) : toBytes bytes.length (fromBytes bytes) = bytes :=
  eq_of_fromBytes_eq (toBytes_length _ _) (fromBytes_toBytes (fromBytes_lt bytes))

end BigEndian
