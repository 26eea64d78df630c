import Mathlib.Data.UInt
import BitTorrent.Basic
import BitTorrent.Library.StreamCipher

/-! # The RC4 stream cipher

`Rc4` of `network/mse.rs`.
-/

namespace BitTorrent

theorem index_lt (index : UInt8) : index.toNat < 256 := index.toNat_lt

@[ext]
structure Rc4 where
  state : Vector UInt8 256
  i : UInt8
  j : UInt8
deriving DecidableEq

namespace Rc4

def identity : Vector UInt8 256 := Vector.ofFn fun index : Fin 256 => UInt8.ofNat index

def scheduleRound (key : Bytes) (round : Vector UInt8 256 × UInt8) (i : Fin 256) : Vector UInt8 256 × UInt8 :=
  let j := round.2 + round.1[i] + key.getD (i % key.length) 0
  (round.1.swap i j.toNat i.isLt (index_lt j), j)

/-- `Rc4::new`; the index of the key is a remainder by its length. -/
def new (key : Bytes) : Outcome Rc4 :=
  if key.length = 0 then .panic
  else .ok ⟨((List.finRange 256).foldl (scheduleRound key) (identity, 0)).1, 0, 0⟩

variable (rc4 : Rc4)

def nextKey : UInt8 × Rc4 :=
  let i := rc4.i + 1
  let j := rc4.j + rc4.state.get ⟨i.toNat, index_lt i⟩
  let state := rc4.state.swap i.toNat j.toNat (index_lt i) (index_lt j)
  let t := state.get ⟨i.toNat, index_lt i⟩ + state.get ⟨j.toNat, index_lt j⟩
  (state.get ⟨t.toNat, index_lt t⟩, ⟨state, i, j⟩)

/-- `encrypt`: the bytes of the slice afterwards, and the cipher. -/
def encrypt (rc4 : Rc4) : Bytes → Bytes × Rc4
  | [] => ([], rc4)
  | byte :: rest =>
    let k := rc4.nextKey.1
    let (rest, rc4) := rc4.nextKey.2.encrypt rest
    ((byte ^^^ k) :: rest, rc4)

/-- The state lists each byte once. -/
def IsPermutation : Prop := rc4.state.toList.Perm identity.toList

theorem foldl_scheduleRound_perm (key : Bytes) (rounds : List (Fin 256)) (round : Vector UInt8 256 × UInt8) :
    (rounds.foldl (scheduleRound key) round).1.Perm round.1 := by
  induction rounds generalizing round with
  | nil => exact .refl _
  | cons i rounds ih => exact (ih _).trans (Vector.swap_perm i.isLt (index_lt _))

theorem new_eq_ok {key : Bytes} (nonempty : key ≠ []) : ∃ rc4, new key = .ok rc4 ∧ rc4.IsPermutation := by
  refine ⟨_, if_neg fun empty => nonempty (List.eq_nil_of_length_eq_zero empty), ?_⟩
  exact (foldl_scheduleRound_perm key _ _).toList

theorem nextKey_isPermutation {rc4 : Rc4} (permutation : rc4.IsPermutation) : rc4.nextKey.2.IsPermutation :=
  (Vector.swap_perm (index_lt _) (index_lt _)).toList.trans permutation

def cipher : StreamCipher Rc4 UInt8 where
  next := nextKey
  mix byte k := byte ^^^ k
  mix_mix byte k := by rw [UInt8.xor_assoc, UInt8.xor_self, UInt8.xor_zero]

theorem encrypt_eq_process (data : Bytes) : rc4.encrypt data = cipher.process rc4 data := by
  induction data generalizing rc4 with
  | nil => rfl
  | cons byte data ih =>
    rw [encrypt, ih]
    rfl

theorem encrypt_isPermutation {rc4 : Rc4} (permutation : rc4.IsPermutation) (data : Bytes) :
    (rc4.encrypt data).2.IsPermutation := by
  rw [encrypt_eq_process]
  exact cipher.process_invariant (fun _ => nextKey_isPermutation) permutation data

end Rc4

end BitTorrent
