import Mathlib.Data.List.Basic
import Mathlib.Tactic.Ring

/-!
# Big-endian words

Library `Lib`. Fixed-width unsigned words as byte lists, most significant byte first.
Both directions are total: a number too large for its width keeps its low bytes only,
and every byte list denotes a number.
-/

namespace CassandraDriver.Lib

/-- The `w` low bytes of `n`, most significant first. -/
def toBE : Nat → Nat → List UInt8
  | 0, _ => []
  | w + 1, n => UInt8.ofNat (n / 256 ^ w) :: toBE w n

/-- The number a byte list denotes, most significant byte first. -/
def ofBE (bs : List UInt8) : Nat :=
  bs.foldl (fun acc b ↦ acc * 256 + b.toNat) 0

/-- A word of width `w` has exactly `w` bytes, whatever the number. -/
@[simp] theorem length_toBE (w n : Nat) : (toBE w n).length = w := by
  induction w with
  | zero => rfl
  | succ w ih => simp [toBE, ih]

private theorem foldl_toBE (w n acc : Nat) :
    (toBE w n).foldl (fun acc b ↦ acc * 256 + b.toNat) acc =
      acc * 256 ^ w + n % 256 ^ w := by
  induction w generalizing acc with
  | zero => simp [toBE, Nat.mod_one]
  | succ w ih =>
    have hb : (UInt8.ofNat (n / 256 ^ w)).toNat = n / 256 ^ w % 256 := by simp
    have hm : n % 256 ^ (w + 1) = 256 ^ w * (n / 256 ^ w % 256) + n % 256 ^ w := by
      rw [Nat.pow_succ, Nat.mod_mul, Nat.add_comm]
    rw [toBE, List.foldl_cons, ih, hb, hm]
    ring

/-- Reading a written word returns the number modulo the width. -/
theorem ofBE_toBE_mod (w n : Nat) : ofBE (toBE w n) = n % 256 ^ w := by
  rw [ofBE, foldl_toBE, Nat.zero_mul, Nat.zero_add]

/-- A number that fits its width is read back unchanged. -/
theorem ofBE_toBE (w n : Nat) (h : n < 256 ^ w) : ofBE (toBE w n) = n := by
  rw [ofBE_toBE_mod, Nat.mod_eq_of_lt h]

private theorem foldl_ofBE (bs : List UInt8) (acc : Nat) :
    bs.foldl (fun acc b ↦ acc * 256 + b.toNat) acc = acc * 256 ^ bs.length + ofBE bs := by
  induction bs generalizing acc with
  | nil => simp [ofBE]
  | cons b bs ih =>
    rw [ofBE, List.foldl_cons, List.foldl_cons, ih, ih (0 * 256 + b.toNat), List.length_cons]
    ring

private theorem toBE_add_mul (w k n : Nat) : toBE w (k * 256 ^ w + n) = toBE w n := by
  induction w generalizing k with
  | zero => rfl
  | succ w ih =>
    have hk : k * 256 ^ (w + 1) + n = k * 256 * 256 ^ w + n := by ring
    have hd : (k * 256 * 256 ^ w + n) / 256 ^ w = k * 256 + n / 256 ^ w := by
      rw [Nat.add_comm, Nat.add_mul_div_right _ _ (Nat.pow_pos (by decide)), Nat.add_comm]
    have hb : UInt8.ofNat (k * 256 + n / 256 ^ w) = UInt8.ofNat (n / 256 ^ w) := by
      apply UInt8.toNat_inj.mp
      simp
    rw [toBE, toBE, hk, hd, hb, ih (k * 256)]

/-- Writing the number that some bytes denote returns the bytes. -/
theorem toBE_ofBE (bs : List UInt8) : toBE bs.length (ofBE bs) = bs := by
  induction bs with
  | nil => rfl
  | cons b bs ih =>
    have hv : ofBE (b :: bs) = b.toNat * 256 ^ bs.length + ofBE bs := by
      rw [ofBE, List.foldl_cons, foldl_ofBE, Nat.zero_mul, Nat.zero_add]
    have hlt : ofBE bs < 256 ^ bs.length := by
      have hm := ofBE_toBE_mod bs.length (ofBE bs)
      rw [ih] at hm
      rw [hm]
      exact Nat.mod_lt _ (Nat.pow_pos (by decide))
    have hd : (b.toNat * 256 ^ bs.length + ofBE bs) / 256 ^ bs.length = b.toNat := by
      rw [Nat.add_comm, Nat.add_mul_div_right _ _ (Nat.pow_pos (by decide)), Nat.div_eq_of_lt hlt,
        Nat.zero_add]
    rw [hv, List.length_cons, toBE, hd, toBE_add_mul, ih, UInt8.ofNat_toNat]

/-- Bytes denote a number that fits their width. -/
theorem ofBE_lt (bs : List UInt8) : ofBE bs < 256 ^ bs.length := by
  have hm := ofBE_toBE_mod bs.length (ofBE bs)
  rw [toBE_ofBE] at hm
  rw [hm]
  exact Nat.mod_lt _ (Nat.pow_pos (by decide))

end CassandraDriver.Lib
