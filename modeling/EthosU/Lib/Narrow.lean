import Mathlib.Algebra.Group.Int.Defs
import Mathlib.Algebra.Group.Nat.Defs
import Mathlib.Logic.Basic
import Mathlib.Order.Basic

/-!
# Narrowing conversions

What a number becomes when it is stored to a smaller type, or to a signed one.

* `Narrow.toNat_toUInt32` and `Narrow.toUInt64_toUInt32`: a 64-bit number fits into 32 bits exactly
  if it comes back unchanged.
* `Narrow.lt_toUInt64` and `Narrow.toNat_succ`: a 64-bit counter that runs up to a 32-bit bound.
* `Narrow.toInt_toInt32` and `Narrow.toInt_narrow`: what is read from an `int`.
* `Narrow.toInt_toUInt64` and `Narrow.subscript_lt_iff`: an `int` that is used as a `size_t`.
* `Narrow.wrap` is what a number becomes when it is computed as an `int`.
* `Narrow.toNat_ofInt` and `Narrow.toNat_shift`: an integer that is stored as it is, or times a
  power of two, is left with its residue.
-/

set_option autoImplicit false

namespace Narrow

theorem toNat_toUInt32 {v : UInt64} (h : v.toNat < 2 ^ 32) : v.toUInt32.toNat = v.toNat := by
  rw [UInt64.toNat_toUInt32]
  exact Nat.mod_eq_of_lt h

theorem toUInt64_toUInt32 {v : UInt64} : v.toUInt32.toUInt64 = v ↔ v.toNat < 2 ^ 32 := by
  rw [← UInt64.toNat_inj, UInt32.toNat_toUInt64, UInt64.toNat_toUInt32]
  refine ⟨fun h ↦ ?_, fun h ↦ Nat.mod_eq_of_lt h⟩
  rw [← h]
  exact Nat.mod_lt _ (by decide)

/-- A 64-bit counter is compared with a 32-bit bound. -/
theorem lt_toUInt64 {n : UInt64} {bound : UInt32} :
    n < bound.toUInt64 ↔ n.toNat < bound.toNat := by
  rw [UInt64.lt_iff_toNat_lt, UInt32.toNat_toUInt64]

/-- A 64-bit counter below a 32-bit bound does not wrap around. -/
theorem toNat_succ {n : UInt64} {bound : UInt32} (h : n.toNat < bound.toNat) :
    (n + 1).toNat = n.toNat + 1 := by
  have hbound := bound.toNat_lt
  rw [UInt64.toNat_add, UInt64.toNat_one]
  exact Nat.mod_eq_of_lt (by omega)

/-- A word stays what it is up to `2 ^ 31` and is negative from there. -/
theorem toInt_toInt32 (w : UInt32) :
    w.toInt32.toInt = if w.toNat < 2 ^ 31 then (w.toNat : Int) else w.toNat - 2 ^ 32 := by
  have hcond := BitVec.toInt_eq_toNat_cond w.toBitVec
  have htoNat : w.toBitVec.toNat = w.toNat := rfl
  rw [htoNat] at hcond
  show w.toBitVec.toInt = _
  split at hcond <;> split <;> omega

/-- A 64-bit number that is an `int` stays what it is. -/
theorem toInt_narrow {v : UInt64} (h : v.toNat < 2 ^ 31) : v.toUInt32.toInt32.toInt = v.toNat := by
  rw [toInt_toInt32, toNat_toUInt32 (by omega), if_pos h]

/-- The first number that is not an `int` becomes a negative one. -/
theorem toInt_narrow_of_eq {v : UInt64} (h : v.toNat = 2 ^ 31) : v.toUInt32.toInt32.toInt < 0 := by
  rw [toInt_toInt32, toNat_toUInt32 (by omega), h, if_neg (by omega)]
  decide

/-- What a number is when it is computed as an `int`. -/
def wrap (n : Nat) : Int := (Int32.ofNat n).toInt

theorem wrap_eq (n : Nat) : wrap n = if n % 2 ^ 32 < 2 ^ 31 then ((n % 2 ^ 32 : Nat) : Int)
    else (n % 2 ^ 32 : Nat) - 2 ^ 32 := by
  have hsize : Int32.size = 2 ^ 32 := rfl
  rw [wrap, Int32.toInt_ofNat', Int.bmod_def, hsize]
  split <;> split <;> omega

theorem wrap_of_lt {n : Nat} (h : n < 2 ^ 31) : wrap n = n := by
  rw [wrap_eq, if_pos (by omega), Nat.mod_eq_of_lt (by omega)]

theorem wrap_lt (n : Nat) : wrap n < 2 ^ 31 := by
  rw [wrap_eq]
  split <;> omega

theorem wrap_le (n : Nat) : wrap n ≤ n := by
  have hmod := Nat.mod_le n (2 ^ 32)
  rw [wrap_eq]
  split <;> omega

theorem wrap_nonneg_iff {n : Nat} : 0 ≤ wrap n ↔ n % 2 ^ 32 < 2 ^ 31 := by
  rw [wrap_eq]
  split <;> omega

/-- What an `int` is as an `unsigned`. -/
theorem toNat_ofInt (n : Int) : ((Int32.ofInt n).toUInt32.toNat : Int) = n % 2 ^ 32 := by
  show (((BitVec.ofInt 32 n).toNat : Nat) : Int) = n % 2 ^ 32
  rw [BitVec.toNat_ofInt]
  omega

/-- A number of mebibytes, in 32 bits. -/
theorem toNat_shift (n : Int) :
    ((Int64.ofInt n <<< 20).toUInt64.toUInt32.toNat : Int) = n * 2 ^ 20 % 2 ^ 32 := by
  rw [UInt64.toNat_toUInt32]
  show (((BitVec.ofInt 64 n <<< 20).toNat % 2 ^ 32 : Nat) : Int) = _
  rw [BitVec.toNat_shiftLeft, BitVec.toNat_ofInt, Nat.shiftLeft_eq]
  omega

/-- A signed number, from the `size_t` it becomes. -/
theorem toInt_toUInt64 (i : Int32) :
    i.toInt = if 2 * i.toInt64.toUInt64.toNat < 2 ^ 64 then (i.toInt64.toUInt64.toNat : Int)
      else i.toInt64.toUInt64.toNat - 2 ^ 64 := by
  rw [← Int32.toInt_toInt64]
  exact BitVec.toInt_eq_toNat_cond i.toInt64.toBitVec

/-- A negative subscript is behind the end of every vector. -/
theorem subscript_lt_iff (i : Int32) {count : Nat} (h : count < 2 ^ 63) :
    i.toInt64.toUInt64.toNat < count ↔ 0 ≤ i.toInt ∧ i.toInt < count := by
  have hcond := toInt_toUInt64 i
  have hlt := i.toInt64.toUInt64.toNat_lt
  split at hcond <;> refine ⟨fun _ ↦ ?_, fun _ ↦ ?_⟩ <;> omega

end Narrow
