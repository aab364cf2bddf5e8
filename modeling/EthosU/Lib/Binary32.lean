import Mathlib.Algebra.Group.Int.Defs
import Mathlib.Algebra.Group.Nat.Defs
import Mathlib.Data.Nat.Basic

/-!
# Numbers of single precision

The bits of a binary floating-point number of 32 bits, and its integer part.

* `Binary32.sign`, `Binary32.exponent` and `Binary32.fraction` are the three fields.
* `Binary32.integerPart` rounds toward zero, and is undefined for infinities and for what is not a
  number.  `integerPart_of_lt` is its value for numbers from 1 up to `2 ^ 23`.
-/

set_option autoImplicit false

namespace Binary32

def sign (w : UInt32) : Bool := decide (2 ^ 31 ≤ w.toNat)

def exponent (w : UInt32) : Nat := w.toNat / 2 ^ 23 % 2 ^ 8

def fraction (w : UInt32) : Nat := w.toNat % 2 ^ 23

/-- The significand, with its hidden bit unless the number is subnormal. -/
def significand (w : UInt32) : Nat :=
  if exponent w = 0 then fraction w else 2 ^ 23 + fraction w

/-- The integer part of `± significand * 2 ^ (exponent - 150)`. -/
def integerPart (w : UInt32) : Option Int :=
  if exponent w = 255 then none
  else
    let e := max 1 (exponent w)
    let n := if 150 ≤ e then significand w * 2 ^ (e - 150) else significand w / 2 ^ (150 - e)
    some (if sign w then -n else n)

theorem integerPart_of_lt {e f : Nat} (hlower : 127 ≤ e) (hupper : e < 150) (hf : f < 2 ^ 23) :
    integerPart (.ofNat (e * 2 ^ 23 + f)) =
    some (((2 ^ 23 + f) / 2 ^ (150 - e) : Nat) : Int) := by
  have hvalue : (UInt32.ofNat (e * 2 ^ 23 + f)).toNat = e * 2 ^ 23 + f :=
    UInt32.toNat_ofNat_of_lt' (by show _ < 2 ^ 32; omega)
  have hexponent : exponent (.ofNat (e * 2 ^ 23 + f)) = e := by
    rw [exponent, hvalue]
    omega
  have hfraction : fraction (.ofNat (e * 2 ^ 23 + f)) = f := by
    rw [fraction, hvalue]
    omega
  have hsign : sign (.ofNat (e * 2 ^ 23 + f)) = false := by
    rw [sign, hvalue, decide_eq_false_iff_not]
    omega
  have hfinite : e ≠ 255 := by omega
  have hnormal : e ≠ 0 := by omega
  have hsmall : ¬ 150 ≤ e := by omega
  rw [integerPart, significand, hexponent, hfraction, hsign, Nat.max_eq_right (by omega)]
  simp only [hfinite, hnormal, hsmall, if_false, Bool.false_eq_true]

end Binary32
