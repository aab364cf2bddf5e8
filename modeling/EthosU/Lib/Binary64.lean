import Mathlib.Data.Int.Log
import Mathlib.Data.Rat.Floor
import Mathlib.Tactic.FieldSimp
import Mathlib.Tactic.Linarith
import Mathlib.Tactic.NormNum

/-!
# Numbers of double precision

An operation on binary floating-point numbers of 64 bits has the result of the exact operation,
rounded to the nearest number that has at most 53 significant bits.

* `Binary64.round` is that rounding, of rational numbers, with ties to even and gradual underflow.
  Results that are too large for the format are kept.
* `Binary64.round_eq_self` and `Binary64.abs_round_sub_le`: it keeps the numbers of the format, and
  others are off by at most one part in `2 ^ 53`.
* `Rounding` is a way to round the results of operations, of which no more is known than that.
  Without any rounding it is `Rounding.exact`, and with that of the format `Rounding.binary64`.
-/

set_option autoImplicit false

namespace Binary64

/-- The nearest whole number, or the even one of the two nearest. -/
def nearestEven (q : ℚ) : ℤ :=
  if q - ⌊q⌋ < 1 / 2 then ⌊q⌋
  else if 1 / 2 < q - ⌊q⌋ then ⌊q⌋ + 1
  else if ⌊q⌋ % 2 = 0 then ⌊q⌋
  else ⌊q⌋ + 1

@[simp] theorem nearestEven_intCast (n : ℤ) : nearestEven n = n := by
  simp [nearestEven]

theorem abs_nearestEven_sub_le (q : ℚ) : |(nearestEven q : ℚ) - q| ≤ 1 / 2 := by
  have hlower := Int.floor_le q
  have hupper := Int.lt_floor_add_one q
  rw [nearestEven]
  split
  · rw [abs_le]
    constructor <;> linarith
  · split
    · push_cast
      rw [abs_le]
      constructor <;> linarith
    · split
      · rw [abs_le]
        constructor <;> linarith
      · push_cast
        rw [abs_le]
        constructor <;> linarith

/-- The exponent of the last of the 53 bits of a number, which is not below that of the smallest
one. -/
def exponent (q : ℚ) : ℤ := max (Int.log 2 |q| - 52) (-1074)

/-- The nearest number of the format. -/
def round (q : ℚ) : ℚ := nearestEven (q / 2 ^ exponent q) * 2 ^ exponent q

/-- A number whose bits end at the last one or before is kept. -/
theorem round_eq_self {q : ℚ} {m e : ℤ} (hq : q = m * 2 ^ e) (he : exponent q ≤ e) :
    round q = q := by
  obtain ⟨n, hn⟩ : ∃ n : ℕ, e = exponent q + n := ⟨(e - exponent q).toNat, by omega⟩
  have hpow : (2 : ℚ) ^ exponent q ≠ 0 := zpow_ne_zero _ two_ne_zero
  have hquot : q / 2 ^ exponent q = ((m * 2 ^ n : ℤ) : ℚ) := by
    rw [div_eq_iff hpow]
    conv_lhs => rw [hq, hn, zpow_add₀ two_ne_zero, zpow_natCast]
    push_cast
    ring
  rw [round, hquot, nearestEven_intCast, ← hquot, div_mul_cancel₀ _ hpow]

/-- A number that is not too small is off by at most one part in `2 ^ 53`. -/
theorem abs_round_sub_le {q : ℚ} (hq : 2 ^ (-1022 : ℤ) ≤ |q|) : |round q - q| ≤ |q| / 2 ^ 53 := by
  have hpos : 0 < |q| := lt_of_lt_of_le (zpow_pos two_pos _) hq
  have hlog : -1022 ≤ Int.log 2 |q| := (Int.zpow_le_iff_le_log Nat.one_lt_two hpos).1 hq
  have hexponent : exponent q = Int.log 2 |q| - 52 := max_eq_left (by omega)
  have hpow : (0 : ℚ) < 2 ^ exponent q := zpow_pos two_pos _
  have hdiff : round q - q
      = (nearestEven (q / 2 ^ exponent q) - q / 2 ^ exponent q) * 2 ^ exponent q := by
    rw [sub_mul, div_mul_cancel₀ _ (ne_of_gt hpow), round]
  have hunit : (2 : ℚ) ^ exponent q * 2 ^ 52 ≤ |q| := by
    rw [hexponent, ← zpow_natCast (2 : ℚ) 52, ← zpow_add₀ two_ne_zero]
    have hle := Int.zpow_log_le_self Nat.one_lt_two hpos
    rwa [show Int.log 2 |q| - 52 + (52 : ℕ) = Int.log 2 |q| by omega]
  calc |round q - q|
      = |(nearestEven (q / 2 ^ exponent q) : ℚ) - q / 2 ^ exponent q| * 2 ^ exponent q := by
        rw [hdiff, abs_mul, abs_of_pos hpow]
    _ ≤ 1 / 2 * 2 ^ exponent q :=
        mul_le_mul_of_nonneg_right (abs_nearestEven_sub_le _) (le_of_lt hpow)
    _ ≤ |q| / 2 ^ 53 := by
        rw [le_div_iff₀ (by positivity)]
        linarith

/-- Halves of whole numbers that are not too large are kept. -/
theorem round_half {n : ℤ} (h : |n| < 2 ^ 53) : round (n / 2) = n / 2 := by
  refine round_eq_self (m := n) (e := -1) (by rw [zpow_neg_one, div_eq_mul_inv]) ?_
  rw [exponent, max_le_iff]
  refine ⟨?_, by decide⟩
  rcases eq_or_ne n 0 with rfl | hne
  · simp
  · have hpos : (0 : ℚ) < |(n : ℚ) / 2| := abs_pos.2 (by simpa using hne)
    have hlt : |(n : ℚ) / 2| < (2 : ℕ) ^ (52 : ℤ) := by
      have hcast : |(n : ℚ)| < 2 ^ 53 := by exact_mod_cast h
      rw [abs_div, abs_two, div_lt_iff₀ two_pos]
      norm_num at hcast ⊢
      exact hcast
    have hlog := (Int.lt_zpow_iff_log_lt Nat.one_lt_two hpos).1 hlt
    omega

end Binary64

/-- How the results of operations are rounded. -/
structure Rounding where
  round : ℚ → ℚ
  near : ∀ q, 2 ^ (-1022 : ℤ) ≤ |q| → |round q - q| ≤ |q| / 2 ^ 53
  half : ∀ n : ℤ, |n| < 2 ^ 53 → round (n / 2) = n / 2

namespace Rounding

section

variable (r : Rounding)

theorem round_add_half {n : ℕ} (h : n < 2 ^ 52) : r.round (n + 1 / 2) = n + 1 / 2 := by
  have hhalf : ((n : ℚ) + 1 / 2) = ((2 * n + 1 : ℤ) : ℚ) / 2 := by
    push_cast
    ring
  rw [hhalf]
  exact r.half _ (by rw [abs_of_nonneg] <;> omega)

theorem round_natCast {n : ℕ} (h : n < 2 ^ 52) : r.round n = n := by
  have hhalf : (n : ℚ) = ((2 * n : ℤ) : ℚ) / 2 := by
    push_cast
    ring
  rw [hhalf]
  exact r.half _ (by rw [abs_of_nonneg] <;> omega)

@[simp] theorem round_zero : r.round 0 = 0 := by
  simpa using r.half 0 (by norm_num)

@[simp] theorem round_one : r.round 1 = 1 := by
  simpa using r.half 2 (by norm_num)

@[simp] theorem round_one_half : r.round (1 / 2) = 1 / 2 := by
  simpa using r.half 1 (by norm_num)

/-- The result for a number that is not too small. -/
theorem bounds {q : ℚ} (hq : 2 ^ (-1022 : ℤ) ≤ q) :
    q * (1 - 1 / 2 ^ 53) ≤ r.round q ∧ r.round q ≤ q * (1 + 1 / 2 ^ 53) := by
  have hpos : 0 < q := lt_of_lt_of_le (zpow_pos two_pos _) hq
  have hnear := r.near q (by rwa [abs_of_pos hpos])
  rw [abs_of_pos hpos, abs_le] at hnear
  constructor <;> linarith

end

/-- Nothing is rounded. -/
def exact : Rounding where
  round q := q
  near q _ := by
    rw [sub_self, abs_zero]
    positivity
  half _ _ := rfl

def binary64 : Rounding where
  round := Binary64.round
  near _ := Binary64.abs_round_sub_le
  half _ := Binary64.round_half

end Rounding
