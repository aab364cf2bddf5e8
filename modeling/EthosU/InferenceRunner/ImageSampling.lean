import EthosU.InferenceRunner.ImageArithmetic
import EthosU.Lib.Narrow
import Mathlib.Algebra.Order.Floor.Semifield

/-!
# The arithmetic of the image resizer

`IMAGE_Resize` takes for every element of the destination one of the source.  This file says which
one, for all positive sizes, and that no `int` overflows on the way, for images and destinations
whose positions are `int`s.

* `ImageResize.ints` are the expressions that are evaluated, and `ImageResize.casts` the numbers
  that are converted to `int`.
* `ImageResize.sourceAt` is the row or column of the source that is taken for one of the
  destination, and `ImageResize.sampleAt` the one if nothing is rounded on the way to it: the
  quotient rounded down for one channel, and to the nearest one for three.
* `ImageResize.Sizes` are the sizes of a source and a destination.  `Sizes.mem_zeros_iff` and
  `Sizes.mem_samples_iff` say where is stored to and what is sampled: the positions of the elements,
  wrapped around.
* `ImageResize.Sizes.resized` is what the resizer leaves in a destination whose positions are
  `int`s, and `ImageResize.Sized.resized` the same if those of the source are `int`s, too.
* `ImageResize.Sized.fits_ints`, `ImageResize.Sizes.fits_casts`: nothing overflows.
-/

set_option autoImplicit false

namespace EthosU

open IntExpr (InRange)
open Narrow

/-- Conversion to `int` rounds down. -/
theorem truncate_of_nonneg {q : ℚ} (h : 0 ≤ q) : truncate q = .ofNat ⌊q⌋₊ := by
  rw [truncate, Int.tdiv_eq_ediv_of_nonneg (Rat.num_nonneg.2 h), ← Rat.floor_def',
    ← Int.natCast_floor_eq_floor h, Int32.ofInt_eq_ofNat]

theorem eq_ofNat {n : Int32} {k : Nat} (h : n.toInt = k) : n = .ofNat k := by
  have hlt := n.toInt_lt
  rw [← Int32.toInt_inj, h, Int32.toInt_ofNat_of_lt (by omega)]

namespace ImageResize

section

variable (r : Rounding) (srcWidth srcHeight dstWidth dstHeight channels : Int32)

/-- What is added before a number is converted. -/
def bias : Rat := if channels = 1 then 0 else 1 / 2

/-- The numbers that are converted for one element of the destination. -/
def elementCasts (i j : Int32) : List Rat :=
  [unscaled r i (quotient r dstHeight srcHeight) (bias channels),
    unscaled r j (quotient r dstWidth srcWidth) (bias channels)]

/-- The row and the column of the source that are sampled. -/
def sampled (i j : Int32) : Int32 × Int32 :=
  (pre r i (quotient r dstHeight srcHeight) (bias channels),
    pre r j (quotient r dstWidth srcWidth) (bias channels))

def Inside (i j : Int32) : Prop :=
  let (preI, preJ) := sampled r srcWidth srcHeight dstWidth dstHeight channels i j
  preI ≥ 0 ∧ preI < srcHeight ∧ preJ ≥ 0 ∧ preJ < srcWidth

instance (i j : Int32) : Decidable (Inside r srcWidth srcHeight dstWidth dstHeight channels i j) :=
  inferInstanceAs (Decidable (_ ∧ _ ∧ _ ∧ _))

/-- The expressions for one element of the destination, with those that count the loops. -/
def elementInts (i j : Int32) : List IntExpr :=
  let (preI, preJ) := sampled r srcWidth srcHeight dstWidth dstHeight channels i j
  let step := channels * srcWidth
  let scaleStep := channels * dstWidth
  [(i : IntExpr) + 1, (j : IntExpr) + 1]
    ++ if channels = 1 then
        [((dstHeight : IntExpr) - 1 - i) * scaleStep + j, (i : IntExpr) * scaleStep + j]
          ++ if Inside r srcWidth srcHeight dstWidth dstHeight channels i j then
              [(preI : IntExpr) * step + preJ]
            else []
      else if channels = 3 then
        (upTo 3).flatMap fun k : Int32 ↦
          [(k : IntExpr) + 1, ((dstHeight : IntExpr) - 1 - i) * scaleStep + (j : IntExpr) * 3 + k,
            (i : IntExpr) * scaleStep + (j : IntExpr) * 3 + k]
          ++ if Inside r srcWidth srcHeight dstWidth dstHeight channels i j then
              [(preI : IntExpr) * step + (preJ : IntExpr) * 3 + k]
            else []
      else []

/-- The expressions of `IMAGE_Resize`. -/
def ints : List IntExpr :=
  [(channels : IntExpr) * srcWidth, (channels : IntExpr) * dstWidth]
    ++ (positions dstHeight dstWidth).flatMap fun (i, j) ↦
      elementInts r srcWidth srcHeight dstWidth dstHeight channels i j

/-- The numbers that are converted to `int`. -/
def casts : List Rat :=
  (positions dstHeight dstWidth).flatMap fun (i, j) ↦
    elementCasts r srcWidth srcHeight dstWidth dstHeight channels i j

end

/-- `after / d + bias` along one axis. -/
def unscaledAt (r : Rounding) (channels dst src after : Nat) : Rat :=
  r.round (r.round (after / r.round (dst / src)) + if channels = 1 then 0 else 1 / 2)

/-- The element of the source that is taken for one of the destination, along one axis. -/
def sourceAt (r : Rounding) (channels dst src after : Nat) : Nat :=
  ⌊unscaledAt r channels dst src after⌋₊

/-- The element that is taken if the quotients are exact. -/
def sampleAt (channels dst src after : Nat) : Nat :=
  if channels = 1 then after * src / dst else (2 * after * src + dst) / (2 * dst)

@[simp] theorem sourceAt_exact (channels dst src after : Nat) :
    sourceAt .exact channels dst src after = sampleAt channels dst src after := by
  have hvalue : unscaledAt .exact channels dst src after
      = (after * src : Nat) / dst + if channels = 1 then 0 else 1 / 2 := by
    rw [Nat.cast_mul, ← div_div_eq_mul_div]
    rfl
  rw [sourceAt, hvalue, sampleAt]
  split
  · rw [add_zero, Nat.floor_div_eq_div]
  · rcases Nat.eq_zero_or_pos dst with rfl | hpos
    · norm_num
    · have hdst : (dst : ℚ) ≠ 0 := by exact_mod_cast Nat.ne_of_gt hpos
      have hquot : ((after * src : Nat) : ℚ) / dst + 1 / 2
          = (2 * after * src + dst : Nat) / (2 * dst : Nat) := by
        push_cast
        field_simp
      rw [hquot, Nat.floor_div_eq_div]

/-- Doubles make `IMAGE_Resize` take another element than exact quotients do. -/
example : sourceAt .binary64 1 18 14 9 = 6 ∧ sampleAt 1 18 14 9 = 7 := by decide +kernel

/-! ## Rounding -/

section

variable (r : Rounding) (channels : Nat) {d s a : Nat}

/-- At scale one every element is taken for itself. -/
theorem sourceAt_self {n : Nat} (ha : a < n) (hn : n < 2 ^ 52) :
    sourceAt r channels n n a = a := by
  have hpos : (n : ℚ) ≠ 0 := by exact_mod_cast Nat.ne_of_gt (Nat.zero_lt_of_lt ha)
  rw [sourceAt, unscaledAt, div_self hpos, r.round_one, div_one,
    r.round_natCast (Nat.lt_trans ha hn)]
  split
  · rw [add_zero, r.round_natCast (Nat.lt_trans ha hn), Nat.floor_natCast]
  · rw [r.round_add_half (Nat.lt_trans ha hn), add_comm, Nat.floor_add_natCast (by norm_num)]
    norm_num

/-- The first element is taken from the first one. -/
theorem sourceAt_zero (dst src : Nat) : sourceAt r channels dst src 0 = 0 := by
  rw [sourceAt, unscaledAt, Nat.cast_zero, zero_div, r.round_zero, zero_add]
  split
  · rw [r.round_zero, Nat.floor_zero]
  · rw [r.round_one_half]
    norm_num

theorem normal_of_le {q : ℚ} (h : 1 / 2 ^ 34 ≤ q) : 2 ^ (-1022 : ℤ) ≤ q := by
  refine le_trans ?_ h
  rw [one_div, ← zpow_natCast, ← zpow_neg]
  exact zpow_le_zpow_right₀ one_le_two (by decide)

/-- The factor of one axis. -/
theorem factor_bounds (hs : 0 < s) (hs' : s ≤ 2 ^ 31) (hd : 0 < d) (hd' : d ≤ 2 ^ 31) :
    d * (1 - 1 / 2 ^ 53) ≤ r.round (d / s) * s ∧ r.round (d / s) ≤ 2 ^ 32 := by
  have hs₀ : (1 : ℚ) ≤ s := by exact_mod_cast hs
  have hs₁ : (s : ℚ) ≤ 2 ^ 31 := by exact_mod_cast hs'
  have hd₀ : (1 : ℚ) ≤ d := by exact_mod_cast hd
  have hd₁ : (d : ℚ) ≤ 2 ^ 31 := by exact_mod_cast hd'
  have hlarge : 1 / 2 ^ 31 ≤ (d : ℚ) / s := by
    rw [div_le_div_iff₀ (by positivity) (by positivity)]
    linarith
  have hsmall : (d : ℚ) / s ≤ 2 ^ 31 :=
    div_le_of_le_mul₀ (by positivity) (by positivity) (by linarith)
  obtain ⟨hlower, hupper⟩ := r.bounds (normal_of_le (le_trans (by norm_num) hlarge))
  refine ⟨?_, by linarith⟩
  calc (d : ℚ) * (1 - 1 / 2 ^ 53) = d / s * (1 - 1 / 2 ^ 53) * s := by field_simp
    _ ≤ r.round (d / s) * s := mul_le_mul_of_nonneg_right hlower (by positivity)

/-- Any position but the first, divided by the factor. -/
theorem position_bounds (hs : 0 < s) (hs' : s ≤ 2 ^ 31) (hd : d ≤ 2 ^ 31) (ha : 0 < a)
    (had : a < d) :
    1 / 2 ^ 33 ≤ r.round (a / r.round (d / s)) ∧ r.round (a / r.round (d / s)) ≤ s := by
  have hs₀ : (1 : ℚ) ≤ s := by exact_mod_cast hs
  have ha₀ : (1 : ℚ) ≤ a := by exact_mod_cast ha
  have had₁ : (a : ℚ) + 1 ≤ d := by exact_mod_cast had
  have hd₁ : (d : ℚ) ≤ 2 ^ 31 := by exact_mod_cast hd
  obtain ⟨hlower, hupper⟩ := factor_bounds r hs hs' (Nat.lt_trans ha had) hd
  generalize r.round (d / s) = f at hlower hupper
  have hf : 0 < f := by
    by_contra hneg
    have hle : f * s ≤ 0 := mul_nonpos_of_nonpos_of_nonneg (not_lt.1 hneg) (by positivity)
    linarith
  have hlarge : 1 / 2 ^ 32 ≤ (a : ℚ) / f := by
    rw [div_le_div_iff₀ (by positivity) hf]
    linarith
  -- one part in `2 ^ 31` is missing to the end of the axis, and that is more than the rounding adds
  have hsmall : (a : ℚ) / f * (1 + 1 / 2 ^ 53) ≤ s := by
    rw [div_mul_eq_mul_div, div_le_iff₀ hf]
    linarith
  obtain ⟨hlower', hupper'⟩ := r.bounds (normal_of_le (le_trans (by norm_num) hlarge))
  exact ⟨by linarith, by linarith⟩

/-- Rounding leads no further than behind the last element of the source. -/
theorem unscaledAt_bounds (hs : 0 < s) (hs' : s ≤ 2 ^ 31) (hd : d ≤ 2 ^ 31) (ha : a < d) :
    0 ≤ unscaledAt r channels d s a ∧ unscaledAt r channels d s a < s + 1 := by
  have hs₀ : (1 : ℚ) ≤ s := by exact_mod_cast hs
  have hs₁ : (s : ℚ) ≤ 2 ^ 31 := by exact_mod_cast hs'
  rw [unscaledAt]
  rcases Nat.eq_zero_or_pos a with rfl | hpos
  · rw [Nat.cast_zero, zero_div, r.round_zero, zero_add]
    split
    · rw [r.round_zero]
      constructor <;> linarith
    · rw [r.round_one_half]
      constructor <;> linarith
  · obtain ⟨hlower, hupper⟩ := position_bounds r hs hs' hd hpos ha
    generalize r.round (a / r.round (d / s)) = q at hlower hupper
    have hbias : (0 : ℚ) ≤ (if channels = 1 then 0 else 1 / 2)
        ∧ (if channels = 1 then 0 else 1 / 2 : ℚ) ≤ 1 / 2 := by
      split <;> norm_num
    obtain ⟨hlower', hupper'⟩ := r.bounds (q := q + if channels = 1 then 0 else 1 / 2)
      (normal_of_le (by linarith [hbias.1]))
    constructor <;> linarith [hbias.1, hbias.2]

theorem sourceAt_le (hs : 0 < s) (hs' : s ≤ 2 ^ 31) (hd : d ≤ 2 ^ 31) (ha : a < d) :
    sourceAt r channels d s a ≤ s := by
  obtain ⟨hlower, hupper⟩ := unscaledAt_bounds r channels hs hs' hd ha
  refine Nat.le_of_lt_succ ((Nat.floor_lt hlower).2 ?_)
  exact_mod_cast hupper

end

/-- The sizes of a source and a destination. -/
structure Sizes (srcWidth srcHeight dstWidth dstHeight channels : Int32)
    (w h dw dh c : Nat) : Prop extends Channels channels c where
  srcWidthEq : srcWidth.toInt = w
  srcHeightEq : srcHeight.toInt = h
  dstWidthEq : dstWidth.toInt = dw
  dstHeightEq : dstHeight.toInt = dh
  srcWidthPos : 0 < w
  srcHeightPos : 0 < h
  dstWidthPos : 0 < dw
  dstHeightPos : 0 < dh

/-- What is taken for channel `k` of an element: a byte of the source, or zero if the source has no
such row or column. -/
def taken (r : Rounding) (srcData : Int → UInt8) (w h dw dh c i j k : Nat) : UInt8 :=
  if sourceAt r c dh h i < h ∧ sourceAt r c dw w j < w then
    srcData (wrap (Layout.offset w c (sourceAt r c dh h i) (sourceAt r c dw w j) k))
  else 0

/-- An image and a destination whose positions are `int`s. -/
structure Sized (srcWidth srcHeight dstWidth dstHeight channels : Int32)
    (w h dw dh c : Nat) : Prop
    extends Sizes srcWidth srcHeight dstWidth dstHeight channels w h dw dh c where
  srcFits : h * w * c < 2 ^ 31
  dstFits : dh * dw * c < 2 ^ 31

variable {srcWidth srcHeight dstWidth dstHeight channels : Int32} {w h dw dh c i j k : Nat}

theorem unscaled_eq (r : Rounding) {channels dst src : Int32} {c d s after : Nat}
    (hc : channels = 1 ↔ c = 1) (hdst : dst.toInt = d) (hsrc : src.toInt = s) (hafter : after < d) :
    unscaled r (.ofNat after) (quotient r dst src) (bias channels) = unscaledAt r c d s after := by
  have hafter' : (Int32.ofNat after).toInt = after :=
    toInt_counter (by rw [hdst]; exact_mod_cast hafter)
  rw [unscaled, quotient, hafter', hdst, hsrc, bias, unscaledAt]
  simp only [Int.cast_natCast, hc]

theorem pre_eq (r : Rounding) {channels dst src : Int32} {c d s after : Nat}
    (hc : channels = 1 ↔ c = 1) (hdst : dst.toInt = d) (hsrc : src.toInt = s) (hs : 0 < s)
    (hafter : after < d) :
    pre r (.ofNat after) (quotient r dst src) (bias channels)
      = .ofNat (sourceAt r c d s after) := by
  have hs' := src.toInt_lt
  have hd' := dst.toInt_lt
  rw [hsrc] at hs'
  rw [hdst] at hd'
  rw [pre, unscaled_eq r hc hdst hsrc hafter, sourceAt, truncate_of_nonneg]
  exact (unscaledAt_bounds r c hs (by omega) (by omega) hafter).1

/-! ## Positions -/

section

variable {a b : IntExpr} {step : Int32} {rows cols row column : Nat}

/-- The position of an element, when there is one channel. -/
theorem position_one (ha : a.Fits) (hrow : a.exact = row) (hb : b.Fits) (hcolumn : b.exact = column)
    (hstep : step.toInt = cols) (hr : row < rows) (hc : column < cols)
    (hlt : rows * cols * 1 < 2 ^ 31) :
    (a * step + b).Fits ∧ (a * step + b).exact = Layout.offset cols 1 row column 0 := by
  have hoffset := Layout.offset_lt hr hc (k := 0) Nat.one_pos
  rw [Layout.offset, Nat.mul_one, Nat.add_zero] at hoffset ⊢
  simp [ha, hb, hrow, hcolumn, hstep, InRange]
  rw [← Int.natCast_mul]
  omega

/-- The position of a channel of an element, when there are three. -/
theorem position_three (ha : a.Fits) (hrow : a.exact = row) (hb : b.Fits)
    (hcolumn : b.exact = column) (hstep : step.toInt = 3 * cols) (hr : row < rows)
    (hc : column < cols) (hk : k < 3) (hlt : rows * cols * 3 < 2 ^ 31) :
    (a * step + b * 3 + (Int32.ofNat k : IntExpr)).Fits
      ∧ (a * step + b * 3 + (Int32.ofNat k : IntExpr)).exact
        = Layout.offset cols 3 row column k := by
  have hoffset := Layout.offset_lt hr hc hk
  have hk' : (Int32.ofNat k).toInt = k := Int32.toInt_ofNat_of_lt (by omega)
  have hprod : (row : Int) * (3 * cols) = (row * cols * 3 : Nat) := by push_cast; ring
  rw [Layout.offset, Nat.add_mul] at hoffset ⊢
  simp only [IntExpr.fits_add, IntExpr.fits_mul, IntExpr.exact_add, IntExpr.exact_mul, ha, hb, hrow,
    hcolumn, hstep, hprod, IntExpr.fits_val, IntExpr.exact_val, IntExpr.fits_ofNat,
    IntExpr.exact_ofNat, hk', show ((OfNat.ofNat 3 : Int32).toInt) = 3 from rfl, InRange, true_and]
  omega

/-- The position of channel `k` of an element, in the words of either loop. -/
def positionInt (channels : Int32) (a b : IntExpr) (step : Int32) (k : Nat) : IntExpr :=
  if channels = 1 then a * step + b else a * step + b * 3 + (Int32.ofNat k : IntExpr)

end

/-- A counter of a loop can be incremented. -/
theorem fits_succ {n : Nat} {bound : Int32} (hn : (n : Int) < bound.toInt) :
    ((Int32.ofNat n : IntExpr) + 1).Fits := by
  have hlt := bound.toInt_lt
  refine ⟨trivial, trivial, ?_⟩
  rw [IntExpr.exact_val, toInt_counter hn, IntExpr.exact_ofNat,
    show ((OfNat.ofNat 1 : Int32).toInt) = 1 from rfl]
  constructor <;> omega

/-- The rows that are set to zero are counted from the end. -/
theorem fits_flipped (hdst : dstHeight.toInt = dh) (hi : i < dh) :
    ((dstHeight : IntExpr) - 1 - (Int32.ofNat i : IntExpr)).Fits
      ∧ ((dstHeight : IntExpr) - 1 - (Int32.ofNat i : IntExpr)).exact = (dh - 1 - i : Nat) := by
  have hlt := dstHeight.toInt_lt
  have hrow : (Int32.ofNat i).toInt = i :=
    toInt_counter (by rw [hdst]; exact_mod_cast hi)
  rw [hdst] at hlt
  simp only [IntExpr.fits_sub, IntExpr.fits_val, IntExpr.fits_ofNat, IntExpr.exact_sub,
    IntExpr.exact_val, IntExpr.exact_ofNat, hdst, hrow, InRange, true_and,
    show ((OfNat.ofNat 1 : Int32).toInt) = 1 from rfl]
  omega

end ImageResize

namespace Channels

open ImageResize

variable {r : Rounding} {srcWidth srcHeight dstWidth dstHeight channels : Int32} {w h c k : Nat}
  (hs : Channels channels c)

include hs

/-- The length of a row, for either image. -/
theorem fits_step {width : Int32} {rows cols : Nat} (hwidth : width.toInt = cols)
    (hpos : 0 < rows * cols) (hlt : rows * cols * c < 2 ^ 31) :
    ((channels : IntExpr) * width).Fits ∧ (channels * width).toInt = c * cols := by
  have hrow : 1 * (cols * c) ≤ rows * (cols * c) :=
    Nat.mul_le_mul_right _ (Nat.pos_of_mul_pos_right hpos)
  have hassoc : rows * (cols * c) = rows * cols * c := by ring
  have hprod : (c : Int) * cols = (cols * c : Nat) := by push_cast; ring
  have hfits : ((channels : IntExpr) * width).Fits := by
    refine ⟨trivial, trivial, ?_⟩
    rw [IntExpr.exact_val, IntExpr.exact_val, hs.channelsEq, hwidth, hprod]
    constructor <;> omega
  have hexact := IntExpr.toInt_eval hfits
  rw [IntExpr.eval_mul, IntExpr.exact_mul, IntExpr.exact_val, IntExpr.exact_val, hs.channelsEq,
    hwidth] at hexact
  exact ⟨hfits, hexact⟩

/-- The position of channel `k`, computed from a row and a column. -/
theorem fits_position {a b : IntExpr} {step : Int32} {rows cols row column : Nat} (ha : a.Fits)
    (hrow : a.exact = row) (hb : b.Fits) (hcolumn : b.exact = column)
    (hstep : step.toInt = c * cols) (hr : row < rows) (hcol : column < cols) (hk : k < c)
    (hlt : rows * cols * c < 2 ^ 31) :
    (positionInt channels a b step k).Fits
      ∧ (positionInt channels a b step k).eval.toInt = Layout.offset cols c row column k := by
  have hexact : (positionInt channels a b step k).Fits
      ∧ (positionInt channels a b step k).exact = Layout.offset cols c row column k := by
    rw [positionInt]
    rcases hs.kinds with rfl | rfl
    · obtain rfl : k = 0 := by omega
      rw [if_pos (hs.channels_one.2 rfl)]
      rw [Nat.cast_one, Int.one_mul] at hstep
      exact position_one ha hrow hb hcolumn hstep hr hcol hlt
    · rw [if_neg fun h ↦ absurd (hs.channels_one.1 h) (by decide)]
      exact position_three ha hrow hb hcolumn hstep hr hcol hk hlt
  exact ⟨hexact.1, (IntExpr.toInt_eval hexact.1).trans hexact.2⟩

/-- Wrapping arithmetic computes the position of an element up to a multiple of `2 ^ 32`. -/
theorem toInt_position {a b width : Int32} {row column cols k : Nat} (ha : a = .ofNat row)
    (hb : b = .ofNat column) (hwidth : width = .ofNat cols) (hk : k < c) :
    (positionInt channels a b (channels * width) k).eval.toInt
      = wrap (Layout.offset cols c row column k) := by
  have hchannels := eq_ofNat hs.channelsEq
  rw [positionInt, wrap, Layout.offset]
  rcases hs.kinds with rfl | rfl
  · obtain rfl : k = 0 := by omega
    rw [if_pos (hs.channels_one.2 rfl), ha, hb, hwidth, hchannels]
    simp only [IntExpr.eval_add, IntExpr.eval_mul, IntExpr.eval_val, ← Int32.ofNat_mul,
      ← Int32.ofNat_add]
    congr 2
    ring
  · rw [if_neg fun h ↦ absurd (hs.channels_one.1 h) (by decide), ha, hb, hwidth, hchannels]
    have hthree : (3 : IntExpr) = (Int32.ofNat 3 : IntExpr) := rfl
    simp only [hthree, IntExpr.eval_add, IntExpr.eval_mul, IntExpr.eval_val, ← Int32.ofNat_mul,
      ← Int32.ofNat_add]
    congr 2
    ring

theorem zeros_eq : zeros dstWidth dstHeight channels
    = (positions dstHeight dstWidth).flatMap fun (i, j) ↦ (List.range c).map fun k ↦
      (positionInt channels ((dstHeight : IntExpr) - 1 - (i : IntExpr)) j (channels * dstWidth)
        k).eval.toInt := by
  rw [zeros]
  rcases hs.kinds with rfl | rfl
  · rw [if_pos (hs.channels_one.2 rfl), List.map_eq_flatMap]
    simp [positionInt, hs.channels_one.2 rfl, List.range_succ]
  · have hone : ¬ channels = 1 := fun h ↦ absurd (hs.channels_one.1 h) (by decide)
    rw [if_neg hone, if_pos (hs.channels_three.2 rfl)]
    simp [positionInt, hone, upTo, Function.comp_def]

theorem samples_eq : samples r srcWidth srcHeight dstWidth dstHeight channels
    = (positions dstHeight dstWidth).flatMap fun (i, j) ↦
      if Inside r srcWidth srcHeight dstWidth dstHeight channels i j then
        (List.range c).map fun k ↦
          ((positionInt channels i j (channels * dstWidth) k).eval.toInt,
            (positionInt channels
              (sampled r srcWidth srcHeight dstWidth dstHeight channels i j).1
              (sampled r srcWidth srcHeight dstWidth dstHeight channels i j).2
              (channels * srcWidth) k).eval.toInt)
      else [] := by
  rw [samples]
  rcases hs.kinds with rfl | rfl
  · have hone : channels = 1 := hs.channels_one.2 rfl
    dsimp only
    rw [if_pos hone]
    refine List.flatMap_congr fun p _ ↦ ?_
    simp [positionInt, hone, List.range_succ, Inside, sampled, bias]
  · have hone : ¬ channels = 1 := fun h ↦ absurd (hs.channels_one.1 h) (by decide)
    dsimp only
    rw [if_neg hone, if_pos (hs.channels_three.2 rfl)]
    refine List.flatMap_congr fun p _ ↦ ?_
    simp [positionInt, hone, upTo, Function.comp_def, Inside, sampled, bias]

/-- Whatever the destination, what is sampled lies in the source. -/
theorem sample_lt (hw : srcWidth.toInt = w) (hh : srcHeight.toInt = h) (hlt : h * w * c < 2 ^ 31)
    {s : Int × Int} (hmem : s ∈ samples r srcWidth srcHeight dstWidth dstHeight channels) :
    ∃ n < h * w * c, s.2 = (n : Nat) := by
  rw [hs.samples_eq, List.mem_flatMap] at hmem
  obtain ⟨⟨i, j⟩, -, hmem⟩ := hmem
  dsimp only at hmem
  split at hmem
  · rename_i hinside
    obtain ⟨k, hk, rfl⟩ := List.mem_map.1 hmem
    have hk := List.mem_range.1 hk
    rw [Inside] at hinside
    revert hinside
    generalize sampled r srcWidth srcHeight dstWidth dstHeight channels i j = p
    obtain ⟨preI, preJ⟩ := p
    intro hinside
    have hzero : (0 : Int32).toInt = 0 := rfl
    simp only [ge_iff_le, Int32.le_iff_toInt_le, Int32.lt_iff_toInt_lt, hzero, hh, hw] at hinside
    obtain ⟨hrow, hrow', hcolumn, hcolumn'⟩ := hinside
    have hr : preI.toInt.toNat < h := by omega
    have hcol : preJ.toInt.toNat < w := by omega
    have hstep := (hs.fits_step hw (Nat.mul_pos (Nat.zero_lt_of_lt hr) (Nat.zero_lt_of_lt hcol))
      hlt).2
    refine ⟨_, Layout.offset_lt hr hcol hk, (hs.fits_position (a := preI) (b := preJ) trivial
      (Int.toNat_of_nonneg hrow).symm trivial (Int.toNat_of_nonneg hcolumn).symm hstep hr hcol hk
      hlt).2⟩
  · cases hmem

/-- Where a sample is stored to, zero has been stored before. -/
theorem mem_zeros_of_mem_samples {s : Int × Int}
    (hmem : s ∈ samples r srcWidth srcHeight dstWidth dstHeight channels) :
    s.1 ∈ zeros dstWidth dstHeight channels := by
  rw [hs.samples_eq, List.mem_flatMap] at hmem
  obtain ⟨⟨i, j⟩, hij, hmem⟩ := hmem
  obtain ⟨y, x, hy, hx, rfl, rfl⟩ := mem_positions_iff.1 hij
  obtain ⟨dh, hdh⟩ : ∃ dh : Nat, dstHeight.toInt = dh :=
    ⟨_, (Int.toNat_of_nonneg (by omega)).symm⟩
  rw [hdh, Int.ofNat_lt] at hy
  dsimp only at hmem
  split at hmem
  · obtain ⟨k, hk, rfl⟩ := List.mem_map.1 hmem
    have hflip := fits_flipped hdh (i := dh - 1 - y) (by omega)
    have hback : dh - 1 - (dh - 1 - y) = y := by omega
    -- the pass over zeros that stores to this row is the one with the opposite number
    have hrow : dstHeight - 1 - Int32.ofNat (dh - 1 - y) = Int32.ofNat y := by
      have hvalue := (IntExpr.toInt_eval hflip.1).trans hflip.2
      rw [hback, ← toInt_counter (n := dstHeight) (by rw [hdh]; exact_mod_cast hy)] at hvalue
      exact Int32.toInt_inj.1 hvalue
    rw [hs.zeros_eq, List.mem_flatMap]
    refine ⟨(.ofNat (dh - 1 - y), .ofNat x), mem_positions (by omega) hx,
      List.mem_map.2 ⟨k, hk, ?_⟩⟩
    simp only [positionInt, ← hrow]
    split <;> rfl
  · cases hmem

end Channels

namespace ImageResize

variable {r : Rounding} {srcWidth srcHeight dstWidth dstHeight channels : Int32}
  {w h dw dh c i j k : Nat}

namespace Sizes

variable (hs : Sizes srcWidth srcHeight dstWidth dstHeight channels w h dw dh c)

include hs

theorem toInt_zero (hi : i < dh) (hk : k < c) :
    (positionInt channels ((dstHeight : IntExpr) - 1 - (Int32.ofNat i : IntExpr)) (Int32.ofNat j)
        (channels * dstWidth) k).eval.toInt
      = wrap (Layout.offset dw c (dh - 1 - i) j k) := by
  have hflip := fits_flipped hs.dstHeightEq hi
  have hrow := eq_ofNat ((IntExpr.toInt_eval hflip.1).trans hflip.2)
  rw [← hs.toInt_position hrow rfl (eq_ofNat hs.dstWidthEq) hk]
  rw [positionInt, positionInt]
  split <;> rfl

theorem lt_int : h < 2 ^ 31 ∧ w < 2 ^ 31 ∧ dh < 2 ^ 31 ∧ dw < 2 ^ 31 := by
  have hh := srcHeight.toInt_lt
  have hw := srcWidth.toInt_lt
  have hdh := dstHeight.toInt_lt
  have hdw := dstWidth.toInt_lt
  rw [hs.srcHeightEq] at hh
  rw [hs.srcWidthEq] at hw
  rw [hs.dstHeightEq] at hdh
  rw [hs.dstWidthEq] at hdw
  omega

/-- The row and the column of the source are `int`s. -/
theorem toInt_source (r : Rounding) (hi : i < dh) (hj : j < dw) :
    (Int32.ofNat (sourceAt r c dh h i)).toInt = sourceAt r c dh h i
      ∧ (Int32.ofNat (sourceAt r c dw w j)).toInt = sourceAt r c dw w j := by
  obtain ⟨hh, hw, hdh, hdw⟩ := hs.lt_int
  have hi' := sourceAt_le r c hs.srcHeightPos (by omega) (by omega) hi
  have hj' := sourceAt_le r c hs.srcWidthPos (by omega) (by omega) hj
  exact ⟨Int32.toInt_ofNat_of_lt (by omega), Int32.toInt_ofNat_of_lt (by omega)⟩

theorem sampled_eq (r : Rounding) (hi : i < dh) (hj : j < dw) :
    sampled r srcWidth srcHeight dstWidth dstHeight channels (.ofNat i) (.ofNat j)
      = (.ofNat (sourceAt r c dh h i), .ofNat (sourceAt r c dw w j)) := by
  rw [sampled, pre_eq r hs.channels_one hs.dstHeightEq hs.srcHeightEq hs.srcHeightPos hi,
    pre_eq r hs.channels_one hs.dstWidthEq hs.srcWidthEq hs.srcWidthPos hj]

theorem inside_iff (hi : i < dh) (hj : j < dw) :
    Inside r srcWidth srcHeight dstWidth dstHeight channels (.ofNat i) (.ofNat j)
      ↔ sourceAt r c dh h i < h ∧ sourceAt r c dw w j < w := by
  obtain ⟨hi', hj'⟩ := hs.toInt_source r hi hj
  have hzero : (0 : Int32).toInt = 0 := rfl
  rw [Inside, hs.sampled_eq r hi hj]
  simp only [ge_iff_le, Int32.le_iff_toInt_le, Int32.lt_iff_toInt_lt, hi', hj', hzero,
    hs.srcHeightEq, hs.srcWidthEq]
  omega

/-- The values that the loops over the destination count through. -/
theorem mem_positions_iff {p : Int32 × Int32} : p ∈ positions dstHeight dstWidth
    ↔ ∃ i < dh, ∃ j < dw, p = (.ofNat i, .ofNat j) :=
  mem_positions_iff_of_toInt hs.dstHeightEq hs.dstWidthEq

theorem srcPos : 0 < h * w := Nat.mul_pos hs.srcHeightPos hs.srcWidthPos

theorem dstPos : 0 < dh * dw := Nat.mul_pos hs.dstHeightPos hs.dstWidthPos

/-- The numbers that are converted to `int` are in its range. -/
theorem fits_casts (r : Rounding) :
    ∀ q ∈ casts r srcWidth srcHeight dstWidth dstHeight channels, 0 ≤ q ∧ q < 2 ^ 31 := by
  obtain ⟨hh, hw, hdh, hdw⟩ := hs.lt_int
  have haxis : ∀ {d s after : Nat}, 0 < s → s < 2 ^ 31 → d < 2 ^ 31 → after < d →
      0 ≤ unscaledAt r c d s after ∧ unscaledAt r c d s after < 2 ^ 31 := by
    intro d s after hpos hlt hlt' hafter
    obtain ⟨hlower, hupper⟩ := unscaledAt_bounds r c hpos (by omega) (by omega) hafter
    refine ⟨hlower, lt_of_lt_of_le hupper ?_⟩
    exact_mod_cast hlt
  intro q hq
  obtain ⟨ij, hij, hq⟩ := List.mem_flatMap.1 hq
  obtain ⟨y, hy, x, hx, rfl⟩ := hs.mem_positions_iff.1 hij
  simp only [elementCasts, List.mem_cons, List.not_mem_nil, or_false] at hq
  rcases hq with rfl | rfl
  · rw [unscaled_eq r hs.channels_one hs.dstHeightEq hs.srcHeightEq hy]
    exact haxis hs.srcHeightPos hh hdh hy
  · rw [unscaled_eq r hs.channels_one hs.dstWidthEq hs.srcWidthEq hx]
    exact haxis hs.srcWidthPos hw hdw hx

/-! ## Positions -/

/-- Zero is stored to the positions of all elements. -/
theorem mem_zeros_iff {p : Int} : p ∈ zeros dstWidth dstHeight channels
    ↔ ∃ i < dh, ∃ j < dw, ∃ k < c, p = wrap (Layout.offset dw c i j k) := by
  rw [hs.zeros_eq, List.mem_flatMap]
  constructor
  · rintro ⟨ij, hij, hp⟩
    obtain ⟨y, hy, x, hx, rfl⟩ := hs.mem_positions_iff.1 hij
    obtain ⟨k, hk, rfl⟩ := List.mem_map.1 hp
    rw [List.mem_range] at hk
    exact ⟨dh - 1 - y, by omega, x, hx, k, hk, hs.toInt_zero hy hk⟩
  · rintro ⟨i, hi, j, hj, k, hk, rfl⟩
    have hback : dh - 1 - (dh - 1 - i) = i := by omega
    refine ⟨_, hs.mem_positions_iff.2 ⟨dh - 1 - i, by omega, j, hj, rfl⟩,
      List.mem_map.2 ⟨k, List.mem_range.2 hk, ?_⟩⟩
    rw [hs.toInt_zero (by omega) hk, hback]

/-- The elements that are copied, and from where. -/
theorem mem_samples_iff {s : Int × Int} :
    s ∈ samples r srcWidth srcHeight dstWidth dstHeight channels
      ↔ ∃ i < dh, ∃ j < dw, ∃ k < c, sourceAt r c dh h i < h ∧ sourceAt r c dw w j < w
        ∧ s = (wrap (Layout.offset dw c i j k),
          wrap (Layout.offset w c (sourceAt r c dh h i) (sourceAt r c dw w j) k)) := by
  have hstore : ∀ {y x k : Nat}, y < dh → x < dw → k < c →
      ((positionInt channels (Int32.ofNat y) (Int32.ofNat x) (channels * dstWidth) k).eval.toInt,
        (positionInt channels
          (sampled r srcWidth srcHeight dstWidth dstHeight channels (.ofNat y) (.ofNat x)).1
          (sampled r srcWidth srcHeight dstWidth dstHeight channels (.ofNat y) (.ofNat x)).2
          (channels * srcWidth) k).eval.toInt)
      = (wrap (Layout.offset dw c y x k),
        wrap (Layout.offset w c (sourceAt r c dh h y) (sourceAt r c dw w x) k)) := by
    intro y x k hy hx hk
    rw [hs.sampled_eq r hy hx, hs.toInt_position rfl rfl (eq_ofNat hs.dstWidthEq) hk,
      hs.toInt_position rfl rfl (eq_ofNat hs.srcWidthEq) hk]
  rw [hs.samples_eq, List.mem_flatMap]
  constructor
  · rintro ⟨ij, hij, hmem⟩
    obtain ⟨y, hy, x, hx, rfl⟩ := hs.mem_positions_iff.1 hij
    dsimp only at hmem
    split at hmem
    · rename_i hinside
      obtain ⟨hrow, hcolumn⟩ := (hs.inside_iff hy hx).1 hinside
      obtain ⟨k, hk, rfl⟩ := List.mem_map.1 hmem
      rw [List.mem_range] at hk
      exact ⟨y, hy, x, hx, k, hk, hrow, hcolumn, hstore hy hx hk⟩
    · cases hmem
  · rintro ⟨y, hy, x, hx, k, hk, hrow, hcolumn, rfl⟩
    refine ⟨_, hs.mem_positions_iff.2 ⟨y, hy, x, hx, rfl⟩, ?_⟩
    dsimp only
    rw [if_pos ((hs.inside_iff hy hx).2 ⟨hrow, hcolumn⟩)]
    exact List.mem_map.2 ⟨k, List.mem_range.2 hk, hstore hy hx hk⟩

/-- What is stored to are positions of elements. -/
theorem mem_imageResize {srcData : Int → UInt8} {s : Int × UInt8}
    (hmem : s ∈ imageResize r srcData srcWidth srcHeight dstWidth dstHeight channels) :
    ∃ i < dh, ∃ j < dw, ∃ k < c, s.1 = wrap (Layout.offset dw c i j k) := by
  rw [imageResize, List.mem_append, List.mem_map, List.mem_map] at hmem
  rcases hmem with ⟨p, hp, rfl⟩ | ⟨⟨p, src⟩, hp, rfl⟩
  · exact hs.mem_zeros_iff.1 hp
  · obtain ⟨i, hi, j, hj, k, hk, -, -, heq⟩ := hs.mem_samples_iff.1 hp
    exact ⟨i, hi, j, hj, k, hk, congrArg Prod.fst heq⟩

/-! ## The destination -/

omit hs in
/-- In a destination that is not too large, the elements are where they should be. -/
theorem wrap_offset (hfits : dh * dw * c ≤ 2 ^ 31) (hi : i < dh) (hj : j < dw) (hk : k < c) :
    wrap (Layout.offset dw c i j k) = (Layout.offset dw c i j k : Nat) :=
  wrap_of_lt (Nat.lt_of_lt_of_le (Layout.offset_lt hi hj hk) hfits)

/-- **What the resizer leaves at an element**, if the positions of all elements are `int`s. -/
theorem resized (hfits : dh * dw * c ≤ 2 ^ 31) (srcData m : Int → UInt8) (base : Int) (hi : i < dh)
    (hj : j < dw) (hk : k < c) :
    storeAll m base (imageResize r srcData srcWidth srcHeight dstWidth dstHeight channels)
        (base + (Layout.offset dw c i j k : Nat))
      = taken r srcData w h dw dh c i j k := by
  -- elements with the same position are the same
  have hsame : ∀ {i' j' k' : Nat}, i' < dh → j' < dw → k' < c →
      base + wrap (Layout.offset dw c i' j' k') = base + (Layout.offset dw c i j k : Nat) →
      i' = i ∧ j' = j ∧ k' = k := by
    intro i' j' k' hi' hj' hk' heq
    rw [wrap_offset hfits hi' hj' hk'] at heq
    exact Layout.offset_inj hj' hk' hj hk (Int.ofNat_inj.1 (Int.add_left_cancel heq))
  rw [imageResize, storeAll, List.foldl_append, List.foldl_map, List.foldl_map, taken,
    ← wrap_offset hfits hi hj hk]
  split
  · rename_i hinside
    refine Layout.foldl_update_eq _ _ _ _
      ⟨_, hs.mem_samples_iff.2 ⟨i, hi, j, hj, k, hk, hinside.1, hinside.2, rfl⟩, rfl⟩ ?_
    intro s hmem heq
    obtain ⟨i', hi', j', hj', k', hk', -, -, rfl⟩ := hs.mem_samples_iff.1 hmem
    rw [wrap_offset hfits hi hj hk] at heq
    obtain ⟨rfl, rfl, rfl⟩ := hsame hi' hj' hk' heq
    rfl
  · rename_i hinside
    rw [Layout.foldl_update_of_forall_ne]
    · refine Layout.foldl_update_eq _ _ _ _
        ⟨_, hs.mem_zeros_iff.2 ⟨i, hi, j, hj, k, hk, rfl⟩, rfl⟩ fun _ _ _ ↦ rfl
    · intro s hmem heq
      obtain ⟨i', hi', j', hj', k', hk', hrow, hcolumn, rfl⟩ := hs.mem_samples_iff.1 hmem
      rw [wrap_offset hfits hi hj hk] at heq
      obtain ⟨rfl, rfl, rfl⟩ := hsame hi' hj' hk' heq
      exact hinside ⟨hrow, hcolumn⟩

end Sizes

/-! ## Images and destinations whose positions are `int`s -/

namespace Sized

variable (hs : Sized srcWidth srcHeight dstWidth dstHeight channels w h dw dh c)

include hs

theorem toInt_row (hi : i < dh) : (Int32.ofNat i).toInt = i :=
  toInt_counter (by rw [hs.dstHeightEq]; exact_mod_cast hi)

theorem toInt_column (hj : j < dw) : (Int32.ofNat j).toInt = j :=
  toInt_counter (by rw [hs.dstWidthEq]; exact_mod_cast hj)

theorem fits_zero (hi : i < dh) (hj : j < dw) (hk : k < c) :
    (positionInt channels ((dstHeight : IntExpr) - 1 - (Int32.ofNat i : IntExpr)) (Int32.ofNat j)
      (channels * dstWidth) k).Fits :=
  (hs.fits_position (b := Int32.ofNat j) (fits_flipped hs.dstHeightEq hi).1
    (fits_flipped hs.dstHeightEq hi).2 trivial (hs.toInt_column hj)
    (hs.fits_step hs.dstWidthEq hs.dstPos hs.dstFits).2 (by omega) hj hk hs.dstFits).1

theorem fits_element (hi : i < dh) (hj : j < dw) (hk : k < c) :
    (positionInt channels (Int32.ofNat i) (Int32.ofNat j) (channels * dstWidth) k).Fits :=
  (hs.fits_position (a := Int32.ofNat i) (b := Int32.ofNat j) trivial (hs.toInt_row hi) trivial
    (hs.toInt_column hj) (hs.fits_step hs.dstWidthEq hs.dstPos hs.dstFits).2 hi hj hk
    hs.dstFits).1

theorem fits_sampled (hi : i < dh) (hj : j < dw) (hk : k < c) (hrow : sourceAt r c dh h i < h)
    (hcolumn : sourceAt r c dw w j < w) :
    (positionInt channels (Int32.ofNat (sourceAt r c dh h i)) (Int32.ofNat (sourceAt r c dw w j))
      (channels * srcWidth) k).Fits :=
  (hs.fits_position (a := Int32.ofNat (sourceAt r c dh h i))
    (b := Int32.ofNat (sourceAt r c dw w j)) trivial (hs.toInt_source r hi hj).1 trivial
    (hs.toInt_source r hi hj).2 (hs.fits_step hs.srcWidthEq hs.srcPos hs.srcFits).2 hrow hcolumn hk
    hs.srcFits).1

/-- No position wraps around. -/
theorem mem_samples_iff {s : Int × Int} :
    s ∈ samples r srcWidth srcHeight dstWidth dstHeight channels
      ↔ ∃ i < dh, ∃ j < dw, ∃ k < c, sourceAt r c dh h i < h ∧ sourceAt r c dw w j < w
        ∧ s = (((Layout.offset dw c i j k : Nat) : Int),
          ((Layout.offset w c (sourceAt r c dh h i) (sourceAt r c dw w j) k : Nat) : Int)) := by
  rw [hs.toSizes.mem_samples_iff]
  refine exists_congr fun i ↦ and_congr_right fun hi ↦ exists_congr fun j ↦
    and_congr_right fun hj ↦ exists_congr fun k ↦ and_congr_right fun hk ↦
    and_congr_right fun hrow ↦ and_congr_right fun hcolumn ↦ ?_
  rw [wrap_of_lt (Nat.lt_trans (Layout.offset_lt hi hj hk) hs.dstFits),
    wrap_of_lt (Nat.lt_trans (Layout.offset_lt hrow hcolumn hk) hs.srcFits)]

/-- The expressions for one channel of an element. -/
theorem fits_positionInt (hi : i < dh) (hj : j < dw) (hk : k < c) :
    ∀ e ∈ [positionInt channels ((dstHeight : IntExpr) - 1 - (Int32.ofNat i : IntExpr))
          (Int32.ofNat j) (channels * dstWidth) k,
        positionInt channels (Int32.ofNat i) (Int32.ofNat j) (channels * dstWidth) k]
      ++ if Inside r srcWidth srcHeight dstWidth dstHeight channels (.ofNat i) (.ofNat j) then
          [positionInt channels (Int32.ofNat (sourceAt r c dh h i))
            (Int32.ofNat (sourceAt r c dw w j)) (channels * srcWidth) k]
        else [], e.Fits := by
  intro e he
  rw [List.mem_append] at he
  rcases he with he | he
  · simp only [List.mem_cons, List.not_mem_nil, or_false] at he
    rcases he with rfl | rfl
    · exact hs.fits_zero hi hj hk
    · exact hs.fits_element hi hj hk
  · split at he
    · rename_i hinside
      rw [hs.inside_iff hi hj] at hinside
      rw [List.mem_singleton.1 he]
      exact hs.fits_sampled hi hj hk hinside.1 hinside.2
    · cases he

theorem fits_elementInts (hi : i < dh) (hj : j < dw) :
    ∀ e ∈ elementInts r srcWidth srcHeight dstWidth dstHeight channels (.ofNat i) (.ofNat j),
      e.Fits := by
  have hrow : (i : Int) < dstHeight.toInt := by
    rw [hs.dstHeightEq]
    omega
  have hcolumn : (j : Int) < dstWidth.toInt := by
    rw [hs.dstWidthEq]
    omega
  intro e he
  rw [elementInts, hs.sampled_eq r hi hj] at he
  dsimp only at he
  rw [List.mem_append] at he
  rcases he with he | he
  · simp only [List.mem_cons, List.not_mem_nil, or_false] at he
    rcases he with rfl | rfl
    · exact fits_succ hrow
    · exact fits_succ hcolumn
  rcases hs.kinds with rfl | rfl
  · have hone := hs.channels_one.2 rfl
    have hpositions := hs.fits_positionInt (r := r) hi hj Nat.one_pos
    simp only [positionInt, if_pos hone] at hpositions
    rw [if_pos hone] at he
    exact hpositions e he
  · have hone : ¬ channels = 1 := fun h ↦ absurd (hs.channels_one.1 h) (by decide)
    rw [if_neg hone, if_pos (hs.channels_three.2 rfl)] at he
    obtain ⟨k', hk', he⟩ := List.mem_flatMap.1 he
    obtain ⟨k, hk, rfl⟩ := mem_upTo_iff.1 hk'
    have hpositions := hs.fits_positionInt (r := r) hi hj (Int.ofNat_lt.1 hk)
    simp only [positionInt, if_neg hone] at hpositions
    rw [List.cons_append, List.mem_cons] at he
    rcases he with rfl | he
    · exact fits_succ hk
    · exact hpositions e he

/-- No `int` overflows in the resizer. -/
theorem fits_ints :
    ∀ e ∈ ints r srcWidth srcHeight dstWidth dstHeight channels, e.Fits := by
  intro e he
  rw [ints, List.mem_append] at he
  rcases he with he | he
  · simp only [List.mem_cons, List.not_mem_nil, or_false] at he
    rcases he with rfl | rfl
    · exact (hs.fits_step hs.srcWidthEq hs.srcPos hs.srcFits).1
    · exact (hs.fits_step hs.dstWidthEq hs.dstPos hs.dstFits).1
  · obtain ⟨ij, hij, he⟩ := List.mem_flatMap.1 he
    obtain ⟨y, hy, x, hx, rfl⟩ := hs.mem_positions_iff.1 hij
    exact hs.fits_elementInts hy hx e he

end Sized

/-! ## The result -/

/-- **What the resizer leaves at an element of the destination.** -/
theorem Sized.resized (hs : Sized srcWidth srcHeight dstWidth dstHeight channels w h dw dh c)
    (srcData m : Int → UInt8) (base : Int) (hi : i < dh) (hj : j < dw) (hk : k < c) :
    storeAll m base (imageResize r srcData srcWidth srcHeight dstWidth dstHeight channels)
        (base + (Layout.offset dw c i j k : Nat))
      = if sourceAt r c dh h i < h ∧ sourceAt r c dw w j < w then
          srcData (Layout.offset w c (sourceAt r c dh h i) (sourceAt r c dw w j) k : Nat)
        else 0 := by
  rw [hs.toSizes.resized (Nat.le_of_lt hs.dstFits) srcData m base hi hj hk, taken]
  split
  · rename_i hinside
    rw [wrap_of_lt (Nat.lt_trans (Layout.offset_lt hinside.1 hinside.2 hk) hs.srcFits)]
  · rfl

/-- It changes no memory but the elements of the destination. -/
theorem Sized.resized_frame (hs : Sized srcWidth srcHeight dstWidth dstHeight channels w h dw dh c)
    (srcData m : Int → UInt8) (base : Int) {a : Int}
    (hne : ∀ p : Nat, p < dh * dw * c → a ≠ base + p) :
    storeAll m base (imageResize r srcData srcWidth srcHeight dstWidth dstHeight channels) a
      = m a := by
  rw [storeAll, Layout.foldl_update_of_forall_ne]
  intro s hmem heq
  obtain ⟨i, hi, j, hj, k, hk, hplace⟩ := hs.toSizes.mem_imageResize hmem
  rw [hplace, Sizes.wrap_offset (Nat.le_of_lt hs.dstFits) hi hj hk] at heq
  exact hne _ (Layout.offset_lt hi hj hk) heq.symm

end ImageResize

end EthosU
