import EthosU.InferenceRunner.ResizeBounds
import Mathlib.Tactic.Linarith

/-!
# What the resizer picks

The pixel that `IMAGE_Resize` takes for one of the destination should be the one whose row and
column are in the same proportion.  It rounds down for grey images, and to the nearest number for
coloured ones, which for the last rows and columns may be the one behind the last.

* `ImageResize.sampleAt_bounds` is all that is needed of either way of rounding.
* `Sizes.noHoles_iff`: when every pixel of the destination is a copy of one next to its exact
  place, so that an image without zeros is resized to one without zeros.
* `ImageResize.sampleAlike_iff`: when a coloured image with three equal channels is resized as the
  grey one is.
-/

set_option autoImplicit false

namespace EthosU

open Narrow

namespace ImageResize

/-! ## Rounding -/

section

variable (c s : Nat) {d a b : Nat}

/-- Whether it rounds down or to the nearest, the result is less than one off. -/
theorem sampleAt_bounds (hd : 0 < d) :
    2 * (sampleAt c d s a * d) ≤ 2 * (a * s) + d ∧ a * s < (sampleAt c d s a + 1) * d := by
  rw [sampleAt]
  split
  · have hle := Nat.div_mul_le_self (a * s) d
    have hlt := Nat.lt_div_mul_add (a := a * s) hd
    rw [Nat.add_mul]
    omega
  · have hle := Nat.div_mul_le_self (2 * a * s + d) (2 * d)
    have hlt := Nat.lt_div_mul_add (a := 2 * a * s + d) (b := 2 * d) (by omega)
    generalize (2 * a * s + d) / (2 * d) = n at hle hlt
    have hn : n * (2 * d) = 2 * (n * d) := by ring
    have has : 2 * a * s = 2 * (a * s) := by ring
    rw [Nat.add_mul]
    omega

/-- A row or column that is at most one off is not before the one that is sampled by more. -/
theorem sampleAt_le_succ {n : Nat} (hd : 0 < d) (hle : a * s ≤ (n + 1) * d) :
    sampleAt c d s a ≤ n + 1 := by
  have hbound := (sampleAt_bounds c s hd (a := a)).1
  have hlt : sampleAt c d s a * d < (n + 2) * d := by
    rw [Nat.add_mul] at hle ⊢
    omega
  exact Nat.le_of_lt_succ (Nat.lt_of_mul_lt_mul_right hlt)

/-- The row or column for the nearest number is the one for rounding down, or the next one. -/
theorem sampleAt_one_le (hd : 0 < d) :
    sampleAt 1 d s a ≤ sampleAt 3 d s a ∧ sampleAt 3 d s a ≤ sampleAt 1 d s a + 1 := by
  refine ⟨?_, sampleAt_le_succ 3 s hd (Nat.le_of_lt (sampleAt_bounds 1 s hd).2)⟩
  rw [sampleAt, sampleAt, if_pos rfl, if_neg (by decide), Nat.le_div_iff_mul_le (by omega)]
  have hle := Nat.div_mul_le_self (a * s) d
  have hcomm : a * s / d * (2 * d) = 2 * (a * s / d * d) := by ring
  have hcomm' : 2 * a * s = 2 * (a * s) := by ring
  omega

theorem sampleAt_mono (hab : a ≤ b) : sampleAt c d s a ≤ sampleAt c d s b := by
  have hmul : a * s ≤ b * s := Nat.mul_le_mul_right _ hab
  rw [sampleAt, sampleAt]
  split
  · exact Nat.div_le_div_right hmul
  · refine Nat.div_le_div_right ?_
    rw [Nat.mul_assoc, Nat.mul_assoc]
    omega

/-- Being at most one off, in whole numbers. -/
theorem abs_sub_div_le_one_iff {n x : Nat} (hd : 0 < d) :
    |(n : ℚ) - x / d| ≤ 1 ↔ x ≤ (n + 1) * d ∧ n * d ≤ x + d := by
  have hd' : (0 : ℚ) < d := by exact_mod_cast hd
  rw [abs_le, neg_le_sub_iff_le_add, sub_le_iff_le_add, div_le_iff₀ hd', ← sub_le_iff_le_add',
    le_div_iff₀ hd', sub_mul, one_mul, sub_le_iff_le_add]
  exact and_congr (by exact_mod_cast Iff.rfl) (by exact_mod_cast Iff.rfl)

/-- What is sampled is next to the exact place. -/
theorem abs_sampleAt_le (hd : 0 < d) :
    |(sampleAt c d s a : ℚ) - (a * s : Nat) / d| ≤ 1 := by
  have hbounds := sampleAt_bounds c s hd (a := a)
  rw [abs_sub_div_le_one_iff hd]
  omega

/-- Everything that is sampled is there exactly if a coloured image is not enlarged to twice its
size or more. -/
theorem forall_sampleAt_lt_iff (hc : c = 1 ∨ c = 3) (hs : 0 < s) (hd : 0 < d) :
    (∀ a < d, sampleAt c d s a < s) ↔ c = 1 ∨ d < 2 * s := by
  rcases hc with rfl | rfl
  · refine iff_of_true (fun a ha ↦ ?_) (.inl rfl)
    rw [sampleAt, if_pos rfl]
    exact Nat.div_lt_of_lt_mul (Nat.mul_lt_mul_of_pos_right ha hs)
  · have hsample : ∀ a, sampleAt 3 d s a < s ↔ 2 * a * s + d < s * (2 * d) := fun a ↦ by
      rw [sampleAt, if_neg (by decide)]
      exact Nat.div_lt_iff_lt_mul (by omega)
    simp only [hsample, Nat.reduceEqDiff, false_or]
    have hlast : 2 * (d - 1) * s + 2 * s = s * (2 * d) := by
      obtain ⟨n, rfl⟩ := Nat.exists_eq_add_of_lt hd
      simp only [Nat.zero_add, Nat.add_sub_cancel]
      ring
    refine ⟨?_, ?_⟩
    · intro hall
      have hlt := hall (d - 1) (by omega)
      omega
    · intro hlarge a ha
      have hle : 2 * a * s ≤ 2 * (d - 1) * s := by gcongr; omega
      omega

/-- Rounding down and to the nearest number make no difference exactly if nothing is rounded. -/
theorem forall_sampleAt_eq_iff (hd : 0 < d) :
    (∀ a < d, sampleAt 3 d s a = sampleAt 1 d s a) ↔ d ∣ s := by
  refine ⟨?_, ?_⟩
  · intro hall
    by_contra hrem
    have hpos : 0 < s % d := Nat.pos_of_ne_zero fun hzero ↦ hrem (Nat.dvd_of_mod_eq_zero hzero)
    have hlt := Nat.mod_lt s hd
    have hsplit := Nat.div_add_mod s d
    generalize s / d = q, s % d = ρ at hpos hlt hsplit
    -- at `a` the remainder is at least half for the first time
    obtain ⟨a, hhalf, hnext⟩ : ∃ a, d ≤ 2 * (a * ρ) ∧ 2 * (a * ρ) < d + 2 * ρ := by
      have hle := Nat.div_mul_le_self (d + 2 * ρ - 1) (2 * ρ)
      have hlt := Nat.lt_div_mul_add (a := d + 2 * ρ - 1) (b := 2 * ρ) (by omega)
      refine ⟨(d + 2 * ρ - 1) / (2 * ρ), ?_⟩
      generalize (d + 2 * ρ - 1) / (2 * ρ) = a at hle hlt
      rw [show a * (2 * ρ) = 2 * (a * ρ) by ring] at hle hlt
      omega
    have hbelow : a * ρ < d := by
      rcases Nat.lt_or_ge d (2 * ρ) with hsmall | hlarge
      · have hone : a < 2 := Nat.lt_of_mul_lt_mul_right (a := ρ) (by omega)
        have hle : a * ρ ≤ 1 * ρ := Nat.mul_le_mul_right _ (by omega)
        omega
      · omega
    have had : a < d := Nat.lt_of_le_of_lt (Nat.le_mul_of_pos_right a hpos) hbelow
    have hexact : a * s = a * q * d + a * ρ := by
      rw [← hsplit]
      ring
    have hdown : sampleAt 1 d s a = a * q := by
      rw [sampleAt, if_pos rfl]
      exact Nat.div_eq_of_lt_le (by omega) (by rw [Nat.add_mul]; omega)
    have hup : a * q + 1 ≤ sampleAt 3 d s a := by
      rw [sampleAt, if_neg (by decide), Nat.le_div_iff_mul_le (by omega)]
      have hcomm : (a * q + 1) * (2 * d) = 2 * (a * q * d) + 2 * d := by ring
      have hcomm' : 2 * a * s = 2 * (a * s) := by ring
      omega
    rw [hall a had, hdown] at hup
    omega
  · rintro ⟨q, rfl⟩ a -
    have hone : sampleAt 1 d (d * q) a = a * q := by
      rw [sampleAt, if_pos rfl, Nat.mul_left_comm, Nat.mul_div_cancel_left _ hd]
    rw [hone, sampleAt, if_neg (by decide)]
    refine Nat.div_eq_of_lt_le ?_ ?_
    · have hcomm : a * q * (2 * d) = 2 * a * (d * q) := by ring
      omega
    · have hcomm : (a * q + 1) * (2 * d) = 2 * a * (d * q) + 2 * d := by ring
      omega

end

/-- Three does not divide `2 ^ 32`. -/
theorem exists_eq_mul_three {n x y : Nat} (h : 2 ^ 32 * n + y * 3 = x * 3) :
    ∃ m, n = m * 3 ∧ 2 ^ 32 * m + y = x := by
  have hdvd : 3 ∣ n := by
    refine Nat.Coprime.dvd_of_dvd_mul_left (m := 2 ^ 32) (by decide) ?_
    exact (Nat.dvd_add_left (Nat.dvd_mul_left 3 y)).1 (h ▸ Nat.dvd_mul_left 3 x)
  obtain ⟨m, rfl⟩ := hdvd
  refine ⟨m, Nat.mul_comm _ _, Nat.mul_right_cancel (m := 3) (by omega) ?_⟩
  rw [← h]
  ring

/-- A position that has wrapped around is that of a distant element, if of any. -/
theorem offset_lt_of_wrap {c w s t r q k : Nat} (hc : c = 1 ∨ c = 3) (hw : w < 2 ^ 31)
    (hrow : s ≤ r + 1) (hcolumn : t ≤ q + 1)
    (heq : wrap (Layout.offset w c s t k) = (Layout.offset w c r q k : Nat)) :
    Layout.offset w c s t k < 2 ^ 31 := by
  have hmod : Layout.offset w c s t k % 2 ^ 32 = Layout.offset w c r q k := by
    rw [← Int.ofNat_inj, ← heq, wrap_eq, if_pos (wrap_nonneg_iff.1 (by omega))]
  have hlt : Layout.offset w c s t k % 2 ^ 32 < 2 ^ 31 := wrap_nonneg_iff.1 (by omega)
  have hle : s * w ≤ (r + 1) * w := Nat.mul_le_mul_right _ hrow
  rw [Nat.succ_mul] at hle
  clear heq
  by_contra hge
  have hsplit := Nat.div_add_mod (Layout.offset w c s t k) (2 ^ 32)
  rw [hmod] at hsplit hlt
  have hwraps : 0 < Layout.offset w c s t k / 2 ^ 32 := Nat.pos_of_ne_zero fun hzero ↦ by
    rw [hzero] at hsplit
    omega
  generalize Layout.offset w c s t k / 2 ^ 32 = n at hsplit hwraps
  rw [Layout.offset, Layout.offset] at hsplit
  generalize s * w = a, r * w = b at hle hsplit
  have hdistance : a + t ≤ b + q + (w + 1) := by omega
  rcases hc with rfl | rfl
  · omega
  · rw [← Nat.add_assoc, Nat.add_right_cancel_iff] at hsplit
    obtain ⟨m, rfl, heq⟩ := exists_eq_mul_three hsplit
    clear hsplit
    omega

/-- An image that is zero but for one byte. -/
def onlyAt (a p : Int) : UInt8 := if p = a then 1 else 0

@[simp] theorem onlyAt_ne_zero_iff {a p : Int} : onlyAt a p ≠ 0 ↔ p = a := by
  simp [onlyAt]

/-- What is taken if the quotients are exact. -/
theorem taken_exact (f : Int → UInt8) (w h dw dh c i j k : Nat) : taken .exact f w h dw dh c i j k
    = if sampleAt c dh h i < h ∧ sampleAt c dw w j < w then
        f (wrap (Layout.offset w c (sampleAt c dh h i) (sampleAt c dw w j) k))
      else 0 := by
  simp only [taken, sourceAt_exact]

theorem inside_of_taken {f : Int → UInt8} {w h dw dh c i j k : Nat}
    (hne : taken .exact f w h dw dh c i j k ≠ 0) : sampleAt c dh h i < h ∧ sampleAt c dw w j < w
      ∧ f (wrap (Layout.offset w c (sampleAt c dh h i) (sampleAt c dw w j) k)) ≠ 0 := by
  rw [taken_exact] at hne
  split at hne
  · rename_i hinside
    exact ⟨hinside.1, hinside.2, hne⟩
  · exact absurd rfl hne

namespace Sizes

variable {srcWidth srcHeight dstWidth dstHeight channels : Int32} {w h dw dh c i j k : Nat}

/-! ## Holes -/

/-- Element `i`, `j` of the destination is `r`, `q` of the source, in every channel and whatever the
two images hold. -/
def IsCopy (srcWidth srcHeight dstWidth dstHeight channels : Int32) (w dw c i j r q : Nat) : Prop :=
  ∀ srcData m base, ∀ k < c,
    storeAll m base (imageResize .exact srcData srcWidth srcHeight dstWidth dstHeight channels)
        (base + (Layout.offset dw c i j k : Nat))
      = srcData (Layout.offset w c r q k : Nat)

/-- Every element of the destination is one of the source that is next to its exact place. -/
structure NoHoles (srcWidth srcHeight dstWidth dstHeight channels : Int32)
    (w h dw dh c : Nat) : Prop where
  copies : ∀ i < dh, ∀ j < dw, ∃ r < h, ∃ q < w,
    |(r : ℚ) - (i * h : Nat) / dh| ≤ 1 ∧ |(q : ℚ) - (j * w : Nat) / dw| ≤ 1
      ∧ IsCopy srcWidth srcHeight dstWidth dstHeight channels w dw c i j r q
  nonzero : ∀ srcData : Int → UInt8, (∀ p < h * w * c, srcData (p : Nat) ≠ 0) →
    ∀ m base, ∀ p < dh * dw * c,
      storeAll m base (imageResize .exact srcData srcWidth srcHeight dstWidth dstHeight channels)
        (base + (p : Nat)) ≠ 0

variable (hs : Sizes srcWidth srcHeight dstWidth dstHeight channels w h dw dh c)

include hs

/-- If an element is a copy, something is sampled for it, whose position leads to the same byte. -/
theorem taken_of_isCopy (hfits : dh * dw * c ≤ 2 ^ 31) (hi : i < dh) (hj : j < dw) (hk : k < c)
    {r q : Nat}
    (hcopy : IsCopy srcWidth srcHeight dstWidth dstHeight channels w dw c i j r q) :
    sampleAt c dh h i < h ∧ sampleAt c dw w j < w
      ∧ wrap (Layout.offset w c (sampleAt c dh h i) (sampleAt c dw w j) k)
        = (Layout.offset w c r q k : Nat) := by
  have htaken : ∀ srcData : Int → UInt8,
      taken .exact srcData w h dw dh c i j k = srcData (Layout.offset w c r q k : Nat) := by
    intro srcData
    rw [← hs.resized hfits srcData (fun _ ↦ 0) 0 hi hj hk]
    exact hcopy srcData (fun _ ↦ 0) 0 k hk
  have hbyte := inside_of_taken (f := onlyAt (Layout.offset w c r q k : Nat)) (by
    rw [htaken, onlyAt_ne_zero_iff])
  exact ⟨hbyte.1, hbyte.2.1, onlyAt_ne_zero_iff.1 hbyte.2.2⟩

/-- Everything that is sampled is in the source. -/
theorem forall_inside_iff : (∀ i < dh, ∀ j < dw, sampleAt c dh h i < h ∧ sampleAt c dw w j < w)
    ↔ c = 1 ∨ dh < 2 * h ∧ dw < 2 * w := by
  rw [or_and_left, ← forall_sampleAt_lt_iff c h hs.kinds hs.srcHeightPos hs.dstHeightPos,
    ← forall_sampleAt_lt_iff c w hs.kinds hs.srcWidthPos hs.dstWidthPos]
  refine ⟨?_, ?_⟩
  · intro hall
    exact ⟨fun i hi ↦ (hall i hi 0 hs.dstWidthPos).1, fun j hj ↦ (hall 0 hs.dstHeightPos j hj).2⟩
  · rintro ⟨hrows, hcolumns⟩ i hi j hj
    exact ⟨hrows i hi, hcolumns j hj⟩

/-- The last element of a destination that is too large is not a copy. -/
theorem fits_of_isCopy {r q : Nat} (hcopy : IsCopy srcWidth srcHeight dstWidth dstHeight channels w
    dw c (dh - 1) (dw - 1) r q) : dh * dw * c ≤ 2 ^ 31 := by
  by_contra hlarge
  have hone := hcopy (fun _ ↦ 1) (fun _ ↦ 0) 0 (c - 1) (Nat.sub_one_lt_of_lt hs.one_le)
  rw [Layout.offset_last hs.dstHeightPos hs.dstWidthPos hs.one_le, hs.unreached (by omega)] at hone
  exact absurd hone (by decide)

/-- If the last element that is sampled has a position that is an `int`, all have. -/
theorem isCopy_sampled (hfits : dh * dw * c ≤ 2 ^ 31)
    (hlast : Layout.offset w c (sampleAt c dh h (dh - 1)) (sampleAt c dw w (dw - 1)) (c - 1)
      < 2 ^ 31) (hi : i < dh) (hj : j < dw)
    (hinside : sampleAt c dh h i < h ∧ sampleAt c dw w j < w) :
    IsCopy srcWidth srcHeight dstWidth dstHeight channels w dw c i j (sampleAt c dh h i)
      (sampleAt c dw w j) := by
  intro srcData m base k hk
  have hrow : sampleAt c dh h i ≤ sampleAt c dh h (dh - 1) := sampleAt_mono c h (by omega)
  have hcolumn : sampleAt c dw w j ≤ sampleAt c dw w (dw - 1) := sampleAt_mono c w (by omega)
  have hle := Layout.offset_le_offset w c hrow hcolumn (Nat.le_sub_one_of_lt hk)
  rw [hs.resized hfits srcData m base hi hj hk, taken_exact, if_pos hinside, wrap_of_lt (by omega)]

/-- **When every element of the destination is one of the source next to its exact place**: when its
positions are `int`s, coloured images are not enlarged to twice their size or more, and the last
element that is sampled has a position that is an `int`. -/
theorem noHoles_iff : NoHoles srcWidth srcHeight dstWidth dstHeight channels w h dw dh c
    ↔ dh * dw * c ≤ 2 ^ 31 ∧ (c = 1 ∨ dh < 2 * h ∧ dw < 2 * w)
      ∧ (sampleAt c dh h (dh - 1) * w + sampleAt c dw w (dw - 1) + 1) * c ≤ 2 ^ 31 := by
  have hdh := hs.dstHeightPos
  have hdw := hs.dstWidthPos
  have hcpos := hs.one_le
  have hlast : (sampleAt c dh h (dh - 1) * w + sampleAt c dw w (dw - 1) + 1) * c
      = Layout.offset w c (sampleAt c dh h (dh - 1)) (sampleAt c dw w (dw - 1)) (c - 1) + 1 := by
    rw [Layout.offset, Nat.succ_mul]
    omega
  rw [hlast, Nat.succ_le_iff, ← hs.forall_inside_iff]
  constructor
  · rintro ⟨hcopies, -⟩
    obtain ⟨r, -, q, -, hrow, hcolumn, hcopy⟩ := hcopies (dh - 1) (by omega) (dw - 1) (by omega)
    have hfits := hs.fits_of_isCopy hcopy
    refine ⟨hfits, fun i hi j hj ↦ ?_, ?_⟩
    · obtain ⟨r, -, q, -, -, -, hcopy⟩ := hcopies i hi j hj
      have htaken := hs.taken_of_isCopy hfits hi hj hcpos hcopy
      exact ⟨htaken.1, htaken.2.1⟩
    · have hw := srcWidth.toInt_lt
      rw [hs.srcWidthEq] at hw
      refine offset_lt_of_wrap hs.kinds (by omega) ?_ ?_
        (hs.taken_of_isCopy hfits (by omega) (by omega) (by omega) hcopy).2.2
      · exact sampleAt_le_succ c h hdh ((abs_sub_div_le_one_iff hdh).1 hrow).1
      · exact sampleAt_le_succ c w hdw ((abs_sub_div_le_one_iff hdw).1 hcolumn).1
  · rintro ⟨hfits, hinside, hsource⟩
    refine ⟨fun i hi j hj ↦ ?_, fun srcData hsrc m base p hp ↦ ?_⟩
    · obtain ⟨hrow, hcolumn⟩ := hinside i hi j hj
      refine ⟨_, hrow, _, hcolumn, ?_, ?_, hs.isCopy_sampled hfits hsource hi hj ⟨hrow, hcolumn⟩⟩
      · exact abs_sampleAt_le c h hdh
      · exact abs_sampleAt_le c w hdw
    · obtain ⟨i, hi, j, hj, k, hk, rfl⟩ := Layout.exists_offset hp
      obtain ⟨hrow, hcolumn⟩ := hinside i hi j hj
      rw [hs.isCopy_sampled hfits hsource hi hj ⟨hrow, hcolumn⟩ srcData m base k hk]
      exact hsrc _ (Layout.offset_lt hrow hcolumn hk)

end Sizes

theorem enlarged_noHoles_iff : Sizes.NoHoles 2 2 3 3 3 2 2 3 3 3
    ↔ 3 * 3 * 3 ≤ 2 ^ 31 ∧ (3 = 1 ∨ 3 < 2 * 2 ∧ 3 < 2 * 2)
      ∧ (sampleAt 3 3 2 (3 - 1) * 2 + sampleAt 3 3 2 (3 - 1) + 1) * 3 ≤ 2 ^ 31 :=
  sizes_enlarged.noHoles_iff

theorem sizes_doubled : Sizes 1 1 2 2 3 1 1 2 2 3 :=
  ⟨⟨rfl, .inr rfl⟩, rfl, rfl, rfl, rfl, by decide, by decide, by decide, by decide⟩

/-- At twice the size, nothing is sampled for the last row. -/
theorem doubled_not_noHoles : ¬ Sizes.NoHoles 1 1 2 2 3 1 1 2 2 3 := by
  rintro ⟨hcopies, -⟩
  obtain ⟨r, -, q, -, -, -, hcopy⟩ := hcopies 1 (by decide) 0 (by decide)
  have hrow := (sizes_doubled.taken_of_isCopy (k := 0) (by decide) (by decide) (by decide)
    (by decide) hcopy).1
  exact absurd hrow (by decide)

/-! ## Grey and coloured -/

/-- The three channels of an image are those of a grey one. -/
def IsGrey (g rgb : Int → UInt8) (n : Nat) : Prop :=
  ∀ p < n, ∀ k < 3, rgb ((p * 3 + k : Nat) : Int) = g p

/-- A coloured image is resized to one whose three channels are what the grey one is resized to. -/
def SampleAlike (srcWidth srcHeight dstWidth dstHeight : Int32) (dw dh : Nat)
    (g rgb : Int → UInt8) : Prop :=
  ∀ m m' base base', ∀ i < dh, ∀ j < dw, ∀ k < 3,
    storeAll m base (imageResize .exact rgb srcWidth srcHeight dstWidth dstHeight 3)
        (base + (Layout.offset dw 3 i j k : Nat))
      = storeAll m' base' (imageResize .exact g srcWidth srcHeight dstWidth dstHeight 1)
        (base' + (Layout.offset dw 1 i j 0 : Nat))

/-- The coloured image of a grey one, without anything around it. -/
def coloured (g : Int → UInt8) (n : Nat) (p : Int) : UInt8 :=
  if 0 ≤ p ∧ p < (n * 3 : Nat) then g (p / 3) else 0

theorem isGrey_coloured (g : Int → UInt8) (n : Nat) : IsGrey g (coloured g n) n := by
  intro p hp k hk
  have hdiv : ((p * 3 + k : Nat) : Int) / 3 = p := by omega
  rw [coloured, if_pos (by omega), hdiv]

theorem of_coloured {g : Int → UInt8} {n : Nat} {p : Int} (hne : coloured g n p ≠ 0) :
    0 ≤ p ∧ g (p / 3) ≠ 0 := by
  rw [coloured] at hne
  split at hne
  · rename_i hwithin
    exact ⟨hwithin.1, hne⟩
  · exact absurd rfl hne

/-- Three positions in a row that lead to the same element of the grey image. -/
theorem eq_of_wrap_div {p q : Nat} (hle : p ≤ q) (hnear : q ≤ p + 2 ^ 31)
    (hall : ∀ k < 3, 0 ≤ wrap (q * 3 + k) ∧ wrap (q * 3 + k) / 3 = wrap p) :
    q = p ∧ 3 * (p % 2 ^ 32 + 1) ≤ 2 ^ 31 := by
  have hmod : ∀ k < 3, (q * 3 + k) % 2 ^ 32 < 2 ^ 31 ∧ (q * 3 + k) % 2 ^ 32 / 3 = p % 2 ^ 32 := by
    intro k hk
    obtain ⟨hnonneg, hdiv⟩ := hall k hk
    have hlt := wrap_nonneg_iff.1 hnonneg
    have hlt' : p % 2 ^ 32 < 2 ^ 31 := wrap_nonneg_iff.1 (by omega)
    rw [wrap_eq, if_pos hlt, wrap_eq, if_pos hlt'] at hdiv
    exact ⟨hlt, by exact_mod_cast hdiv⟩
  -- without wrapping around in between, they are the three of the element
  have hthree : q * 3 % 2 ^ 32 = p % 2 ^ 32 * 3 ∧ q * 3 % 2 ^ 32 + 2 < 2 ^ 31 := by
    have hfirst := hmod 0 (by omega)
    have hlast := hmod 2 (by omega)
    generalize q * 3 = n, p % 2 ^ 32 = y at hfirst hlast ⊢
    omega
  have hsplit := Nat.div_add_mod (q * 3) (2 ^ 32)
  rw [hthree.1] at hsplit
  obtain ⟨m, -, hm⟩ := exists_eq_mul_three hsplit
  have hsplit' := Nat.div_add_mod p (2 ^ 32)
  rw [hthree.1] at hthree
  clear hsplit hmod hall
  omega

/-- Such positions are those of the element. -/
theorem wrap_mul_three {p k : Nat} (hk : k < 3) (hfits : 3 * (p % 2 ^ 32 + 1) ≤ 2 ^ 31) :
    wrap p = (p % 2 ^ 32 : Nat) ∧ wrap (p * 3 + k) = (p % 2 ^ 32 * 3 + k : Nat) := by
  have hmod : (p * 3 + k) % 2 ^ 32 = p % 2 ^ 32 * 3 + k := by
    rw [Nat.add_mod, Nat.mul_mod, Nat.mod_eq_of_lt (a := 3) (by omega),
      Nat.mod_eq_of_lt (a := p % 2 ^ 32 * 3) (by omega), Nat.mod_eq_of_lt (a := k) (by omega),
      Nat.mod_eq_of_lt (by omega)]
  rw [wrap_eq, if_pos (by omega), wrap_eq, hmod, if_pos (by omega)]
  exact ⟨rfl, rfl⟩

section

variable {srcWidth srcHeight dstWidth dstHeight : Int32} {w h dw dh i j : Nat}

theorem Sizes.one (hs : Sizes srcWidth srcHeight dstWidth dstHeight 3 w h dw dh 3) :
    Sizes srcWidth srcHeight dstWidth dstHeight 1 w h dw dh 1 :=
  { hs with channelsEq := rfl, kinds := .inl rfl }

/-- The two paths sample alike exactly if they take the same for every element, and its positions
are `int`s. -/
theorem sampleAlike_iff_taken (hs : Sizes srcWidth srcHeight dstWidth dstHeight 3 w h dw dh 3)
    (g rgb : Int → UInt8) :
    SampleAlike srcWidth srcHeight dstWidth dstHeight dw dh g rgb ↔ dh * dw * 3 ≤ 2 ^ 31
      ∧ ∀ i < dh, ∀ j < dw, ∀ k < 3,
        taken .exact rgb w h dw dh 3 i j k = taken .exact g w h dw dh 1 i j 0 := by
  have hdh := hs.dstHeightPos
  have hdw := hs.dstWidthPos
  refine ⟨?_, ?_⟩
  · intro halike
    have hfits : dh * dw * 3 ≤ 2 ^ 31 := by
      by_contra hlarge
      -- the last byte stays as it was
      have hlast : ∀ b : UInt8, b = storeAll (fun _ ↦ 0) 0
          (imageResize .exact g srcWidth srcHeight dstWidth dstHeight 1)
          (0 + (Layout.offset dw 1 (dh - 1) (dw - 1) 0 : Nat)) := by
        intro b
        rw [← halike (fun _ ↦ b) _ 0 _ (dh - 1) (by omega) (dw - 1) (by omega) 2 (by omega),
          Layout.offset_last (c := 3) hdh hdw (by decide), hs.unreached (by omega)]
      exact absurd ((hlast 0).trans (hlast 1).symm) (by decide)
    refine ⟨hfits, fun i hi j hj k hk ↦ ?_⟩
    rw [← hs.resized hfits rgb (fun _ ↦ 0) 0 hi hj hk,
      ← hs.one.resized (by omega) g (fun _ ↦ 0) 0 hi hj Nat.one_pos]
    exact halike _ _ _ _ i hi j hj k hk
  · rintro ⟨hfits, htaken⟩ m m' base base' i hi j hj k hk
    rw [hs.resized hfits rgb m base hi hj hk,
      hs.one.resized (by omega) g m' base' hi hj Nat.one_pos, htaken i hi j hj k hk]

/-- If the same is taken .exact from every image, the two paths sample the same element. -/
theorem sampleAt_eq_of_taken (hs : Sizes srcWidth srcHeight dstWidth dstHeight 3 w h dw dh 3)
    (hi : i < dh) (hj : j < dw)
    (htaken : ∀ g, ∀ k < 3, taken .exact (coloured g (h * w)) w h dw dh 3 i j k
      = taken .exact g w h dw dh 1 i j 0) :
    sampleAt 3 dh h i = sampleAt 1 dh h i ∧ sampleAt 3 dw w j = sampleAt 1 dw w j
      ∧ 3 * ((sampleAt 1 dh h i * w + sampleAt 1 dw w j) % 2 ^ 32 + 1) ≤ 2 ^ 31 := by
  have hinside := hs.one.forall_inside_iff.2 (.inl rfl) i hi j hj
  have hrow' := sampleAt_one_le h hs.dstHeightPos (a := i)
  have hcolumn' := sampleAt_one_le w hs.dstWidthPos (a := j)
  have hw := srcWidth.toInt_lt
  rw [hs.srcWidthEq] at hw
  have hone : ∀ k < 3, sampleAt 3 dh h i < h ∧ sampleAt 3 dw w j < w
      ∧ 0 ≤ wrap (Layout.offset w 3 (sampleAt 3 dh h i) (sampleAt 3 dw w j) k)
      ∧ wrap (Layout.offset w 3 (sampleAt 3 dh h i) (sampleAt 3 dw w j) k) / 3
        = wrap (Layout.offset w 1 (sampleAt 1 dh h i) (sampleAt 1 dw w j) 0) := by
    intro k hk
    -- an image that is zero but for the element that is taken when rounding down
    have hbyte := htaken
      (onlyAt (wrap (Layout.offset w 1 (sampleAt 1 dh h i) (sampleAt 1 dw w j) 0))) k hk
    rw [taken_exact (onlyAt _), if_pos hinside] at hbyte
    obtain ⟨hrow₃, hcolumn₃, hne⟩ := inside_of_taken (by rw [hbyte, onlyAt_ne_zero_iff])
    obtain ⟨hnonneg, hat⟩ := of_coloured hne
    exact ⟨hrow₃, hcolumn₃, hnonneg, onlyAt_ne_zero_iff.1 hat⟩
  have hle := Nat.mul_le_mul_right w hrow'.1
  have hle' := Nat.mul_le_mul_right w hrow'.2
  rw [Nat.succ_mul] at hle'
  obtain ⟨hsame, hfits⟩ := eq_of_wrap_div
    (p := sampleAt 1 dh h i * w + sampleAt 1 dw w j)
    (q := sampleAt 3 dh h i * w + sampleAt 3 dw w j) (by omega) (by omega) fun k hk ↦ by
      obtain ⟨-, -, hnonneg, hdiv⟩ := hone k hk
      simp only [Layout.offset, Nat.mul_one, Nat.add_zero] at hnonneg hdiv
      exact ⟨hnonneg, hdiv⟩
  have heq : Layout.offset w 1 (sampleAt 3 dh h i) (sampleAt 3 dw w j) 0
      = Layout.offset w 1 (sampleAt 1 dh h i) (sampleAt 1 dw w j) 0 := by
    rw [Layout.offset, Layout.offset, hsame]
  obtain ⟨hrows, hcolumns, -⟩ := Layout.offset_inj (hone 0 (by decide)).2.1 Nat.one_pos hinside.2
    Nat.one_pos heq
  exact ⟨hrows, hcolumns, hfits⟩

/-- If the two paths sample the same element, they take the same from an image. -/
theorem taken_eq (hrow : sampleAt 3 dh h i = sampleAt 1 dh h i)
    (hcolumn : sampleAt 3 dw w j = sampleAt 1 dw w j)
    (hfits : 3 * ((sampleAt 1 dh h i * w + sampleAt 1 dw w j) % 2 ^ 32 + 1) ≤ 2 ^ 31)
    {g rgb : Int → UInt8} (hgrey : IsGrey g rgb (h * w)) {k : Nat} (hk : k < 3) :
    taken .exact rgb w h dw dh 3 i j k = taken .exact g w h dw dh 1 i j 0 := by
  rw [taken_exact, taken_exact, hrow, hcolumn]
  split
  · rename_i hinside
    obtain ⟨hone, hthree⟩ := wrap_mul_three hk hfits
    have hlt := Layout.offset_lt hinside.1 hinside.2 Nat.one_pos
    have hle := Nat.mod_le (sampleAt 1 dh h i * w + sampleAt 1 dw w j) (2 ^ 32)
    simp only [Layout.offset, Nat.mul_one, Nat.add_zero] at hlt ⊢
    rw [hone, hthree, hgrey _ (by omega) k hk]
  · rfl

/-- **When the grey and the coloured path sample alike**: for all images of some sizes, when the
sizes of the destination divide those of the source and the positions are `int`s, and for one image,
when they take the same for every element. -/
theorem sampleAlike_iff (hs : Sizes srcWidth srcHeight dstWidth dstHeight 3 w h dw dh 3) :
    ((∀ g rgb, IsGrey g rgb (h * w) →
        SampleAlike srcWidth srcHeight dstWidth dstHeight dw dh g rgb)
      ↔ dh ∣ h ∧ dw ∣ w ∧ dh * dw * 3 ≤ 2 ^ 31 ∧ ∀ i < dh, ∀ j < dw,
        3 * ((i * (h / dh) * w + j * (w / dw)) % 2 ^ 32 + 1) ≤ 2 ^ 31)
    ∧ ∀ g rgb, IsGrey g rgb (h * w) →
      (SampleAlike srcWidth srcHeight dstWidth dstHeight dw dh g rgb
        ↔ dh * dw * 3 ≤ 2 ^ 31 ∧ ∀ i < dh, ∀ j < dw, ∀ k < 3,
          taken .exact rgb w h dw dh 3 i j k = taken .exact g w h dw dh 1 i j 0) := by
  have hdh := hs.dstHeightPos
  have hdw := hs.dstWidthPos
  refine ⟨?_, fun g rgb _ ↦ sampleAlike_iff_taken hs g rgb⟩
  have hexact : ∀ {d s a : Nat}, 0 < d → d ∣ s → sampleAt 1 d s a = a * (s / d) := by
    intro d s a hd hdvd
    rw [sampleAt, if_pos rfl, Nat.mul_div_assoc _ hdvd]
  refine ⟨?_, ?_⟩
  · intro halike
    have htaken := fun g ↦ (sampleAlike_iff_taken hs g _).1 (halike g _ (isGrey_coloured g _))
    have hsame : ∀ i < dh, ∀ j < dw, _ := fun i hi j hj ↦
      sampleAt_eq_of_taken hs hi hj fun g ↦ (htaken g).2 i hi j hj
    have hrows := (forall_sampleAt_eq_iff h hdh).1 fun i hi ↦ (hsame i hi 0 hdw).1
    have hcolumns := (forall_sampleAt_eq_iff w hdw).1 fun j hj ↦ (hsame 0 hdh j hj).2.1
    refine ⟨hrows, hcolumns, (htaken fun _ ↦ 0).1, fun i hi j hj ↦ ?_⟩
    rw [← hexact hdh hrows, ← hexact hdw hcolumns]
    exact (hsame i hi j hj).2.2
  · rintro ⟨hrows, hcolumns, hfits, hpositions⟩ g rgb hgrey
    refine (sampleAlike_iff_taken hs g rgb).2 ⟨hfits, fun i hi j hj k hk ↦ ?_⟩
    refine taken_eq ((forall_sampleAt_eq_iff h hdh).2 hrows i hi)
      ((forall_sampleAt_eq_iff w hdw).2 hcolumns j hj) ?_ hgrey hk
    rw [hexact hdh hrows, hexact hdw hcolumns]
    exact hpositions i hi j hj

end

/-- A black image whose second pixel is not. -/
def spot (p : Int) : UInt8 := if p = 1 then 1 else 0

theorem enlarged_sampleAlike_iff :
    ((∀ g rgb, IsGrey g rgb (2 * 2) → SampleAlike 2 2 3 3 3 3 g rgb)
      ↔ 3 ∣ 2 ∧ 3 ∣ 2 ∧ 3 * 3 * 3 ≤ 2 ^ 31 ∧ ∀ i < 3, ∀ j < 3,
        3 * ((i * (2 / 3) * 2 + j * (2 / 3)) % 2 ^ 32 + 1) ≤ 2 ^ 31)
    ∧ (SampleAlike 2 2 3 3 3 3 spot (coloured spot (2 * 2))
      ↔ 3 * 3 * 3 ≤ 2 ^ 31 ∧ ∀ i < 3, ∀ j < 3, ∀ k < 3,
        taken .exact (coloured spot (2 * 2)) 2 2 3 3 3 i j k = taken .exact spot 2 2 3 3 1 i j 0) :=
  ⟨(sampleAlike_iff sizes_enlarged).1,
    (sampleAlike_iff sizes_enlarged).2 spot _ (isGrey_coloured spot (2 * 2))⟩

/-- Two thirds are rounded up in one path and down in the other. -/
theorem enlarged_not_sampleAlike : IsGrey spot (coloured spot (2 * 2)) (2 * 2)
    ∧ ¬ SampleAlike 2 2 3 3 3 3 spot (coloured spot (2 * 2)) := by
  refine ⟨isGrey_coloured spot _, fun halike ↦ ?_⟩
  have htaken := ((sampleAlike_iff_taken sizes_enlarged _ _).1 halike).2 0 (by decide) 1 (by decide)
    0 (by decide)
  rw [taken_exact, taken_exact] at htaken
  exact absurd htaken (by decide)

end ImageResize

end EthosU
