import EthosU.InferenceRunner.ImageDecode
import EthosU.Lib.IntExpr
import EthosU.Lib.Layout
import Mathlib.Algebra.Order.Ring.Nat

/-!
# The arithmetic of the image decoder

`IMAGE_Decode` computes sizes and positions in `int` arithmetic.  This file writes down every
expression it evaluates as an `IntExpr`, and says what the positions are when nothing overflows.

* `BmpHeader.ints` are the expressions.
* `BmpHeader.Sized` is the header of an image of one or three channels, from the bottom up, that the
  decode buffer has room for.  Then no expression overflows (`Sized.fits_ints`).
* `mem_copies_iff` says which byte of the file goes where.
-/

set_option autoImplicit false

namespace EthosU

open IntExpr (InRange)

theorem mem_upTo_iff {n i : Int32} :
    i ∈ upTo n ↔ ∃ k : Nat, (k : Int) < n.toInt ∧ i = .ofNat k := by
  refine ⟨?_, ?_⟩
  · intro h
    obtain ⟨k, hk, rfl⟩ := List.mem_map.1 h
    have hlt := List.mem_range.1 hk
    exact ⟨k, by omega, rfl⟩
  · rintro ⟨k, hk, rfl⟩
    exact mem_upTo hk

theorem mem_positions_iff {height width i j : Int32} : (i, j) ∈ positions height width
    ↔ ∃ y x : Nat, (y : Int) < height.toInt ∧ (x : Int) < width.toInt ∧ i = .ofNat y
      ∧ j = .ofNat x := by
  refine ⟨?_, ?_⟩
  · intro h
    obtain ⟨i', hi, hj⟩ := List.mem_flatMap.1 h
    obtain ⟨j', hj', heq⟩ := List.mem_map.1 hj
    cases heq
    obtain ⟨y, hy, rfl⟩ := mem_upTo_iff.1 hi
    obtain ⟨x, hx, rfl⟩ := mem_upTo_iff.1 hj'
    exact ⟨y, x, hy, hx, rfl, rfl⟩
  · rintro ⟨y, x, hy, hx, rfl, rfl⟩
    exact mem_positions hy hx

/-- The same for bounds that are known. -/
theorem mem_positions_iff_of_toInt {height width : Int32} {rows cols : Nat}
    (hheight : height.toInt = rows) (hwidth : width.toInt = cols) {p : Int32 × Int32} :
    p ∈ positions height width ↔ ∃ y < rows, ∃ x < cols, p = (.ofNat y, .ofNat x) := by
  obtain ⟨i, j⟩ := p
  rw [mem_positions_iff, hheight, hwidth]
  constructor
  · rintro ⟨y, x, hy, hx, rfl, rfl⟩
    exact ⟨y, Int.ofNat_lt.1 hy, x, Int.ofNat_lt.1 hx, rfl⟩
  · rintro ⟨y, hy, x, hx, heq⟩
    cases heq
    exact ⟨y, x, Int.ofNat_lt.2 hy, Int.ofNat_lt.2 hx, rfl, rfl⟩

/-- A loop counter is the number it counts. -/
theorem toInt_counter {n : Int32} {k : Nat} (h : (k : Int) < n.toInt) :
    (Int32.ofNat k).toInt = k := by
  have hlt := n.toInt_lt
  exact Int32.toInt_ofNat_of_lt (by omega)

/-- The length of a row of `width` pixels in a file, padded to a multiple of four. -/
def rowBytes (width channels : Nat) : Nat := (8 * channels * width + 31) / 32 * 4

theorem le_rowBytes (width channels : Nat) : width * channels ≤ rowBytes width channels := by
  rw [rowBytes, Nat.mul_assoc, Nat.mul_comm width]
  omega

theorem rowBytes_le (width channels : Nat) : rowBytes width channels ≤ width * channels + 3 := by
  rw [rowBytes, Nat.mul_assoc, Nat.mul_comm width]
  omega

/-- A number of channels that the decoder knows. -/
structure Channels (channels : Int32) (c : Nat) : Prop where
  channelsEq : channels.toInt = c
  kinds : c = 1 ∨ c = 3

namespace Channels

variable {channels : Int32} {c : Nat} (hs : Channels channels c)

include hs

theorem channels_one : channels = 1 ↔ c = 1 := by
  have hone : (1 : Int32).toInt = 1 := rfl
  rw [← Int32.toInt_inj, hs.channelsEq, hone]
  omega

theorem channels_three : channels = 3 ↔ c = 3 := by
  have hthree : (3 : Int32).toInt = 3 := rfl
  rw [← Int32.toInt_inj, hs.channelsEq, hthree]
  omega

theorem channels_le : c ≤ 3 := by
  have hkinds := hs.kinds
  omega

theorem one_le : 1 ≤ c := by
  have hkinds := hs.kinds
  omega

end Channels

/-! ## The decoder -/

namespace BmpHeader

section

variable (h : BmpHeader) (i j : Int32)

def sizeInt : IntExpr := (h.width : IntExpr) * h.height * h.channels

def rowSizeInt : IntExpr := (8 * (h.channels : IntExpr) * h.width + 31) / 32 * 4

def srcPosInt : IntExpr :=
  if !h.topDown then (((h.height : IntExpr) - 1 - i) * h.rowSize) + (j : IntExpr) * h.channels
  else (i : IntExpr) * h.rowSize + (j : IntExpr) * h.channels

def dstPosInt : IntExpr := ((i : IntExpr) * h.width + j) * h.channels

@[simp] theorem eval_sizeInt : h.sizeInt.eval = h.width * h.height * h.channels := rfl
@[simp] theorem eval_rowSizeInt : h.rowSizeInt.eval = h.rowSize := rfl
@[simp] theorem eval_dstPosInt : (h.dstPosInt i j).eval = h.dstPos i j := rfl

@[simp] theorem eval_srcPosInt : (h.srcPosInt i j).eval = h.srcPos i j := by
  rw [srcPosInt, srcPos]
  split <;> rfl

/-- The expressions for one pixel, with those that count the loops. -/
def pixelInts : List IntExpr :=
  [h.srcPosInt i j, h.dstPosInt i j, (i : IntExpr) + 1, (j : IntExpr) + 1]
    ++ if h.channels = 3 then
        [h.srcPosInt i j + 2, h.srcPosInt i j + 1, h.dstPosInt i j + 1, h.dstPosInt i j + 2]
      else []

/-- The expressions of `IMAGE_Decode`. -/
def ints : List IntExpr :=
  [(h.bpp : IntExpr) / 8, h.rowSizeInt, h.sizeInt]
    ++ (positions h.height h.width).flatMap fun (i, j) ↦ h.pixelInts i j

end

end BmpHeader

namespace Channels

variable {h : BmpHeader} {width channels : Nat} (hs : Channels h.channels channels)
  (hwidth : h.width.toInt = width) (hle : width * channels ≤ 1920 * 1080 * 3)

include hs hwidth hle

/-- The length of a row, if the decode buffer has room for one. -/
theorem fits_rowSizeInt : h.rowSizeInt.Fits := by
  have hchannels := hs.channels_le
  have hprod : 8 * (channels : Int) * width = (8 * (width * channels) : Nat) := by
    push_cast
    ring
  simp [BmpHeader.rowSizeInt, InRange, hs.channelsEq, hwidth, hprod]
  rw [Int.tdiv_eq_ediv_of_nonneg (by omega)]
  omega

theorem toInt_rowSize : h.rowSize.toInt = rowBytes width channels := by
  have hprod : 8 * (channels : Int) * width = (8 * channels * width : Nat) := by push_cast; rfl
  rw [← BmpHeader.eval_rowSizeInt, IntExpr.toInt_eval (hs.fits_rowSizeInt hwidth hle),
    BmpHeader.rowSizeInt]
  simp [hs.channelsEq, hwidth]
  rw [hprod, Int.tdiv_eq_ediv_of_nonneg (by omega), rowBytes]
  omega

end Channels

namespace BmpHeader

/-- An image of one or three channels that the decode buffer has room for. -/
structure Sized (h : BmpHeader) (width height channels : Nat) : Prop
    extends Channels h.channels channels where
  widthEq : h.width.toInt = width
  heightEq : h.height.toInt = height
  fits : width * height * channels ≤ 1920 * 1080 * 3

variable {h : BmpHeader} {width height channels x y : Nat}

namespace Sized

/-- Every element has a place in the decode buffer. -/
theorem offset_lt (hs : h.Sized width height channels) {k : Nat} (hy : y < height) (hx : x < width)
    (hk : k < channels) : Layout.offset width channels y x k < 1920 * 1080 * 3 := by
  have hlt := Layout.offset_lt hy hx hk
  have hsize : height * width * channels = width * height * channels := by ring
  have hfits := hs.fits
  omega

/-- All rows of the file together. -/
theorem rows_le (hs : h.Sized width height channels) (hx : x < width) :
    height * rowBytes width channels ≤ 4 * (1920 * 1080 * 3) := by
  have hfits := hs.fits
  have hrow : height * rowBytes width channels ≤ height * (width * channels + 3) :=
    Nat.mul_le_mul_left _ (rowBytes_le _ _)
  have hone : height * 1 ≤ height * (width * channels) :=
    Nat.mul_le_mul_left _ (Nat.mul_pos (Nat.zero_lt_of_lt hx) hs.one_le)
  have hsize : height * (width * channels) = width * height * channels := by ring
  rw [Nat.mul_add] at hrow
  omega

theorem row_lt (channels : Nat) (hy : y < height) (hx : x < width) :
    (height - 1 - y) * rowBytes width channels + x * channels + channels
      ≤ height * rowBytes width channels := by
  have hrows : (height - 1 - y + 1) * rowBytes width channels
      ≤ height * rowBytes width channels := Nat.mul_le_mul_right _ (by omega)
  have hcols : (x + 1) * channels ≤ width * channels := Nat.mul_le_mul_right _ hx
  have hle := le_rowBytes width channels
  rw [Nat.succ_mul] at hrows hcols
  omega

theorem height_le (hs : h.Sized width height channels) (hx : x < width) :
    height ≤ 1920 * 1080 * 3 := by
  have hrow : height * 1 ≤ height * (width * channels) :=
    Nat.mul_le_mul_left _ (Nat.mul_pos (Nat.zero_lt_of_lt hx) hs.one_le)
  have hsize : height * (width * channels) = width * height * channels := by ring
  have hfits := hs.fits
  omega

theorem row_le (hs : h.Sized width height channels) (hy : y < height) :
    width * channels ≤ 1920 * 1080 * 3 :=
  Nat.le_trans (Nat.mul_le_mul_right _ (Nat.le_mul_of_pos_right _ (Nat.zero_lt_of_lt hy))) hs.fits

theorem topDown (hs : h.Sized width height channels) : h.topDown = false := by
  have hheight := hs.heightEq
  rw [BmpHeader.topDown, decide_eq_false_iff_not, Int32.lt_iff_toInt_lt, hheight]
  exact not_lt_of_ge (Int.natCast_nonneg _)

theorem fits_rowSizeInt (hs : h.Sized width height channels) (hy : y < height) :
    h.rowSizeInt.Fits :=
  hs.toChannels.fits_rowSizeInt hs.widthEq (hs.row_le hy)

theorem toInt_rowSize (hs : h.Sized width height channels) (hy : y < height) :
    h.rowSize.toInt = rowBytes width channels :=
  hs.toChannels.toInt_rowSize hs.widthEq (hs.row_le hy)

theorem toInt_row (hs : h.Sized width height channels) (hy : y < height) :
    (Int32.ofNat y).toInt = y :=
  toInt_counter (by rw [hs.heightEq]; exact_mod_cast hy)

theorem toInt_column (hs : h.Sized width height channels) (hx : x < width) :
    (Int32.ofNat x).toInt = x :=
  toInt_counter (by rw [hs.widthEq]; exact_mod_cast hx)

theorem exact_srcPosInt (hs : h.Sized width height channels) (hy : y < height) (hx : x < width) :
    (h.srcPosInt (.ofNat y) (.ofNat x)).exact
      = ((height - 1 - y) * rowBytes width channels + x * channels : Nat) := by
  have hcount : (height : Int) - 1 - y = (height - 1 - y : Nat) := by omega
  rw [srcPosInt, hs.topDown]
  simp only [Bool.not_false, if_true, IntExpr.exact_add, IntExpr.exact_mul, IntExpr.exact_sub,
    IntExpr.exact_val, IntExpr.exact_ofNat, hs.heightEq, hs.channelsEq, hs.toInt_rowSize hy,
    hs.toInt_row hy, hs.toInt_column hx]
  rw [show ((OfNat.ofNat 1 : Int32).toInt) = 1 from rfl, hcount]
  push_cast
  rfl

theorem fits_srcPosInt (hs : h.Sized width height channels) (hy : y < height) (hx : x < width) :
    (h.srcPosInt (.ofNat y) (.ofNat x)).Fits := by
  have hcount : (height : Int) - 1 - y = (height - 1 - y : Nat) := by omega
  have hrows := hs.rows_le hx
  have hrow := row_lt channels hy hx
  have hheight := hs.height_le hx
  rw [srcPosInt, hs.topDown]
  simp [hs.heightEq, hs.channelsEq, hs.toInt_rowSize hy, hs.toInt_row hy, hs.toInt_column hx,
    InRange]
  rw [hcount, ← Int.natCast_mul, ← Int.natCast_mul]
  omega

theorem exact_dstPosInt (hs : h.Sized width height channels) (hy : y < height) (hx : x < width) :
    (h.dstPosInt (.ofNat y) (.ofNat x)).exact = Layout.offset width channels y x 0 := by
  simp [dstPosInt, Layout.offset, hs.widthEq, hs.channelsEq, hs.toInt_row hy, hs.toInt_column hx]

theorem fits_dstPosInt (hs : h.Sized width height channels) (hy : y < height) (hx : x < width) :
    (h.dstPosInt (.ofNat y) (.ofNat x)).Fits := by
  have hlt := hs.offset_lt hy hx (Nat.zero_lt_of_lt hs.one_le)
  have hpixel : y * width + x ≤ (y * width + x) * channels := Nat.le_mul_of_pos_right _ hs.one_le
  rw [Layout.offset] at hlt
  simp [dstPosInt, hs.widthEq, hs.channelsEq, hs.toInt_row hy, hs.toInt_column hx, InRange]
  rw [← Int.natCast_mul, ← Int.natCast_add, ← Int.natCast_mul]
  omega

/-- The pixel index of channel `k`, counted as in the file. -/
theorem fits_src (hs : h.Sized width height channels) (hy : y < height) (hx : x < width) {k : Nat}
    (hk : k < channels) :
    (h.srcPosInt (.ofNat y) (.ofNat x) + (Int32.ofNat k : IntExpr)).Fits := by
  have hk' := hs.channels_le
  have hrows := hs.rows_le hx
  have hrow := row_lt channels hy hx
  refine ⟨hs.fits_srcPosInt hy hx, trivial, ?_⟩
  rw [hs.exact_srcPosInt hy hx, IntExpr.exact_val, Int32.toInt_ofNat_of_lt (by omega)]
  constructor <;> omega

theorem toInt_src (hs : h.Sized width height channels) (hy : y < height) (hx : x < width) {k : Nat}
    (hk : k < channels) : (h.srcPos (.ofNat y) (.ofNat x) + .ofNat k).toInt
      = ((height - 1 - y) * rowBytes width channels + x * channels + k : Nat) := by
  have hk' := hs.channels_le
  have hexact := IntExpr.toInt_eval (hs.fits_src hy hx hk)
  rw [IntExpr.eval_add, eval_srcPosInt, IntExpr.exact_add, hs.exact_srcPosInt hy hx,
    IntExpr.exact_val, IntExpr.eval_val, Int32.toInt_ofNat_of_lt (by omega)] at hexact
  rw [hexact]
  push_cast
  rfl

theorem fits_dst (hs : h.Sized width height channels) (hy : y < height) (hx : x < width) {k : Nat}
    (hk : k < channels) :
    (h.dstPosInt (.ofNat y) (.ofNat x) + (Int32.ofNat k : IntExpr)).Fits := by
  have hk' := hs.channels_le
  have hlt := hs.offset_lt hy hx (Nat.zero_lt_of_lt hk)
  refine ⟨hs.fits_dstPosInt hy hx, trivial, ?_⟩
  rw [hs.exact_dstPosInt hy hx, IntExpr.exact_val, Int32.toInt_ofNat_of_lt (by omega)]
  constructor <;> omega

theorem toInt_dst (hs : h.Sized width height channels) (hy : y < height) (hx : x < width) {k : Nat}
    (hk : k < channels) : (h.dstPos (.ofNat y) (.ofNat x) + .ofNat k).toInt
      = Layout.offset width channels y x k := by
  have hk' := hs.channels_le
  have hexact := IntExpr.toInt_eval (hs.fits_dst hy hx hk)
  rw [IntExpr.eval_add, eval_dstPosInt, IntExpr.exact_add, hs.exact_dstPosInt hy hx,
    IntExpr.exact_val, IntExpr.eval_val, Int32.toInt_ofNat_of_lt (by omega)] at hexact
  rw [hexact, Layout.offset, Layout.offset]
  push_cast
  ring

end Sized

theorem Sized.fits_sizeInt (hs : h.Sized width height channels) : h.sizeInt.Fits := by
  have hfits := hs.fits
  have hpixels : width * height ≤ width * height * channels :=
    Nat.le_mul_of_pos_right _ hs.one_le
  simp [sizeInt, InRange, hs.widthEq, hs.heightEq, hs.channelsEq]
  rw [← Int.natCast_mul, ← Int.natCast_mul]
  omega

/-- The expressions for one pixel do not overflow. -/
theorem Sized.fits_pixelInts (hs : h.Sized width height channels) (hy : y < height)
    (hx : x < width) : ∀ e ∈ h.pixelInts (.ofNat y) (.ofNat x), e.Fits := by
  have hheight := hs.height_le hx
  have hwidth := Nat.le_trans (Nat.le_mul_of_pos_right width hs.one_le) (hs.row_le hy)
  have hcount : ∀ {n : Nat}, n < 1920 * 1080 * 3 → ((Int32.ofNat n : IntExpr) + 1).Fits := by
    intro n hn
    have hn' : (Int32.ofNat n).toInt = n := Int32.toInt_ofNat_of_lt (by omega)
    simp [InRange, hn']
    omega
  intro e he
  rw [pixelInts, List.mem_append] at he
  rcases he with he | he
  · simp only [List.mem_cons, List.not_mem_nil, or_false] at he
    rcases he with rfl | rfl | rfl | rfl
    · exact hs.fits_srcPosInt hy hx
    · exact hs.fits_dstPosInt hy hx
    · exact hcount (by omega)
    · exact hcount (by omega)
  · split at he
    · rename_i hthree
      obtain rfl := hs.channels_three.1 hthree
      simp only [List.mem_cons, List.not_mem_nil, or_false] at he
      rcases he with rfl | rfl | rfl | rfl
      · exact hs.fits_src hy hx (k := 2) (by decide)
      · exact hs.fits_src hy hx (k := 1) (by decide)
      · exact hs.fits_dst hy hx (k := 1) (by decide)
      · exact hs.fits_dst hy hx (k := 2) (by decide)
    · cases he

/-- Nothing overflows in the decoder. -/
theorem Sized.fits_ints (hs : h.Sized width height channels) (hheight : 0 < height) :
    ∀ e ∈ h.ints, e.Fits := by
  intro e he
  rw [ints, List.mem_append] at he
  rcases he with he | he
  · simp only [List.mem_cons, List.not_mem_nil, or_false] at he
    rcases he with rfl | rfl | rfl
    · have hlower := h.bpp.le_toInt
      have hupper := h.bpp.toInt_lt
      simp [InRange]
      rw [Int.tdiv_eq_ediv, show Int.sign 8 = 1 from rfl]
      split <;> omega
    · exact hs.fits_rowSizeInt hheight
    · exact hs.fits_sizeInt
  · obtain ⟨p, hp, he⟩ := List.mem_flatMap.1 he
    obtain ⟨y, hy, x, hx, rfl⟩ := (mem_positions_iff_of_toInt hs.heightEq hs.widthEq).1 hp
    exact hs.fits_pixelInts hy hx e he

/-- The stores for one pixel, one for each channel. -/
theorem mem_copyPixel_iff (hs : Channels h.channels channels) {i j : Int32} {s : Int × Int} :
    s ∈ h.copyPixel i j ↔ ∃ k < channels,
      s = ((h.dstPos i j + .ofNat k).toInt,
        h.pixel (h.srcPos i j + .ofNat (channels - 1 - k))) := by
  rw [copyPixel]
  rcases hs.kinds with rfl | rfl
  · rw [if_pos (hs.channels_one.2 rfl), List.mem_singleton]
    constructor
    · rintro rfl
      exact ⟨0, by decide, by simp⟩
    · rintro ⟨k, hk, rfl⟩
      obtain rfl : k = 0 := by omega
      simp
  · rw [if_neg fun h ↦ absurd (hs.channels_one.1 h) (by decide)]
    simp only [List.mem_cons, List.not_mem_nil, or_false]
    constructor
    · rintro (rfl | rfl | rfl)
      · exact ⟨0, by decide, by simp⟩
      · exact ⟨1, by decide, by simp⟩
      · exact ⟨2, by decide, by simp⟩
    · rintro ⟨k, hk, rfl⟩
      obtain rfl | rfl | rfl : k = 0 ∨ k = 1 ∨ k = 2 := by omega
      · exact .inl (by simp)
      · exact .inr (.inl (by simp))
      · exact .inr (.inr (by simp))

/-- The stores are those for the pixels. -/
theorem mem_copies (hwidth : h.width.toInt = width) (hheight : h.height.toInt = height)
    {s : Int × Int} : s ∈ h.copies
      ↔ ∃ y x : Nat, y < height ∧ x < width ∧ s ∈ h.copyPixel (.ofNat y) (.ofNat x) := by
  rw [copies, List.mem_flatMap]
  constructor
  · rintro ⟨p, hp, hs'⟩
    obtain ⟨y, hy, x, hx, rfl⟩ := (mem_positions_iff_of_toInt hheight hwidth).1 hp
    exact ⟨y, x, hy, hx, hs'⟩
  · rintro ⟨y, x, hy, hx, hs'⟩
    exact ⟨_, (mem_positions_iff_of_toInt hheight hwidth).2 ⟨y, hy, x, hx, rfl⟩, hs'⟩

/-- **Which byte of the file goes where.** -/
theorem mem_copies_iff (hs : h.Sized width height channels) {s : Int × Int} :
    s ∈ h.copies ↔ ∃ y < height, ∃ x < width, ∃ k < channels,
      s = (((Layout.offset width channels y x k : Nat) : Int), h.headerSize.toInt
        + ((height - 1 - y) * rowBytes width channels + x * channels
          + (channels - 1 - k) : Nat)) := by
  rw [mem_copies hs.widthEq hs.heightEq]
  constructor
  · rintro ⟨y, x, hy, hx, hs'⟩
    obtain ⟨k, hk, rfl⟩ := (mem_copyPixel_iff hs.toChannels).1 hs'
    exact ⟨y, hy, x, hx, k, hk, by rw [hs.toInt_dst hy hx hk, pixel, hs.toInt_src hy hx (by omega)]⟩
  · rintro ⟨y, hy, x, hx, k, hk, rfl⟩
    refine ⟨y, x, hy, hx, (mem_copyPixel_iff hs.toChannels).2 ⟨k, hk, ?_⟩⟩
    rw [hs.toInt_dst hy hx hk, pixel, hs.toInt_src hy hx (by omega)]

end BmpHeader

end EthosU
