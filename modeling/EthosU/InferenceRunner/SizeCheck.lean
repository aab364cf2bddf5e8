import EthosU.InferenceRunner.ImageArithmetic
import Mathlib.Algebra.Order.Group.Unbundled.Abs
import Mathlib.Algebra.Order.Group.Int

/-!
# The size check of the decoder

`IMAGE_Decode` compares `width * height * channels` with the size of its buffer before it copies
anything.  All three come from the file, and the product is one of `int`s.

* `BmpHeader.accesses` are the indices that are used to write the buffer and to read the file.
* `BmpHeader.InBounds` says that they lie in the buffer and in the rows of the image.
* `BmpHeader.inBounds_iff`: a header that passes the check is safe if it has no pixels to copy or if
  the product of the numbers themselves is not larger than the buffer.  If only the wrapped product
  is not, then the first index behind the buffer is written.
-/

set_option autoImplicit false

namespace EthosU

namespace BmpHeader

variable (h : BmpHeader)

/-- The size check fails. -/
def TooLarge : Prop := h.width * h.height * h.channels > decodeBufferSize

/-- Where the buffer is written, and where the file is read, counted from its first pixel.  With any
other number of channels the first pixel ends the loop. -/
def accesses : List (Int × Int) :=
  if h.channels = 1 ∨ h.channels = 3 then
    h.copies.map fun (i, src) ↦ (i, src - h.headerSize.toInt)
  else []

/-- The length of a row of the file. -/
def rowBytesInt : Int := (8 * h.channels.toInt * h.width.toInt + 31) / 32 * 4

/-- Every access is one to the buffer and to the rows of the image. -/
def InBounds : Prop :=
  ∀ a ∈ h.accesses, (0 ≤ a.1 ∧ a.1 < decodeBufferSize.toInt)
    ∧ 0 ≤ a.2 ∧ a.2 < |h.height.toInt| * h.rowBytesInt

/-- The buffer has room for the image. -/
def Roomy : Prop :=
  h.width.toInt ≤ 0 ∨ h.height.toInt ≤ 0 ∨ (h.channels ≠ 1 ∧ h.channels ≠ 3)
    ∨ h.width.toInt * h.height.toInt * h.channels.toInt ≤ decodeBufferSize.toInt

variable {h}

/-- The decoder makes these accesses and no others. -/
theorem imageDecode_accesses {r : Rounding} {srcData sBuffer sBuffer' : Int → UInt8}
    {dstWidth dstHeight dstChannels : Int32} {stores : List (Int × UInt8)}
    (hdecoded : imageDecode r srcData sBuffer dstWidth dstHeight dstChannels
      = .decoded sBuffer' stores) :
    ¬ (read srcData).TooLarge
      ∧ sBuffer' = storeAll sBuffer 0 ((read srcData).accesses.map
        fun (i, pos) ↦ (i, srcData ((read srcData).headerSize.toInt + pos))) := by
  revert hdecoded
  rw [imageDecode]
  dsimp only
  split
  · rintro ⟨⟩
  · rename_i hsmall
    split
    · rintro ⟨⟩
    · split
      · rintro ⟨⟩
      · intro heq
        injection heq with hbuffer
        refine ⟨hsmall, hbuffer.symm.trans ?_⟩
        rw [accesses]
        split
        · rw [List.map_map]
          refine congrArg (storeAll sBuffer 0) (List.map_congr_left fun s _ ↦ ?_)
          rw [Function.comp_apply, add_sub_cancel]
        · rfl

theorem accesses_nil (hempty : h.width.toInt ≤ 0 ∨ h.height.toInt ≤ 0) : h.accesses = [] := by
  have hcopies : h.copies = [] := by
    rw [copies, positions_nil (hempty.symm), List.flatMap_nil]
  rw [accesses, hcopies]
  simp

theorem rowBytesInt_eq {width c : Nat} (hs : Channels h.channels c)
    (hwidth : h.width.toInt = width) :
    h.rowBytesInt = (rowBytes width c : Nat) := by
  rw [rowBytesInt, hs.channelsEq, hwidth, rowBytes]
  push_cast
  rfl

/-- The accesses for an image that the buffer has room for. -/
theorem inBounds_of_sized {width height channels : Nat} (hs : h.Sized width height channels) :
    h.InBounds := by
  intro a ha
  have hkinds : h.channels = 1 ∨ h.channels = 3 :=
    hs.kinds.imp hs.channels_one.2 hs.channels_three.2
  rw [accesses, if_pos hkinds] at ha
  obtain ⟨s, hmem, rfl⟩ := List.mem_map.1 ha
  obtain ⟨y, hy, x, hx, k, hk, rfl⟩ := (mem_copies_iff hs).1 hmem
  have hdst := hs.offset_lt hy hx hk
  have hsrc := Sized.row_lt channels hy hx
  have hsize : decodeBufferSize.toInt = 1920 * 1080 * 3 := rfl
  have hrow : |h.height.toInt| * h.rowBytesInt = (height * rowBytes width channels : Nat) := by
    rw [rowBytesInt_eq hs.toChannels hs.widthEq, hs.heightEq, abs_of_nonneg (Int.natCast_nonneg _),
      Int.natCast_mul]
  rw [hsize, hrow]
  dsimp only
  omega

/-- The dimensions of an image that is not empty. -/
theorem exists_dimensions (hwidth : 0 < h.width.toInt) (hheight : 0 < h.height.toInt)
    (hkinds : h.channels = 1 ∨ h.channels = 3) :
    ∃ width height channels : Nat, h.width.toInt = width ∧ h.height.toInt = height
      ∧ h.channels.toInt = channels ∧ (channels = 1 ∨ channels = 3) := by
  obtain ⟨channels, hc⟩ : ∃ channels : Nat, h.channels.toInt = channels
      ∧ (channels = 1 ∨ channels = 3) := by
    rcases hkinds with hkind | hkind
    · exact ⟨1, by rw [hkind]; rfl, .inl rfl⟩
    · exact ⟨3, by rw [hkind]; rfl, .inr rfl⟩
  exact ⟨_, _, channels, (Int.toNat_of_nonneg hwidth.le).symm,
    (Int.toNat_of_nonneg hheight.le).symm, hc⟩

/-- Where the pixel with a given number is written, if its position is an `int`. -/
theorem toInt_dstPos {width height channels pixel : Nat} (hw : h.width.toInt = width)
    (hh : h.height.toInt = height) (hc : h.channels.toInt = channels) (hlt : pixel < width * height)
    (hle : pixel ≤ pixel * channels) (hfits : pixel * channels < 2 ^ 31) :
    (h.dstPos (.ofNat (pixel / width)) (.ofNat (pixel % width))).toInt
      = (pixel * channels : Nat) := by
  have hwpos : 0 < width := Nat.pos_of_mul_pos_right (Nat.zero_lt_of_lt hlt)
  have hrow : (Int32.ofNat (pixel / width)).toInt = (pixel / width : Nat) :=
    toInt_counter (by rw [hh]; exact_mod_cast Nat.div_lt_of_lt_mul hlt)
  have hcolumn : (Int32.ofNat (pixel % width)).toInt = (pixel % width : Nat) :=
    toInt_counter (by rw [hw]; exact_mod_cast Nat.mod_lt _ hwpos)
  have hdecompose : pixel / width * width + pixel % width = pixel := Nat.div_add_mod' _ _
  have hquot : ((pixel / width : Nat) : Int) * width = (pixel / width * width : Nat) :=
    (Int.natCast_mul _ _).symm
  have hvalue : ((pixel / width * width : Nat) : Int) + (pixel % width : Nat) = pixel := by
    exact_mod_cast hdecompose
  have hlast : (pixel : Int) * channels = (pixel * channels : Nat) := (Int.natCast_mul _ _).symm
  rw [← eval_dstPosInt, IntExpr.toInt_eval]
  · simp only [dstPosInt, IntExpr.exact_mul, IntExpr.exact_add, IntExpr.exact_val, hrow, hcolumn,
      hw, hc, hquot, hvalue, hlast]
  · simp only [dstPosInt, IntExpr.fits_mul, IntExpr.fits_add, IntExpr.fits_val,
      IntExpr.exact_mul, IntExpr.exact_add, IntExpr.exact_val, hrow, hcolumn, hw, hc, hquot,
      hvalue, hlast, IntExpr.InRange, true_and]
    omega

/-- If there is no room for an image, the first index behind the buffer is written. -/
theorem exists_behind (hroomy : ¬ h.Roomy) : ∃ src, (decodeBufferSize.toInt, src) ∈ h.accesses := by
  have hsize : decodeBufferSize.toInt = 1920 * 1080 * 3 := rfl
  simp only [Roomy, not_or, not_and_or, not_not, not_le, hsize] at hroomy
  obtain ⟨hwidth, hheight, hkinds, hlarge⟩ := hroomy
  obtain ⟨w, n, c, hw, hn, hc, hcval⟩ := exists_dimensions hwidth hheight hkinds
  rw [hw, hn, hc] at hlarge
  -- the pixel that would come first behind the buffer
  obtain ⟨pixel, hpixel⟩ : ∃ pixel, pixel * c = 1920 * 1080 * 3 := by
    rcases hcval with rfl | rfl
    · exact ⟨1920 * 1080 * 3, rfl⟩
    · exact ⟨1920 * 1080, rfl⟩
  have hle : pixel ≤ pixel * c := by
    rcases hcval with rfl | rfl <;> omega
  have hlt : pixel < w * n := by
    by_contra hge
    have hmul : w * n * c ≤ pixel * c := Nat.mul_le_mul_right _ (Nat.le_of_not_lt hge)
    have hcast : (w : Int) * n * c = (w * n * c : Nat) := by push_cast; rfl
    rw [hcast] at hlarge
    omega
  have hdst : (h.dstPos (.ofNat (pixel / w)) (.ofNat (pixel % w))).toInt
      = decodeBufferSize.toInt := by
    rw [toInt_dstPos hw hn hc hlt hle (by omega), hpixel]
    rfl
  obtain ⟨src, hsrc⟩ : ∃ src, ((h.dstPos (.ofNat (pixel / w)) (.ofNat (pixel % w))).toInt, src)
      ∈ h.copyPixel (.ofNat (pixel / w)) (.ofNat (pixel % w)) := by
    rw [copyPixel]
    split
    · exact ⟨_, List.mem_singleton.2 rfl⟩
    · exact ⟨_, List.mem_cons_self⟩
  have hi : ((pixel / w : Nat) : Int) < h.height.toInt := by
    rw [hn]
    exact_mod_cast Nat.div_lt_of_lt_mul hlt
  have hj : ((pixel % w : Nat) : Int) < h.width.toInt := by
    rw [hw]
    exact_mod_cast Nat.mod_lt _ (by omega)
  rw [accesses, if_pos hkinds, ← hdst]
  exact ⟨_, List.mem_map.2 ⟨_, List.mem_flatMap.2 ⟨_, mem_positions hi hj, hsrc⟩, rfl⟩⟩

/-- A header without room is not safe. -/
theorem not_inBounds (hroomy : ¬ h.Roomy) : ¬ h.InBounds := by
  intro hbounds
  obtain ⟨src, hmem⟩ := exists_behind hroomy
  exact lt_irrefl _ (hbounds _ hmem).1.2

theorem inBounds_of_roomy (hroomy : h.Roomy) : h.InBounds := by
  have hsize : decodeBufferSize.toInt = 1920 * 1080 * 3 := rfl
  by_cases hempty : h.width.toInt ≤ 0 ∨ h.height.toInt ≤ 0
  · intro a ha
    rw [accesses_nil hempty] at ha
    cases ha
  · by_cases hkinds : h.channels = 1 ∨ h.channels = 3
    · rw [not_or, not_le, not_le] at hempty
      have hfits : h.width.toInt * h.height.toInt * h.channels.toInt ≤ decodeBufferSize.toInt := by
        rcases hroomy with hwidth | hheight | hchannels | hfits
        · omega
        · omega
        · exact absurd hkinds (not_or.2 hchannels)
        · exact hfits
      obtain ⟨w, n, c, hw, hn, hc, hcval⟩ := exists_dimensions hempty.1 hempty.2 hkinds
      rw [hw, hn, hc, hsize] at hfits
      have hsized : h.Sized w n c := ⟨⟨hc, hcval⟩, hw, hn, by exact_mod_cast hfits⟩
      exact inBounds_of_sized hsized
    · intro a ha
      rw [accesses, if_neg hkinds] at ha
      cases ha

/-- **When the size check is sufficient.**  A header that passes it is safe exactly if there is room
for the image, and not only for as many bytes as the wrapped product says. -/
theorem inBounds_iff (h : BmpHeader) :
    (¬ h.TooLarge → h.InBounds) ↔ h.TooLarge ∨ h.Roomy := by
  refine ⟨?_, ?_⟩
  · intro hcheck
    by_contra hneither
    rw [not_or] at hneither
    exact not_inBounds hneither.2 (hcheck hneither.1)
  · rintro (hlarge | hroomy)
    · exact fun hsmall ↦ absurd hlarge hsmall
    · exact fun _ ↦ inBounds_of_roomy hroomy

/-- The product of these dimensions wraps to zero. -/
theorem wraps_past_check : ¬ ∀ h : BmpHeader, ¬ h.TooLarge → h.InBounds := by
  intro hall
  refine not_inBounds ?_ (hall ⟨54, 65536, 65536, 24⟩ ?_)
  · rw [Roomy]
    decide
  · rw [TooLarge]
    decide

end BmpHeader

end EthosU
