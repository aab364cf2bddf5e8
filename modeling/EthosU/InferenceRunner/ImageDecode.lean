import EthosU.Lib.Binary64
import EthosU.Lib.Bytes

/-!
# Decoding images

`IMAGE_Decode` and `IMAGE_Resize` of `utils/inference_runner/common/image_decode_bmp.cpp`: a bitmap
file is unpacked into the global `s_buffer`, and from there scaled to the size of a tensor.

The loops are given as the lists of the stores they make, in order.  A store is a position of the
destination together with the position of the source it copies, so that where a loop writes and
reads can be told from what it copies; `imageDecode` then carries the stores out.

* All positions are computed in `int` arithmetic, which wraps.
* The scale factors of `IMAGE_Resize` are `double`s.  They are rational numbers here, and the
  results of all operations on them are rounded: `Rounding.binary64` is what the program does, and
  with `Rounding.exact` the factors are exact quotients.
* `mem_imageResize` says that resizing an image of one or three channels stores to every position of
  the destination.
-/

set_option autoImplicit false

namespace EthosU

/-- `DECODE_BUFFER_SIZE`. -/
def decodeBufferSize : Int32 := 1920 * 1080 * 3

/-- The values of `i` in `for (i = 0; i < n; i++)`. -/
def upTo (n : Int32) : List Int32 := (List.range n.toInt.toNat).map fun i ↦ .ofNat i

/-- The values of `i` and `j` in two nested loops. -/
def positions (height width : Int32) : List (Int32 × Int32) :=
  (upTo height).flatMap fun i ↦ (upTo width).map fun j ↦ (i, j)

/-! ## The header -/

/-- The members of the header of a bitmap that `IMAGE_Decode` reads. -/
structure BmpHeader where
  headerSize : Int32
  width : Int32
  height : Int32
  bpp : Int32
  deriving DecidableEq, Repr

namespace BmpHeader

/-- `*((const int32_t*)(srcData + offset))`. -/
def field (srcData : Int → UInt8) (offset : Nat) : Int32 :=
  (Bytes.word (fun a ↦ srcData a) offset).toInt32

def read (srcData : Int → UInt8) : BmpHeader where
  headerSize := field srcData 10
  width := field srcData 18
  height := field srcData 22
  bpp := field srcData 28

variable (h : BmpHeader)

def channels : Int32 := h.bpp / 8

/-- The length of a row, with the bytes that pad it to a multiple of four. -/
def rowSize : Int32 := (8 * h.channels * h.width + 31) / 32 * 4

def topDown : Bool := h.height < 0

def srcPos (i j : Int32) : Int32 :=
  if !h.topDown then ((h.height - 1 - i) * h.rowSize) + j * h.channels
  else i * h.rowSize + j * h.channels

def dstPos (i j : Int32) : Int32 := (i * h.width + j) * h.channels

/-- `&bmpPixels[pos]`, relative to `srcData`. -/
def pixel (pos : Int32) : Int := h.headerSize.toInt + pos.toInt

/-- The stores for one pixel. -/
def copyPixel (i j : Int32) : List (Int × Int) :=
  if h.channels = 1 then [((h.dstPos i j).toInt, h.pixel (h.srcPos i j))]
  else
    -- BGR -> RGB
    [((h.dstPos i j).toInt, h.pixel (h.srcPos i j + 2)),
      ((h.dstPos i j + 1).toInt, h.pixel (h.srcPos i j + 1)),
      ((h.dstPos i j + 2).toInt, h.pixel (h.srcPos i j))]

/-- The stores to `s_buffer`, and where in `srcData` they come from. -/
def copies : List (Int × Int) := (positions h.height h.width).flatMap fun (i, j) ↦ h.copyPixel i j

/-- The header passes the checks of `IMAGE_Decode`: the image is not too large and, if it has any
pixel, has one or three channels. -/
def Decodes : Prop :=
  ¬ h.width * h.height * h.channels > decodeBufferSize
    ∧ (h.channels = 1 ∨ h.channels = 3 ∨ positions h.height h.width = [])

instance : Decidable h.Decodes := inferInstanceAs (Decidable (_ ∧ _))

end BmpHeader

/-! ## Resizing -/

/-- `1.0 * a / b`.  An `int` is a `double`, and so is the product. -/
def quotient (r : Rounding) (a b : Int32) : Rat := r.round ((a.toInt : Rat) / b.toInt)

/-- `(int)q`. -/
def truncate (q : Rat) : Int32 := .ofInt (q.num.tdiv q.den)

namespace ImageResize

variable (r : Rounding) (srcWidth srcHeight dstWidth dstHeight channels : Int32)

/-- `after / d + bias`.  The factor `d` is infinite if the source is empty; a quotient is zero then,
as it is here. -/
def unscaled (after : Int32) (d bias : Rat) : Rat := r.round (r.round (after.toInt / d) + bias)

/-- The position of the source that is sampled for position `after`. -/
def pre (after : Int32) (d bias : Rat) : Int32 := truncate (unscaled r after d bias)

/-- The positions of the destination that are set to zero at first. -/
def zeros : List Int :=
  if channels = 1 then
    (positions dstHeight dstWidth).map fun (i, j) ↦
      ((dstHeight - 1 - i) * (channels * dstWidth) + j).toInt
  else if channels = 3 then
    (positions dstHeight dstWidth).flatMap fun (i, j) ↦ (upTo 3).map fun k ↦
      ((dstHeight - 1 - i) * (channels * dstWidth) + j * 3 + k).toInt
  else []

/-- The positions of the destination that are then copied, and where they are copied from. -/
def samples : List (Int × Int) :=
  let dx := quotient r dstWidth srcWidth
  let dy := quotient r dstHeight srcHeight
  let step := channels * srcWidth
  let scaleStep := channels * dstWidth
  if channels = 1 then
    (positions dstHeight dstWidth).flatMap fun (i, j) ↦
      let preI := pre r i dy 0
      let preJ := pre r j dx 0
      if preI ≥ 0 ∧ preI < srcHeight ∧ preJ ≥ 0 ∧ preJ < srcWidth then
        [((i * scaleStep + j).toInt, (preI * step + preJ).toInt)]
      else []
  else if channels = 3 then
    (positions dstHeight dstWidth).flatMap fun (i, j) ↦
      let preI := pre r i dy (1 / 2)
      let preJ := pre r j dx (1 / 2)
      if preI ≥ 0 ∧ preI < srcHeight ∧ preJ ≥ 0 ∧ preJ < srcWidth then
        (upTo 3).map fun k ↦
          ((i * scaleStep + j * 3 + k).toInt, (preI * step + preJ * 3 + k).toInt)
      else []
  else []

end ImageResize

/-- The stores of `IMAGE_Resize` to `dstData`. -/
def imageResize (r : Rounding) (srcData : Int → UInt8)
    (srcWidth srcHeight dstWidth dstHeight channels : Int32) : List (Int × UInt8) :=
  (ImageResize.zeros dstWidth dstHeight channels).map (fun i ↦ (i, 0))
    ++ (ImageResize.samples r srcWidth srcHeight dstWidth dstHeight channels).map
      fun (i, src) ↦ (i, srcData src)

/-- A memory after some stores, at positions relative to `base`. -/
def storeAll (m : Int → UInt8) (base : Int) (stores : List (Int × UInt8)) : Int → UInt8 :=
  stores.foldl (fun m s ↦ Function.update m (base + s.1) s.2) m

/-! ## Decoding -/

/-- How `IMAGE_Decode` ends. -/
inductive Decoding
  /-- It returns -1. -/
  | failed
  /-- The assertion that the image has the channels of the tensor fails. -/
  | aborted
  /-- It returns 0, with what `s_buffer` holds then and the stores made to `dstData`. -/
  | decoded (sBuffer : Int → UInt8) (stores : List (Int × UInt8))

def imageDecode (r : Rounding) (srcData sBuffer : Int → UInt8)
    (dstWidth dstHeight dstChannels : Int32) : Decoding :=
  let h := BmpHeader.read srcData
  if h.width * h.height * h.channels > decodeBufferSize then .failed
  -- the first pixel of an image with any other number of channels ends the loop
  else if h.channels ≠ 1 ∧ h.channels ≠ 3 ∧ positions h.height h.width ≠ [] then .failed
  else
    let sBuffer := storeAll sBuffer 0
      (if h.channels = 1 ∨ h.channels = 3 then h.copies.map fun (i, src) ↦ (i, srcData src) else [])
    if h.channels ≠ dstChannels then .aborted
    else .decoded sBuffer (imageResize r sBuffer h.width h.height dstWidth dstHeight h.channels)

variable {r : Rounding}

/-- The decoder depends on the header and on the sources of the pixels. -/
theorem imageDecode_eq_of_read {srcData srcData' : Int → UInt8}
    (hread : BmpHeader.read srcData = BmpHeader.read srcData')
    (hcopies : ¬ (BmpHeader.read srcData).width * (BmpHeader.read srcData).height
        * (BmpHeader.read srcData).channels > decodeBufferSize →
      (BmpHeader.read srcData).channels = 1 ∨ (BmpHeader.read srcData).channels = 3 →
      ∀ c ∈ (BmpHeader.read srcData).copies, srcData c.2 = srcData' c.2)
    (sBuffer : Int → UInt8) (dstWidth dstHeight dstChannels : Int32) :
    imageDecode r srcData sBuffer dstWidth dstHeight dstChannels
      = imageDecode r srcData' sBuffer dstWidth dstHeight dstChannels := by
  rw [imageDecode, imageDecode, ← hread]
  dsimp only
  split
  · rfl
  · rename_i hsmall
    have hstores : (if (BmpHeader.read srcData).channels = 1 ∨ (BmpHeader.read srcData).channels = 3
          then (BmpHeader.read srcData).copies.map fun (i, src) ↦ (i, srcData src) else [])
        = if (BmpHeader.read srcData).channels = 1 ∨ (BmpHeader.read srcData).channels = 3
          then (BmpHeader.read srcData).copies.map fun (i, src) ↦ (i, srcData' src) else [] := by
      split
      · rename_i hkinds
        exact List.map_congr_left fun c hc ↦ congrArg (Prod.mk c.1) (hcopies hsmall hkinds c hc)
      · rfl
    rw [hstores]

/-! ## Results and extent -/

/-- `IMAGE_Decode` reports a failure exactly if the header does not pass its checks. -/
theorem imageDecode_failed_iff (srcData sBuffer : Int → UInt8)
    (dstWidth dstHeight dstChannels : Int32) :
    imageDecode r srcData sBuffer dstWidth dstHeight dstChannels = .failed
      ↔ ¬ (BmpHeader.read srcData).Decodes := by
  rw [imageDecode, BmpHeader.Decodes]
  by_cases hsize : (BmpHeader.read srcData).width * (BmpHeader.read srcData).height
      * (BmpHeader.read srcData).channels > decodeBufferSize
  · simp [hsize]
  · by_cases hchannels : (BmpHeader.read srcData).channels ≠ 1
      ∧ (BmpHeader.read srcData).channels ≠ 3
      ∧ positions (BmpHeader.read srcData).height (BmpHeader.read srcData).width ≠ []
    · rw [if_neg hsize, if_pos hchannels]
      simp [hsize, hchannels]
    · rw [if_neg hsize, if_neg hchannels]
      have hok : (BmpHeader.read srcData).channels = 1 ∨ (BmpHeader.read srcData).channels = 3
          ∨ positions (BmpHeader.read srcData).height (BmpHeader.read srcData).width = [] := by
        by_contra hnone
        simp only [not_or] at hnone
        exact hchannels hnone
      dsimp only
      split <;> simp [hsize, hok]

/-- When it reports success, the stores are those of the resizing. -/
theorem imageDecode_decoded {srcData sBuffer sBuffer' : Int → UInt8}
    {dstWidth dstHeight dstChannels : Int32} {stores : List (Int × UInt8)}
    (h : imageDecode r srcData sBuffer dstWidth dstHeight dstChannels = .decoded sBuffer' stores) :
    (BmpHeader.read srcData).channels = dstChannels
      ∧ stores = imageResize r sBuffer' (BmpHeader.read srcData).width
        (BmpHeader.read srcData).height dstWidth dstHeight dstChannels := by
  revert h
  rw [imageDecode]
  dsimp only
  split
  · rintro ⟨⟩
  · split
    · rintro ⟨⟩
    · split
      · rintro ⟨⟩
      · rename_i hchannels
        simp only [ne_eq, not_not] at hchannels
        rintro ⟨⟩
        exact ⟨hchannels, by rw [hchannels]⟩

theorem mem_upTo {n : Int32} {k : Nat} (h : (k : Int) < n.toInt) : Int32.ofNat k ∈ upTo n :=
  List.mem_map.2 ⟨k, List.mem_range.2 (by omega), rfl⟩

theorem mem_positions {height width : Int32} {i j : Nat} (hi : (i : Int) < height.toInt)
    (hj : (j : Int) < width.toInt) : (Int32.ofNat i, Int32.ofNat j) ∈ positions height width :=
  List.mem_flatMap.2 ⟨_, mem_upTo hi, List.mem_map.2 ⟨_, mem_upTo hj, rfl⟩⟩

/-- The position that the loop over zeros computes for row `row` counted from the end. -/
private theorem toInt_zero {height width channels last : Int32} {row offset : Nat}
    (hrow : row < height.toInt.toNat) (hlast : last = .ofInt offset)
    (hlower : 0 ≤ channels.toInt * width.toInt)
    (hupper : row * (channels.toInt * width.toInt) + offset < 2 ^ 31) :
    ((height - 1 - .ofNat (height.toInt.toNat - 1 - row)) * (channels * width) + last).toInt
      = row * (channels.toInt * width.toInt) + offset := by
  have hcount : height - 1 - .ofNat (height.toInt.toNat - 1 - row) = .ofInt row := by
    have hpass : ((height.toInt.toNat - 1 - row : Nat) : Int) = height.toInt - 1 - row := by omega
    calc height - 1 - .ofNat (height.toInt.toNat - 1 - row)
        = .ofInt (height.toInt - 1 - (height.toInt - 1 - row)) := by
          rw [← Int32.ofInt_eq_ofNat, hpass]
          simp only [Int32.ofInt_sub, Int32.ofInt_toInt]
          rfl
      _ = .ofInt row := by congr 1; omega
  have hvalue : (height - 1 - .ofNat (height.toInt.toNat - 1 - row)) * (channels * width) + last
      = .ofInt (row * (channels.toInt * width.toInt) + offset) := by
    rw [hcount, hlast, Int32.ofInt_add, Int32.ofInt_mul, Int32.ofInt_mul, Int32.ofInt_toInt,
      Int32.ofInt_toInt]
  have hpos : 0 ≤ (row : Int) * (channels.toInt * width.toInt) :=
    Int.mul_nonneg (Int.natCast_nonneg _) hlower
  rw [hvalue, Int32.toInt_ofInt_of_le (by omega) hupper]

/-- A position of a row is set to zero. -/
private theorem mem_zeros_row {dstWidth dstHeight channels : Int32}
    (hchannels : channels = 1 ∨ channels = 3) {w c row offset : Nat} (hw : dstWidth.toInt = w)
    (hc : channels.toInt = c) (hrow : row < dstHeight.toInt.toNat) (hoffset : offset < c * w)
    (hlt : row * (c * w) + offset < 2 ^ 31) :
    ((row * (c * w) + offset : Nat) : Int) ∈ ImageResize.zeros dstWidth dstHeight channels := by
  have hposition : ∀ last : Int32, last = .ofInt offset →
      ((dstHeight - 1 - .ofNat (dstHeight.toInt.toNat - 1 - row)) * (channels * dstWidth)
        + last).toInt = (row * (c * w) + offset : Nat) := by
    intro last hlast
    have hsum : (row : Int) * (channels.toInt * dstWidth.toInt) + offset
        = (row * (c * w) + offset : Nat) := by
      rw [hc, hw]
      exact_mod_cast rfl
    rw [toInt_zero hrow hlast (by rw [hc, hw]; exact_mod_cast Nat.zero_le _)
      (by rw [hsum]; exact_mod_cast hlt), hsum]
  have hpass : ((dstHeight.toInt.toNat - 1 - row : Nat) : Int) < dstHeight.toInt := by omega
  rw [ImageResize.zeros]
  rcases hchannels with rfl | rfl
  · obtain rfl : c = 1 := by
      have hone : (1 : Int32).toInt = 1 := rfl
      omega
    rw [if_pos rfl]
    refine List.mem_map.2 ⟨_, mem_positions hpass (j := offset) (by omega), ?_⟩
    exact hposition _ Int32.ofInt_eq_ofNat.symm
  · obtain rfl : c = 3 := by
      have hthree : (3 : Int32).toInt = 3 := rfl
      omega
    rw [if_neg (by decide), if_pos rfl]
    have hchannel : ((offset % 3 : Nat) : Int) < (3 : Int32).toInt :=
      Int.ofNat_lt.2 (Nat.mod_lt _ (by decide))
    refine List.mem_flatMap.2 ⟨_, mem_positions hpass (j := offset / 3) (by omega), ?_⟩
    refine List.mem_map.2 ⟨_, mem_upTo hchannel, ?_⟩
    rw [Int32.add_assoc]
    refine hposition _ ?_
    have hdecompose : (offset : Int) = (offset / 3 : Nat) * 3 + (offset % 3 : Nat) := by omega
    rw [hdecompose, Int32.ofInt_add, Int32.ofInt_mul, Int32.ofInt_eq_ofNat, Int32.ofInt_eq_ofNat]
    rfl

/-- Every position of the destination is set to zero. -/
theorem mem_zeros {dstWidth dstHeight channels : Int32} (hchannels : channels = 1 ∨ channels = 3)
    (hwidth : 0 ≤ dstWidth.toInt)
    (hlt : dstHeight.toInt.toNat * (channels.toInt.toNat * dstWidth.toInt.toNat) ≤ 2 ^ 31) {a : Nat}
    (ha : a < dstHeight.toInt.toNat * (channels.toInt.toNat * dstWidth.toInt.toNat)) :
    (a : Int) ∈ ImageResize.zeros dstWidth dstHeight channels := by
  obtain ⟨w, hw⟩ : ∃ w : Nat, dstWidth.toInt = w := ⟨_, (Int.toNat_of_nonneg hwidth).symm⟩
  obtain ⟨c, hc⟩ : ∃ c : Nat, channels.toInt = c := by
    rcases hchannels with rfl | rfl
    · exact ⟨1, rfl⟩
    · exact ⟨3, rfl⟩
  rw [hc, hw, Int.toNat_natCast, Int.toNat_natCast] at ha hlt
  have hstep : 0 < c * w := by
    by_contra hzero
    simp [Nat.eq_zero_of_not_pos hzero] at ha
  -- the row of the position, and its place in it
  have hrow : a / (c * w) < dstHeight.toInt.toNat := Nat.div_lt_of_lt_mul (by rwa [Nat.mul_comm])
  have hdecompose : a / (c * w) * (c * w) + a % (c * w) = a := Nat.div_add_mod' _ _
  rw [← hdecompose] at ha ⊢
  exact mem_zeros_row hchannels hw hc hrow (Nat.mod_lt _ hstep) (Nat.lt_of_lt_of_le ha hlt)

/-- Resizing an image of one or three channels stores to every position of the destination. -/
theorem mem_imageResize {srcData : Int → UInt8}
    {srcWidth srcHeight dstWidth dstHeight channels : Int32}
    (hchannels : channels = 1 ∨ channels = 3) (hwidth : 0 ≤ dstWidth.toInt)
    (hlt : dstHeight.toInt.toNat * (channels.toInt.toNat * dstWidth.toInt.toNat) ≤ 2 ^ 31) {a : Nat}
    (ha : a < dstHeight.toInt.toNat * (channels.toInt.toNat * dstWidth.toInt.toNat)) :
    (a : Int)
      ∈ (imageResize r srcData srcWidth srcHeight dstWidth dstHeight channels).map Prod.fst := by
  rw [imageResize, List.map_append, List.map_map]
  refine List.mem_append_left _ (List.mem_map.2 ⟨a, mem_zeros hchannels hwidth hlt ha, rfl⟩)

/-- Positions are `int`s. -/
theorem imageResize_lt {srcData : Int → UInt8}
    {srcWidth srcHeight dstWidth dstHeight channels : Int32} {s : Int × UInt8}
    (h : s ∈ imageResize r srcData srcWidth srcHeight dstWidth dstHeight channels) :
    s.1 < 2 ^ 31 := by
  rw [imageResize, List.mem_append, List.mem_map, List.mem_map] at h
  rcases h with ⟨a, ha, rfl⟩ | ⟨⟨a, src⟩, ha, rfl⟩
  · rw [ImageResize.zeros] at ha
    split at ha
    · obtain ⟨_, -, rfl⟩ := List.mem_map.1 ha
      exact Int32.toInt_lt _
    · split at ha
      · obtain ⟨_, -, hk⟩ := List.mem_flatMap.1 ha
        obtain ⟨_, -, rfl⟩ := List.mem_map.1 hk
        exact Int32.toInt_lt _
      · cases ha
  · rw [ImageResize.samples] at ha
    dsimp only at ha
    split at ha
    · obtain ⟨_, -, hk⟩ := List.mem_flatMap.1 ha
      split at hk
      · cases List.mem_singleton.1 hk
        exact Int32.toInt_lt _
      · cases hk
    · split at ha
      · obtain ⟨_, -, hk⟩ := List.mem_flatMap.1 ha
        split at hk
        · obtain ⟨_, -, hk⟩ := List.mem_map.1 hk
          cases hk
          exact Int32.toInt_lt _
        · cases hk
      · cases ha

theorem positions_nil {height width : Int32} (h : height.toInt ≤ 0 ∨ width.toInt ≤ 0) :
    positions height width = [] := by
  have hupTo : ∀ n : Int32, n.toInt ≤ 0 → upTo n = [] := by
    intro n hn
    rw [upTo, Int.toNat_of_nonpos hn]
    rfl
  rcases h with h | h
  · rw [positions, hupTo _ h, List.flatMap_nil]
  · rw [positions, hupTo _ h]
    simp

/-- Without rows or columns there is no store. -/
theorem imageResize_empty {srcData : Int → UInt8}
    {srcWidth srcHeight dstWidth dstHeight channels : Int32}
    (h : dstHeight.toInt ≤ 0 ∨ dstWidth.toInt ≤ 0) :
    imageResize r srcData srcWidth srcHeight dstWidth dstHeight channels = [] := by
  rw [imageResize, ImageResize.zeros, ImageResize.samples, positions_nil h]
  simp

/-- With any other number of channels there is no store at all. -/
theorem imageResize_nil {srcData : Int → UInt8}
    {srcWidth srcHeight dstWidth dstHeight channels : Int32}
    (hone : channels ≠ 1) (hthree : channels ≠ 3) :
    imageResize r srcData srcWidth srcHeight dstWidth dstHeight channels = [] := by
  rw [imageResize, ImageResize.zeros, ImageResize.samples, if_neg hone, if_neg hthree]
  simp [hone, hthree]

end EthosU
