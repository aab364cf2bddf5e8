import EthosU.InferenceRunner.Bitmap

/-!
# The orientation of a bitmap

A negative height says that the first row of a bitmap comes first.  `IMAGE_Decode` has a formula for
the positions of such a file, but its loop `for (int i = 0; i < height; i++)` ends before the first
row, and the negative height goes on to `IMAGE_Resize`, where no row lies inside the image.

* `Picture.imageDecode_topDown`: nothing of the file is copied, and the destination is set to zero.
* `Picture.Dark` says that the destination is to be all zero anyway.
* `Picture.sameOutcome_iff`: then, and if the number of channels is refused, both orientations have
  the same outcome, and otherwise they have not.
-/

set_option autoImplicit false

namespace EthosU

/-- What the caller of `IMAGE_Decode` has in the end: the code it returns, unless an assertion
fails, and the memory that `dstData` points to. -/
def Decoding.outcome (m : Int → UInt8) (base : Int) : Decoding → Option (Int32 × (Int → UInt8))
  | .failed => some (-1, m)
  | .aborted => none
  | .decoded _ stores => some (0, storeAll m base stores)

/-- Nothing is sampled from an image without a row. -/
theorem ImageResize.samples_nil {r : Rounding}
    {srcWidth srcHeight dstWidth dstHeight channels : Int32}
    (h : srcHeight.toInt ≤ 0) : samples r srcWidth srcHeight dstWidth dstHeight channels = [] := by
  have hzero : (0 : Int32).toInt = 0 := rfl
  have hnone : ∀ preI preJ : Int32,
      ¬ (preI ≥ 0 ∧ preI < srcHeight ∧ preJ ≥ 0 ∧ preJ < srcWidth) := by
    rintro preI preJ ⟨hlower, hupper, -⟩
    rw [ge_iff_le, Int32.le_iff_toInt_le, hzero] at hlower
    rw [Int32.lt_iff_toInt_lt] at hupper
    omega
  rw [samples]
  dsimp only
  split
  · exact List.flatMap_eq_nil_iff.2 fun _ _ ↦ if_neg (hnone _ _)
  · split
    · exact List.flatMap_eq_nil_iff.2 fun _ _ ↦ if_neg (hnone _ _)
    · rfl

namespace Picture

variable (p : Picture) (form : BitmapForm)

theorem toInt_neg_height : (-Int32.ofNat p.height).toInt = -(p.height : Int) := by
  have hlt := p.lt_int.2
  rw [← Int32.ofInt_eq_ofNat, ← Int32.ofInt_neg, Int32.toInt_ofInt_of_le (by omega) (by omega)]

/-- The product of the dimensions is negative. -/
theorem not_too_large_topDown : ¬ (p.head form (-.ofNat p.height)).width
    * (p.head form (-.ofNat p.height)).height * (p.head form (-.ofNat p.height)).channels
      > decodeBufferSize := by
  have hfits := p.fits
  have hkinds := p.kinds
  have hpixels : p.width * p.height ≤ p.width * p.height * p.channels :=
    Nat.le_mul_of_pos_right _ (by omega)
  have hsize : decodeBufferSize.toInt = 1920 * 1080 * 3 := rfl
  have hwidth : (p.head form (-.ofNat p.height)).width.toInt = p.width := p.toInt_dimensions.1
  have hheight : (p.head form (-.ofNat p.height)).height.toInt = -p.height := p.toInt_neg_height
  have hchannels : (p.head form (-.ofNat p.height)).channels.toInt = p.channels := by
    rw [channels_head, toInt_channels]
  have hprod : (p.width : Int) * -p.height = -(p.width * p.height : Nat) := by push_cast; ring
  have hprod' : -((p.width * p.height : Nat) : Int) * p.channels
      = -(p.width * p.height * p.channels : Nat) := by push_cast; ring
  have hvalue : (p.head form (-.ofNat p.height)).sizeInt.eval.toInt
      = -(p.width * p.height * p.channels : Nat) := by
    rw [IntExpr.toInt_eval]
    · simp only [BmpHeader.sizeInt, IntExpr.exact_mul, IntExpr.exact_val, hwidth, hheight,
        hchannels, hprod, hprod']
    · simp only [BmpHeader.sizeInt, IntExpr.fits_mul, IntExpr.fits_val, IntExpr.exact_mul,
        IntExpr.exact_val, hwidth, hheight, hchannels, hprod, hprod', IntExpr.InRange, true_and]
      clear hprod hprod'
      omega
  rw [BmpHeader.eval_sizeInt] at hvalue
  rw [gt_iff_lt, Int32.lt_iff_toInt_lt, hvalue, hsize]
  omega

variable (m sBuffer : Int → UInt8) (dstWidth dstHeight dstChannels : Int32)

/-- The size check and the check of the channels pass, and no loop is entered. -/
theorem imageDecode_topDown :
    imageDecode .binary64 (storeBytes m 0 (p.topDown form)) sBuffer dstWidth dstHeight dstChannels
      = if Int32.ofNat p.channels ≠ dstChannels then .aborted
        else .decoded sBuffer ((ImageResize.zeros dstWidth dstHeight (.ofNat p.channels)).map
          fun i ↦ (i, 0)) := by
  have hread : BmpHeader.read (storeBytes m 0 (p.topDown form))
      = p.head form (-.ofNat p.height) := p.read_encode form m _ _
  have hnegative : (p.head form (-.ofNat p.height)).height.toInt ≤ 0 := by
    have hheight : (p.head form (-.ofNat p.height)).height.toInt = -p.height :=
      p.toInt_neg_height
    omega
  have hpositions : positions (p.head form (-.ofNat p.height)).height
      (p.head form (-.ofNat p.height)).width = [] := positions_nil (.inl hnegative)
  have hcopies : (p.head form (-.ofNat p.height)).copies = [] := by
    rw [BmpHeader.copies, hpositions, List.flatMap_nil]
  rw [imageDecode, hread]
  dsimp only
  rw [if_neg (p.not_too_large_topDown form), hpositions, hcopies, imageResize,
    ImageResize.samples_nil hnegative, if_neg fun h ↦ h.2.2 rfl, channels_head, List.map_nil,
    List.map_nil, List.append_nil, ite_self]
  rfl

/-- Every element of the picture that the resizing leaves in the destination is zero.  An element
may be sampled and then be overwritten, if there are so many positions that they wrap. -/
def Dark : Prop :=
  ∀ s, Layout.IsLast Prod.fst (ImageResize.samples .binary64 (.ofNat p.width) (.ofNat p.height)
    dstWidth dstHeight (.ofNat p.channels)) s → p.byte s.2.toNat = 0

theorem toChannels : Channels (.ofNat p.channels) p.channels := ⟨p.toInt_channels, p.kinds⟩

/-- What is sampled from the decode buffer is an element of the picture. -/
theorem sample_byte {sBuffer : Int → UInt8}
    (hbuffer : ∀ n < p.height * p.width * p.channels, sBuffer n = p.byte n) {s : Int × Int}
    (hmem : s ∈ ImageResize.samples .binary64 (.ofNat p.width) (.ofNat p.height) dstWidth dstHeight
      (.ofNat p.channels)) : sBuffer s.2 = p.byte s.2.toNat := by
  have hfits := p.fits
  have hlt : p.height * p.width * p.channels < 2 ^ 31 := by
    rw [Nat.mul_comm p.height]
    omega
  obtain ⟨n, hn, heq⟩ := p.toChannels.sample_lt p.toInt_dimensions.1 p.toInt_dimensions.2 hlt hmem
  rw [heq, hbuffer n hn, Int.toNat_natCast]

/-- The destination after zeros and then samples have been stored is that after the zeros alone
exactly if all samples that stay are zero. -/
theorem storeAll_zeros_iff {sBuffer dst : Int → UInt8}
    (hbuffer : ∀ n < p.height * p.width * p.channels, sBuffer n = p.byte n) (base : Int) :
    storeAll dst base ((ImageResize.zeros dstWidth dstHeight (.ofNat p.channels)).map
        fun i ↦ (i, 0))
      = storeAll dst base (imageResize .binary64 sBuffer (.ofNat p.width) (.ofNat p.height) dstWidth
        dstHeight (.ofNat p.channels))
    ↔ p.Dark dstWidth dstHeight := by
  have hzero : ∀ s ∈ ImageResize.samples .binary64 (.ofNat p.width) (.ofNat p.height) dstWidth
      dstHeight (.ofNat p.channels), storeAll dst base ((ImageResize.zeros dstWidth dstHeight
        (.ofNat p.channels)).map fun i ↦ (i, 0)) (base + s.1) = 0 := by
    intro s hmem
    rw [storeAll, List.foldl_map]
    exact Layout.foldl_update_eq _ _ _ _ ⟨_, p.toChannels.mem_zeros_of_mem_samples hmem, rfl⟩
      fun _ _ _ ↦ rfl
  have hlast : ∀ s, Layout.IsLast Prod.fst (ImageResize.samples .binary64 (.ofNat p.width)
      (.ofNat p.height) dstWidth dstHeight (.ofNat p.channels)) s →
      storeAll dst base (imageResize .binary64 sBuffer (.ofNat p.width) (.ofNat p.height) dstWidth
        dstHeight (.ofNat p.channels)) (base + s.1) = p.byte s.2.toNat := by
    intro s hs
    rw [← p.sample_byte dstWidth dstHeight hbuffer hs.mem, imageResize, storeAll,
      List.foldl_append, List.foldl_map, List.foldl_map]
    obtain ⟨l₁, l₂, heq, hne⟩ := hs
    exact Layout.foldl_update_of_isLast (fun s : Int × Int ↦ base + s.1) (fun s ↦ sBuffer s.2)
      ⟨l₁, l₂, heq, fun t ht htne ↦ hne t ht (Int.add_left_cancel htne)⟩ _
  refine ⟨?_, ?_⟩
  · intro heq s hs
    rw [← hlast s hs, ← heq, hzero s hs.mem]
  · intro hdark
    funext a
    by_cases hex : ∃ s ∈ ImageResize.samples .binary64 (.ofNat p.width) (.ofNat p.height) dstWidth
        dstHeight (.ofNat p.channels), s.1 = a - base
    · obtain ⟨s, hs, heq⟩ := Layout.exists_isLast Prod.fst hex
      obtain rfl : a = base + s.1 := by omega
      rw [hzero s hs.mem, hlast s hs, hdark s hs]
    · rw [imageResize, storeAll, storeAll, List.foldl_append, List.foldl_map, List.foldl_map]
      refine (Layout.foldl_update_of_forall_ne _ _ _ _ ?_).symm
      rintro ⟨i, src⟩ hs heq
      exact hex ⟨_, hs, by dsimp only at heq ⊢; omega⟩

/-- If no position wraps, nothing is overwritten: every element that is sampled has to be zero. -/
theorem dark_iff {dw dh : Nat} (hwidth : dstWidth.toInt = dw) (hheight : dstHeight.toInt = dh)
    (hpos : 0 < dh * dw) (hlt : dh * dw * p.channels < 2 ^ 31) :
    p.Dark dstWidth dstHeight ↔ ∀ i < dh, ∀ j < dw, ∀ k < p.channels,
      ImageResize.sourceAt .binary64 p.channels dh p.height i < p.height →
      ImageResize.sourceAt .binary64 p.channels dw p.width j < p.width →
      p.pixel (ImageResize.sourceAt .binary64 p.channels dh p.height i)
        (ImageResize.sourceAt .binary64 p.channels dw p.width j) k = 0 := by
  have hs : ImageResize.Sized (.ofNat p.width) (.ofNat p.height) dstWidth dstHeight
      (.ofNat p.channels) p.width p.height dw dh p.channels :=
    { p.sized_self with
      dstWidthEq := hwidth
      dstHeightEq := hheight
      dstWidthPos := Nat.pos_of_mul_pos_left hpos
      dstHeightPos := Nat.pos_of_mul_pos_right hpos
      dstFits := hlt }
  refine ⟨?_, ?_⟩
  · intro hdark i hi j hj k hk hrow hcolumn
    obtain ⟨s, hlast, heq⟩ := Layout.exists_isLast Prod.fst
      ⟨_, hs.mem_samples_iff.2 ⟨i, hi, j, hj, k, hk, hrow, hcolumn, rfl⟩, rfl⟩
    obtain ⟨i', hi', j', hj', k', hk', hrow', hcolumn', rfl⟩ := hs.mem_samples_iff.1 hlast.mem
    obtain ⟨rfl, rfl, rfl⟩ := Layout.offset_inj hj' hk' hj hk (Int.ofNat_inj.1 heq)
    rw [← p.byte_offset _ hcolumn hk]
    exact hdark _ hlast
  · intro hall s hlast
    obtain ⟨i, hi, j, hj, k, hk, hrow, hcolumn, rfl⟩ := hs.mem_samples_iff.1 hlast.mem
    rw [Int.toNat_natCast, p.byte_offset _ hcolumn hk]
    exact hall i hi j hj k hk hrow hcolumn

end Picture

/-- **Both orientations have the same outcome exactly if the channels are refused or the destination
is to be zero.**  The two files may differ in all the rest. -/
theorem Picture.sameOutcome_iff (p : Picture) (form form' : BitmapForm)
    (m m' sBuffer sBuffer' dst : Int → UInt8) (base : Int)
    (dstWidth dstHeight dstChannels : Int32) :
    (imageDecode .binary64 (storeBytes m 0 (p.topDown form)) sBuffer dstWidth dstHeight
          dstChannels).outcome dst base
        = (imageDecode .binary64 (storeBytes m' 0 (p.bottomUp form')) sBuffer' dstWidth dstHeight
          dstChannels).outcome dst base
      ↔ Int32.ofNat p.channels ≠ dstChannels ∨ p.Dark dstWidth dstHeight := by
  obtain ⟨sBuffer'', hbuffer, hdecode⟩ :=
    p.imageDecode_bottomUp form' .binary64 m' sBuffer' dstWidth dstHeight dstChannels
  rw [hdecode, p.imageDecode_topDown]
  by_cases hchannels : Int32.ofNat p.channels ≠ dstChannels
  · simp [hchannels]
  · simp only [hchannels, if_false, false_or, Decoding.outcome, Option.some.injEq, Prod.mk.injEq,
      true_and]
    exact p.storeAll_zeros_iff dstWidth dstHeight hbuffer base

/-- One white pixel. -/
def Picture.white : Picture where
  width := 1
  height := 1
  channels := 1
  pixel := fun _ _ _ ↦ 255
  width_pos := Nat.one_pos
  height_pos := Nat.one_pos
  kinds := kinds_one
  fits := by decide

/-- A white pixel becomes black. -/
theorem Picture.white_differs :
    ¬ ∀ (p : Picture) (form : BitmapForm) (m sBuffer dst : Int → UInt8) (base : Int)
      (dstWidth dstHeight dstChannels : Int32),
      (imageDecode .binary64 (storeBytes m 0 (p.topDown form)) sBuffer dstWidth dstHeight
          dstChannels).outcome dst base
        = (imageDecode .binary64 (storeBytes m 0 (p.bottomUp form)) sBuffer dstWidth dstHeight
          dstChannels).outcome dst base := by
  intro h
  have hsame := h .white .plain (fun _ ↦ 0) (fun _ ↦ 0) (fun _ ↦ 0) 0
    (.ofNat Picture.white.width) (.ofNat Picture.white.height) (.ofNat Picture.white.channels)
  obtain ⟨sBuffer', hbuffer, hdecode⟩ := Picture.white.imageDecode_bottomUp .plain .binary64
    (fun _ ↦ 0) (fun _ ↦ 0) (.ofNat Picture.white.width) (.ofNat Picture.white.height)
    (.ofNat Picture.white.channels)
  rw [hdecode, Picture.imageDecode_topDown, if_neg (not_not_intro rfl),
    if_neg (not_not_intro rfl)] at hsame
  have hpixel := congrFun (Prod.mk.inj (Option.some.inj hsame)).2 0
  have hresized := Picture.white.resized_self .binary64 hbuffer (fun _ ↦ 0) 0
    (y := 0) (x := 0) (k := 0) Nat.one_pos Nat.one_pos Nat.one_pos
  have hblack : (0 : UInt8) = 255 := hpixel.trans hresized
  exact absurd hblack (by decide)

end EthosU
