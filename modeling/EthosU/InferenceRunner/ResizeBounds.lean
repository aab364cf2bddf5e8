import EthosU.InferenceRunner.ImageSampling

/-!
# Resizing to any size

`IMAGE_Resize` computes positions in `int` arithmetic, and no caller keeps the sizes so small that
the positions of the destination are `int`s.  From here on, quotients are exact.

* `Sizes.unreached`: in a larger destination the last element is not stored to.
* `Sizes.inImages_iff`: when all accesses are to the two images.
-/

set_option autoImplicit false

namespace EthosU

open Narrow

namespace ImageResize

variable {srcWidth srcHeight dstWidth dstHeight channels : Int32} {w h dw dh c : Nat}

namespace Sizes

variable (hs : Sizes srcWidth srcHeight dstWidth dstHeight channels w h dw dh c)

include hs

/-- No store goes to the last element of a larger destination. -/
theorem unreached (hlarge : 2 ^ 31 < dh * dw * c) (srcData m : Int → UInt8) (base : Int) :
    storeAll m base (imageResize .exact srcData srcWidth srcHeight dstWidth dstHeight channels)
        (base + (dh * dw * c - 1 : Nat))
      = m (base + (dh * dw * c - 1 : Nat)) := by
  rw [storeAll, Layout.foldl_update_of_forall_ne]
  intro s hmem heq
  obtain ⟨i, -, j, -, k, -, hplace⟩ := hs.mem_imageResize hmem
  have hlt := wrap_lt (Layout.offset dw c i j k)
  omega

/-- The elements that are copied, if the quotients are exact. -/
theorem mem_exact_iff {s : Int × Int} :
    s ∈ samples .exact srcWidth srcHeight dstWidth dstHeight channels
      ↔ ∃ i < dh, ∃ j < dw, ∃ k < c, sampleAt c dh h i < h ∧ sampleAt c dw w j < w
        ∧ s = (wrap (Layout.offset dw c i j k),
          wrap (Layout.offset w c (sampleAt c dh h i) (sampleAt c dw w j) k)) := by
  simpa only [sourceAt_exact] using hs.mem_samples_iff (r := .exact)

/-! ## Accesses -/

omit hs in
/-- All accesses are to the images, and every byte of the destination is stored to, so that it does
not matter what it was. -/
structure InImages (srcWidth srcHeight dstWidth dstHeight channels : Int32)
    (w h dw dh c : Nat) : Prop where
  reads : ∀ s ∈ samples .exact srcWidth srcHeight dstWidth dstHeight channels,
    0 ≤ s.2 ∧ s.2 < (h * w * c : Nat)
  writes : ∀ srcData,
    ∀ s ∈ imageResize .exact srcData srcWidth srcHeight dstWidth dstHeight channels,
    0 ≤ s.1 ∧ s.1 < (dh * dw * c : Nat)
  covers : ∀ srcData, ∀ p < dh * dw * c,
    ∃ s ∈ imageResize .exact srcData srcWidth srcHeight dstWidth dstHeight channels, s.1 = (p : Nat)
  independent : ∀ srcData m m' base, ∀ p < dh * dw * c,
    storeAll m base (imageResize .exact srcData srcWidth srcHeight dstWidth dstHeight channels)
        (base + (p : Nat))
      = storeAll m' base (imageResize .exact srcData srcWidth srcHeight dstWidth dstHeight channels)
        (base + (p : Nat))

/-- The last byte of the destination is stored to. -/
theorem fits_of_inImages
    (himages : InImages srcWidth srcHeight dstWidth dstHeight channels w h dw dh c) :
    dh * dw * c ≤ 2 ^ 31 := by
  by_contra hlarge
  obtain ⟨s, hmem, hlast⟩ := himages.covers (fun _ ↦ 0) (dh * dw * c - 1) (by omega)
  obtain ⟨i, -, j, -, k, -, hplace⟩ := hs.mem_imageResize hmem
  have hlt := wrap_lt (Layout.offset dw c i j k)
  omega

/-- **When all accesses are to the images**: when the positions of the destination are `int`s, and
so are those that are sampled, up to multiples of `2 ^ 32`. -/
theorem inImages_iff : InImages srcWidth srcHeight dstWidth dstHeight channels w h dw dh c
    ↔ dh * dw * c ≤ 2 ^ 31 ∧ ∀ i < dh, ∀ j < dw, ∀ k < c,
      sampleAt c dh h i < h → sampleAt c dw w j < w →
        Layout.offset w c (sampleAt c dh h i) (sampleAt c dw w j) k % 2 ^ 32 < 2 ^ 31 := by
  refine ⟨?_, ?_⟩
  · intro himages
    refine ⟨hs.fits_of_inImages himages, fun i hi j hj k hk hrow hcolumn ↦ ?_⟩
    exact wrap_nonneg_iff.1 (himages.reads _
      (hs.mem_exact_iff.2 ⟨i, hi, j, hj, k, hk, hrow, hcolumn, rfl⟩)).1
  · rintro ⟨hfits, hsampled⟩
    constructor
    · intro s hmem
      obtain ⟨i, hi, j, hj, k, hk, hrow, hcolumn, rfl⟩ := hs.mem_exact_iff.1 hmem
      have hlt := Layout.offset_lt hrow hcolumn hk
      have hle := wrap_le (Layout.offset w c (sampleAt c dh h i) (sampleAt c dw w j) k)
      exact ⟨wrap_nonneg_iff.2 (hsampled i hi j hj k hk hrow hcolumn), by dsimp only; omega⟩
    · intro srcData s hmem
      obtain ⟨i, hi, j, hj, k, hk, heq⟩ := hs.mem_imageResize hmem
      have hlt := Layout.offset_lt hi hj hk
      rw [heq, wrap_offset hfits hi hj hk]
      omega
    · intro srcData p hp
      obtain ⟨i, hi, j, hj, k, hk, rfl⟩ := Layout.exists_offset hp
      have hzero := hs.mem_zeros_iff.2 ⟨i, hi, j, hj, k, hk, rfl⟩
      exact ⟨_, List.mem_append_left _ (List.mem_map.2 ⟨_, hzero, rfl⟩),
        wrap_offset hfits hi hj hk⟩
    · intro srcData m m' base p hp
      obtain ⟨i, hi, j, hj, k, hk, rfl⟩ := Layout.exists_offset hp
      rw [hs.resized hfits srcData m base hi hj hk, hs.resized hfits srcData m' base hi hj hk]

end Sizes

theorem sizes_enlarged : Sizes 2 2 3 3 3 2 2 3 3 3 :=
  ⟨⟨rfl, .inr rfl⟩, rfl, rfl, rfl, rfl, by decide, by decide, by decide, by decide⟩

theorem enlarged_inImages_iff : Sizes.InImages 2 2 3 3 3 2 2 3 3 3
    ↔ 3 * 3 * 3 ≤ 2 ^ 31 ∧ ∀ i < 3, ∀ j < 3, ∀ k < 3,
      sampleAt 3 3 2 i < 2 → sampleAt 3 3 2 j < 2 →
        Layout.offset 2 3 (sampleAt 3 3 2 i) (sampleAt 3 3 2 j) k % 2 ^ 32 < 2 ^ 31 :=
  sizes_enlarged.inImages_iff

theorem sizes_large : Sizes 1 1 65536 65536 1 1 1 65536 65536 1 :=
  ⟨⟨rfl, .inl rfl⟩, rfl, rfl, rfl, rfl, by decide, by decide, by decide, by decide⟩

/-- Half of a destination of 4 GiB is stored to in front of it. -/
theorem large_not_inImages : ¬ Sizes.InImages 1 1 65536 65536 1 1 1 65536 65536 1 := by
  intro himages
  have hfits := sizes_large.fits_of_inImages himages
  omega

end ImageResize

end EthosU
