import EthosU.InferenceRunner.Bitmap
import EthosU.InferenceRunner.PrePostProcessing

/-!
# The layout of an image in a tensor

A tensor of shape `[1, H, W, C]` holds its rows one after the other.  `getInputFromFile` gives the
second number of the shape to the decoder as the width of the destination and the third as its
height.

* `Picture.Laid` says that a tensor holds a picture in its own layout.
* `Picture.exchanged` is what it holds after `getInputFromFile`: the elements of an image of `H`
  columns and `W` rows, and not of `W` columns and `H` rows.
* `Picture.unmoved_iff_square`: that is every picture of the size if the size is that of a square,
  and only then.
-/

set_option autoImplicit false

namespace EthosU

open Wp

/-- The number of an element of a tensor, in the order of its shape. -/
def rowMajor (shape index : List Nat) : Nat :=
  (shape.zip index).foldl (fun n d ↦ n * d.1 + d.2) 0

theorem rowMajor_eq (h w c y x k : Nat) :
    rowMajor [1, h, w, c] [0, y, x, k] = Layout.offset w c y x k := by
  simp [rowMajor, Layout.offset]

namespace Picture

variable (p : Picture)

/-- The shape of a tensor for the picture. -/
def shape : List Nat := [1, p.height, p.width, p.channels]

/-- A tensor of that shape holds the picture. -/
def Laid (mem : Int → UInt8) (data : Int) : Prop :=
  ∀ y < p.height, ∀ x < p.width, ∀ k < p.channels,
    mem (data + (rowMajor p.shape [0, y, x, k] : Nat)) = p.pixel y x k

/-- What is sampled for an element of the tensor when the axes are exchanged. -/
def exchanged (y x k : Nat) : UInt8 :=
  let n := y * p.width + x
  let row := ImageResize.sourceAt .binary64 p.channels p.width p.height (n / p.height)
  let column := ImageResize.sourceAt .binary64 p.channels p.height p.width (n % p.height)
  if row < p.height ∧ column < p.width then p.pixel row column k else 0

/-- The picture is what is sampled. -/
def Unmoved : Prop :=
  ∀ y < p.height, ∀ x < p.width, ∀ k < p.channels, p.exchanged y x k = p.pixel y x k

/-- The destination has as many columns as the picture has rows. -/
theorem sized_exchanged : ImageResize.Sized (.ofNat p.width) (.ofNat p.height) (.ofNat p.height)
    (.ofNat p.width) (.ofNat p.channels) p.width p.height p.height p.width p.channels :=
  { p.sized_self with
    dstWidthEq := p.toInt_dimensions.2
    dstHeightEq := p.toInt_dimensions.1
    dstWidthPos := p.height_pos
    dstHeightPos := p.width_pos
    dstFits := by
      have hfits := p.fits
      omega }

theorem resized_exchanged {sBuffer : Int → UInt8}
    (hbuffer : ∀ n < p.height * p.width * p.channels, sBuffer n = p.byte n) (dst : Int → UInt8)
    (base : Int) {y x k : Nat} (hy : y < p.height) (hx : x < p.width) (hk : k < p.channels) :
    storeAll dst base (imageResize .binary64 sBuffer (.ofNat p.width) (.ofNat p.height)
        (.ofNat p.height) (.ofNat p.width) (.ofNat p.channels))
      (base + (Layout.offset p.width p.channels y x k : Nat)) = p.exchanged y x k := by
  -- the element of the destination with the same number
  have hn : y * p.width + x < p.width * p.height := by
    have hrow : (y + 1) * p.width ≤ p.height * p.width := Nat.mul_le_mul_right _ hy
    rw [Nat.succ_mul, Nat.mul_comm p.height] at hrow
    omega
  have hi : (y * p.width + x) / p.height < p.width :=
    Nat.div_lt_of_lt_mul (by rwa [Nat.mul_comm p.height])
  have hj : (y * p.width + x) % p.height < p.height := Nat.mod_lt _ p.height_pos
  have hsame : Layout.offset p.width p.channels y x k = Layout.offset p.height p.channels
      ((y * p.width + x) / p.height) ((y * p.width + x) % p.height) k := by
    rw [Layout.offset, Layout.offset, Nat.div_add_mod']
  rw [hsame, p.sized_exchanged.resized _ _ _ hi hj hk, exchanged]
  split
  · rename_i hinside
    rw [hbuffer _ (Layout.offset_lt hinside.1 hinside.2 hk), p.byte_offset _ hinside.2 hk]
  · rfl

/-! ## Squares -/

theorem unmoved_of_square (h : p.height = p.width) : p.Unmoved := by
  intro y hy x hx k hk
  have hlt := p.lt_int
  have hx' : x < p.height := by rwa [h]
  have hdiv : (y * p.height + x) / p.height = y := by
    rw [Nat.mul_comm, Nat.mul_add_div p.height_pos, Nat.div_eq_of_lt hx', Nat.add_zero]
  have hmod : (y * p.height + x) % p.height = x := by
    rw [Nat.mul_comm, Nat.mul_add_mod, Nat.mod_eq_of_lt hx']
  rw [exchanged, ← h, hdiv, hmod, ImageResize.sourceAt_self _ _ hy (by omega),
    ImageResize.sourceAt_self _ _ hx' (by omega), if_pos ⟨hy, hx'⟩]

/-- A picture of the same size with one white pixel. -/
def spot (y x : Nat) : Picture :=
  { p with pixel := fun y' x' _ ↦ if y' = y ∧ x' = x then 255 else 0 }

/-- The white pixel is moved if another one is sampled in its place. -/
theorem not_unmoved_spot {y x : Nat} (hy : y < p.height) (hx : x < p.width)
    (hother : ImageResize.sourceAt .binary64 p.channels p.width p.height
          ((y * p.width + x) / p.height) ≠ y
      ∨ ImageResize.sourceAt .binary64 p.channels p.height p.width
          ((y * p.width + x) % p.height) ≠ x) :
    ¬ (p.spot y x).Unmoved := by
  have hchannels : 0 < p.channels := by
    have hkinds := p.kinds
    omega
  intro hunmoved
  have hwhite : (p.spot y x).exchanged y x 0 = 255 :=
    (hunmoved y hy x hx 0 hchannels).trans (if_pos ⟨rfl, rfl⟩)
  have hblack : (p.spot y x).exchanged y x 0 = 0 := by
    rw [exchanged]
    split
    · refine if_neg fun heq ↦ ?_
      rcases hother with hrow | hcolumn
      · exact hrow heq.1
      · exact hcolumn heq.2
    · rfl
  rw [hblack] at hwhite
  exact absurd hwhite (by decide)

/-- **If the size is not that of a square, some picture is moved.** -/
theorem exists_moved (h : p.height ≠ p.width) : ∃ q : Picture, q.height = p.height
    ∧ q.width = p.width ∧ q.channels = p.channels ∧ ¬ q.Unmoved := by
  have hheight := p.height_pos
  have hwidth := p.width_pos
  rcases Nat.lt_or_gt_of_ne h with hlt | hgt
  · -- the first element of the second row is taken from the first column
    refine ⟨p.spot 0 p.height, rfl, rfl, rfl, p.not_unmoved_spot hheight hlt (.inr ?_)⟩
    rw [Nat.zero_mul, Nat.zero_add, Nat.mod_self, ImageResize.sourceAt_zero]
    exact Nat.ne_of_lt hheight
  · -- the first row is longer than a row of the picture
    refine ⟨p.spot 1 0, rfl, rfl, rfl, p.not_unmoved_spot (by omega) hwidth (.inl ?_)⟩
    rw [Nat.one_mul, Nat.add_zero, Nat.div_eq_of_lt hgt, ImageResize.sourceAt_zero]
    exact Nat.zero_ne_one

/-! ## Loading it -/

theorem length_bottomUp (form : BitmapForm) : (p.bottomUp form).length < 2 ^ 64 := by
  have hrows := (p.sized_head form).rows_le p.width_pos
  have hgap := form.gap_lt
  have hpixels := Layout.length_flatMap (l := (List.range p.height).reverse)
    (f := p.paddedRow form) fun y _ ↦ length_paddedRow p form y
  rw [List.length_reverse, List.length_range] at hpixels
  rw [bottomUp, encode, List.length_append, List.length_append, length_header, hpixels]
  omega

/-- The shape as the program has it. -/
def shapeWords : List UInt64 := p.shape.map UInt64.ofNat

variable (form : BitmapForm) (env : Env) (filename : String) (data : Int) (process : Process)

/-- `getInputFromFile` leaves the elements of the exchanged picture. -/
theorem wp_getInputFromFile (hread : (env.files filename).Readable)
    (hcontent : (env.files filename).content = p.bottomUp form) :
    wp (getInputFromFile env .uint8 filename data p.shapeWords)
      (fun result q ↦ result = 0 ∧ ∀ y < p.height, ∀ x < p.width, ∀ k < p.channels,
        q.mem (data + (rowMajor p.shape [0, y, x, k] : Nat)) = p.exchanged y x k)
      (fun _ _ ↦ False) process := by
  have hgood := (good_iff _).2 hread.2
  obtain ⟨hopens, htells, hdelivers⟩ := hread
  have hlength := p.length_bottomUp form
  have hdelivered : (env.files filename).delivered (env.files filename).tellg.toNat
      = p.bottomUp form := by
    have htellg : (env.files filename).tellg.toNat = (p.bottomUp form).length := by
      rw [File.tellg, if_pos htells, hcontent, UInt64.toNat_ofNat_of_lt' hlength]
    rw [File.delivered, if_pos htells, Nat.min_eq_left hdelivers, htellg, hcontent,
      List.take_length]
  have h1 : subscript env process p.shapeWords 1 = .ofNat p.height := rfl
  have h2 : subscript env process p.shapeWords 2 = .ofNat p.width := rfl
  have h3 : subscript env process p.shapeWords 3 = .ofNat p.channels := rfl
  obtain ⟨sBuffer, hbuffer, hdecode⟩ := p.imageDecode_bottomUp form .binary64
    (env.stackBytes process.trace) process.decodeBuffer (.ofNat p.height) (.ofNat p.width)
    (.ofNat p.channels)
  rw [if_neg (not_not_intro rfl)] at hdecode
  rw [getInputFromFile, wp_bind, wp_get]
  dsimp only
  rw [hopens, hgood, hdelivered, h1, h2, h3]
  simp only [UInt64.toUInt32_ofNat', UInt32.toInt32_ofNat', Bool.not_true, Bool.false_eq_true,
    if_false]
  rw [wp_bind, decodeInto, wp_bind, wp_get, hdecode]
  dsimp only
  rw [wp_bind, wp_modify, wp_pure, wp_bind, convertInputData, wp_bind, wp_modify, wp_pure,
    wp_bind, record, wp_modify, wp_pure]
  refine ⟨rfl, fun y hy x hx k hk ↦ ?_⟩
  have hconverted : ∀ (l : List Int32) (m : Int → UInt8),
      l.foldl (convertElement env .uint8 data) m = m := by
    intro l m
    induction l with
    | nil => rfl
    | cons i l ih => exact ih
  rw [hconverted, shape, rowMajor_eq]
  exact p.resized_exchanged hbuffer _ _ hy hx hk

end Picture

/-- Two rows of one pixel, a black one and a white one. -/
def Picture.column : Picture where
  width := 1
  height := 2
  channels := 1
  pixel := fun y _ _ ↦ if y = 0 then 0 else 255
  width_pos := by decide
  height_pos := by decide
  kinds := kinds_one
  fits := by decide

/-- An environment in which every file is a bitmap of the picture. -/
def Env.showing (p : Picture) : Env :=
  { Env.constant 0 with
    files := fun _ ↦ ⟨true, true, 2 ^ 64, p.bottomUp .plain⟩ }

theorem readable_showing (p : Picture) (filename : String) :
    ((Env.showing p).files filename).Readable :=
  ⟨rfl, rfl, Nat.le_of_lt (UInt64.toNat_lt _)⟩

end EthosU
