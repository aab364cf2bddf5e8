import EthosU.InferenceRunner.ImageSampling
import EthosU.Kernel

/-!
# Bitmap files

A `Picture` and its encodings as an uncompressed bitmap, of one or three bytes a pixel, and what
`IMAGE_Decode` makes of them.

* `Picture.bottomUp` is the encoding with the last row first, and `Picture.topDown` the one with the
  first row first, which the sign of the height tells apart.  Whatever else is in such a file is a
  `BitmapForm`.
* `Picture.imageDecode_bottomUp` says what the decode buffer holds after an image from the bottom up
  has been decoded: the picture, in the order of its rows.
* `Picture.imageDecode_written` is the round trip, when the destination has the size of the picture.
-/

set_option autoImplicit false

namespace EthosU

/-- An image that the decode buffer has room for. -/
structure Picture where
  width : Nat
  height : Nat
  channels : Nat
  /-- The value of a channel, by row and column. -/
  pixel : Nat → Nat → Nat → UInt8
  width_pos : 0 < width
  height_pos : 0 < height
  kinds : channels = 1 ∨ channels = 3
  fits : width * height * channels ≤ 1920 * 1080 * 3

/-- A picture may be grey. -/
theorem Picture.kinds_one : 1 = 1 ∨ 1 = 3 := .inl rfl

/-- What a bitmap file holds besides its image. -/
structure BitmapForm where
  /-- The size that the file says it has. -/
  size : UInt32
  reserved : UInt32
  /-- The size of the image, its resolution and its colours. -/
  details : List UInt8
  details_length : details.length = 20
  /-- What lies between the header and the pixels. -/
  gap : List UInt8
  gap_lt : 54 + gap.length < 2 ^ 31
  /-- The bytes behind the pixels of a row. -/
  padding : Nat → Nat → UInt8

/-- A file with nothing but zeros besides its image. -/
def BitmapForm.plain : BitmapForm where
  size := 0
  reserved := 0
  details := List.replicate 20 0
  details_length := rfl
  gap := []
  gap_lt := by decide
  padding := fun _ _ ↦ 0

namespace BitmapForm

variable (form : BitmapForm)

/-- The offset of the pixels. -/
def offset : Nat := 54 + form.gap.length

/-- The header of an image with `channels` bytes a pixel. -/
def header (width height : Int32) (channels : Nat) : List UInt8 :=
  [0x42, 0x4d] ++ Bytes.encode 4 form.size.toNat ++ Bytes.encode 4 form.reserved.toNat
    ++ Bytes.encode 4 form.offset
    -- the size of this part of the header, the number of planes, no compression
    ++ Bytes.encode 4 40 ++ Bytes.encode 4 width.toUInt32.toNat
    ++ Bytes.encode 4 height.toUInt32.toNat ++ Bytes.encode 2 1 ++ Bytes.encode 2 (8 * channels)
    ++ Bytes.encode 4 0 ++ form.details

end BitmapForm

namespace Picture

variable (p : Picture) (form : BitmapForm)

/-- The elements of the picture, one after the other. -/
def byte (n : Nat) : UInt8 :=
  p.pixel (n / p.channels / p.width) (n / p.channels % p.width) (n % p.channels)

/-- One row, in BGR order. -/
def row (y : Nat) : List UInt8 :=
  (List.range p.width).flatMap fun x ↦
    (List.range p.channels).map fun k ↦ p.pixel y x (p.channels - 1 - k)

def paddedRow (y : Nat) : List UInt8 :=
  p.row y
    ++ (List.range (rowBytes p.width p.channels - p.width * p.channels)).map (form.padding y)

/-- The file, with a choice of the sign of the height and of the order of the rows. -/
def encode (height : Int32) (rows : List Nat) : List UInt8 :=
  form.header (.ofNat p.width) height p.channels ++ form.gap ++ rows.flatMap (p.paddedRow form)

def bottomUp : List UInt8 :=
  p.encode form (.ofNat p.height) (List.range p.height).reverse

def topDown : List UInt8 := p.encode form (-.ofNat p.height) (List.range p.height)

end Picture

/-! ## Reading the file -/

/-- Bytes in the middle of what has been stored. -/
theorem load_storeBytes (m : Int → UInt8) (pre mid post : List UInt8) :
    Bytes.load (fun a ↦ storeBytes m 0 (pre ++ (mid ++ post)) a) pre.length mid.length = mid := by
  refine List.ext_getElem (Bytes.length_load _ _ _) fun i hi hi' ↦ ?_
  have hnonneg : (0 : Int) ≤ ((pre.length + i : Nat) : Int) := Int.natCast_nonneg _
  simp only [Bytes.load, Bytes.gather, List.getElem_map, List.getElem_range, storeBytes,
    if_pos hnonneg, Int.sub_zero, Int.toNat_natCast]
  rw [List.getD_append_right _ _ _ _ (by omega), Nat.add_sub_cancel_left,
    List.getD_append _ _ _ _ hi', List.getD_eq_getElem _ _ hi']

/-- A member of the header. -/
theorem field_storeBytes (m : Int → UInt8) (pre : List UInt8) {file : List UInt8} {n : Nat}
    {v : Int32}
    (hfile : pre ++ Bytes.encode 4 v.toUInt32.toNat <+: file) (hn : pre.length = n) :
    BmpHeader.field (storeBytes m 0 file) n = v := by
  obtain ⟨post, rfl⟩ := hfile
  have hload := load_storeBytes m pre (Bytes.encode 4 v.toUInt32.toNat) post
  rw [Bytes.length_encode, ← List.append_assoc] at hload
  have hlt : v.toUInt32.toNat < 256 ^ 4 := v.toUInt32.toNat_lt
  subst hn
  rw [BmpHeader.field, Bytes.word, hload, Bytes.decode_encode, Nat.mod_eq_of_lt hlt,
    UInt32.ofNat_toNat, Int32.toInt32_toUInt32]

namespace Picture

variable (p : Picture) (form : BitmapForm)

theorem length_header (width height : Int32) :
    (form.header width height p.channels).length = 54 := by
  simp [BitmapForm.header, form.details_length]

theorem length_row (y : Nat) : (p.row y).length = p.width * p.channels := by
  have hlen := Layout.length_flatMap (l := List.range p.width) (n := p.channels)
    (f := fun x ↦ (List.range p.channels).map fun k ↦ p.pixel y x (p.channels - 1 - k))
    fun x _ ↦ by simp
  rw [row, hlen, List.length_range]

theorem length_paddedRow (y : Nat) :
    (p.paddedRow form y).length = rowBytes p.width p.channels := by
  have hle := le_rowBytes p.width p.channels
  rw [paddedRow, List.length_append, length_row, List.length_map, List.length_range]
  omega

theorem getD_paddedRow (y : Nat) {x k : Nat} (hx : x < p.width) (hk : k < p.channels) (d : UInt8) :
    (p.paddedRow form y).getD (x * p.channels + k) d = p.pixel y x (p.channels - 1 - k) := by
  have hlt : x * p.channels + k < (p.row y).length := by
    have hle : (x + 1) * p.channels ≤ p.width * p.channels := Nat.mul_le_mul_right _ hx
    rw [Nat.succ_mul] at hle
    rw [length_row]
    omega
  have hx' : x < (List.range p.width).length := by rwa [List.length_range]
  rw [paddedRow, List.getD_append _ _ _ _ hlt, row,
    Layout.getD_flatMap (fun x _ ↦ by simp) hx' hk, List.getElem_range]
  simp [hk]

section

variable (m : Int → UInt8) (height : Int32) (rows : List Nat)

theorem field_headerSize :
    BmpHeader.field (storeBytes m 0 (p.encode form height rows)) 10 = .ofNat form.offset := by
  have hlt : form.offset < 2 ^ 32 := Nat.lt_trans form.gap_lt (by decide)
  refine field_storeBytes m ([0x42, 0x4d] ++ Bytes.encode 4 form.size.toNat
    ++ Bytes.encode 4 form.reserved.toNat) ?_ (by simp)
  rw [encode, BitmapForm.header, Int32.toUInt32_ofNat', UInt32.toNat_ofNat_of_lt' hlt]
  simp only [List.append_assoc, List.prefix_append_right_inj, List.prefix_append]

theorem field_width :
    BmpHeader.field (storeBytes m 0 (p.encode form height rows)) 18 = .ofNat p.width := by
  refine field_storeBytes m ([0x42, 0x4d] ++ Bytes.encode 4 form.size.toNat
    ++ Bytes.encode 4 form.reserved.toNat ++ Bytes.encode 4 form.offset
    ++ Bytes.encode 4 40) ?_ (by simp)
  rw [encode, BitmapForm.header]
  simp only [List.append_assoc, List.prefix_append_right_inj, List.prefix_append]

theorem field_height :
    BmpHeader.field (storeBytes m 0 (p.encode form height rows)) 22 = height := by
  refine field_storeBytes m ([0x42, 0x4d] ++ Bytes.encode 4 form.size.toNat
    ++ Bytes.encode 4 form.reserved.toNat ++ Bytes.encode 4 form.offset ++ Bytes.encode 4 40
    ++ Bytes.encode 4 (Int32.ofNat p.width).toUInt32.toNat) ?_ (by simp)
  rw [encode, BitmapForm.header]
  simp only [List.append_assoc, List.prefix_append_right_inj, List.prefix_append]

/-- The number of bits takes two bytes, and the two behind it are zero. -/
theorem field_bpp :
    BmpHeader.field (storeBytes m 0 (p.encode form height rows)) 28
      = .ofNat (8 * p.channels) := by
  have hbits : Bytes.encode 2 (8 * p.channels) ++ Bytes.encode 4 0
      = Bytes.encode 4 (Int32.ofNat (8 * p.channels)).toUInt32.toNat ++ Bytes.encode 2 0 := by
    rcases p.kinds with hc | hc <;> rw [hc] <;> rfl
  refine field_storeBytes m ([0x42, 0x4d] ++ Bytes.encode 4 form.size.toNat
    ++ Bytes.encode 4 form.reserved.toNat ++ Bytes.encode 4 form.offset ++ Bytes.encode 4 40
    ++ Bytes.encode 4 (Int32.ofNat p.width).toUInt32.toNat
    ++ Bytes.encode 4 height.toUInt32.toNat ++ Bytes.encode 2 1) ?_ (by simp)
  refine (List.prefix_append_right_inj _).2 (List.prefix_append _ (Bytes.encode 2 0)) |>.trans ?_
  rw [← hbits, encode, BitmapForm.header]
  simp only [List.append_assoc, List.prefix_append_right_inj, List.prefix_append]

/-- What the decoder reads in the header. -/
theorem read_encode : BmpHeader.read (storeBytes m 0 (p.encode form height rows))
    = { headerSize := .ofNat form.offset
        width := .ofNat p.width
        height := height
        bpp := .ofNat (8 * p.channels) } := by
  rw [BmpHeader.read, field_headerSize, field_width, field_height, field_bpp]

/-- What it finds behind the header. -/
theorem storeBytes_encode {r x k : Nat} (hr : r < rows.length) (hx : x < p.width)
    (hk : k < p.channels) :
    storeBytes m 0 (p.encode form height rows)
        ((Int32.ofNat form.offset).toInt
          + (r * rowBytes p.width p.channels + x * p.channels + k : Nat))
      = p.pixel rows[r] x (p.channels - 1 - k) := by
  have hoffset : (Int32.ofNat form.offset).toInt = form.offset :=
    Int32.toInt_ofNat_of_lt form.gap_lt
  have hcolumn : x * p.channels + k < rowBytes p.width p.channels := by
    have hle := le_rowBytes p.width p.channels
    have hmul : (x + 1) * p.channels ≤ p.width * p.channels := Nat.mul_le_mul_right _ hx
    rw [Nat.succ_mul] at hmul
    omega
  have hfront : (form.header (.ofNat p.width) height p.channels ++ form.gap).length
      = form.offset := by
    rw [List.length_append, length_header, BitmapForm.offset]
  have hskip : ((form.offset : Int)
        + (r * rowBytes p.width p.channels + x * p.channels + k : Nat) - 0).toNat
      = form.offset + (r * rowBytes p.width p.channels + (x * p.channels + k)) := by
    omega
  rw [storeBytes, hoffset, if_pos (by omega), hskip, encode,
    List.getD_append_right _ _ _ _ (by omega), hfront, Nat.add_sub_cancel_left,
    Layout.getD_flatMap (fun y _ ↦ length_paddedRow p form y) hr hcolumn,
    getD_paddedRow p form _ hx hk]

end

/-! ## Decoding it -/

/-- The header of the file, from the bottom up. -/
def head (height : Int32) : BmpHeader where
  headerSize := .ofNat form.offset
  width := .ofNat p.width
  height := height
  bpp := .ofNat (8 * p.channels)

@[simp] theorem channels_head (height : Int32) :
    (p.head form height).channels = .ofNat p.channels := by
  have hvalue : Int32.ofNat (8 * p.channels) / 8 = .ofNat p.channels := by
    rcases p.kinds with hc | hc <;> rw [hc] <;> decide
  exact hvalue

theorem toInt_channels : (Int32.ofNat p.channels).toInt = p.channels := by
  rcases p.kinds with hc | hc <;> rw [hc] <;> rfl

/-- The dimensions are `int`s. -/
theorem lt_int : p.width < 2 ^ 31 ∧ p.height < 2 ^ 31 := by
  have hfits := p.fits
  have hkinds := p.kinds
  have hpixels : p.width * p.height ≤ p.width * p.height * p.channels :=
    Nat.le_mul_of_pos_right _ (by omega)
  have hwidth := Nat.le_mul_of_pos_right p.width p.height_pos
  have hheight := Nat.le_mul_of_pos_left p.height p.width_pos
  omega

theorem toInt_dimensions :
    (Int32.ofNat p.width).toInt = p.width ∧ (Int32.ofNat p.height).toInt = p.height :=
  ⟨Int32.toInt_ofNat_of_lt p.lt_int.1, Int32.toInt_ofNat_of_lt p.lt_int.2⟩

theorem sized_head :
    (p.head form (.ofNat p.height)).Sized p.width p.height p.channels where
  widthEq := p.toInt_dimensions.1
  heightEq := p.toInt_dimensions.2
  channelsEq := by rw [channels_head, toInt_channels]
  kinds := p.kinds
  fits := p.fits

/-- The image is not too large. -/
theorem not_too_large : ¬ (p.head form (.ofNat p.height)).width
    * (p.head form (.ofNat p.height)).height * (p.head form (.ofNat p.height)).channels
      > decodeBufferSize := by
  have hs := p.sized_head form
  have hvalue := IntExpr.toInt_eval hs.fits_sizeInt
  have hexact : (p.head form (.ofNat p.height)).sizeInt.exact
      = (p.width * p.height * p.channels : Nat) := by
    simp only [BmpHeader.sizeInt, IntExpr.exact_mul, IntExpr.exact_val, hs.widthEq, hs.heightEq,
      hs.channelsEq]
    push_cast
    rfl
  have hfits := p.fits
  have hsize : decodeBufferSize.toInt = 1920 * 1080 * 3 := rfl
  rw [BmpHeader.eval_sizeInt, hexact] at hvalue
  rw [gt_iff_lt, Int32.lt_iff_toInt_lt, hvalue, hsize]
  omega

/-- The elements of the picture have the numbers that the decoder stores them at. -/
theorem byte_offset (y : Nat) {x k : Nat} (hx : x < p.width) (hk : k < p.channels) :
    p.byte (Layout.offset p.width p.channels y x k) = p.pixel y x k := by
  obtain ⟨hchannel, hcolumn, hrow⟩ := Layout.offset_div (y := y) hx hk
  rw [byte, hchannel, hcolumn, hrow]

/-- The decode buffer holds the picture. -/
theorem storeAll_copies (m sBuffer : Int → UInt8) {n : Nat}
    (hn : n < p.height * p.width * p.channels) :
    storeAll sBuffer 0 ((p.head form (.ofNat p.height)).copies.map fun (i, src) ↦
        (i, storeBytes m 0 (p.bottomUp form) src)) n = p.byte n := by
  have hs := p.sized_head form
  obtain ⟨y, hy, x, hx, k, hk, rfl⟩ := Layout.exists_offset hn
  rw [storeAll, List.foldl_map, byte_offset p y hx hk]
  refine Layout.foldl_update_eq _ _ _ _
    ⟨_, (BmpHeader.mem_copies_iff hs).2 ⟨y, hy, x, hx, k, hk, rfl⟩, Int.zero_add _⟩ ?_
  intro s hmem heq
  obtain ⟨y', hy', x', hx', k', hk', rfl⟩ := (BmpHeader.mem_copies_iff hs).1 hmem
  obtain ⟨rfl, rfl, rfl⟩ :=
    Layout.offset_inj hx' hk' hx hk (Int.ofNat_inj.1 ((Int.zero_add _).symm.trans heq))
  -- the rows of the file are in the opposite order, and so are the channels of a pixel
  have hrow : p.height - 1 - y' < ((List.range p.height).reverse).length := by
    rw [List.length_reverse, List.length_range]
    omega
  have hback : p.height - 1 - (p.height - 1 - y') = y' := by omega
  have hchannel : p.channels - 1 - (p.channels - 1 - k') = k' := by omega
  refine (storeBytes_encode p form m _ _ hrow hx' (by omega)).trans ?_
  rw [List.getElem_reverse, List.getElem_range, List.length_range, hback, hchannel]

/-- **What the decoder makes of an image from the bottom up.** -/
theorem imageDecode_bottomUp (r : Rounding) (m sBuffer : Int → UInt8)
    (dstWidth dstHeight dstChannels : Int32) :
    ∃ sBuffer' : Int → UInt8, (∀ n < p.height * p.width * p.channels, sBuffer' n = p.byte n)
      ∧ imageDecode r (storeBytes m 0 (p.bottomUp form)) sBuffer dstWidth dstHeight dstChannels
        = if Int32.ofNat p.channels ≠ dstChannels then .aborted
          else .decoded sBuffer' (imageResize r sBuffer' (.ofNat p.width) (.ofNat p.height) dstWidth
            dstHeight (.ofNat p.channels)) := by
  have hkinds : Int32.ofNat p.channels = 1 ∨ Int32.ofNat p.channels = 3 := by
    rcases p.kinds with hc | hc <;> rw [hc]
    · exact .inl rfl
    · exact .inr rfl
  refine ⟨_, fun n hn ↦ p.storeAll_copies form m sBuffer hn, ?_⟩
  have hread : BmpHeader.read (storeBytes m 0 (p.bottomUp form)) = p.head form (.ofNat p.height) :=
    p.read_encode form m _ _
  rw [imageDecode, hread]
  dsimp only
  rw [if_neg (p.not_too_large form), channels_head, if_pos hkinds, if_neg]
  · rfl
  · rintro ⟨hone, hthree, -⟩
    exact hkinds.elim hone hthree

/-- The destination has the size of the picture. -/
theorem sized_self : ImageResize.Sized (.ofNat p.width) (.ofNat p.height) (.ofNat p.width)
    (.ofNat p.height) (.ofNat p.channels) p.width p.height p.width p.height p.channels where
  srcWidthEq := p.toInt_dimensions.1
  srcHeightEq := p.toInt_dimensions.2
  dstWidthEq := p.toInt_dimensions.1
  dstHeightEq := p.toInt_dimensions.2
  channelsEq := p.toInt_channels
  kinds := p.kinds
  srcWidthPos := p.width_pos
  srcHeightPos := p.height_pos
  dstWidthPos := p.width_pos
  dstHeightPos := p.height_pos
  srcFits := by
    have hfits := p.fits
    rw [Nat.mul_comm p.height]
    omega
  dstFits := by
    have hfits := p.fits
    rw [Nat.mul_comm p.height]
    omega

/-- At its own size, the picture is copied. -/
theorem resized_self (r : Rounding) {sBuffer : Int → UInt8}
    (hbuffer : ∀ n < p.height * p.width * p.channels, sBuffer n = p.byte n) (dst : Int → UInt8)
    (base : Int) {y x k : Nat} (hy : y < p.height) (hx : x < p.width) (hk : k < p.channels) :
    storeAll dst base (imageResize r sBuffer (.ofNat p.width) (.ofNat p.height) (.ofNat p.width)
        (.ofNat p.height) (.ofNat p.channels))
      (base + (Layout.offset p.width p.channels y x k : Nat)) = p.pixel y x k := by
  have hlt := p.lt_int
  rw [p.sized_self.resized _ _ _ hy hx hk, ImageResize.sourceAt_self _ _ hy (by omega),
    ImageResize.sourceAt_self _ _ hx (by omega), if_pos ⟨hy, hx⟩,
    hbuffer _ (Layout.offset_lt hy hx hk), p.byte_offset y hx hk]

end Picture

/-- No `int` overflows in `IMAGE_Decode` and `IMAGE_Resize`, and no number that is converted to
`int` is out of its range. -/
def NoOverflow (r : Rounding) (h : BmpHeader) (dstWidth dstHeight : Int32) : Prop :=
  (∀ e ∈ h.ints ++ ImageResize.ints r h.width h.height dstWidth dstHeight h.channels, e.Fits)
    ∧ ∀ q ∈ ImageResize.casts r h.width h.height dstWidth dstHeight h.channels,
      -2 ^ 31 - 1 < q ∧ q < 2 ^ 31

end EthosU
