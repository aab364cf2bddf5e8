import EthosU.InferenceRunner.Conversion
import EthosU.InferenceRunner.TensorLayout
import Mathlib.Data.Set.Operations

/-!
# What a tensor shows

`getInputFromFile` fills a tensor of any shape from any file.  This file says what it leaves in
memory, for a tensor that there is room for.

* `Tensor` is what the program is told of a tensor, and `Tensor.Fits` that a buffer has room for it.
* `Tensor.Shows` says that a tensor holds the elements made from a picture, which has been scaled to
  its dimensions (`Picture.scaled`).
* `Tensor.wp_getInputFromFile`: whatever the file is, memory outside of the tensor stays as it is,
  and if it is a bitmap the tensor shows the picture (`Tensor.Loaded`).
-/

set_option autoImplicit false

namespace EthosU

open Wp Set

/-- A tensor of a type that can be filled. -/
structure Tensor where
  type : ElementType
  shape : List UInt64

/-- The element of a picture that is scaled to other dimensions. -/
def Picture.scaled (p : Picture) (width height y x k : Nat) : UInt8 :=
  let row := ImageResize.sourceAt .binary64 p.channels height p.height y
  let column := ImageResize.sourceAt .binary64 p.channels width p.width x
  if row < p.height ∧ column < p.width then p.pixel row column k else 0

namespace Tensor

variable (x : Tensor)

/-- The dimensions, in the order in which the program gives them to the decoder. -/
def width : Nat := (x.shape.getD 1 0).toNat

def height : Nat := (x.shape.getD 2 0).toNat

def channels : Nat := (x.shape.getD 3 0).toNat

def elements : Nat := x.width * x.height * x.channels

/-- The bytes of all elements. -/
def size : Nat := x.elements * x.type.size

/-- The addresses of a tensor that begins at `a`. -/
def region (a : Int) : Set Int := {addr | a ≤ addr ∧ addr < a + x.size}

/-- There is room for the tensor, and the number of its elements is an `int`. -/
structure Fits (room : UInt64) : Prop where
  rank : 4 ≤ x.shape.length
  width_lt : x.width < 2 ^ 31
  height_lt : x.height < 2 ^ 31
  channels_lt : x.channels < 2 ^ 31
  elements_lt : x.elements < 2 ^ 31
  size_le : x.size ≤ room.toNat

/-- The tensor at `a` holds the elements that are made from a picture.  The conversion happens in
place, so it begins with the bytes of the scaled picture. -/
def Shows (env : Env) (p : Picture) (a : Int) (mem : Int → UInt8) : Prop :=
  ∃ decoded : Int → UInt8,
    (∀ i < x.height, ∀ j < x.width, ∀ k < x.channels,
      decoded (a + (Layout.offset x.width x.channels i j k : Nat))
        = p.scaled x.width x.height i j k)
    ∧ EqOn mem (converted env x.type a (.ofNat x.elements) decoded) (x.region a)

/-- If the file is a bitmap, the tensor shows its picture. -/
def Loaded (env : Env) (file : File) (a : Int) (mem : Int → UInt8) : Prop :=
  ∀ (p : Picture) (form : BitmapForm), file.Readable → file.content = p.bottomUp form →
    p.channels = x.channels ∧ x.Shows env p a mem

variable {x} {env : Env} {file : File} {a : Int} {mem mem' : Int → UInt8}

/-- Only the memory of the tensor matters. -/
theorem Loaded.congr (h : x.Loaded env file a mem) (heq : EqOn mem' mem (x.region a)) :
    x.Loaded env file a mem' := by
  intro p form hread hcontent
  obtain ⟨hchannels, decoded, hdecoded, hmem⟩ := h p form hread hcontent
  exact ⟨hchannels, decoded, hdecoded, heq.trans hmem⟩

/-! ## The dimensions -/

/-- A shape with all the numbers that the program reads. -/
theorem Fits.exists_shape {room : UInt64} (h : x.Fits room) :
    ∃ n w l c rest, x.shape = n :: w :: l :: c :: rest := by
  have hrank := h.rank
  rcases x with ⟨t, _ | ⟨n, _ | ⟨w, _ | ⟨l, _ | ⟨c, rest⟩⟩⟩⟩⟩ <;> simp at hrank
  exact ⟨n, w, l, c, rest, rfl⟩

theorem Fits.elements_eq {n w l c : UInt64} {rest : List UInt64}
    (hshape : x.shape = n :: w :: l :: c :: rest) (h : x.elements < 2 ^ 31) :
    (w * l * c).toUInt32.toInt32 = .ofNat x.elements := by
  have hproduct : (w * l * c).toNat = x.elements := by
    rw [UInt64.toNat_mul, UInt64.toNat_mul, Nat.mod_mul_mod]
    simp only [elements, width, height, channels, hshape] at h ⊢
    exact Nat.mod_eq_of_lt (Nat.lt_trans h (by decide))
  rw [← Int32.toInt_inj, Narrow.toInt_narrow (by rwa [hproduct]), hproduct,
    Int32.toInt_ofNat_of_lt h]

/-! ## The decoder -/

section

variable {width height channels : Nat} {w l c srcWidth srcHeight : Int32} {srcData : Int → UInt8}

/-- Whatever the image is, what is stored are elements of the tensor. -/
theorem exists_of_mem_imageResize (hw : w.toInt = width) (hl : l.toInt = height)
    (hc : c.toInt = channels) (hlt : width * height * channels < 2 ^ 31) {s : Int × UInt8}
    (hs : s ∈ imageResize .binary64 srcData srcWidth srcHeight w l c) :
    ∃ n < width * height * channels, s.1 = (n : Int) := by
  have hone : (1 : Int32).toInt = 1 := rfl
  have hthree : (3 : Int32).toInt = 3 := rfl
  have hpos : 0 < height ∧ 0 < width := by
    by_contra hnone
    rw [imageResize_empty (by omega)] at hs
    cases hs
  have hkinds : channels = 1 ∨ channels = 3 := by
    by_contra hnone
    rw [imageResize_nil (fun h ↦ hnone (.inl (by rw [h, hone] at hc; omega)))
      (fun h ↦ hnone (.inr (by rw [h, hthree] at hc; omega)))] at hs
    cases hs
  -- where it is stored to does not depend on the size of the source
  have hsizes : ImageResize.Sizes 1 1 w l c 1 1 width height channels :=
    { channelsEq := hc
      kinds := hkinds
      srcWidthEq := rfl
      srcHeightEq := rfl
      dstWidthEq := hw
      dstHeightEq := hl
      srcWidthPos := Nat.one_pos
      srcHeightPos := Nat.one_pos
      dstWidthPos := hpos.2
      dstHeightPos := hpos.1 }
  have hzero : s.1 ∈ ImageResize.zeros w l c := by
    rw [imageResize, List.mem_append, List.mem_map, List.mem_map] at hs
    rcases hs with ⟨p, hp, rfl⟩ | ⟨p, hp, rfl⟩
    · exact hp
    · exact hsizes.toChannels.mem_zeros_of_mem_samples hp
  obtain ⟨i, hi, j, hj, k, hk, heq⟩ := hsizes.mem_zeros_iff.1 hzero
  have hoffset := Layout.offset_lt hi hj hk
  rw [Nat.mul_comm height] at hoffset
  exact ⟨_, hoffset, heq.trans (Narrow.wrap_of_lt (Nat.lt_trans hoffset hlt))⟩

end

/-- Stores to elements change no memory but that of the tensor. -/
theorem eqOn_storeAll {stores : List (Int × UInt8)}
    (hstores : ∀ s ∈ stores, ∃ n < x.elements, s.1 = (n : Int)) (m : Int → UInt8) (a : Int) :
    EqOn (storeAll m a stores) m (x.region a)ᶜ := by
  intro addr haddr
  refine Layout.foldl_update_of_forall_ne _ _ _ _ fun s hs heq ↦ haddr ?_
  obtain ⟨n, hn, hsn⟩ := hstores s hs
  have hle : x.elements ≤ x.size := Nat.le_mul_of_pos_right _ (by cases x.type <;> decide)
  rw [region, mem_ofPred_eq]
  omega

/-! ## The conversion -/

theorem eqOn_convertElement (env : Env) (a : Int) (m : Int → UInt8) {i : Nat}
    (hi : i < x.elements) (hlt : x.elements < 2 ^ 31) :
    EqOn (convertElement env x.type a m (.ofNat i)) m (x.region a)ᶜ := by
  intro addr haddr
  have hvalue : (Int32.ofNat i).toInt = i := Int32.toInt_ofNat_of_lt (by omega)
  rw [region, size, mem_compl_iff, mem_ofPred_eq, not_and, not_lt] at haddr
  generalize x.type = t at haddr
  cases t with
  | uint8 => rfl
  | int8 =>
    rw [ElementType.size, Nat.mul_one] at haddr
    exact Function.update_of_ne (by omega) _ _
  | float =>
    rw [ElementType.size] at haddr
    rw [convertElement, storeBytes, hvalue]
    split
    · refine List.getD_eq_default _ _ ?_
      rw [Bytes.length_encode]
      omega
    · rfl

theorem eqOn_converted (env : Env) (a : Int) (m : Int → UInt8) (hlt : x.elements < 2 ^ 31) :
    EqOn (converted env x.type a (.ofNat x.elements) m) m (x.region a)ᶜ := by
  have hmem : ∀ i ∈ (upTo (.ofNat x.elements)).reverse, ∃ n < x.elements, i = .ofNat n := by
    intro i hi
    obtain ⟨n, hn, rfl⟩ := List.mem_map.1 (List.mem_reverse.1 hi)
    rw [Int32.toInt_ofNat_of_lt hlt, Int.toNat_natCast, List.mem_range] at hn
    exact ⟨n, hn, rfl⟩
  rw [converted_eq]
  generalize (upTo (.ofNat x.elements)).reverse = l at hmem
  induction l generalizing m with
  | nil => exact fun _ _ ↦ rfl
  | cons i l ih =>
    rw [List.forall_mem_cons] at hmem
    obtain ⟨⟨n, hn, rfl⟩, hmem⟩ := hmem
    exact (ih _ hmem).trans (eqOn_convertElement env a m hn hlt)

/-! ## Loading -/

/-- What is read of a file that can be read. -/
theorem delivered_of_readable (hread : file.Readable) (hlength : file.content.length < 2 ^ 64) :
    file.delivered file.tellg.toNat = file.content := by
  obtain ⟨-, htells, hdelivers⟩ := hread
  have htellg : file.tellg.toNat = file.content.length := by
    rw [File.tellg, if_pos htells, UInt64.toNat_ofNat_of_lt' hlength]
  rw [File.delivered, if_pos htells, Nat.min_eq_left hdelivers, htellg, List.take_length]

/-- What the decoder leaves at the elements, when it has been given a bitmap. -/
theorem decoded_of_bottomUp {room : UInt64} (hfits : x.Fits room) {w l c : Int32}
    (hw : w.toInt = x.width) (hl : l.toInt = x.height) (hc : c.toInt = x.channels) (p : Picture)
    (form : BitmapForm) {m sBuffer sBuffer' mem : Int → UInt8} {stores : List (Int × UInt8)}
    (hdecode : imageDecode .binary64 (storeBytes m 0 (p.bottomUp form)) sBuffer w l c
      = .decoded sBuffer' stores) :
    p.channels = x.channels ∧ ∀ i < x.height, ∀ j < x.width, ∀ k < x.channels,
      storeAll mem a stores (a + (Layout.offset x.width x.channels i j k : Nat))
        = p.scaled x.width x.height i j k := by
  obtain ⟨sBuffer'', hbuffer, hdecode'⟩ := p.imageDecode_bottomUp form .binary64 m sBuffer w l c
  rw [hdecode] at hdecode'
  split at hdecode'
  · cases hdecode'
  rename_i hsame
  rw [ne_eq, not_not] at hsame
  cases hdecode'
  have hchannels : p.channels = x.channels := by
    rw [← Int.ofNat_inj, ← hc, ← hsame, p.toInt_channels]
  refine ⟨hchannels, fun i hi j hj k hk ↦ ?_⟩
  have hsizes : ImageResize.Sizes (.ofNat p.width) (.ofNat p.height) w l (.ofNat p.channels) p.width
      p.height x.width x.height p.channels :=
    { p.sized_self.toSizes with
      dstWidthEq := hw
      dstHeightEq := hl
      dstWidthPos := Nat.zero_lt_of_lt hj
      dstHeightPos := Nat.zero_lt_of_lt hi }
  rw [← hchannels] at hk ⊢
  have hlt : x.height * x.width * p.channels ≤ 2 ^ 31 := by
    rw [hchannels, Nat.mul_comm x.height]
    exact Nat.le_of_lt hfits.elements_lt
  rw [hsizes.resized hlt _ _ _ hi hj hk, ImageResize.taken, Picture.scaled]
  split
  · rename_i hinside
    have hoffset := Layout.offset_lt hinside.1 hinside.2 hk
    rw [Narrow.wrap_of_lt (Nat.lt_trans hoffset p.sized_self.srcFits), hbuffer _ hoffset,
      p.byte_offset _ hinside.2 hk]
  · rfl

/-- **Whatever the file is, only the tensor is written to, and a bitmap is what it shows.** -/
theorem wp_getInputFromFile {room : UInt64} (hfits : x.Fits room) (env : Env) (filename : String)
    (a : Int) (p₀ : Process) :
    wp (getInputFromFile env x.type filename a x.shape)
      (fun _ q ↦ EqOn q.mem p₀.mem (x.region a)ᶜ ∧ x.Loaded env (env.files filename) a q.mem)
      (fun _ _ ↦ True) p₀ := by
  obtain ⟨n, w, l, c, rest, hshape⟩ := hfits.exists_shape
  have hw : w.toUInt32.toInt32.toInt = x.width := by
    have hlt := hfits.width_lt
    rw [width, hshape] at hlt ⊢
    exact Narrow.toInt_narrow hlt
  have hl : l.toUInt32.toInt32.toInt = x.height := by
    have hlt := hfits.height_lt
    rw [height, hshape] at hlt ⊢
    exact Narrow.toInt_narrow hlt
  have hc : c.toUInt32.toInt32.toInt = x.channels := by
    have hlt := hfits.channels_lt
    rw [channels, hshape] at hlt ⊢
    exact Narrow.toInt_narrow hlt
  have helements := Fits.elements_eq hshape hfits.elements_lt
  have h1 : subscript env p₀ x.shape 1 = w := by rw [hshape]; rfl
  have h2 : subscript env p₀ x.shape 2 = l := by rw [hshape]; rfl
  have h3 : subscript env p₀ x.shape 3 = c := by rw [hshape]; rfl
  rw [getInputFromFile, wp_bind, wp_get]
  dsimp only
  rw [h1, h2, h3]
  by_cases hread : (env.files filename).Readable
  · have hdelivered (p : Picture) (form : BitmapForm)
        (hcontent : (env.files filename).content = p.bottomUp form) :
        (env.files filename).delivered (env.files filename).tellg.toNat = p.bottomUp form := by
      rw [delivered_of_readable hread (by rw [hcontent]; exact p.length_bottomUp form), hcontent]
    have hgood := (good_iff _).2 hread.2
    rw [hread.1, hgood]
    simp only [Bool.not_true, Bool.false_eq_true, if_false]
    rw [wp_bind, decodeInto, wp_bind, wp_get]
    split
    · rename_i hfailed
      rw [wp_pure, wp_bind, convertInputData, wp_bind, wp_modify, wp_pure, wp_bind, record,
        wp_modify, wp_pure, helements]
      refine ⟨eqOn_converted env a p₀.mem hfits.elements_lt, fun p form _ hcontent ↦ ?_⟩
      -- a bitmap is not refused
      rw [hdelivered p form hcontent] at hfailed
      obtain ⟨_, -, hdecode⟩ := p.imageDecode_bottomUp form .binary64 (env.stackBytes p₀.trace)
        p₀.decodeBuffer w.toUInt32.toInt32 l.toUInt32.toInt32 c.toUInt32.toInt32
      rw [hfailed] at hdecode
      split at hdecode <;> cases hdecode
    · trivial
    · rename_i sBuffer stores hdecode
      rw [wp_bind, wp_modify, wp_pure, wp_bind, convertInputData, wp_bind, wp_modify, wp_pure,
        wp_bind, record, wp_modify, wp_pure, helements]
      refine ⟨?_, fun p form _ hcontent ↦ ?_⟩
      · refine (eqOn_converted env a _ hfits.elements_lt).trans (eqOn_storeAll (fun s hs ↦ ?_) _ a)
        obtain ⟨-, rfl⟩ := imageDecode_decoded hdecode
        exact exists_of_mem_imageResize hw hl hc hfits.elements_lt hs
      · rw [hdelivered p form hcontent] at hdecode
        obtain ⟨hchannels, hdecoded⟩ := decoded_of_bottomUp hfits hw hl hc p form hdecode
        exact ⟨hchannels, _, hdecoded, fun _ _ ↦ rfl⟩
  · have hnot : (!(env.files filename).opens) = true
        ∨ (!(env.files filename).good (env.files filename).tellg) = true := by
      by_contra hnone
      simp only [not_or, Bool.not_eq_true', Bool.not_eq_false] at hnone
      exact hread ⟨hnone.1, (good_iff _).1 hnone.2⟩
    have hrecord : ∀ load : TensorLoad, wp (record load >>= fun _ ↦ pure (-1 : Int32))
        (fun _ q ↦ EqOn q.mem p₀.mem (x.region a)ᶜ ∧ x.Loaded env (env.files filename) a q.mem)
        (fun _ _ ↦ True) p₀ := fun load ↦
      ⟨fun _ _ ↦ rfl, fun _ _ hread' ↦ absurd hread' hread⟩
    rw [wp_ite]
    refine ⟨fun _ ↦ hrecord _, fun hopens ↦ ?_⟩
    rw [if_pos (hnot.resolve_left hopens)]
    exact hrecord _

end Tensor

end EthosU
