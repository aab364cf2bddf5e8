import EthosU.InferenceRunner.ImageDecode
import EthosU.Kernel
import EthosU.Lib.Narrow

/-!
# Loading a tensor from a file

`getInputFromFile` and `convertInputData` of `utils/inference_runner/common/pre_post_processing.h`.
A bitmap is read into an array on the stack, decoded and scaled into the memory of a tensor, and its
bytes are converted in place to the elements of the tensor.

`getInputFromFile` leaves a `TensorLoad` behind, for the record.

* `TensorLoad.Complete` says that the decoder reported success and that every byte of the tensor has
  been stored to; `TensorLoad.Loadable` and `TensorLoad.Fits` are the conditions on the file and on
  the shape under which that is so.
* `wp_getInputFromFile` is all that the callers have to know: whatever the file is, a record is left
  of which the two say the same.
-/

set_option autoImplicit false

namespace EthosU

open Wp

/-- The types `getInputFromFile` is instantiated at. -/
inductive ElementType
  | uint8
  | int8
  | float
  deriving DecidableEq, Repr

/-- `sizeof(T)`. -/
def ElementType.size : ElementType → Nat
  | .uint8 => 1
  | .int8 => 1
  | .float => 4

/-- The cases of the `switch` over `TensorType` in the runners. -/
def ElementType.ofTensorType (type : Int32) : Option ElementType :=
  if type = 3 then some .uint8
  else if type = 9 then some .int8
  else if type = 0 then some .float
  else none

/-- The state of the stream after `n` bytes have been asked for. -/
def File.good (file : File) (n : UInt64) : Bool :=
  file.tells && decide (n.toNat ≤ min file.delivers file.content.length)

/-! ## Conversion -/

/-- `static_cast<int>(data[i]) - 127`, stored to an `int8_t`. -/
def convertInt8 (b : UInt8) : UInt8 := (b.toInt8.toInt32 - 127).toInt8.toUInt8

/-- The 32 bits at an address. -/
def wordAt (m : Int → UInt8) (a : Int) : UInt32 := Bytes.word (fun i ↦ m (a + i)) 0

section

variable (env : Env)

/-- The conversion of element `i`. -/
def convertElement (t : ElementType) (data : Int) (m : Int → UInt8) (i : Int32) : Int → UInt8 :=
  match t with
  | .uint8 => m
  | .int8 => Function.update m (data + i.toInt) (convertInt8 (m (data + i.toInt)))
  | .float =>
    storeBytes m (data + 4 * i.toInt)
      (Bytes.encode 4 (env.convertFloat (wordAt m (data + 4 * i.toInt))).toNat)

/-- The addresses the conversion of element `i` stores to. -/
def convertedAt (t : ElementType) (data : Int) (i : Int32) : List Int :=
  match t with
  | .uint8 => []
  | .int8 => [data + i.toInt]
  | .float => (List.range 4).map fun k : Nat ↦ data + 4 * i.toInt + k

/-- The conversion goes from the last element to the first.  The only types it knows are those of
`ElementType`, so it never returns -1. -/
def convertInputData (t : ElementType) (data : Int) (size : Int32) : M Int32 := do
  modify fun p ↦ { p with mem := (upTo size).reverse.foldl (convertElement env t data) p.mem }
  return 0

/-! ## Loading -/

/-- `IMAGE_Decode` into the memory at `dstData`.  What comes back are the addresses it has stored
to, and nothing for -1. -/
def decodeInto (srcData : Int → UInt8) (dstData : Int) (dstWidth dstHeight dstChannels : Int32) :
    M (Option (List Int)) := do
  let p ← get
  match imageDecode .binary64 srcData p.decodeBuffer dstWidth dstHeight dstChannels with
  | .failed => return none
  | .aborted => throw .terminate
  | .decoded sBuffer stores =>
    modify fun p ↦ { p with mem := storeAll p.mem dstData stores, decodeBuffer := sBuffer }
    return some (stores.map fun s ↦ dstData + s.1)

/-- The record is kept. -/
def record (load : TensorLoad) : M Unit := modify fun p ↦ { p with tensors := load :: p.tensors }

/-- A subscript of a vector, which nobody checks. -/
def subscript (p : Process) (v : List UInt64) (i : Nat) : UInt64 :=
  v.getD i (env.heapWord p.trace i)

def getInputFromFile (t : ElementType) (filename : String) (inputData : Int) (shape : List UInt64) :
    M Int32 := do
  let p ← get
  let shape1 := subscript env p shape 1
  let shape2 := subscript env p shape 2
  let shape3 := subscript env p shape 3
  let stream := env.files filename
  let size := stream.tellg
  -- the array on the stack, with what has been read at its beginning
  let sBuffer := storeBytes (env.stackBytes p.trace) 0 (stream.delivered size.toNat)
  let load : TensorLoad :=
    { file := stream
      staged := sBuffer
      width := shape1.toNat
      height := shape2.toNat
      channels := shape3.toNat
      elementSize := t.size
      address := inputData
      decoded := false
      pixels := []
      converted := []
      result := -1 }
  if !stream.opens then
    record load
    return -1
  else if !stream.good size then
    record load
    return -1
  else
    -- nobody looks at what the decoder returns
    let pixels ← decodeInto sBuffer inputData shape1.toUInt32.toInt32 shape2.toUInt32.toInt32
      shape3.toUInt32.toInt32
    let elements := (shape1 * shape2 * shape3).toUInt32.toInt32
    let result ← convertInputData env t inputData elements
    record
      { load with
        decoded := pixels.isSome
        pixels := pixels.getD []
        converted := (upTo elements).flatMap (convertedAt t inputData)
        result := result }
    return result

end

/-! ## What is recorded -/

/-- The file can be read from beginning to end. -/
def File.Readable (file : File) : Prop :=
  file.opens = true ∧ file.tells = true ∧ file.tellg.toNat ≤ file.delivers

namespace TensorLoad

/-- The decoder reported success, it has stored a byte for every element, and every byte of every
element has been stored to. -/
def Complete (l : TensorLoad) : Prop :=
  l.decoded = true ∧ (∀ i < l.elements, l.address + i ∈ l.pixels)
    ∧ ∀ i < l.elements * l.elementSize, l.address + i ∈ l.pixels ∨ l.address + i ∈ l.converted

/-- The file can be read and passes the checks of the decoder, and the image has one or three
channels (or there is nothing to store). -/
def Loadable (l : TensorLoad) : Prop :=
  l.file.Readable ∧ (BmpHeader.read l.staged).Decodes
    ∧ ((BmpHeader.read l.staged).channels = 1 ∨ (BmpHeader.read l.staged).channels = 3
      ∨ l.elements = 0)

/-- The dimensions are `int`s, and so are the positions of all elements; if an element has more than
one byte, so is their number (or there is nothing to store). -/
def Fits (l : TensorLoad) : Prop :=
  l.elements = 0 ∨ (l.width < 2 ^ 31 ∧ l.height < 2 ^ 31 ∧ l.channels < 2 ^ 31
    ∧ l.elements ≤ 2 ^ 31 ∧ (l.elementSize = 1 ∨ l.elements < 2 ^ 31))

/-- Success is reported only if the decoder reported it. -/
def Sound (l : TensorLoad) : Prop := l.result = 0 → l.decoded = true

/-- What is known of a record. -/
structure Explained (l : TensorLoad) : Prop where
  complete : l.Complete ↔ l.Loadable ∧ l.Fits
  sound : l.Sound ↔ (l.file.Readable → (BmpHeader.read l.staged).Decodes)

end TensorLoad

theorem good_iff (file : File) : file.good file.tellg = true
    ↔ file.tells = true ∧ file.tellg.toNat ≤ file.delivers := by
  rw [File.good, Bool.and_eq_true, decide_eq_true_iff, Nat.le_min]
  constructor
  · rintro ⟨htells, hdelivers, -⟩
    exact ⟨htells, hdelivers⟩
  · rintro ⟨htells, hdelivers⟩
    refine ⟨htells, hdelivers, ?_⟩
    rw [File.tellg, if_pos htells]
    exact Nat.mod_le _ _

/-- A record of a file that was given up on before it was decoded. -/
theorem explained_of_not_readable {l : TensorLoad} (hread : ¬ l.file.Readable)
    (hdecoded : l.decoded = false) (hresult : l.result = -1) : l.Explained where
  complete := by
    refine ⟨fun h ↦ absurd h.1 ?_, fun h ↦ absurd h.1.1 hread⟩
    rw [hdecoded]
    exact Bool.false_ne_true
  sound := by
    refine ⟨fun _ h ↦ absurd h hread, fun _ h ↦ ?_⟩
    rw [hresult] at h
    exact absurd h (by decide)

/-- A record of a file that the decoder refused. -/
theorem explained_of_failed {r : Rounding} {l : TensorLoad} {staged sBuffer : Int → UInt8}
    {dstWidth dstHeight dstChannels : Int32} (hread : l.file.Readable)
    (hfailed : imageDecode r staged sBuffer dstWidth dstHeight dstChannels = .failed)
    (hstaged : l.staged = staged) (hdecoded : l.decoded = false) (hresult : l.result = 0) :
    l.Explained := by
  subst hstaged
  have hnot := (imageDecode_failed_iff _ _ _ _ _).1 hfailed
  refine ⟨⟨fun h ↦ ?_, fun h ↦ absurd h.1.2.1 hnot⟩, fun h ↦ ?_, fun h ↦ absurd (h hread) hnot⟩
  · exact absurd h.1 (by rw [hdecoded]; exact Bool.false_ne_true)
  · exact absurd (h hresult) (by rw [hdecoded]; exact Bool.false_ne_true)

private theorem factors_le {a b c : Nat} (hpos : 0 < a * b * c) :
    a ≤ a * b * c ∧ b ≤ a * b * c ∧ c ≤ a * b * c := by
  have hab : 0 < a * b := Nat.pos_of_mul_pos_right hpos
  have ha : 0 < a := Nat.pos_of_mul_pos_right hab
  have hb : 0 < b := Nat.pos_of_mul_pos_left hab
  have hc : 0 < c := Nat.pos_of_mul_pos_left hpos
  have hle : a * b ≤ a * b * c := Nat.le_mul_of_pos_right _ hc
  refine ⟨?_, ?_, ?_⟩
  · exact Nat.le_trans (Nat.le_mul_of_pos_right a hb) hle
  · exact Nat.le_trans (Nat.le_mul_of_pos_left b ha) hle
  · exact Nat.le_mul_of_pos_left c hab

section

variable {r : Rounding} {shape1 shape2 shape3 : UInt64} {srcData : Int → UInt8}
  {srcWidth srcHeight : Int32}

/-- The stores of the resizing go to every element. -/
private theorem mem_pixels (h1 : shape1.toNat < 2 ^ 31) (h2 : shape2.toNat < 2 ^ 31)
    (h3 : shape3.toNat < 2 ^ 31) (hle : shape1.toNat * shape2.toNat * shape3.toNat ≤ 2 ^ 31)
    (hchannels : shape3.toUInt32.toInt32 = 1 ∨ shape3.toUInt32.toInt32 = 3) (data : Int) {i : Nat}
    (hi : i < shape1.toNat * shape2.toNat * shape3.toNat) :
    data + i ∈ (imageResize r srcData srcWidth srcHeight shape1.toUInt32.toInt32
      shape2.toUInt32.toInt32 shape3.toUInt32.toInt32).map fun s ↦ data + s.1 := by
  have hproduct : (shape2.toUInt32.toInt32).toInt.toNat
      * ((shape3.toUInt32.toInt32).toInt.toNat * (shape1.toUInt32.toInt32).toInt.toNat)
      = shape1.toNat * shape2.toNat * shape3.toNat := by
    rw [Narrow.toInt_narrow h1, Narrow.toInt_narrow h2, Narrow.toInt_narrow h3]
    simp only [Int.toNat_natCast]
    rw [Nat.mul_comm shape3.toNat, ← Nat.mul_assoc, Nat.mul_comm shape2.toNat]
  have hmem : (i : Int) ∈ (imageResize r srcData srcWidth srcHeight shape1.toUInt32.toInt32
      shape2.toUInt32.toInt32 shape3.toUInt32.toInt32).map Prod.fst := by
    refine mem_imageResize hchannels ?_ (by rwa [hproduct]) (by rwa [hproduct])
    rw [Narrow.toInt_narrow h1]
    exact Int.natCast_nonneg _
  obtain ⟨s, hs, hsi⟩ := List.mem_map.1 hmem
  exact List.mem_map.2 ⟨s, hs, by rw [hsi]⟩

/-- No store goes further than an `int` reaches. -/
private theorem not_mem_pixels {dstWidth dstHeight dstChannels : Int32} (data : Int) :
    data + (2 ^ 31 : Nat) ∉ (imageResize r srcData srcWidth srcHeight dstWidth dstHeight
      dstChannels).map fun s ↦ data + s.1 := by
  intro hmem
  obtain ⟨s, hs, hdata⟩ := List.mem_map.1 hmem
  have hlt := imageResize_lt hs
  have hvalue : ((2 ^ 31 : Nat) : Int) = 2 ^ 31 := rfl
  omega

/-- If there is a store at all, a dimension that is at most `2 ^ 31` is an `int`. -/
private theorem dims_lt (h1 : shape1.toNat ≤ 2 ^ 31) (h2 : shape2.toNat ≤ 2 ^ 31)
    (h3 : shape3.toNat ≤ 2 ^ 31)
    (hne : imageResize r srcData srcWidth srcHeight shape1.toUInt32.toInt32 shape2.toUInt32.toInt32
      shape3.toUInt32.toInt32 ≠ []) :
    shape1.toNat < 2 ^ 31 ∧ shape2.toNat < 2 ^ 31 ∧ shape3.toNat < 2 ^ 31 := by
  refine ⟨Nat.lt_of_le_of_ne h1 fun heq ↦ ?_, Nat.lt_of_le_of_ne h2 fun heq ↦ ?_,
    Nat.lt_of_le_of_ne h3 fun heq ↦ ?_⟩
  · exact hne (imageResize_empty (.inr (Int.le_of_lt (Narrow.toInt_narrow_of_eq heq))))
  · exact hne (imageResize_empty (.inl (Int.le_of_lt (Narrow.toInt_narrow_of_eq heq))))
  · have hneg := Narrow.toInt_narrow_of_eq heq
    refine hne (imageResize_nil (fun hone ↦ ?_) fun hthree ↦ ?_)
    · rw [hone] at hneg
      exact absurd hneg (by decide)
    · rw [hthree] at hneg
      exact absurd hneg (by decide)

private theorem toNat_product (hle : shape1.toNat * shape2.toNat * shape3.toNat ≤ 2 ^ 31) :
    (shape1 * shape2 * shape3).toNat = shape1.toNat * shape2.toNat * shape3.toNat := by
  rw [UInt64.toNat_mul, UInt64.toNat_mul, Nat.mod_mul_mod]
  exact Nat.mod_eq_of_lt (by omega)

/-- The conversion of floats stores to every byte of every element, if their number is an `int`. -/
private theorem mem_converted (hlt : shape1.toNat * shape2.toNat * shape3.toNat < 2 ^ 31)
    (data : Int) {i : Nat} (hi : i < shape1.toNat * shape2.toNat * shape3.toNat * 4) :
    data + i ∈ (upTo (shape1 * shape2 * shape3).toUInt32.toInt32).flatMap
      (convertedAt .float data) := by
  have hproduct := toNat_product (Nat.le_of_lt hlt)
  have hcount : ((shape1 * shape2 * shape3).toUInt32.toInt32).toInt
      = shape1.toNat * shape2.toNat * shape3.toNat := by
    rw [Narrow.toInt_narrow (by rw [hproduct]; exact hlt), hproduct]
    exact_mod_cast rfl
  have hk : ((i / 4 : Nat) : Int) < ((shape1 * shape2 * shape3).toUInt32.toInt32).toInt := by
    rw [hcount]
    exact_mod_cast Nat.div_lt_of_lt_mul (by rwa [Nat.mul_comm])
  refine List.mem_flatMap.2 ⟨_, mem_upTo hk, ?_⟩
  refine List.mem_map.2 ⟨i % 4, List.mem_range.2 (Nat.mod_lt i (by decide : 0 < 4)), ?_⟩
  rw [Int32.toInt_ofNat_of_lt (by omega)]
  omega

/-- If every pixel is stored, there is a number of channels that the resizing knows, and the
dimensions are `int`s. -/
private theorem dims_of_stored (data : Int)
    (hpos : 0 < shape1.toNat * shape2.toNat * shape3.toNat)
    (hall : ∀ i < shape1.toNat * shape2.toNat * shape3.toNat, data + (i : Int)
      ∈ (imageResize r srcData srcWidth srcHeight shape1.toUInt32.toInt32 shape2.toUInt32.toInt32
        shape3.toUInt32.toInt32).map fun s ↦ data + s.1) :
    (shape3.toUInt32.toInt32 = 1 ∨ shape3.toUInt32.toInt32 = 3)
      ∧ shape1.toNat < 2 ^ 31 ∧ shape2.toNat < 2 ^ 31 ∧ shape3.toNat < 2 ^ 31
      ∧ shape1.toNat * shape2.toNat * shape3.toNat ≤ 2 ^ 31 := by
  have hle : shape1.toNat * shape2.toNat * shape3.toNat ≤ 2 ^ 31 :=
    Nat.le_of_not_lt fun hgt ↦ not_mem_pixels _ (hall (2 ^ 31) hgt)
  -- element 0 is stored to, so there is a store
  have hne : imageResize r srcData srcWidth srcHeight shape1.toUInt32.toInt32
      shape2.toUInt32.toInt32 shape3.toUInt32.toInt32 ≠ [] := by
    intro hnil
    have hmem := hall 0 hpos
    rw [hnil] at hmem
    cases hmem
  obtain ⟨hle1, hle2, hle3⟩ := factors_le hpos
  obtain ⟨h1, h2, h3⟩ := dims_lt (Nat.le_trans hle1 hle) (Nat.le_trans hle2 hle)
    (Nat.le_trans hle3 hle) hne
  refine ⟨?_, h1, h2, h3, hle⟩
  by_contra hnone
  rw [not_or] at hnone
  exact hne (imageResize_nil hnone.1 hnone.2)

/-- If every byte of every float is stored, the number of elements is an `int`: otherwise nothing is
converted, and pixels end where the first element does. -/
private theorem lt_of_stored (data : Int)
    (hle : shape1.toNat * shape2.toNat * shape3.toNat ≤ 2 ^ 31)
    (hbytes : ∀ i < shape1.toNat * shape2.toNat * shape3.toNat * 4, data + (i : Int)
        ∈ ((imageResize r srcData srcWidth srcHeight shape1.toUInt32.toInt32 shape2.toUInt32.toInt32
          shape3.toUInt32.toInt32).map fun s ↦ data + s.1)
      ∨ data + (i : Int) ∈ (upTo (shape1 * shape2 * shape3).toUInt32.toInt32).flatMap
        (convertedAt .float data)) :
    shape1.toNat * shape2.toNat * shape3.toNat < 2 ^ 31 := by
  refine Nat.lt_of_le_of_ne hle fun heq ↦ ?_
  have hneg := Narrow.toInt_narrow_of_eq ((toNat_product hle).trans heq)
  have hmem := hbytes (2 ^ 31) (by rw [heq]; decide)
  rw [upTo, Int.toNat_of_nonpos (Int.le_of_lt hneg)] at hmem
  exact hmem.elim (not_mem_pixels _) fun hnil ↦ absurd hnil List.not_mem_nil

end

section

variable {r : Rounding} {l : TensorLoad} {t : ElementType} {shape1 shape2 shape3 : UInt64}
  {srcData : Int → UInt8} {srcWidth srcHeight : Int32}

/-- What the stores of decoder and conversion reach, in terms of the shape. -/
private theorem stored_iff (hwidth : l.width = shape1.toNat) (hheight : l.height = shape2.toNat)
    (hchannels : l.channels = shape3.toNat) (hsize : l.elementSize = t.size)
    (hpixels : l.pixels = (imageResize r srcData srcWidth srcHeight shape1.toUInt32.toInt32
      shape2.toUInt32.toInt32 shape3.toUInt32.toInt32).map fun s ↦ l.address + s.1)
    (hconverted : l.converted = (upTo (shape1 * shape2 * shape3).toUInt32.toInt32).flatMap
      (convertedAt t l.address)) :
    ((∀ i < l.elements, l.address + i ∈ l.pixels)
      ∧ ∀ i < l.elements * l.elementSize, l.address + i ∈ l.pixels ∨ l.address + i ∈ l.converted)
    ↔ (shape3.toUInt32.toInt32 = 1 ∨ shape3.toUInt32.toInt32 = 3 ∨ l.elements = 0) ∧ l.Fits := by
  have helements : l.elements = shape1.toNat * shape2.toNat * shape3.toNat := by
    rw [TensorLoad.elements, hwidth, hheight, hchannels]
  rw [TensorLoad.Fits, hwidth, hheight, hchannels, hsize, helements, hpixels, hconverted]
  constructor
  · rintro ⟨hall, hbytes⟩
    by_cases hzero : shape1.toNat * shape2.toNat * shape3.toNat = 0
    · exact ⟨.inr (.inr hzero), .inl hzero⟩
    obtain ⟨hch, h1, h2, h3, hle⟩ := dims_of_stored _ (Nat.pos_of_ne_zero hzero) hall
    refine ⟨or_assoc.1 (.inl hch), .inr ⟨h1, h2, h3, hle, ?_⟩⟩
    cases t with
    | uint8 | int8 => exact .inl rfl
    | float => exact .inr (lt_of_stored _ hle hbytes)
  · rintro ⟨hch, hzero | ⟨h1, h2, h3, hle, hsmall⟩⟩
    · rw [hzero, Nat.zero_mul]
      exact ⟨fun i hi ↦ absurd hi (Nat.not_lt_zero i), fun i hi ↦ absurd hi (Nat.not_lt_zero i)⟩
    · have hall : ∀ i < shape1.toNat * shape2.toNat * shape3.toNat, l.address + (i : Int) ∈
          (imageResize r srcData srcWidth srcHeight shape1.toUInt32.toInt32 shape2.toUInt32.toInt32
            shape3.toUInt32.toInt32).map fun s ↦ l.address + s.1 := fun i hi ↦
        mem_pixels h1 h2 h3 hle ((or_assoc.2 hch).resolve_right (Nat.ne_zero_of_lt hi)) _ hi
      refine ⟨hall, fun i hi ↦ ?_⟩
      cases t with
      | uint8 | int8 =>
        rw [ElementType.size, Nat.mul_one] at hi
        exact .inl (hall i hi)
      | float =>
        exact .inr (mem_converted (hsmall.resolve_left (by decide)) _ hi)

/-- A record of a file that the decoder accepted. -/
theorem explained_of_decoded {staged sBuffer sBuffer' : Int → UInt8} {stores : List (Int × UInt8)}
    (hread : l.file.Readable)
    (hdec : imageDecode r staged sBuffer shape1.toUInt32.toInt32 shape2.toUInt32.toInt32
      shape3.toUInt32.toInt32 = .decoded sBuffer' stores)
    (hstaged : l.staged = staged) (hwidth : l.width = shape1.toNat)
    (hheight : l.height = shape2.toNat) (hchannels : l.channels = shape3.toNat)
    (hsize : l.elementSize = t.size) (hdecoded : l.decoded = true)
    (hpixels : l.pixels = stores.map fun s ↦ l.address + s.1)
    (hconverted : l.converted = (upTo (shape1 * shape2 * shape3).toUInt32.toInt32).flatMap
      (convertedAt t l.address)) : l.Explained := by
  subst hstaged
  have hdecodes : (BmpHeader.read l.staged).Decodes := by
    by_contra hnot
    rw [(imageDecode_failed_iff _ _ _ _ _).2 hnot] at hdec
    cases hdec
  obtain ⟨hch, hstores⟩ := imageDecode_decoded hdec
  have hstored := stored_iff hwidth hheight hchannels hsize (hpixels.trans (by rw [hstores]))
    hconverted
  rw [← hch] at hstored
  refine ⟨⟨fun h ↦ ?_, fun h ↦ ?_⟩, fun _ _ ↦ hdecodes, fun _ _ ↦ hdecoded⟩
  · obtain ⟨hone, hfits⟩ := hstored.1 h.2
    exact ⟨⟨hread, hdecodes, hone⟩, hfits⟩
  · exact ⟨hdecoded, hstored.2 ⟨h.1.2.2, h.2⟩⟩

end

/-- What `getInputFromFile` leaves alone, and the record it leaves. -/
structure TensorLoaded (p q : Process) : Prop where
  trace : q.trace = p.trace
  uses : q.uses = p.uses
  made : q.made = p.made
  models : q.models = p.models
  submissions : q.submissions = p.submissions
  load : ∃ l : TensorLoad, l.Explained ∧ q.tensors = l :: p.tensors

/-- `getInputFromFile` makes no system call, and leaves a record that is explained.  It does not
throw; the assertion in the decoder ends the program. -/
theorem wp_getInputFromFile (env : Env) (t : ElementType) (filename : String) (inputData : Int)
    (shape : List UInt64) (p : Process) :
    wp (getInputFromFile env t filename inputData shape) (fun _ q ↦ TensorLoaded p q)
      (fun e q ↦ e = .terminate ∧ q = p) p := by
  rw [getInputFromFile, wp_bind, wp_get]
  dsimp only
  by_cases hopens : (!(env.files filename).opens) = true
  · rw [if_pos hopens, wp_bind, record, wp_modify, wp_pure]
    refine ⟨rfl, rfl, rfl, rfl, rfl, _, explained_of_not_readable (fun hread ↦ ?_) rfl rfl, rfl⟩
    rw [hread.1] at hopens
    exact Bool.false_ne_true hopens
  · rw [if_neg hopens]
    by_cases hgood : (!(env.files filename).good (env.files filename).tellg) = true
    · rw [if_pos hgood, wp_bind, record, wp_modify, wp_pure]
      refine ⟨rfl, rfl, rfl, rfl, rfl, _, explained_of_not_readable (fun hread ↦ ?_) rfl rfl, rfl⟩
      rw [(good_iff _).2 hread.2] at hgood
      exact Bool.false_ne_true hgood
    · have hread : (env.files filename).Readable := by
        refine ⟨by simpa using hopens, (good_iff _).1 (by simpa using hgood)⟩
      rw [if_neg hgood, wp_bind, decodeInto, wp_bind, wp_get]
      split
      · rename_i hfailed
        rw [wp_pure, wp_bind, convertInputData, wp_bind, wp_modify, wp_pure, wp_bind, record,
          wp_modify, wp_pure]
        exact ⟨rfl, rfl, rfl, rfl, rfl, _, explained_of_failed hread hfailed rfl rfl rfl, rfl⟩
      · exact ⟨rfl, rfl⟩
      · rename_i sBuffer stores hdec
        rw [wp_bind, wp_modify, wp_pure, wp_bind, convertInputData, wp_bind, wp_modify, wp_pure,
          wp_bind, record, wp_modify, wp_pure]
        exact ⟨rfl, rfl, rfl, rfl, rfl, _,
          explained_of_decoded hread hdec rfl rfl rfl rfl rfl rfl rfl rfl, rfl⟩

/-- A file that can not be read is given up on. -/
theorem wp_getInputFromFile_of_not_readable (env : Env) (t : ElementType) {filename : String}
    (inputData : Int) (shape : List UInt64) (p : Process) (h : ¬ (env.files filename).Readable) :
    wp (getInputFromFile env t filename inputData shape)
      (fun result q ↦ result = -1 ∧ q.trace = p.trace) (fun _ _ ↦ False) p := by
  rw [getInputFromFile, wp_bind, wp_get]
  dsimp only
  split
  · rw [wp_bind, record, wp_modify, wp_pure]
    exact ⟨rfl, rfl⟩
  · rename_i hopens
    split
    · rw [wp_bind, record, wp_modify, wp_pure]
      exact ⟨rfl, rfl⟩
    · rename_i hgood
      exact absurd ⟨by simpa using hopens, (good_iff _).1 (by simpa using hgood)⟩ h

end EthosU
