import EthosU.InferenceRunner.PrePostProcessing
import EthosU.InferenceRunner.SizeCheck

/-!
# The array a file is read into

`getInputFromFile` reads a file into an array of `DECODE_BUFFER_SIZE` bytes on the stack, as many
bytes as the file has.  `IMAGE_Decode` is not told how many these are.

* `BmpHeader.decodeReads` are the positions of the array that the decoder reads.  It depends on
  nothing else (`imageDecode_congr`).
* `BmpHeader.sources_within_iff`: when the positions of all pixels lie within the file, although
  they may wrap around.
* `LoadsInBounds` says that nothing but the bytes of the file is read and that they fit into the
  array, and `loadsInBounds_iff` for which files this is so.
-/

set_option autoImplicit false

namespace EthosU

namespace BmpHeader

/-! ## What the decoder reads -/

/-- The bytes of the header that are read. -/
def fieldReads : List Int :=
  [10, 18, 22, 28].flatMap fun offset : Nat ↦
    (List.range 4).map fun k : Nat ↦ ((offset + k : Nat) : Int)

/-- The positions that `IMAGE_Decode` reads: the header, and the pixels if it gets to them. -/
def decodeReads (srcData : Int → UInt8) : List Int :=
  let h := read srcData
  fieldReads ++
    if h.width * h.height * h.channels > decodeBufferSize then []
    else if h.channels = 1 ∨ h.channels = 3 then h.copies.map Prod.snd
    else []

theorem field_congr {srcData srcData' : Int → UInt8} {offset : Nat}
    (h : ∀ k < 4, srcData ((offset + k : Nat) : Int) = srcData' ((offset + k : Nat) : Int)) :
    field srcData offset = field srcData' offset := by
  have hload : Bytes.load (fun a ↦ srcData a) offset 4 = Bytes.load (fun a ↦ srcData' a) offset 4 :=
    Bytes.load_congr h
  rw [field, field, Bytes.word, Bytes.word, hload]

/-- The header depends on its bytes. -/
theorem read_congr {srcData srcData' : Int → UInt8}
    (h : ∀ a ∈ fieldReads, srcData a = srcData' a) : read srcData = read srcData' := by
  have hfield : ∀ offset ∈ [10, 18, 22, 28], field srcData offset = field srcData' offset := by
    intro offset hmem
    refine field_congr fun k hk ↦ h _ (List.mem_flatMap.2 ⟨offset, hmem, ?_⟩)
    exact List.mem_map.2 ⟨k, List.mem_range.2 hk, rfl⟩
  rw [read, read, hfield 10 (by simp), hfield 18 (by simp), hfield 22 (by simp),
    hfield 28 (by simp)]

/-- The decoder depends on what it reads. -/
theorem imageDecode_congr {r : Rounding} {srcData srcData' : Int → UInt8}
    (h : ∀ a ∈ decodeReads srcData, srcData a = srcData' a) (sBuffer : Int → UInt8)
    (dstWidth dstHeight dstChannels : Int32) :
    imageDecode r srcData sBuffer dstWidth dstHeight dstChannels
      = imageDecode r srcData' sBuffer dstWidth dstHeight dstChannels := by
  have hread : read srcData = read srcData' :=
    read_congr fun a ha ↦ h a (List.mem_append_left _ ha)
  refine imageDecode_eq_of_read hread (fun hsmall hkinds c hc ↦ h c.2 ?_) sBuffer dstWidth dstHeight
    dstChannels
  rw [decodeReads, List.mem_append, if_neg hsmall, if_pos hkinds]
  exact .inr (List.mem_map_of_mem hc)

/-! ## Where the pixels are -/

section

variable {h : BmpHeader} {width height c y x k : Nat}

/-- The position of a pixel, in rows from the last one. -/
theorem srcPos_eq (hc : h.channels.toInt = c) (hheight : h.height.toInt = height)
    (hy : y < height) : h.srcPos (.ofNat (height - 1 - y)) (.ofNat x)
      = .ofInt (y * h.rowSize.toInt + (x * c : Nat)) := by
  have htop : h.topDown = false := by
    rw [topDown, decide_eq_false_iff_not, Int32.lt_iff_toInt_lt, hheight]
    exact not_lt_of_ge (Int.natCast_nonneg _)
  have hrow : h.height - 1 - .ofNat (height - 1 - y) = .ofInt y := by
    have hcount : (y : Int) = h.height.toInt - 1 - (height - 1 - y : Nat) := by omega
    rw [hcount, Int32.ofInt_sub, Int32.ofInt_sub, Int32.ofInt_toInt, Int32.ofInt_eq_ofNat]
    rfl
  rw [srcPos, htop, hrow, Int.natCast_mul, Int32.ofInt_add, Int32.ofInt_mul, Int32.ofInt_mul,
    Int32.ofInt_toInt, ← hc, Int32.ofInt_toInt, Int32.ofInt_eq_ofNat]
  rfl

/-- The positions that the pixels are read from: those of an image of bytes, row by row from the
last one, wrapped around. -/
theorem mem_sources_iff (hs : Channels h.channels c) (hwidth : h.width.toInt = width)
    (hheight : h.height.toInt = height) {a : Int} : a ∈ h.copies.map Prod.snd
      ↔ ∃ y < height, ∃ x < width, ∃ k < c,
        a = h.headerSize.toInt + (Int32.ofInt (y * h.rowSize.toInt + (x * c + k : Nat))).toInt := by
  have hposition : ∀ {y x k : Nat}, y < height →
      h.pixel (h.srcPos (.ofNat (height - 1 - y)) (.ofNat x) + .ofNat k) = h.headerSize.toInt
        + (Int32.ofInt (y * h.rowSize.toInt + (x * c + k : Nat))).toInt := by
    intro y x k hy
    rw [pixel, srcPos_eq hs.channelsEq hheight hy, ← Int32.ofInt_eq_ofNat, ← Int32.ofInt_add,
      Int.natCast_add (x * c), Int.add_assoc]
  have hback : ∀ {y : Nat}, y < height → height - 1 - (height - 1 - y) = y := by omega
  rw [List.mem_map]
  constructor
  · rintro ⟨s, hmem, rfl⟩
    obtain ⟨y, x, hy, hx, hpixel⟩ := (mem_copies hwidth hheight).1 hmem
    obtain ⟨k, hk, rfl⟩ := (mem_copyPixel_iff hs).1 hpixel
    refine ⟨height - 1 - y, by omega, x, hx, c - 1 - k, by omega, ?_⟩
    rw [← hposition (by omega), hback hy]
  · rintro ⟨y, hy, x, hx, k, hk, rfl⟩
    refine ⟨_, (mem_copies hwidth hheight).2 ⟨height - 1 - y, x, by omega, hx,
      (mem_copyPixel_iff hs).2 ⟨c - 1 - k, by omega, rfl⟩⟩, ?_⟩
    rw [← hposition hy, Nat.sub_sub_self (by omega)]

/-- A run of bytes that are all within the file ends within the file. -/
theorem run_within {start base : Int} {m n : Nat} (hn : n ≤ 1920 * 1080 * 3) (hstart : 0 ≤ start)
    (hbase : 0 ≤ base) (hlt : base < 2 ^ 30) (hm : 0 < m)
    (hall : ∀ p < m, start + (Int32.ofInt (base + (p : Nat))).toInt < n) :
    start + base + m ≤ n := by
  have hexact : ∀ p : Nat, base + p < 2 ^ 31 → (Int32.ofInt (base + p)).toInt = base + p :=
    fun p hp ↦ Int32.toInt_ofInt_of_le (by omega) hp
  have hfirst := hall 0 hm
  rw [hexact 0 (by omega)] at hfirst
  by_contra hbehind
  -- the first byte behind the file
  have hlast := hall (n - start - base).toNat (by omega)
  rw [hexact _ (by omega)] at hlast
  omega

/-- **When all pixels are within the file**: when the header is not negative, and the rows end
there.  The positions of a larger image may wrap around, but are further apart. -/
theorem sources_within_iff (hs : Channels h.channels c) (hwidth : h.width.toInt = width)
    (hheight : h.height.toInt = height) (hwpos : 0 < width) (hhpos : 0 < height) {n : Nat}
    (hn : n ≤ 1920 * 1080 * 3) : (∀ a ∈ h.copies.map Prod.snd, 0 ≤ a ∧ a < n)
      ↔ 0 ≤ h.headerSize.toInt
        ∧ h.headerSize.toInt + ((height - 1) * rowBytes width c + width * c : Nat) ≤ n := by
  have hcpos := hs.one_le
  have hrun : (∀ a ∈ h.copies.map Prod.snd, 0 ≤ a ∧ a < n) ↔ ∀ y < height, ∀ p < width * c,
      0 ≤ h.headerSize.toInt + (Int32.ofInt (y * h.rowSize.toInt + (p : Nat))).toInt
        ∧ h.headerSize.toInt + (Int32.ofInt (y * h.rowSize.toInt + (p : Nat))).toInt < n := by
    refine ⟨?_, ?_⟩
    · intro hall y hy p hp
      refine hall _ ((mem_sources_iff hs hwidth hheight).2 ⟨y, hy, p / c, ?_, p % c, ?_, ?_⟩)
      · exact Nat.div_lt_of_lt_mul (by rwa [Nat.mul_comm])
      · exact Nat.mod_lt _ hcpos
      · rw [Nat.div_add_mod']
    · intro hall a ha
      obtain ⟨y, hy, x, hx, k, hk, rfl⟩ := (mem_sources_iff hs hwidth hheight).1 ha
      have hle : (x + 1) * c ≤ width * c := Nat.mul_le_mul_right _ hx
      rw [Nat.succ_mul] at hle
      exact hall y hy (x * c + k) (by omega)
  have hpos : 0 < width * c := Nat.mul_pos hwpos hcpos
  have hbytes := rowBytes_le width c
  rw [hrun]
  refine ⟨?_, ?_⟩
  · intro hall
    have hstart : 0 ≤ h.headerSize.toInt := by
      simpa using (hall 0 hhpos 0 hpos).1
    have hrow : h.headerSize.toInt + 0 + (width * c : Nat) ≤ n := by
      refine run_within hn hstart (by omega) (by omega) hpos fun p hp ↦ ?_
      simpa using (hall 0 hhpos p hp).2
    have hsize := hs.toInt_rowSize hwidth (by omega)
    have hrows : ∀ y < height,
        h.headerSize.toInt + (y * rowBytes width c : Nat) + (width * c : Nat) ≤ n := by
      intro y hy
      induction y with
      | zero => simpa using hrow
      | succ y ih =>
        have hprev := ih (by omega)
        refine run_within hn hstart (by omega) ?_ hpos fun p hp ↦ ?_
        · rw [Nat.succ_mul]
          omega
        · have hlt := (hall (y + 1) hy p hp).2
          rwa [hsize, ← Int.natCast_mul] at hlt
    have hend := hrows (height - 1) (by omega)
    exact ⟨hstart, by rw [Nat.cast_add]; omega⟩
  · rintro ⟨hstart, hend⟩ y hy p hp
    have hle : y * rowBytes width c ≤ (height - 1) * rowBytes width c :=
      Nat.mul_le_mul_right _ (by omega)
    rw [hs.toInt_rowSize hwidth (by omega), ← Int.natCast_mul,
      Int32.toInt_ofInt_of_le (by omega) (by omega)]
    omega

end

/-- An image that is refused, or has no pixels, or whose pixels are within the first `n` bytes. -/
def Within (h : BmpHeader) (n : Nat) : Prop :=
  h.TooLarge ∨ h.width.toInt ≤ 0 ∨ h.height.toInt ≤ 0 ∨ (h.channels ≠ 1 ∧ h.channels ≠ 3)
    ∨ (0 ≤ h.headerSize.toInt ∧ h.headerSize.toInt + (h.height.toInt - 1) * h.rowBytesInt
      + h.width.toInt * h.channels.toInt ≤ n)

theorem fieldReads_within_iff {n : Nat} : (∀ a ∈ fieldReads, 0 ≤ a ∧ a < n) ↔ 32 ≤ n := by
  have hall : ∀ a ∈ fieldReads, 0 ≤ a ∧ a < 32 := by decide
  refine ⟨?_, ?_⟩
  · intro hwithin
    have hlast := (hwithin 31 (by decide)).2
    omega
  · intro hle a ha
    have hfield := hall a ha
    omega

/-- The pixels of an image that is not refused. -/
theorem within_iff {h : BmpHeader} {n : Nat} (hn : n ≤ 1920 * 1080 * 3) (hsmall : ¬ h.TooLarge)
    (hkinds : h.channels = 1 ∨ h.channels = 3) :
    h.Within n ↔ ∀ a ∈ h.copies.map Prod.snd, 0 ≤ a ∧ a < n := by
  by_cases hempty : h.width.toInt ≤ 0 ∨ h.height.toInt ≤ 0
  · have hcopies : h.copies = [] := by
      rw [copies, positions_nil hempty.symm, List.flatMap_nil]
    rw [hcopies, Within]
    refine iff_of_true ?_ (by simp)
    exact .inr (or_assoc.1 (.inl hempty))
  · rw [not_or, not_le, not_le] at hempty
    obtain ⟨width, height, c, hwidth, hheight, hc, hcval⟩ :=
      exists_dimensions hempty.1 hempty.2 hkinds
    have hs : Channels h.channels c := ⟨hc, hcval⟩
    rw [hwidth, hheight] at hempty
    rw [sources_within_iff hs hwidth hheight (by omega) (by omega) hn, Within,
      rowBytesInt_eq hs hwidth, hwidth, hheight, hc]
    have hrows : ((height : Int) - 1) * (rowBytes width c : Nat) + width * c
        = ((height - 1) * rowBytes width c + width * c : Nat) := by
      have hcount : (height : Int) - 1 = (height - 1 : Nat) := by omega
      rw [hcount]
      push_cast
      rfl
    have hother : ¬ (h.channels ≠ 1 ∧ h.channels ≠ 3) := by
      rw [← not_or]
      exact not_not.2 hkinds
    rw [Int.add_assoc, hrows]
    constructor
    · rintro (hlarge | hneg | hneg | hchannels | hwithin)
      · exact absurd hlarge hsmall
      · omega
      · omega
      · exact absurd hchannels hother
      · exact hwithin
    · exact fun hwithin ↦ .inr (.inr (.inr (.inr hwithin)))

/-- **When the decoder reads nothing but the file.** -/
theorem decodeReads_within_iff {srcData : Int → UInt8} {n : Nat} (hn : n ≤ 1920 * 1080 * 3) :
    (∀ a ∈ decodeReads srcData, 0 ≤ a ∧ a < n) ↔ 32 ≤ n ∧ (read srcData).Within n := by
  rw [← fieldReads_within_iff, decodeReads, List.forall_mem_append]
  refine and_congr_right fun _ ↦ ?_
  split
  · rename_i hlarge
    exact iff_of_true (fun a ha ↦ absurd ha List.not_mem_nil) (.inl hlarge)
  · rename_i hsmall
    split
    · rename_i hkinds
      exact (within_iff hn hsmall hkinds).symm
    · rename_i hkinds
      exact iff_of_true (fun a ha ↦ absurd ha List.not_mem_nil)
        (.inr (.inr (.inr (.inl (not_or.1 hkinds)))))

end BmpHeader

/-! ## Loading a file -/

open Wp

/-- The bytes of the file are what the array holds, whatever was in it. -/
theorem storeBytes_of_lt (m m' : Int → UInt8) {bytes : List UInt8} {a : Int} (ha : 0 ≤ a)
    (hlt : a < bytes.length) : storeBytes m 0 bytes a = storeBytes m' 0 bytes a := by
  rw [storeBytes, storeBytes, if_pos ha, if_pos ha, List.getD_eq_getElem _ _ (by omega),
    List.getD_eq_getElem _ _ (by omega)]

/-- Loading a file stays in bounds: it fits into the array, nothing else is read from the array, and
the entries of the shape that are used exist. -/
structure InStaging (srcData : Int → UInt8) (bytes : List UInt8) (shape : List UInt64) : Prop where
  stores : (bytes.length : Int) ≤ decodeBufferSize.toInt
  reads : ∀ a ∈ BmpHeader.decodeReads srcData, 0 ≤ a ∧ a < bytes.length
  subscripts : ∀ i ∈ [1, 2, 3], i < shape.length

/-- Such a file is decoded without regard to what the array held before. -/
theorem imageDecode_of_inStaging {r : Rounding} {m : Int → UInt8} {bytes : List UInt8}
    {shape : List UInt64} (h : InStaging (storeBytes m 0 bytes) bytes shape)
    (m' sBuffer : Int → UInt8) (dstWidth dstHeight dstChannels : Int32) :
    imageDecode r (storeBytes m 0 bytes) sBuffer dstWidth dstHeight dstChannels
      = imageDecode r (storeBytes m' 0 bytes) sBuffer dstWidth dstHeight dstChannels :=
  BmpHeader.imageDecode_congr (fun a ha ↦ storeBytes_of_lt m m' (h.reads a ha).1 (h.reads a ha).2)
    sBuffer dstWidth dstHeight dstChannels

theorem inStaging_iff (m : Int → UInt8) (bytes : List UInt8) (shape : List UInt64) :
    InStaging (storeBytes m 0 bytes) bytes shape
      ↔ bytes.length ≤ 1920 * 1080 * 3 ∧ 32 ≤ bytes.length ∧ 4 ≤ shape.length
        ∧ (BmpHeader.read (storeBytes (fun _ ↦ 0) 0 bytes)).Within bytes.length := by
  have hsize : decodeBufferSize.toInt = (1920 * 1080 * 3 : Nat) := rfl
  -- a file with a header has it in any array
  have hread : 32 ≤ bytes.length → BmpHeader.read (storeBytes m 0 bytes)
      = BmpHeader.read (storeBytes (fun _ ↦ 0) 0 bytes) := fun hlong ↦
    BmpHeader.read_congr fun a ha ↦ by
      obtain ⟨hnonneg, hlt⟩ := BmpHeader.fieldReads_within_iff.2 hlong a ha
      exact storeBytes_of_lt _ _ hnonneg hlt
  constructor
  · rintro ⟨hstores, hreads, hsubscripts⟩
    rw [hsize, Int.ofNat_le] at hstores
    obtain ⟨hlong, hwithin⟩ := (BmpHeader.decodeReads_within_iff hstores).1 hreads
    rw [hread hlong] at hwithin
    exact ⟨hstores, hlong, hsubscripts 3 (by simp), hwithin⟩
  · rintro ⟨hstores, hlong, hshape, hwithin⟩
    refine ⟨?_, (BmpHeader.decodeReads_within_iff hstores).2 ⟨hlong, ?_⟩, ?_⟩
    · rwa [hsize, Int.ofNat_le]
    · rwa [hread hlong]
    · intro i hi
      simp only [List.mem_cons, List.not_mem_nil, or_false] at hi
      omega

section

variable (env : Env) (t : ElementType) (filename : String) (inputData : Int) (shape : List UInt64)
  (p : Process)

/-- What is read into the array. -/
def stagedBytes : List UInt8 :=
  (env.files filename).delivered (env.files filename).tellg.toNat

/-- The array with the bytes at its beginning. -/
def staged : Int → UInt8 := storeBytes (env.stackBytes p.trace) 0 (stagedBytes env filename)

variable {shape p} in
/-- No other entries of the shape are used. -/
theorem getInputFromFile_congr {shape' : List UInt64}
    (h : ∀ i ∈ [1, 2, 3], subscript env p shape i = subscript env p shape' i) :
    getInputFromFile env t filename inputData shape p
      = getInputFromFile env t filename inputData shape' p := by
  refine bind_congr fun q q' hget ↦ ?_
  obtain ⟨rfl, rfl⟩ : p = q ∧ p = q' := by cases hget; exact ⟨rfl, rfl⟩
  simp only [h 1 (by simp), h 2 (by simp), h 3 (by simp)]

/-- Loading a file stays in bounds, and -1 is returned where it cannot. -/
structure LoadsInBounds : Prop where
  stores : (env.files filename).opens = true →
    ((stagedBytes env filename).length : Int) ≤ decodeBufferSize.toInt
  accesses : (env.files filename).Readable →
    InStaging (staged env filename p) (stagedBytes env filename) shape
  refuses : ¬ InStaging (staged env filename p) (stagedBytes env filename) shape →
    ∃ q, getInputFromFile env t filename inputData shape p = .ok (-1) q

/-- **When loading a file stays in bounds**: when the file fits into the array and, if it can be
read, has a header and the pixels that the header promises, and the shape has four entries. -/
theorem loadsInBounds_iff : LoadsInBounds env t filename inputData shape p
    ↔ ((env.files filename).opens = true → (stagedBytes env filename).length ≤ 1920 * 1080 * 3)
      ∧ ((env.files filename).Readable → 32 ≤ (stagedBytes env filename).length ∧ 4 ≤ shape.length
        ∧ (BmpHeader.read (storeBytes (fun _ ↦ 0) 0 (stagedBytes env filename))).Within
          (stagedBytes env filename).length) := by
  have hsize : decodeBufferSize.toInt = (1920 * 1080 * 3 : Nat) := rfl
  constructor
  · rintro ⟨hstores, haccesses, -⟩
    rw [hsize, Int.ofNat_le] at hstores
    exact ⟨hstores, fun hread ↦ ((inStaging_iff _ _ _).1 (haccesses hread)).2⟩
  · rintro ⟨hstores, hcontents⟩
    have haccesses : (env.files filename).Readable →
        InStaging (staged env filename p) (stagedBytes env filename) shape := fun hread ↦
      (inStaging_iff _ _ _).2 ⟨hstores hread.1, hcontents hread⟩
    refine ⟨?_, haccesses, fun hnot ↦ ?_⟩
    · rwa [hsize, Int.ofNat_le]
    · have hwp := wp_getInputFromFile_of_not_readable env t inputData shape p
        fun hread ↦ hnot (haccesses hread)
      rw [wp] at hwp
      split at hwp
      · rename_i q hrun
        rw [hrun, hwp.1]
        exact ⟨q, rfl⟩
      · exact hwp.elim

end

/-- The header of a bitmap of 1920 by 1080 pixels of three bytes. -/
def fullHdHeader : List UInt8 :=
  [66, 77, 54, 236, 94, 0, 0, 0, 0, 0, 54, 0, 0, 0, 40, 0, 0, 0, 128, 7, 0, 0, 56, 4, 0, 0, 1, 0,
    24, 0] ++ List.replicate 24 0

/-- The bitmap, which is black. -/
def fullHdBitmap : File :=
  ⟨true, true, 1920 * 1080 * 3 + 54, fullHdHeader ++ List.replicate (1920 * 1080 * 3) 0⟩

def fullHdEnv : Env := { Env.constant 0 with files := fun _ ↦ fullHdBitmap }

/-- The largest image that the decoder admits does not fit into the array with its header. -/
theorem fullHd_not_loadsInBounds :
    ¬ LoadsInBounds fullHdEnv .uint8 "image.bmp" 0 [1, 1080, 1920, 3] {} := by
  rintro ⟨hstores, -, -⟩
  have hsize : decodeBufferSize.toInt = (1920 * 1080 * 3 : Nat) := rfl
  have hcontent : fullHdBitmap.content.length = 1920 * 1080 * 3 + 54 := by
    rw [fullHdBitmap, List.length_append, List.length_replicate]
    rfl
  have htells : fullHdBitmap.tells = true := rfl
  have htellg : fullHdBitmap.tellg.toNat = 1920 * 1080 * 3 + 54 := by
    rw [File.tellg, if_pos htells, hcontent]
    rfl
  have hlength : (stagedBytes fullHdEnv "image.bmp").length = 1920 * 1080 * 3 + 54 := by
    show (fullHdBitmap.delivered fullHdBitmap.tellg.toNat).length = _
    rw [File.delivered, if_pos htells, List.length_take, htellg, hcontent]
    rfl
  have hle := hstores rfl
  rw [hlength, hsize, Int.ofNat_le] at hle
  omega

end EthosU
