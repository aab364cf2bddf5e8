import EthosU.InferenceRunner.PrePostProcessing
import EthosU.Lib.Binary32
import EthosU.Lib.Layout
import Mathlib.Data.List.Nodup
import Mathlib.Tactic.NormNum

/-!
# Converting a tensor in place

`convertInputData` turns the bytes that the decoder has left at the beginning of a tensor into its
elements.  It goes through a pointer to the elements, so what it reads of a float are the four bytes
of the element and not the byte of the pixel, and of an `int8_t` a signed number.

* `element` is an element as a number, and `converted` the memory after the conversion.
* `MapsPixels` says that every element is made from its own pixel, in the order of the pixels.
* `mapsPixels_iff`: that is so for `uint8_t`; for `int8_t` unless a white pixel is left with a
  darker one, since 255 wraps to the least value; and for `float` only if there is no element.
-/

set_option autoImplicit false

namespace EthosU

open Wp

/-- A pixel that the decoder has left at the beginning of the tensor. -/
def pixelAt (m : Int → UInt8) (data : Int) (i : Nat) : Nat := (m (data + i)).toNat

/-- Element `i` of a tensor, as a number.  `readFloat` is the number that the bits of a float stand
for. -/
def element (readFloat : UInt32 → ℚ) (t : ElementType) (m : Int → UInt8) (data : Int) (i : Nat) :
    ℚ :=
  match t with
  | .uint8 => (m (data + i)).toNat
  | .int8 => (m (data + i)).toInt8.toInt
  | .float => readFloat (wordAt m (data + 4 * i))

/-- The memory after `convertInputData`. -/
def converted (env : Env) (t : ElementType) (data : Int) (size : Int32) (m : Int → UInt8) :
    Int → UInt8 :=
  (left (convertInputData env t data size) { mem := m }).mem

/-- Floats are converted by exact arithmetic, as long as they are in the range of a pixel. -/
def ConvertsExactly (env : Env) (readFloat : UInt32 → ℚ) : Prop :=
  ∀ (w : UInt32) (n : Nat), n ≤ 255 → Binary32.integerPart w = some (n : Int) →
    readFloat (env.convertFloat w) = (n - 127.5) / 127.5

/-- Every element is made from its own pixel alone, and the order of the pixels is kept. -/
structure MapsPixels (env : Env) (readFloat : UInt32 → ℚ) (t : ElementType) (data : Int)
    (size : Int32) (m : Int → UInt8) : Prop where
  alone : ∀ i : Nat, (i : Int) < size.toInt → ∀ m', pixelAt m' data i = pixelAt m data i →
    element readFloat t (converted env t data size m') data i
      = element readFloat t (converted env t data size m) data i
  increasing : ∀ i j : Nat, (i : Int) < size.toInt → (j : Int) < size.toInt →
    pixelAt m data i < pixelAt m data j →
    element readFloat t (converted env t data size m) data i
      < element readFloat t (converted env t data size m) data j
  uint8 : t = .uint8 → ∀ i : Nat, (i : Int) < size.toInt →
    element readFloat t (converted env t data size m) data i = pixelAt m data i
  float : t = .float → ∀ i : Nat, (i : Int) < size.toInt →
    element readFloat t (converted env t data size m) data i = (pixelAt m data i - 127.5) / 127.5

/-! ## The loop -/

section

variable (env : Env) (data : Int) (size : Int32) (m : Int → UInt8)

theorem converted_eq (t : ElementType) :
    converted env t data size m = (upTo size).reverse.foldl (convertElement env t data) m := rfl

theorem nodup_upTo : (upTo size).Nodup := by
  have hlt := size.toInt_lt
  refine List.Nodup.map_on (fun i hi j hj heq ↦ ?_) List.nodup_range
  have hi' := List.mem_range.1 hi
  have hj' := List.mem_range.1 hj
  have hval := congrArg Int32.toInt heq
  rw [Int32.toInt_ofNat_of_lt (by omega), Int32.toInt_ofNat_of_lt (by omega)] at hval
  exact Int.ofNat_inj.1 hval

/-- The conversion of every element happens once. -/
theorem mem_reverse_upTo {i : Nat} (hi : (i : Int) < size.toInt) :
    Int32.ofNat i ∈ (upTo size).reverse := List.mem_reverse.2 (mem_upTo hi)

theorem toInt_index {i : Nat} (hi : (i : Int) < size.toInt) : (Int32.ofNat i).toInt = i := by
  have hlt := size.toInt_lt
  exact Int32.toInt_ofNat_of_lt (by omega)

theorem converted_uint8 : converted env .uint8 data size m = m := by
  rw [converted_eq]
  induction (upTo size).reverse with
  | nil => rfl
  | cons i l ih => exact ih

/-- An `int8_t` is converted from the byte at its own address. -/
theorem converted_int8 {i : Nat} (hi : (i : Int) < size.toInt) :
    converted env .int8 data size m (data + i) = convertInt8 (m (data + i)) := by
  have hfold := Layout.read_foldl (fun (m : Int → UInt8) (i : Int32) ↦ m (data + i.toInt))
    (convertElement env .int8 data) convertInt8
    (fun m i ↦ Function.update_self _ _ _)
    (fun m i j hij ↦ Function.update_of_ne (fun heq ↦ hij
      (Int32.toInt_inj.1 (Int.add_left_cancel heq)).symm) _ _)
    (List.nodup_reverse.2 (nodup_upTo size)) m (.ofNat i)
  rw [if_pos (mem_reverse_upTo size hi), toInt_index size hi] at hfold
  exact hfold

theorem wordAt_storeBytes_self (a : Int) {bytes : List UInt8} (h : bytes.length = 4) :
    wordAt (storeBytes m a bytes) a = .ofNat (Bytes.decode bytes) := by
  have hload : Bytes.load (fun i : Nat ↦ storeBytes m a bytes (a + i)) 0 4 = bytes := by
    refine List.ext_getElem (by rw [Bytes.length_load, h]) fun i hi hi' ↦ ?_
    have hle : a ≤ a + ((0 + i : Nat) : Int) := by omega
    have hsub : (a + ((0 + i : Nat) : Int) - a).toNat = i := by omega
    simp only [Bytes.load, Bytes.gather, List.getElem_map, List.getElem_range, storeBytes,
      if_pos hle, hsub]
    exact List.getD_eq_getElem _ _ hi'
  rw [wordAt, Bytes.word, hload]

theorem wordAt_storeBytes_of_disjoint {a b : Int} {bytes : List UInt8} (h : bytes.length = 4)
    (hdisjoint : b + 4 ≤ a ∨ a + 4 ≤ b) : wordAt (storeBytes m a bytes) b = wordAt m b := by
  rw [wordAt, wordAt, Bytes.word, Bytes.word]
  congr 2
  refine Bytes.load_congr fun i hi ↦ ?_
  rw [storeBytes]
  split
  · rw [List.getD_eq_default]
    omega
  · rfl

/-- A float is converted from the four bytes at its own address. -/
theorem converted_float {i : Nat} (hi : (i : Int) < size.toInt) :
    wordAt (converted env .float data size m) (data + 4 * i)
      = env.convertFloat (wordAt m (data + 4 * i)) := by
  have hfold := Layout.read_foldl
    (fun (m : Int → UInt8) (i : Int32) ↦ wordAt m (data + 4 * i.toInt))
    (convertElement env .float data) env.convertFloat ?_ ?_
    (List.nodup_reverse.2 (nodup_upTo size)) m (.ofNat i)
  · rw [if_pos (mem_reverse_upTo size hi), toInt_index size hi] at hfold
    exact hfold
  · intro m i
    have hlt : (env.convertFloat (wordAt m (data + 4 * i.toInt))).toNat < 256 ^ 4 :=
      (env.convertFloat (wordAt m (data + 4 * i.toInt))).toNat_lt
    rw [convertElement, wordAt_storeBytes_self _ _ (Bytes.length_encode _ _), Bytes.decode_encode,
      Nat.mod_eq_of_lt hlt, UInt32.ofNat_toNat]
  · intro m i j hij
    have hne : i.toInt ≠ j.toInt := fun heq ↦ hij (Int32.toInt_inj.1 heq)
    exact wordAt_storeBytes_of_disjoint _ (Bytes.length_encode _ _) (by omega)

end

/-! ## Order -/

/-- Subtracting 127 keeps the order of the pixels up to 254. -/
theorem toInt_convertInt8 (b : UInt8) :
    (convertInt8 b).toInt8.toInt = if b.toNat = 255 then -128 else (b.toNat : Int) - 127 := by
  have hall : ∀ n : Fin 256, (convertInt8 (.ofNat n)).toInt8.toInt
      = if (n : Nat) = 255 then -128 else ((n : Nat) : Int) - 127 := by
    decide +kernel
  have hb := hall ⟨b.toNat, b.toNat_lt⟩
  rwa [UInt8.ofNat_toNat] at hb

/-- When the conversion is right. -/
def Convertible (t : ElementType) (data : Int) (size : Int32) (m : Int → UInt8) : Prop :=
  match t with
  | .uint8 => True
  | .int8 => ∀ i j : Nat, (i : Int) < size.toInt → (j : Int) < size.toInt →
    pixelAt m data i < pixelAt m data j → pixelAt m data j ≠ 255
  | .float => size.toInt ≤ 0

section

variable {env : Env} {readFloat : UInt32 → ℚ} (data : Int) (size : Int32) (m : Int → UInt8)

theorem element_uint8 (i : Nat) :
    element readFloat .uint8 (converted env .uint8 data size m) data i = pixelAt m data i := by
  rw [converted_uint8]
  rfl

theorem element_int8 {i : Nat} (hi : (i : Int) < size.toInt) :
    element readFloat .int8 (converted env .int8 data size m) data i
      = ((if pixelAt m data i = 255 then -128 else (pixelAt m data i : Int) - 127 : Int) : ℚ) := by
  rw [element, converted_int8 env data size m hi, toInt_convertInt8]
  rfl

/-- The element with the lowest byte of `m` and three bytes that make it a number from `n` up. -/
theorem exists_float (hexact : ConvertsExactly env readFloat) (hsize : 0 < size.toInt) {n : Nat}
    (hn : n = 1 ∨ n = 2) : ∃ m', pixelAt m' data 0 = pixelAt m data 0
      ∧ element readFloat .float (converted env .float data size m') data 0
        = ((n : ℚ) - 127.5) / 127.5 := by
  have hbyte : (m data).toNat < 2 ^ 8 := (m data).toNat_lt
  have hword : ∃ bytes : List UInt8, bytes.length = 4 ∧ bytes.getD 0 0 = m data
      ∧ Binary32.integerPart (.ofNat (Bytes.decode bytes)) = some (n : Int) := by
    rcases hn with rfl | rfl
    · refine ⟨[m data, 0, 0x80, 0x3f], rfl, rfl, ?_⟩
      have hbits : Bytes.decode [m data, 0, 0x80, 0x3f] = 127 * 2 ^ 23 + (m data).toNat := by
        simp [Bytes.decode]
        omega
      have hpart : (2 ^ 23 + (m data).toNat) / 2 ^ (150 - 127) = 1 := by omega
      rw [hbits, Binary32.integerPart_of_lt (by decide) (by decide) (by omega), hpart]
    · refine ⟨[m data, 0, 0, 0x40], rfl, rfl, ?_⟩
      have hbits : Bytes.decode [m data, 0, 0, 0x40] = 128 * 2 ^ 23 + (m data).toNat := by
        simp [Bytes.decode]
        omega
      have hpart : (2 ^ 23 + (m data).toNat) / 2 ^ (150 - 128) = 2 := by omega
      rw [hbits, Binary32.integerPart_of_lt (by decide) (by decide) (by omega), hpart]
  obtain ⟨bytes, hlength, hfirst, hpart⟩ := hword
  refine ⟨storeBytes m data bytes, ?_, ?_⟩
  · rw [pixelAt, pixelAt, Nat.cast_zero, Int.add_zero, storeBytes, if_pos (Int.le_refl _),
      Int.sub_self, Int.toNat_zero, List.getD_eq_getElem _ _ (by omega), ← hfirst,
      List.getD_eq_getElem _ _ (by omega)]
  · rw [element, converted_float env data size _ (i := 0) hsize, Nat.cast_zero, Int.mul_zero,
      Int.add_zero, wordAt_storeBytes_self _ _ hlength]
    exact hexact _ n (by omega) hpart

theorem mapsPixels_uint8 : MapsPixels env readFloat .uint8 data size m := by
  refine ⟨?_, ?_, fun _ i _ ↦ element_uint8 data size m i, fun h ↦ nomatch h⟩
  · intro i _ m' heq
    rw [element_uint8, element_uint8, heq]
  · intro i j _ _ hlt
    rw [element_uint8, element_uint8]
    exact_mod_cast hlt

/-- 255 wraps to the least value, which is fine unless it has to be greater than another one. -/
theorem mapsPixels_int8_iff : MapsPixels env readFloat .int8 data size m
    ↔ ∀ i j : Nat, (i : Int) < size.toInt → (j : Int) < size.toInt →
      pixelAt m data i < pixelAt m data j → pixelAt m data j ≠ 255 := by
  refine ⟨?_, ?_⟩
  · intro h i j hi hj hlt hwhite
    have hless := h.increasing i j hi hj hlt
    rw [element_int8 data size m hi, element_int8 data size m hj, if_pos hwhite,
      if_neg (by omega)] at hless
    have hless' : (pixelAt m data i : Int) - 127 < -128 := by exact_mod_cast hless
    omega
  · intro h
    refine ⟨?_, ?_, (fun h ↦ nomatch h), (fun h ↦ nomatch h)⟩
    · intro i hi m' heq
      rw [element_int8 data size m' hi, element_int8 data size m hi, heq]
    · intro i j hi hj hlt
      have hwhite := h i j hi hj hlt
      have hbyte : pixelAt m data j < 2 ^ 8 := (m (data + j)).toNat_lt
      rw [element_int8 data size m hi, element_int8 data size m hj, if_neg hwhite,
        if_neg (by omega)]
      have hlt' : (pixelAt m data i : Int) - 127 < pixelAt m data j - 127 := by omega
      exact_mod_cast hlt'

theorem mapsPixels_float_iff (hexact : ConvertsExactly env readFloat) :
    MapsPixels env readFloat .float data size m ↔ size.toInt ≤ 0 := by
  refine ⟨?_, ?_⟩
  · intro h
    -- two tensors with the same first pixel, and with different first elements
    refine not_lt.1 fun hsize ↦ ?_
    obtain ⟨m₁, hpixel₁, helement₁⟩ := exists_float data size m hexact hsize (.inl rfl)
    obtain ⟨m₂, hpixel₂, helement₂⟩ := exists_float data size m hexact hsize (.inr rfl)
    have hsame := (h.alone 0 hsize m₁ hpixel₁).trans (h.alone 0 hsize m₂ hpixel₂).symm
    rw [helement₁, helement₂] at hsame
    norm_num at hsame
  · intro hempty
    have hnone : ∀ i : Nat, ¬ (i : Int) < size.toInt := fun i hi ↦ by omega
    exact ⟨fun i hi ↦ absurd hi (hnone i), fun i _ hi ↦ absurd hi (hnone i),
      fun _ i hi ↦ absurd hi (hnone i), fun _ i hi ↦ absurd hi (hnone i)⟩

/-- **When the conversion maps every pixel to its element.** -/
theorem mapsPixels_iff (env : Env) (readFloat : UInt32 → ℚ) (t : ElementType) (data : Int)
    (size : Int32) (m : Int → UInt8) (hexact : ConvertsExactly env readFloat) :
    MapsPixels env readFloat t data size m ↔ Convertible t data size m := by
  rcases t with _ | _ | _
  · exact iff_of_true (mapsPixels_uint8 data size m) trivial
  · exact mapsPixels_int8_iff data size m
  · exact mapsPixels_float_iff data size m hexact

end

/-! ## A white pixel next to a black one -/

/-- Exact arithmetic: the number is encoded, and read, by the pixel it is made from. -/
def Env.exactFloat : Env :=
  { Env.constant 0 with
    convertFloat := fun w ↦ .ofNat ((Binary32.integerPart w).getD 0).toNat }

theorem convertsExactly :
    ConvertsExactly .exactFloat fun w ↦ ((w.toNat : ℚ) - 127.5) / 127.5 := by
  intro w n hn hpart
  have hvalue : (UInt32.ofNat n).toNat = n := UInt32.toNat_ofNat_of_lt' (by show n < 2 ^ 32; omega)
  show (((UInt32.ofNat ((Binary32.integerPart w).getD 0).toNat).toNat : ℚ) - 127.5) / 127.5 = _
  rw [hpart, Option.getD_some, Int.toNat_natCast, hvalue]

/-- A black pixel and a white one. -/
def blackWhite : Int → UInt8 := fun a ↦ if a = 1 then 255 else 0

theorem blackWhite_mapsPixels_iff :
    MapsPixels .exactFloat (fun w ↦ ((w.toNat : ℚ) - 127.5) / 127.5) .int8 0 2 blackWhite
      ↔ Convertible .int8 0 2 blackWhite :=
  mapsPixels_iff _ _ .int8 0 2 blackWhite convertsExactly

/-- White becomes -128, and black -127. -/
theorem white_below_black :
    ¬ ∀ (env : Env) (readFloat : UInt32 → ℚ) (t : ElementType) (data : Int) (size : Int32)
      (m : Int → UInt8), ConvertsExactly env readFloat → 0 ≤ size.toInt →
      MapsPixels env readFloat t data size m := by
  intro hall
  have h := hall _ _ .int8 0 2 blackWhite convertsExactly (by decide)
  have hless := h.increasing 0 1 (by decide) (by decide) (by decide)
  rw [element_int8 0 2 blackWhite (by decide), element_int8 0 2 blackWhite (by decide)] at hless
  exact absurd (Int.cast_lt.1 hless) (by decide)

end EthosU
