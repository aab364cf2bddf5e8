import EthosU.InferenceRunner.BoundingBoxes
import EthosU.InferenceRunner.PrePostProcessing
import EthosU.InferenceRunner.TopN

/-!
# Classification

The calls of `getTopN` in the runners under `utils/inference_runner`, on the bytes of a tensor.  The
elements need not be numbers.

* `topN` is `getTopN` where they all are.  Where some are not, the pairs in the queue are not
  ordered, and which of them are left is up to the implementation.
* `Classifies` says which elements have to be there, and which labels: an index without a label has
  to have four others ahead of it.
-/

set_option autoImplicit false

namespace EthosU

section

variable {V : Type} (impl : Implementation V) (floats : Floats V)

/-- `(float)((T*)data)[i]`, and nothing if that is not a number. -/
def elementAt (t : ElementType) (data : List UInt8) (i : Nat) : Option V :=
  match t with
  | .uint8 => some (floats.ofInt (data.getD i 0).toNat)
  | .int8 => some (floats.ofInt (data.getD i 0).toInt8.toInt)
  | .float => floats.ofBits (floatAt data i)

def element? (t : ElementType) (data : List UInt8) (i : Nat) : Option (Option V) :=
  if t.size * (i + 1) ≤ data.length then some (elementAt floats t data i) else none

/-- A place for what is not a number, where everything is one. -/
def number (x : Option V) : V := x.getD (floats.ofInt 0)

section

variable [LinearOrder V] [Add V] [Div V]

/-- `(data[i] + zp) / scale`. -/
def valueAt (data : Nat → Option V) (zp scale : V) (i : Nat) : Option V :=
  (data i).map fun x ↦ (x + zp) / scale

/-- The test `value < threshold` fails. -/
def Offered (threshold : V) (value : Option V) : Prop := ∀ x ∈ value, threshold ≤ x

instance (threshold : V) (value : Option V) : Decidable (Offered threshold value) :=
  inferInstanceAs (Decidable (∀ x ∈ value, threshold ≤ x))

/-- What is pushed to the queue, in the order of the loop. -/
def pushed (data : Nat → Option V) (threshold : V) (count : Int32) (zp scale : V) :
    List (Option V × Nat) :=
  ((List.range count.toInt.toNat).filter fun i ↦ Offered threshold (valueAt data zp scale i)).map
    fun i ↦ (valueAt data zp scale i, i)

/-- `getTopN`, where some of the elements may not be numbers. -/
def topN (data : Nat → Option V) (threshold : V) (count : Int32) (zp scale : V) :
    InferenceResult V :=
  if ∀ i < count.toInt.toNat, (data i).isSome then
    (getTopN (number floats) data threshold count zp scale).map fun r ↦
      (.ofNat r.1, some r.2.1, r.2.2.map some)
  else
    (impl.heap (pushed data threshold count zp scale)).map fun p ↦ (.ofNat p.2, p.1, [])

/-- `getTopN<T>` at a pointer.  Each pass of its loop reads one element. -/
def readTopN (t : ElementType) (data : List UInt8) (threshold : V) (count : Int32) (zp scale : V) :
    Except Exception (InferenceResult V) := do
  let _ ← (List.range count.toInt.toNat).mapM fun i ↦ access (element? floats t data i)
  return topN impl floats (elementAt floats t data) threshold count zp scale

/-- The argument for `zp` in the cases of the `switch`. -/
def ElementType.zp : ElementType → ℚ
  | .uint8 => 0
  | .int8 => 128
  | .float => 0

/-- The argument for `scale`. -/
def ElementType.scale : ElementType → ℚ
  | .uint8 => 255
  | .int8 => 255
  | .float => 1

def classify (t : ElementType) (data : List UInt8) (count : Int32) :
    Except Exception (InferenceResult V) :=
  readTopN impl floats t data (floats.literal 0.23) count (floats.literal t.zp)
    (floats.literal t.scale)

/-- The elements are there, and an index without a label is not among the best four.  Where some of
the elements are not numbers, it is not offered. -/
structure Classifies (labels : List (List UInt8)) (t : ElementType) (data : List UInt8)
    (count : Int32) : Prop where
  fits : t.size * count.toInt.toNat ≤ data.length
  beaten : ∀ i < count.toInt.toNat, labels.length ≤ i →
    Offered (floats.literal 0.23) (valueAt (elementAt floats t data) (floats.literal t.zp)
      (floats.literal t.scale) i) →
    (∀ j < count.toInt.toNat, (elementAt floats t data j).isSome)
      ∧ 4 ≤ ahead (number floats) (elementAt floats t data) (floats.literal 0.23) count
        (floats.literal t.zp) (floats.literal t.scale) i

/-! ### What the best four need -/

theorem forall_le_length_iff (size n length : Nat) :
    (∀ i < n, size * (i + 1) ≤ length) ↔ size * n ≤ length := by
  refine ⟨fun h ↦ ?_, fun h i hi ↦ (Nat.mul_le_mul_left size hi).trans h⟩
  rcases n with _ | n
  · simp
  · exact h n (by omega)

/-- The index of an element, as an `int` that is used as a `size_t`. -/
theorem subscript_ofNat {count : Int32} {i : Nat} (h : i < count.toInt.toNat) {length : Nat}
    (hlt : length < 2 ^ 63) : (Int32.ofNat i).toInt64.toUInt64.toNat < length ↔ i < length := by
  have hcount := count.toInt_lt
  have hi : (Int32.ofNat i).toInt = i := Int32.toInt_ofNat_of_lt (by omega)
  rw [Narrow.subscript_lt_iff _ hlt]
  omega

theorem mem_pushed {data : Nat → Option V} {threshold zp scale : V} {count : Int32}
    {p : Option V × Nat} : p ∈ pushed data threshold count zp scale
      ↔ p.2 < count.toInt.toNat ∧ Offered threshold (valueAt data zp scale p.2)
        ∧ p.1 = valueAt data zp scale p.2 := by
  obtain ⟨x, i⟩ := p
  simp only [pushed, List.mem_map, List.mem_filter, List.mem_range, decide_eq_true_eq,
    Prod.mk.injEq]
  refine ⟨?_, fun ⟨hi, hoffered, hx⟩ ↦ ⟨i, ⟨hi, hoffered⟩, hx.symm, rfl⟩⟩
  rintro ⟨j, ⟨hj, hoffered⟩, rfl, rfl⟩
  exact ⟨hj, hoffered, rfl⟩

section

variable (data : Nat → Option V) (threshold zp scale : V) (count : Int32)

theorem placed_topN : Placed (topN impl floats data threshold count zp scale) := by
  intro r hr
  rw [topN] at hr
  split at hr
  · obtain ⟨q, hq, rfl⟩ := List.mem_map.1 hr
    rw [getTopN_eq_take] at hq
    obtain ⟨p, -, rfl⟩ := List.mem_map.1 hq
    exact .inl rfl
  · obtain ⟨p, -, rfl⟩ := List.mem_map.1 hr
    exact .inl rfl

/-- Where everything is a number, a result without a label is one that few are ahead of. -/
theorem forall_topN_of_numbers {length : Nat} (hlt : length < 2 ^ 63)
    (hnumbers : ∀ i < count.toInt.toNat, (data i).isSome) :
    (∀ r ∈ topN impl floats data threshold count zp scale, r.1.toInt64.toUInt64.toNat < length)
      ↔ ∀ i < count.toInt.toNat, length ≤ i → Offered threshold (valueAt data zp scale i) →
        4 ≤ ahead (number floats) data threshold count zp scale i := by
  have hoffered : ∀ i < count.toInt.toNat, Offered threshold (valueAt data zp scale i)
      ↔ threshold ≤ scoreAt (number floats) data zp scale i := by
    intro i hi
    obtain ⟨x, hx⟩ := Option.isSome_iff_exists.1 (hnumbers i hi)
    simp [Offered, valueAt, scoreAt, number, hx]
  have hindex := exists_getTopN_iff (number floats) data threshold count zp scale
  rw [topN, if_pos hnumbers, List.forall_mem_map]
  refine ⟨fun h i hi hle hi' ↦ ?_, fun h r hr ↦ ?_⟩
  · by_contra hfew
    obtain ⟨r, hr, rfl⟩ := (hindex i).2 ⟨hi, (hoffered i hi).1 hi', by omega⟩
    exact absurd ((subscript_ofNat hi hlt).1 (h r hr)) (by omega)
  · obtain ⟨hi, hreaches, hfew⟩ := (hindex r.1).1 ⟨r, hr, rfl⟩
    refine (subscript_ofNat hi hlt).2 ?_
    by_contra hle
    exact absurd (h r.1 hi (by omega) ((hoffered r.1 hi).2 hreaches)) (by omega)

/-- Where something is not a number, any entry of the queue may be left. -/
theorem forall_topN_of_not_numbers {length : Nat} (hlt : length < 2 ^ 63)
    (hnumbers : ¬ ∀ i < count.toInt.toNat, (data i).isSome) :
    (∀ impl, ∀ r ∈ topN impl floats data threshold count zp scale,
        r.1.toInt64.toUInt64.toNat < length)
      ↔ ∀ i < count.toInt.toNat, length ≤ i → ¬ Offered threshold (valueAt data zp scale i) := by
  simp only [topN, if_neg hnumbers, List.forall_mem_map]
  refine ⟨fun h i hi hle hoffered ↦ ?_, fun h impl p hp ↦ ?_⟩
  · have hmem : (valueAt data zp scale i, i) ∈ pushed data threshold count zp scale :=
      mem_pushed.2 ⟨hi, hoffered, rfl⟩
    have hkept : (valueAt data zp scale i, i) ∈
        (Implementation.worst (valueAt data zp scale i, i)).heap
          (pushed data threshold count zp scale) := by
      simp [Implementation.worst, hmem]
    have hlabel := h (.worst (valueAt data zp scale i, i)) (valueAt data zp scale i, i) hkept
    exact absurd ((subscript_ofNat hi hlt).1 hlabel) (by omega)
  · obtain ⟨hi, hoffered, -⟩ := mem_pushed.1 ((impl.subperm_heap _).subset hp)
    refine (subscript_ofNat hi hlt).2 ?_
    by_contra hle
    exact h p.2 hi (by omega) hoffered

theorem forall_topN {length : Nat} (hlt : length < 2 ^ 63) :
    (∀ impl, ∀ r ∈ topN impl floats data threshold count zp scale,
        r.1.toInt64.toUInt64.toNat < length)
      ↔ ∀ i < count.toInt.toNat, length ≤ i → Offered threshold (valueAt data zp scale i) →
        (∀ j < count.toInt.toNat, (data j).isSome)
          ∧ 4 ≤ ahead (number floats) data threshold count zp scale i := by
  by_cases hnumbers : ∀ i < count.toInt.toNat, (data i).isSome
  · have hall := fun impl ↦
      forall_topN_of_numbers impl floats data threshold zp scale count hlt hnumbers
    simp only [hall]
    exact ⟨fun h i hi hle hoffered ↦ ⟨hnumbers, h (.worst (none, 0)) i hi hle hoffered⟩,
      fun h _ i hi hle hoffered ↦ (h i hi hle hoffered).2⟩
  · rw [forall_topN_of_not_numbers floats data threshold zp scale count hlt hnumbers]
    simp only [hnumbers, false_and, imp_false]

end

theorem safe_classify (labels : List (List UInt8)) (t : ElementType) (data : List UInt8)
    (count : Int32) :
    Safe (classify impl floats t data count >>= display impl labels)
      ↔ t.size * count.toInt.toNat ≤ data.length
        ∧ ∀ r ∈ topN impl floats (elementAt floats t data) (floats.literal 0.23) count
          (floats.literal t.zp) (floats.literal t.scale),
          r.1.toInt64.toUInt64.toNat < labels.length := by
  have hread : Safe ((List.range count.toInt.toNat).mapM fun i ↦ access (element? floats t data i))
      ↔ t.size * count.toInt.toNat ≤ data.length := by
    refine (Fallible.avoids_mapM fun i _ ↦ failsOnly_access _).trans ?_
    rw [← forall_le_length_iff]
    simp only [List.mem_range]
    refine forall₂_congr fun i _ ↦ safe_access.trans ?_
    rw [element?]
    split <;> simp_all
  rw [classify, readTopN, bind_assoc]
  refine Fallible.avoids_bind.trans ((and_congr_left' hread).trans (and_congr_right fun hfits ↦ ?_))
  have hplaced := placed_topN impl floats (elementAt floats t data) (floats.literal 0.23)
    (floats.literal t.zp) (floats.literal t.scale) count
  have hdisplay := @safe_display V impl labels _ hplaced
  obtain ⟨elements, hok⟩ :=
    (Fallible.failsOnly_mapM fun _ _ ↦ failsOnly_access _).exists_ok (hread.2 hfits)
  exact ⟨fun h ↦ hdisplay.1 (h elements hok), fun h _ _ ↦ hdisplay.2 h⟩

theorem forall_safe_classify (file : LabelsFile) (t : ElementType) (data : List UInt8)
    (count : Int32) :
    (∀ impl, Safe (classify impl floats t data count >>= display impl (readLabelsFile file)))
      ↔ Classifies floats (readLabelsFile file) t data count := by
  simp only [safe_classify]
  have hbeaten := forall_topN floats (elementAt floats t data) (floats.literal 0.23)
    (floats.literal t.zp) (floats.literal t.scale) count (length_readLabelsFile_lt file)
  refine ⟨fun h ↦ ⟨(h (.worst (none, 0))).1, hbeaten.1 fun impl ↦ (h impl).2⟩,
    fun h impl ↦ ⟨h.fits, hbeaten.2 h.beaten impl⟩⟩

end

end

end EthosU
