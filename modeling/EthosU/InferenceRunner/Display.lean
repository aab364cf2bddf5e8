import EthosU.Kernel
import EthosU.Lib.Binary32
import EthosU.Lib.Fallible
import EthosU.Lib.Bytes
import Mathlib.Data.Rat.Defs
import Mathlib.Data.List.Perm.Subperm

/-!
# Output tensors, labels and what is printed

What the runners under `utils/inference_runner` have after an inference: tensors, and the labels
that `readLabelsFile` has read.  The results are printed with their labels.

* `readLabelsFile` gets one label for each line of a file.  It does not pad.
* Subscripts are not checked by the program.  Here an element, a tensor or a label that does not
  exist is a crash (`access`), and `Safe` says that there is none: the program goes on or reports an
  error.
* `Implementation` is what the language leaves open.
* `safe_display` says what the printing needs.
-/

set_option autoImplicit false

namespace EthosU

/-! ## Labels -/

/-- `std::getline`, until nothing is left. -/
def getlines : List UInt8 → List (List UInt8)
  | [] => []
  | c :: cs =>
    if c = 10 then [] :: getlines cs
    else
      match getlines cs with
      | [] => [[c]]
      | line :: lines => (c :: line) :: lines

theorem length_getlines_le (cs : List UInt8) : (getlines cs).length ≤ cs.length := by
  induction cs with
  | nil => exact le_rfl
  | cons c cs ih =>
    rw [getlines]
    split
    · simpa using ih
    · split
      · simp
      · next hlines =>
        rw [hlines] at ih
        simp only [List.length_cons] at ih ⊢
        omega

/-- A file of labels, whose size is an `off_t`. -/
structure LabelsFile where
  content : List UInt8
  length_lt : content.length < 2 ^ 63

/-- The lines of the file, and nothing after them. -/
def readLabelsFile (file : LabelsFile) : List (List UInt8) := getlines file.content

theorem length_readLabelsFile_lt (file : LabelsFile) : (readLabelsFile file).length < 2 ^ 63 :=
  (length_getlines_le file.content).trans_lt file.length_lt

/-! ## Tensors and floats -/

/-- An output tensor as the network reports it, and what `data` and `typed_output_buffer` get after
the inference: its bytes, or the text of an exception. -/
structure OutputTensor where
  type : Int32
  shape : List UInt64
  data : Except String (List UInt8)

/-- What `data` and `typed_output_buffer` return or throw. -/
def OutputTensor.fetch (tensor : OutputTensor) : Except Exception (List UInt8) :=
  tensor.data.mapError .error

/-- The bytes of a tensor, if `data` gets them. -/
def OutputTensor.bytes (tensor : OutputTensor) : List UInt8 := tensor.data.toOption.getD []

def OutputTensor.Mapped (tensor : OutputTensor) : Prop := tensor.data = .ok tensor.bytes

theorem OutputTensor.fetch_of_mapped {tensor : OutputTensor} (h : tensor.Mapped) :
    tensor.fetch = .ok tensor.bytes := by
  rw [fetch, h]
  rfl

theorem OutputTensor.fetch_of_not_mapped {tensor : OutputTensor} (h : ¬ tensor.Mapped) :
    ∃ e, e ≠ .crash ∧ tensor.fetch = .error e := by
  rcases hdata : tensor.data with msg | data
  · refine ⟨.error msg, by simp, ?_⟩
    rw [fetch, hdata]
    rfl
  · refine absurd ?_ h
    rw [Mapped, bytes, hdata]
    rfl

/-- The conversions to `float`.  Bits need not be those of a number. -/
structure Floats (V : Type) where
  ofInt : Int → V
  ofBits : UInt32 → Option V
  literal : ℚ → V

/-- What becomes of a `float` that does not fit the type it is converted to, and what is left in a
queue of pairs of which some are not comparable. -/
structure Implementation (V : Type) where
  toSize : UInt32 → UInt64
  toNat_toSize : ∀ {w : UInt32} {n : Int}, Binary32.integerPart w = some n → 0 ≤ n → n < 2 ^ 64 →
    ((toSize w).toNat : Int) = n
  toInt : UInt32 → Int32
  toInt_toInt : ∀ {w : UInt32} {n : Int}, Binary32.integerPart w = some n → -2 ^ 31 ≤ n →
    n < 2 ^ 31 → (toInt w).toInt = n
  /-- `(int)(score * 100)`. -/
  percent : Option V → Int32
  heap : List (Option V × Nat) → List (Option V × Nat)
  subperm_heap : ∀ l, (heap l).Subperm l
  length_heap : ∀ l, (heap l).length = min 4 l.length

/-- What is behind a subscript or a pointer, if there is anything. -/
def access {α : Type} (a : Option α) : Except Exception α := a.elim (.error .crash) .ok

/-- No subscript and no dereference goes wrong.  An error may be reported. -/
def Safe {α : Type} (x : Except Exception α) : Prop := Fallible.Avoids .crash x

theorem failsOnly_access {α : Type} (a : Option α) : Fallible.FailsOnly .crash (access a) := by
  rcases a with _ | a
  · exact Fallible.failsOnly_bad _
  · exact Fallible.failsOnly_ok _ a

theorem safe_access {α : Type} {a : Option α} : Safe (access a) ↔ a.isSome := by
  rcases a with _ | a
  · simp [Safe, access, Fallible.not_avoids]
  · simp [Safe, access, Fallible.avoids_ok]

theorem access_eq_ok {α : Type} {a : Option α} {x : α} : access a = .ok x ↔ a = some x := by
  rcases a with _ | a <;> simp [access]

/-- A reported error is safe. -/
theorem safe_bind_error {α β : Type} {x : Except Exception α} {f : α → Except Exception β}
    (h : ∃ e, e ≠ .crash ∧ x = .error e) : Safe (x >>= f) := by
  obtain ⟨e, he, rfl⟩ := h
  exact Fallible.avoids_error he

/-- `std::vector<std::tuple<int, float, std::vector<float>>>`. -/
abbrev InferenceResult (V : Type) := List (Int32 × Option V × List (Option V))

/-- The bits of the float with the index `i`. -/
def floatAt (data : List UInt8) (i : Nat) : UInt32 :=
  .ofNat (Bytes.decode ((data.drop (4 * i)).take 4))

/-- `((float*)data)[i]`. -/
def float? (data : List UInt8) (i : Nat) : Option UInt32 :=
  if 4 * (i + 1) ≤ data.length then some (floatAt data i) else none

section

variable {V : Type} (impl : Implementation V)

/-! ## Printing -/

def displayLocation (pos : List (Option V)) : Except Exception (List (Option V)) :=
  if pos.length ≠ 0 then [0, 1, 2, 3].mapM fun k ↦ access pos[k]? else .ok []

/-- What is printed for a result: the label, the confidence and the location. -/
def displayResult (labels : List (List UInt8)) (result : Int32 × Option V × List (Option V)) :
    Except Exception (List UInt8 × Int32 × List (Option V)) := do
  let label ← access labels[result.1.toInt64.toUInt64.toNat]?
  let location ← displayLocation result.2.2
  return (label, impl.percent result.2.1, location)

def display (labels : List (List UInt8)) (results : InferenceResult V) :
    Except Exception (List (List UInt8 × Int32 × List (Option V))) :=
  results.mapM (displayResult impl labels)

/-- Results have no position or one of four numbers. -/
def Placed (results : InferenceResult V) : Prop :=
  ∀ r ∈ results, r.2.2 = [] ∨ r.2.2.length = 4

theorem displayLocation_ok {pos : List (Option V)} (h : pos = [] ∨ pos.length = 4) :
    ∃ location, displayLocation pos = .ok location := by
  rcases h with rfl | h
  · exact ⟨[], rfl⟩
  · rw [displayLocation, if_pos (by omega)]
    refine ⟨_, Fallible.mapM_ok (g := fun k ↦ pos.getD k none) fun k hk ↦ access_eq_ok.2 ?_⟩
    have hlt : k < pos.length := by
      simp only [List.mem_cons, List.not_mem_nil, or_false] at hk
      omega
    simp [hlt]

theorem failsOnly_displayResult (labels : List (List UInt8))
    (result : Int32 × Option V × List (Option V)) :
    Fallible.FailsOnly .crash (displayResult impl labels result) := by
  refine (failsOnly_access _).bind fun label ↦ .bind ?_ fun _ ↦ Fallible.failsOnly_ok _ _
  rw [displayLocation]
  split
  · exact Fallible.failsOnly_mapM fun k _ ↦ failsOnly_access _
  · exact Fallible.failsOnly_ok _ _

/-- All that printing needs of a result is its label. -/
theorem safe_display {labels : List (List UInt8)} {results : InferenceResult V}
    (hplaced : Placed results) :
    Safe (display impl labels results)
      ↔ ∀ r ∈ results, r.1.toInt64.toUInt64.toNat < labels.length := by
  refine (Fallible.avoids_mapM fun r _ ↦ failsOnly_displayResult impl labels r).trans
    (forall₂_congr fun r hr ↦ ?_)
  obtain ⟨location, hlocation⟩ := displayLocation_ok (hplaced r hr)
  rw [displayResult, hlocation]
  refine Fallible.avoids_bind.trans ⟨fun h ↦ ?_, fun h ↦ ⟨?_, fun label _ ↦ ?_⟩⟩
  · simpa using safe_access.1 h.1
  · exact safe_access.2 (by simpa using h)
  · exact Fallible.avoids_ok _ _

end

end EthosU
