import EthosU.InferenceRunner.Classification
import Mathlib.Algebra.Order.Ring.Unbundled.Rat

/-!
# What is done with the output tensors

The end of `main` in `inference_runner.cpp` and `interpreter_runner.cpp` under
`utils/inference_runner`: the number of output tensors selects `getBoundingBoxes` or `getTopN`, and
the results are printed.

* The two runners differ in the order of their checks, and in that the interpreter's looks at the
  type of every tensor.
* `Indexes` is the condition on the tensors and the labels under which everything exists that is
  looked at, and `postProcess_safe_iff` says that it is the exact one, for either runner.
-/

set_option autoImplicit false

namespace EthosU

section

variable {V : Type} (impl : Implementation V) (floats : Floats V) [LinearOrder V] [Add V] [Div V]

def InferenceRunner.process (tensors : List OutputTensor) :
    Except Exception (InferenceResult V) :=
  if tensors.length > 1 then do
    let outputData ← tensors.mapM OutputTensor.fetch
    getBoundingBoxes impl floats outputData 4
  else do
    let tensor ← access tensors[0]?
    let count ← access tensor.shape[1]?
    let data ← tensor.fetch
    match ElementType.ofTensorType tensor.type with
    | some t => classify impl floats t data count.toUInt32.toInt32
    | none => .error (.exit 1)

/-- The `switch` in the loop over the outputs.  Its cases differ in the type of a pointer. -/
def InterpreterRunner.typedOutput (tensor : OutputTensor) : Except Exception (List UInt8) :=
  match ElementType.ofTensorType tensor.type with
  | some _ => tensor.fetch
  | none => .error (.exit 1)

def InterpreterRunner.process (tensors : List OutputTensor) :
    Except Exception (InferenceResult V) :=
  if tensors.length > 1 then do
    let outputData ← tensors.mapM InterpreterRunner.typedOutput
    getBoundingBoxes impl floats outputData 4
  else do
    let tensor ← access tensors[0]?
    let count ← access tensor.shape[1]?
    match ElementType.ofTensorType tensor.type with
    | some t => do
      let data ← tensor.fetch
      classify impl floats t data count.toUInt32.toInt32
    | none => .error (.exit 1)

def InferenceRunner.postProcess (labels : List (List UInt8)) (tensors : List OutputTensor) :
    Except Exception (List (List UInt8 × Int32 × List (Option V))) := do
  let results ← InferenceRunner.process impl floats tensors
  display impl labels results

def InterpreterRunner.postProcess (labels : List (List UInt8)) (tensors : List OutputTensor) :
    Except Exception (List (List UInt8 × Int32 × List (Option V))) := do
  let results ← InterpreterRunner.process impl floats tensors
  display impl labels results

/-- The type is one of the three. -/
def OutputTensor.Typed (tensor : OutputTensor) : Prop :=
  (ElementType.ofTensorType tensor.type).isSome

/-- **What exists is enough.**  A runner whose outputs are not all readable stops before it looks
into one of them. -/
def Indexes (labels : List (List UInt8)) (Readable : OutputTensor → Prop) :
    List OutputTensor → Prop
  | [] => False
  | [tensor] => ∃ count, tensor.shape[1]? = some count
    ∧ ∀ t, ElementType.ofTensorType tensor.type = some t → tensor.Mapped →
      Classifies floats labels t tensor.bytes count.toUInt32.toInt32
  | tensors => (∀ tensor ∈ tensors, Readable tensor) →
    Detects labels (tensors.map OutputTensor.bytes)

/-! ### Both runners -/

theorem forall_safe_class (file : LabelsFile) {tensor : OutputTensor}
    {Readable : OutputTensor → Prop}
    {process : Implementation V → Except Exception (InferenceResult V)}
    (hnone : tensor.shape[1]? = none → ∀ impl, process impl = .error .crash)
    (hread : ∀ count, tensor.shape[1]? = some count →
      ∀ t, ElementType.ofTensorType tensor.type = some t → tensor.Mapped →
        ∀ impl, process impl = classify impl floats t tensor.bytes count.toUInt32.toInt32)
    (herror : tensor.shape[1]?.isSome →
      ElementType.ofTensorType tensor.type = none ∨ ¬ tensor.Mapped →
        ∃ e, e ≠ .crash ∧ ∀ impl, process impl = .error e) :
    (∀ impl, Safe (process impl >>= display impl (readLabelsFile file)))
      ↔ Indexes floats (readLabelsFile file) Readable [tensor] := by
  rw [Indexes]
  rcases hshape : tensor.shape[1]? with _ | count
  · simp only [reduceCtorEq, false_and, exists_false, iff_false]
    refine fun h ↦ h (.worst (none, 0)) ?_
    rw [hnone hshape]
    rfl
  · simp only [Option.some.injEq, exists_eq_left']
    by_cases hreported : ElementType.ofTensorType tensor.type = none ∨ ¬ tensor.Mapped
    · obtain ⟨e, he, herr⟩ := herror (by simp [hshape]) hreported
      refine ⟨fun _ t ht hmapped ↦ ?_, fun _ impl ↦ safe_bind_error ⟨e, he, herr impl⟩⟩
      rw [ht] at hreported
      simp [hmapped] at hreported
    · obtain ⟨htype, hmapped⟩ := not_or.1 hreported
      obtain ⟨t, ht⟩ := Option.ne_none_iff_exists'.1 htype
      simp only [hread count hshape t ht (not_not.1 hmapped), forall_safe_classify]
      refine ⟨fun h t' ht' _ ↦ ?_, fun h ↦ h t ht (not_not.1 hmapped)⟩
      rw [ht] at ht'
      cases ht'
      exact h

theorem InferenceRunner.process_singleton (tensor : OutputTensor) :
    InferenceRunner.process impl floats [tensor] = (do
      let count ← access tensor.shape[1]?
      let data ← tensor.fetch
      match ElementType.ofTensorType tensor.type with
      | some t => classify impl floats t data count.toUInt32.toInt32
      | none => .error (.exit 1)) := rfl

theorem InterpreterRunner.process_singleton (tensor : OutputTensor) :
    InterpreterRunner.process impl floats [tensor] = (do
      let count ← access tensor.shape[1]?
      match ElementType.ofTensorType tensor.type with
      | some t => do
        let data ← tensor.fetch
        classify impl floats t data count.toUInt32.toInt32
      | none => .error (.exit 1)) := rfl

theorem forall_safe_inferenceRunner (file : LabelsFile) (tensors : List OutputTensor) :
    (∀ impl, Safe (InferenceRunner.postProcess impl floats (readLabelsFile file) tensors))
      ↔ Indexes floats (readLabelsFile file) OutputTensor.Mapped tensors := by
  rcases tensors with _ | ⟨tensor, _ | ⟨tensor', tensors⟩⟩
  · exact ⟨fun h ↦ h (.worst (none, 0)) rfl, fun h ↦ h.elim⟩
  · refine forall_safe_class floats file (fun hshape impl ↦ ?_)
      (fun count hshape t ht hmapped impl ↦ ?_) (fun hshape hreported ↦ ?_)
    · rw [InferenceRunner.process_singleton, hshape]
      rfl
    · rw [InferenceRunner.process_singleton, hshape, OutputTensor.fetch_of_mapped hmapped, ht]
      rfl
    · obtain ⟨count, hshape⟩ := Option.isSome_iff_exists.1 hshape
      by_cases hmapped : tensor.Mapped
      · refine ⟨.exit 1, by simp, fun impl ↦ ?_⟩
        rw [InferenceRunner.process_singleton, hshape, OutputTensor.fetch_of_mapped hmapped,
          hreported.resolve_right (not_not.2 hmapped)]
        rfl
      · obtain ⟨e, he, hfetch⟩ := OutputTensor.fetch_of_not_mapped hmapped
        refine ⟨e, he, fun impl ↦ ?_⟩
        rw [InferenceRunner.process_singleton, hshape, hfetch]
        rfl
  · exact forall_safe_boxes floats file (fun _ ↦ OutputTensor.fetch_of_mapped)
      (fun _ ↦ OutputTensor.fetch_of_not_mapped) (tensor :: tensor' :: tensors)

/-- What the interpreter's runner can read. -/
def OutputTensor.Readable (tensor : OutputTensor) : Prop := tensor.Typed ∧ tensor.Mapped

theorem InterpreterRunner.typedOutput_of_readable {tensor : OutputTensor} (h : tensor.Readable) :
    InterpreterRunner.typedOutput tensor = .ok tensor.bytes := by
  obtain ⟨t, ht⟩ := Option.isSome_iff_exists.1 h.1
  rw [typedOutput, ht]
  exact OutputTensor.fetch_of_mapped h.2

theorem InterpreterRunner.typedOutput_of_not_readable {tensor : OutputTensor}
    (h : ¬ tensor.Readable) :
    ∃ e, e ≠ .crash ∧ InterpreterRunner.typedOutput tensor = .error e := by
  rw [typedOutput]
  rcases ht : ElementType.ofTensorType tensor.type with _ | t
  · exact ⟨.exit 1, by simp, rfl⟩
  · have htyped : tensor.Typed := by simp [OutputTensor.Typed, ht]
    exact OutputTensor.fetch_of_not_mapped fun hmapped ↦ h ⟨htyped, hmapped⟩

theorem forall_safe_interpreterRunner (file : LabelsFile) (tensors : List OutputTensor) :
    (∀ impl, Safe (InterpreterRunner.postProcess impl floats (readLabelsFile file) tensors))
      ↔ Indexes floats (readLabelsFile file) OutputTensor.Readable tensors := by
  rcases tensors with _ | ⟨tensor, _ | ⟨tensor', tensors⟩⟩
  · exact ⟨fun h ↦ h (.worst (none, 0)) rfl, fun h ↦ h.elim⟩
  · refine forall_safe_class floats file (fun hshape impl ↦ ?_)
      (fun count hshape t ht hmapped impl ↦ ?_) (fun hshape hreported ↦ ?_)
    · rw [InterpreterRunner.process_singleton, hshape]
      rfl
    · rw [InterpreterRunner.process_singleton, hshape, OutputTensor.fetch_of_mapped hmapped, ht]
      rfl
    · obtain ⟨count, hshape⟩ := Option.isSome_iff_exists.1 hshape
      rcases htype : ElementType.ofTensorType tensor.type with _ | t
      · refine ⟨.exit 1, by simp, fun impl ↦ ?_⟩
        rw [InterpreterRunner.process_singleton, hshape, htype]
        rfl
      · obtain ⟨e, he, hfetch⟩ :=
          OutputTensor.fetch_of_not_mapped (hreported.resolve_left (by simp [htype]))
        refine ⟨e, he, fun impl ↦ ?_⟩
        rw [InterpreterRunner.process_singleton, hshape, hfetch, htype]
        rfl
  · exact forall_safe_boxes floats file
      (fun _ ↦ InterpreterRunner.typedOutput_of_readable)
      (fun _ ↦ InterpreterRunner.typedOutput_of_not_readable) (tensor :: tensor' :: tensors)

/-- **Everything that is looked at exists**, in either runner and on every implementation, or an
error is reported, if and only if the tensors and the labels meet the condition. -/
theorem postProcess_safe_iff (file : LabelsFile) (tensors : List OutputTensor) :
    ((∀ impl, Safe (InferenceRunner.postProcess impl floats (readLabelsFile file) tensors))
        ↔ Indexes floats (readLabelsFile file) OutputTensor.Mapped tensors)
      ∧ ((∀ impl, Safe (InterpreterRunner.postProcess impl floats (readLabelsFile file) tensors))
        ↔ Indexes floats (readLabelsFile file) OutputTensor.Readable tensors) :=
  ⟨forall_safe_inferenceRunner floats file tensors,
    forall_safe_interpreterRunner floats file tensors⟩

end

/-- Arithmetic that does not round, for numbers that are finite. -/
def unrounded : Floats ℚ where
  ofInt n := n
  ofBits w :=
    if Binary32.exponent w = 255 then none
    else
      let x : ℚ := Binary32.significand w * 2 ^ max 1 (Binary32.exponent w) / 2 ^ 150
      some (if Binary32.sign w then -x else x)
  literal x := x

/-- A file of one line. -/
def oneLabel : LabelsFile := ⟨[99, 97, 116, 10], by decide⟩

/-- A tensor of two bytes, of which the second is the greater. -/
def twoClasses : OutputTensor := ⟨3, [1, 2], .ok [0, 255]⟩

/-- Two tensors are not four, and two classes are more than one line. -/
theorem not_safe_postProcess :
    ¬ Safe (InferenceRunner.postProcess (.worst (none, 0)) unrounded (readLabelsFile oneLabel)
        [twoClasses, twoClasses])
      ∧ ¬ Safe (InferenceRunner.postProcess (.worst (none, 0)) unrounded (readLabelsFile oneLabel)
        [twoClasses])
      ∧ ¬ Safe (InterpreterRunner.postProcess (.worst (none, 0)) unrounded (readLabelsFile oneLabel)
        [twoClasses, twoClasses])
      ∧ ¬ Safe (InterpreterRunner.postProcess (.worst (none, 0)) unrounded (readLabelsFile oneLabel)
        [twoClasses]) := by
  refine ⟨fun h ↦ h ?_, fun h ↦ h ?_, fun h ↦ h ?_, fun h ↦ h ?_⟩ <;> decide +kernel

end EthosU
