import EthosU.InferenceRunner.Display
import EthosU.Lib.Narrow

/-!
# Bounding boxes

`getBoundingBoxes` of `utils/inference_runner/common/pre_post_processing.h`: four output tensors
hold the locations, the classes and the scores of boxes, and how many there are.

* `Detects` says which of the tensors and their elements have to be there, and which labels.
* `forall_detectsOn`: that is what is needed on all implementations together.  The implementation
  that needs it is `Implementation.worst`.
-/

set_option autoImplicit false

namespace EthosU

section

variable {V : Type} (impl : Implementation V) (floats : Floats V)

def boxAt (output_locations output_classes output_scores : List UInt8) (j : Nat) :
    Except Exception (Int32 × Option V × List (Option V)) := do
  let pos ← [j * 4, j * 4 + 1, j * 4 + 2, j * 4 + 3].mapM fun k ↦ access (float? output_locations k)
  let label_num ← access (float? output_classes j)
  let scores ← access (float? output_scores j)
  return (impl.toInt label_num, floats.ofBits scores, pos.map floats.ofBits)

def getBoundingBoxes (data : List (List UInt8)) (numResults : UInt64) :
    Except Exception (InferenceResult V) := do
  let output_locations ← access data[0]?
  let output_classes ← access data[1]?
  let output_scores ← access data[2]?
  let output_count ← access data[3]?
  let count ← access (float? output_count 0)
  let numResults := if numResults > impl.toSize count then impl.toSize count else numResults
  (List.range numResults.toNat).mapM
    (boxAt impl floats output_locations output_classes output_scores)

theorem isSome_float? (data : List UInt8) (i : Nat) :
    (float? data i).isSome ↔ 4 * (i + 1) ≤ data.length := by
  rw [float?]
  split <;> simp_all

theorem float?_eq {data : List UInt8} {i : Nat} (h : 4 * (i + 1) ≤ data.length) :
    float? data i = some (floatAt data i) := if_pos h

/-- How many boxes may be looked at, of the four that are asked for. -/
def mostResults (count : UInt32) : Nat :=
  match Binary32.integerPart count with
  | some n => if 0 ≤ n ∧ n < 4 then n.toNat else 4
  | none => 4

/-- The class of a box is the index of a label. -/
def IsLabel (labels : List (List UInt8)) (label_num : UInt32) : Prop :=
  ∃ n : Int, Binary32.integerPart label_num = some n ∧ 0 ≤ n ∧ n < 2 ^ 31 ∧ n < labels.length

/-- The elements of box `j` are there. -/
structure HasBox (output_locations output_classes output_scores : List UInt8) (j : Nat) : Prop where
  location : 16 * (j + 1) ≤ output_locations.length
  label : 4 * (j + 1) ≤ output_classes.length
  score : 4 * (j + 1) ≤ output_scores.length

def Detects (labels : List (List UInt8)) : List (List UInt8) → Prop
  | output_locations :: output_classes :: output_scores :: output_count :: _ =>
    4 ≤ output_count.length ∧ ∀ j < mostResults (floatAt output_count 0),
      HasBox output_locations output_classes output_scores j
        ∧ IsLabel labels (floatAt output_classes j)
  | _ => False

/-- What `boxAt` returns where the elements are there. -/
def box (output_locations output_classes output_scores : List UInt8) (j : Nat) :
    Int32 × Option V × List (Option V) :=
  (impl.toInt (floatAt output_classes j), floats.ofBits (floatAt output_scores j),
    [j * 4, j * 4 + 1, j * 4 + 2, j * 4 + 3].map fun k ↦ floats.ofBits (floatAt output_locations k))

section

variable {output_locations output_classes output_scores : List UInt8} {j : Nat}

theorem boxAt_ok (h : HasBox output_locations output_classes output_scores j) :
    boxAt impl floats output_locations output_classes output_scores j
      = .ok (box impl floats output_locations output_classes output_scores j) := by
  have hlocation := h.location
  have hpos : [j * 4, j * 4 + 1, j * 4 + 2, j * 4 + 3].mapM
        (fun k ↦ access (float? output_locations k))
      = .ok ([j * 4, j * 4 + 1, j * 4 + 2, j * 4 + 3].map (floatAt output_locations)) := by
    refine Fallible.mapM_ok fun k hk ↦ access_eq_ok.2 (float?_eq ?_)
    simp only [List.mem_cons, List.not_mem_nil, or_false] at hk
    omega
  rw [boxAt, hpos, float?_eq h.label, float?_eq h.score]
  rfl

theorem failsOnly_boxAt : Fallible.FailsOnly .crash
    (boxAt impl floats output_locations output_classes output_scores j) :=
  (Fallible.failsOnly_mapM fun _ _ ↦ failsOnly_access _).bind fun _ ↦
    (failsOnly_access _).bind fun _ ↦ (failsOnly_access _).bind fun _ ↦ Fallible.failsOnly_ok _ _

theorem safe_boxAt : Safe (boxAt impl floats output_locations output_classes output_scores j)
    ↔ HasBox output_locations output_classes output_scores j := by
  refine ⟨fun h ↦ ?_, fun h ↦ boxAt_ok impl floats h ▸ Fallible.avoids_ok _ _⟩
  obtain ⟨hpos, hrest⟩ := Fallible.avoids_bind.1 h
  obtain ⟨pos, hok⟩ := (Fallible.failsOnly_mapM fun _ _ ↦ failsOnly_access _).exists_ok hpos
  obtain ⟨hlabel, hrest⟩ := Fallible.avoids_bind.1 (hrest pos hok)
  obtain ⟨label_num, hok'⟩ := (failsOnly_access _).exists_ok hlabel
  obtain ⟨hscore, -⟩ := Fallible.avoids_bind.1 (hrest label_num hok')
  -- the last of the four numbers is the one that matters
  obtain ⟨x, -, hx⟩ := (Fallible.forall_of_mapM_ok hok).1 (j * 4 + 3) (by simp)
  have hlast := (isSome_float? output_locations (j * 4 + 3)).1 (by simp [access_eq_ok.1 hx])
  exact ⟨by omega, (isSome_float? _ _).1 (safe_access.1 hlabel),
    (isSome_float? _ _).1 (safe_access.1 hscore)⟩

end

/-- What `Detects` says, where the conversions are those of one implementation. -/
def DetectsOn (labels : List (List UInt8)) : List (List UInt8) → Prop
  | output_locations :: output_classes :: output_scores :: output_count :: _ =>
    4 ≤ output_count.length ∧ ∀ j < min 4 (impl.toSize (floatAt output_count 0)).toNat,
      HasBox output_locations output_classes output_scores j
        ∧ (impl.toInt (floatAt output_classes j)).toInt64.toUInt64.toNat < labels.length
  | _ => False

theorem safe_boxes (labels : List (List UInt8))
    (output_locations output_classes output_scores : List UInt8) (n : Nat) :
    Safe ((List.range n).mapM (boxAt impl floats output_locations output_classes output_scores)
        >>= display impl labels)
      ↔ ∀ j < n, HasBox output_locations output_classes output_scores j
        ∧ (impl.toInt (floatAt output_classes j)).toInt64.toUInt64.toNat < labels.length := by
  have hboxes : Safe ((List.range n).mapM
        (boxAt impl floats output_locations output_classes output_scores))
      ↔ ∀ j < n, HasBox output_locations output_classes output_scores j := by
    refine (Fallible.avoids_mapM fun j _ ↦ failsOnly_boxAt impl floats).trans ?_
    simp only [List.mem_range]
    exact forall₂_congr fun j _ ↦ safe_boxAt impl floats
  rw [forall₂_and, ← hboxes]
  refine Fallible.avoids_bind.trans (and_congr_right fun hsafe ↦ ?_)
  have hok := Fallible.mapM_ok (l := List.range n) fun j hj ↦
    boxAt_ok impl floats (hboxes.1 hsafe j (List.mem_range.1 hj))
  have hplaced : Placed ((List.range n).map
      (box impl floats output_locations output_classes output_scores)) := by
    intro r hr
    obtain ⟨j, -, rfl⟩ := List.mem_map.1 hr
    exact .inr rfl
  have hdisplay := @safe_display V impl labels _ hplaced
  rw [List.forall_mem_map] at hdisplay
  simp only [hok, Except.ok.injEq, forall_eq']
  exact hdisplay.trans (by simp [box])

theorem toNat_numResults (size : UInt64) :
    (if 4 > size then size else 4).toNat = min 4 size.toNat := by
  by_cases h : size.toNat < 4
  · rw [if_pos (UInt64.lt_iff_toNat_lt.2 h), Nat.min_eq_right h.le]
  · rw [if_neg fun hlt ↦ h (UInt64.lt_iff_toNat_lt.1 hlt), Nat.min_eq_left (by omega)]
    rfl

theorem safe_getBoundingBoxes (labels data : List (List UInt8)) :
    Safe (getBoundingBoxes impl floats data 4 >>= display impl labels)
      ↔ DetectsOn impl labels data := by
  rcases data with _ | ⟨output_locations, _ | ⟨output_classes, _ | ⟨output_scores, _ |
    ⟨output_count, rest⟩⟩⟩⟩
  case cons.cons.cons.cons =>
    show Safe ((access (float? output_count 0) >>= fun count ↦ _) >>= display impl labels) ↔ _
    rw [bind_assoc]
    have hread := safe_access.trans (isSome_float? output_count 0)
    refine (Fallible.avoids_bind.trans (and_congr_left' hread)).trans
      (and_congr_right fun hcount ↦ ?_)
    simp only [float?_eq hcount, access, Option.elim, Except.ok.injEq, forall_eq',
      toNat_numResults]
    exact safe_boxes impl floats labels output_locations output_classes output_scores _
  -- one of the four tensors does not exist
  all_goals
    simp only [DetectsOn, iff_false]
    exact fun h ↦ h rfl

/-- An implementation that does the worst: it asks for four boxes, finds no class and keeps an entry
of the queue. -/
def Implementation.worst [DecidableEq V] (entry : Option V × Nat) : Implementation V where
  toSize w :=
    match Binary32.integerPart w with
    | some n => if 0 ≤ n ∧ n < 2 ^ 64 then .ofNat n.toNat else 4
    | none => 4
  toNat_toSize := by
    intro w n hw hnonneg hlt
    simp only [hw, hnonneg, hlt, and_self, if_true]
    rw [UInt64.toNat_ofNat_of_lt' (by show _ < 2 ^ 64; omega)]
    omega
  toInt w :=
    match Binary32.integerPart w with
    | some n => if -2 ^ 31 ≤ n ∧ n < 2 ^ 31 then .ofInt n else -1
    | none => -1
  toInt_toInt := by
    intro w n hw hle hlt
    simp only [hw, hle, hlt, and_self, if_true]
    exact Int32.toInt_ofInt_of_le hle hlt
  percent _ := 0
  heap l := if entry ∈ l then entry :: (l.erase entry).take 3 else l.take 4
  subperm_heap := by
    intro l
    split
    · next hmem =>
      exact ((List.take_sublist 3 _).cons_cons entry).subperm.trans
        (List.perm_cons_erase hmem).symm.subperm
    · exact (List.take_sublist 4 l).subperm
  length_heap := by
    intro l
    split
    · next hmem =>
      have hpos := List.length_pos_of_mem hmem
      rw [List.length_cons, List.length_take, List.length_erase_of_mem hmem]
      omega
    · exact List.length_take

theorem min_toSize_le (w : UInt32) : min 4 (impl.toSize w).toNat ≤ mostResults w := by
  rcases hw : Binary32.integerPart w with _ | n
  · simp only [mostResults, hw]
    exact Nat.min_le_left _ _
  · simp only [mostResults, hw]
    split
    · next hn =>
      have hsize := impl.toNat_toSize hw hn.1 (by omega)
      exact (Nat.min_le_right _ _).trans (by omega)
    · exact Nat.min_le_left _ _

theorem min_toSize_worst [DecidableEq V] (entry : Option V × Nat) (w : UInt32) :
    min 4 ((Implementation.worst entry).toSize w).toNat = mostResults w := by
  rcases hw : Binary32.integerPart w with _ | n
  · have hsize : (Implementation.worst entry).toSize w = 4 := by
      simp only [Implementation.worst, hw]
    simp only [mostResults, hw, hsize]
    rfl
  · by_cases hn : 0 ≤ n ∧ n < 2 ^ 64
    · have hsize := (Implementation.worst entry).toNat_toSize hw hn.1 hn.2
      simp only [mostResults, hw]
      split
      · exact (Nat.min_eq_right (by omega)).trans (by omega)
      · exact Nat.min_eq_left (by omega)
    · have hsize : (Implementation.worst entry).toSize w = 4 := by
        simp only [Implementation.worst, hw]
        exact if_neg hn
      simp only [mostResults, hw, hsize]
      exact (if_neg (by omega)).symm

theorem IsLabel.subscript_lt {labels : List (List UInt8)} {w : UInt32} (h : IsLabel labels w)
    (hlt : labels.length < 2 ^ 63) : (impl.toInt w).toInt64.toUInt64.toNat < labels.length := by
  obtain ⟨n, hw, hnonneg, hint, hlabel⟩ := h
  have hn := impl.toInt_toInt hw (by omega) hint
  exact (Narrow.subscript_lt_iff _ hlt).2 (by omega)

theorem isLabel_of_worst [DecidableEq V] (entry : Option V × Nat) {labels : List (List UInt8)}
    {w : UInt32} (hlt : labels.length < 2 ^ 63)
    (h : ((Implementation.worst entry).toInt w).toInt64.toUInt64.toNat < labels.length) :
    IsLabel labels w := by
  obtain ⟨hnonneg, hlabel⟩ := (Narrow.subscript_lt_iff _ hlt).1 h
  have hnegative : ¬ (Implementation.worst entry).toInt w = -1 := by
    intro heq
    rw [heq] at hnonneg
    exact absurd hnonneg (by decide)
  rcases hw : Binary32.integerPart w with _ | n
  · simp [Implementation.worst, hw] at hnegative
  · by_cases hn : -2 ^ 31 ≤ n ∧ n < 2 ^ 31
    · have hint := (Implementation.worst entry).toInt_toInt hw hn.1 hn.2
      exact ⟨n, hw, by omega, hn.2, by omega⟩
    · simp only [Implementation.worst, hw] at hnegative
      exact absurd (if_neg hn) hnegative

theorem forall_detectsOn [DecidableEq V] {labels : List (List UInt8)}
    (hlt : labels.length < 2 ^ 63) (data : List (List UInt8)) :
    (∀ impl : Implementation V, DetectsOn impl labels data) ↔ Detects labels data := by
  rcases data with _ | ⟨output_locations, _ | ⟨output_classes, _ | ⟨output_scores, _ |
    ⟨output_count, rest⟩⟩⟩⟩
  case cons.cons.cons.cons =>
    refine ⟨fun h ↦ ?_, fun h impl ↦ ⟨h.1, fun j hj ↦ ?_⟩⟩
    · obtain ⟨hcount, hboxes⟩ := h (.worst (none, 0))
      rw [min_toSize_worst] at hboxes
      exact ⟨hcount, fun j hj ↦ ⟨(hboxes j hj).1, isLabel_of_worst _ hlt (hboxes j hj).2⟩⟩
    · obtain ⟨hbox, hlabel⟩ := h.2 j (hj.trans_le (min_toSize_le impl _))
      exact ⟨hbox, hlabel.subscript_lt impl hlt⟩
  all_goals exact ⟨fun h ↦ h (.worst (none, 0)), fun h _ ↦ h⟩

theorem forall_safe_boxes [DecidableEq V] (file : LabelsFile) {Readable : OutputTensor → Prop}
    {fetch : OutputTensor → Except Exception (List UInt8)}
    (hok : ∀ tensor, Readable tensor → fetch tensor = .ok tensor.bytes)
    (herror : ∀ tensor, ¬ Readable tensor → ∃ e, e ≠ .crash ∧ fetch tensor = .error e)
    (tensors : List OutputTensor) :
    (∀ impl, Safe ((tensors.mapM fetch >>= fun outputData ↦
        getBoundingBoxes impl floats outputData 4) >>= display impl (readLabelsFile file)))
      ↔ ((∀ tensor ∈ tensors, Readable tensor) →
        Detects (readLabelsFile file) (tensors.map OutputTensor.bytes)) := by
  by_cases hreadable : ∀ tensor ∈ tensors, Readable tensor
  · have hdata := Fallible.mapM_ok (l := tensors) fun tensor h ↦ hok tensor (hreadable tensor h)
    simp only [hdata, bind_assoc]
    rw [← forall_detectsOn (V := V) (length_readLabelsFile_lt file)]
    exact ⟨fun h _ impl ↦ (safe_getBoundingBoxes impl floats _ _).1 (h impl),
      fun h impl ↦ (safe_getBoundingBoxes impl floats _ _).2 (h hreadable impl)⟩
  · refine ⟨fun _ h ↦ absurd h hreadable, fun _ impl ↦ ?_⟩
    rcases hdata : tensors.mapM fetch with e | data
    · obtain ⟨tensor, -, hfetch⟩ := Fallible.exists_of_mapM_error hdata
      have hnot : ¬ Readable tensor := fun h ↦ by rw [hok tensor h] at hfetch; cases hfetch
      obtain ⟨e', he', hfetch'⟩ := herror tensor hnot
      rw [hfetch] at hfetch'
      cases hfetch'
      exact Fallible.avoids_error he'
    · refine absurd (fun tensor hmem ↦ ?_) hreadable
      obtain ⟨bytes, -, hfetch⟩ := (Fallible.forall_of_mapM_ok hdata).1 tensor hmem
      by_contra hnot
      obtain ⟨e, -, hfetch'⟩ := herror tensor hnot
      rw [hfetch] at hfetch'
      cases hfetch'

end

end EthosU
