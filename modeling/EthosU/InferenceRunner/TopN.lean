import EthosU.Lib.TopK
import Mathlib.Data.Prod.Lex
import Mathlib.Data.List.Basic

/-!
# The best four classes

`getTopN` of `utils/inference_runner/common/pre_post_processing.h`: from the scores of a classifier,
the four greatest that reach a threshold.

* The scores are in any linear order with an addition and a division, which is what floats are
  without the ones that are not numbers.  A `std::pair` is ordered by its first component, and by
  its second where the first ones are equal.
* `getTopN_eq`: what the queue returns in the end is the beginning of the sorted scores.
-/

set_option autoImplicit false

namespace EthosU

section

variable {T V : Type} [LinearOrder V] [Add V] [Div V]

/-- `(data[i] + zp) / scale`, where `convert` is the conversion of `T` to `float`. -/
def scoreAt (convert : T → V) (data : Nat → T) (zp scale : V) (i : Nat) : V :=
  (convert (data i) + zp) / scale

/-- One pass of the loop. -/
def offerScore (convert : T → V) (data : Nat → T) (threshold zp scale : V)
    (top_result_pq : MinQueue (V ×ₗ Nat)) (i : Nat) : MinQueue (V ×ₗ Nat) :=
  let value := scoreAt convert data zp scale i
  -- only add it if it beats the threshold
  if value < threshold then top_result_pq else top_result_pq.offer 4 (toLex (value, i))

/-- The entry of the result for an element of the queue: its index, its score and no position. -/
def toEntry (tmp : V ×ₗ Nat) : Nat × V × List V := ((ofLex tmp).2, (ofLex tmp).1, [])

def getTopN (convert : T → V) (data : Nat → T) (threshold : V) (count : Int32) (zp scale : V) :
    List (Nat × V × List V) :=
  let top_result_pq := (List.range count.toInt.toNat).foldl
    (offerScore convert data threshold zp scale) .empty
  (top_result_pq.drain.map toEntry).reverse

variable (convert : T → V) (data : Nat → T) (threshold : V) (count : Int32) (zp scale : V)

/-- The scores that reach the threshold, with their indices. -/
def candidates : List (V ×ₗ Nat) :=
  ((List.range count.toInt.toNat).filter fun i ↦ threshold ≤ scoreAt convert data zp scale i).map
    fun i ↦ toLex (scoreAt convert data zp scale i, i)

/-- The loop offers the candidates and nothing else. -/
theorem foldl_offerScore :
    (List.range count.toInt.toNat).foldl (offerScore convert data threshold zp scale) .empty
      = (candidates convert data threshold count zp scale).foldl (MinQueue.offer 4) .empty := by
  rw [candidates, List.foldl_map, List.foldl_filter]
  congr 1
  funext q i
  simp only [offerScore, decide_eq_true_iff, ← not_lt, ite_not]

theorem mem_candidates {p : V ×ₗ Nat} (h : p ∈ candidates convert data threshold count zp scale) :
    ((ofLex p).2 : Int) < count.toInt ∧ threshold ≤ (ofLex p).1
      ∧ (ofLex p).1 = scoreAt convert data zp scale (ofLex p).2 := by
  obtain ⟨i, hi, rfl⟩ := List.mem_map.1 h
  obtain ⟨hrange, hthreshold⟩ := List.mem_filter.1 hi
  have hlt := List.mem_range.1 hrange
  refine ⟨?_, of_decide_eq_true hthreshold, rfl⟩
  show (i : Int) < count.toInt
  omega

theorem getTopN_eq_take :
    getTopN convert data threshold count zp scale
      = (((candidates convert data threshold count zp scale).insertionSort (· ≥ ·)).take 4).map
        toEntry := by
  rw [getTopN, foldl_offerScore, ← List.map_reverse, MinQueue.reverse_drain]

/-- **The queue returns the four greatest candidates, in descending order**, each with its own index
and score. -/
theorem getTopN_eq :
    getTopN convert data threshold count zp scale
        = (((candidates convert data threshold count zp scale).insertionSort (· ≥ ·)).take 4).map
          toEntry
      ∧ ∀ r ∈ getTopN convert data threshold count zp scale, (r.1 : Int) < count.toInt
        ∧ threshold ≤ r.2.1 ∧ r.2.1 = scoreAt convert data zp scale r.1 := by
  have heq := getTopN_eq_take convert data threshold count zp scale
  refine ⟨heq, fun r hr ↦ ?_⟩
  rw [heq] at hr
  obtain ⟨p, hp, rfl⟩ := List.mem_map.1 hr
  have hmem := (List.mem_insertionSort _).1 (List.mem_of_mem_take hp)
  exact mem_candidates convert data threshold count zp scale hmem

/-- No index comes twice. -/
theorem nodup_candidates : (candidates convert data threshold count zp scale).Nodup := by
  refine List.Nodup.map (fun i j h ↦ ?_) (List.nodup_range.filter _)
  exact (Prod.mk.injEq .. ▸ toLex.injective h).2

theorem mem_candidates_iff (i : Nat) :
    toLex (scoreAt convert data zp scale i, i) ∈ candidates convert data threshold count zp scale
      ↔ i < count.toInt.toNat ∧ threshold ≤ scoreAt convert data zp scale i := by
  refine ⟨fun h ↦ ?_, fun h ↦ ?_⟩
  · obtain ⟨hlt, hreaches, -⟩ := mem_candidates convert data threshold count zp scale h
    have hlt : (i : Int) < count.toInt := hlt
    exact ⟨by omega, hreaches⟩
  · exact List.mem_map_of_mem (List.mem_filter.2 ⟨List.mem_range.2 h.1, decide_eq_true h.2⟩)

/-- How many candidates there are ahead of an index. -/
def ahead (i : Nat) : Nat :=
  (List.range count.toInt.toNat).countP fun j ↦
    threshold ≤ scoreAt convert data zp scale j
      ∧ toLex (scoreAt convert data zp scale i, i) < toLex (scoreAt convert data zp scale j, j)

theorem countP_candidates (i : Nat) :
    (candidates convert data threshold count zp scale).countP
        (toLex (scoreAt convert data zp scale i, i) < ·)
      = ahead convert data threshold count zp scale i := by
  rw [candidates, List.countP_map, List.countP_filter, ahead]
  refine List.countP_congr fun j _ ↦ ?_
  simp [and_comm]

/-- An index is in the result if its score reaches the threshold and fewer than four candidates are
ahead of it. -/
theorem exists_getTopN_iff (i : Nat) :
    (∃ r ∈ getTopN convert data threshold count zp scale, r.1 = i)
      ↔ i < count.toInt.toNat ∧ threshold ≤ scoreAt convert data zp scale i
        ∧ ahead convert data threshold count zp scale i < 4 := by
  have htake := MinQueue.mem_take_insertionSort
    (nodup_candidates convert data threshold count zp scale)
    (toLex (scoreAt convert data zp scale i, i)) 4
  rw [mem_candidates_iff, countP_candidates, and_assoc] at htake
  rw [← htake, getTopN_eq_take]
  refine ⟨fun ⟨r, hr, hi⟩ ↦ ?_, fun h ↦ ⟨_, List.mem_map_of_mem h, rfl⟩⟩
  obtain ⟨p, hp, rfl⟩ := List.mem_map.1 hr
  have hmem := (List.mem_insertionSort _).1 (List.mem_of_mem_take hp)
  obtain ⟨-, -, hscore⟩ := mem_candidates convert data threshold count zp scale hmem
  -- the entry is the pair of this score and this index
  have hpair : p = toLex (scoreAt convert data zp scale i, i) := by
    subst hi
    exact congrArg (fun x ↦ toLex (x, (ofLex p).2)) hscore
  exact hpair ▸ hp

end

end EthosU
