import Mathlib.Data.List.Induction
import Mathlib.Data.List.Sort
import Mathlib.Order.Lattice

/-!
# The greatest elements of a stream

A queue whose first element is the least, of at most `k` elements: every element that arrives is
pushed, and the least one is dropped when there are too many.  What stays are the `k` greatest.

* `MinQueue` is the queue.  It carries the order of its elements.
* `MinQueue.offer` is what is done for one element, and `MinQueue.elems_foldl_offer` says what is in
  the queue after a stream of them: the end of the sorted stream.
* `MinQueue.reverse_drain` is the result in descending order: the beginning of the stream, sorted
  the other way round.
-/

set_option autoImplicit false

/-- A queue of elements in ascending order. -/
structure MinQueue (α : Type) [LinearOrder α] where
  elems : List α
  sorted : elems.Pairwise (· ≤ ·)

open scoped List

namespace MinQueue

variable {α : Type} [LinearOrder α]

def empty : MinQueue α := ⟨[], .nil⟩

def push (q : MinQueue α) (a : α) : MinQueue α :=
  ⟨q.elems.orderedInsert (· ≤ ·) a, q.sorted.orderedInsert a _⟩

/-- The least element goes. -/
def pop (q : MinQueue α) : MinQueue α := ⟨q.elems.tail, q.sorted.sublist (List.tail_sublist _)⟩

@[simp] theorem elems_push (q : MinQueue α) (a : α) :
    (q.push a).elems = q.elems.orderedInsert (· ≤ ·) a := rfl

@[simp] theorem elems_pop (q : MinQueue α) : q.pop.elems = q.elems.tail := rfl

def top? (q : MinQueue α) : Option α := q.elems.head?

def size (q : MinQueue α) : Nat := q.elems.length

/-- All elements, in the order in which they are popped. -/
def drain (q : MinQueue α) : List α :=
  match _h : q.top? with
  | none => []
  | some a => a :: q.pop.drain
termination_by q.size
decreasing_by
  obtain ⟨l, hl⟩ := q
  rcases l with _ | ⟨b, l⟩
  · simp [top?] at _h
  · exact Nat.lt_succ_self l.length

theorem drain_eq (q : MinQueue α) : q.drain = q.elems := by
  obtain ⟨l, hl⟩ := q
  induction l with
  | nil =>
    unfold drain
    rfl
  | cons a l ih =>
    unfold drain
    exact congrArg (a :: ·) (ih hl.of_cons)

/-- An element is pushed, and the least one is popped if there are more than `k` then. -/
def offer (k : Nat) (q : MinQueue α) (a : α) : MinQueue α :=
  if (q.push a).size > k then (q.push a).pop else q.push a

/-! ## The greatest elements -/

/-- Dropping the least elements of a sorted list and then inserting one is the same as inserting it
and then dropping one element more, since the least one is dropped again. -/
theorem drop_orderedInsert {l : List α} (hl : l.Pairwise (· ≤ ·)) (a : α) {n : Nat}
    (hn : n ≤ l.length) :
    (l.orderedInsert (· ≤ ·) a).drop (n + 1) = ((l.drop n).orderedInsert (· ≤ ·) a).tail := by
  induction n generalizing l with
  | zero => simp
  | succ n ih =>
    rcases l with _ | ⟨b, l⟩
    · simp at hn
    · obtain ⟨hb, hl⟩ := List.pairwise_cons.1 hl
      rw [List.drop_succ_cons]
      by_cases hab : a ≤ b
      · rw [List.orderedInsert_cons_of_le _ _ hab, List.drop_succ_cons, List.drop_succ_cons]
        -- the element is less than all that are left, so it is the one that goes
        rcases hrest : l.drop n with _ | ⟨c, rest⟩
        · simp
        · have hc : c ∈ l := List.drop_subset n l (by rw [hrest]; exact List.mem_cons_self)
          rw [List.orderedInsert_cons_of_le _ _ (hab.trans (hb c hc)), List.tail_cons]
      · rw [List.orderedInsert_of_not_le _ _ hab, List.drop_succ_cons]
        exact ih hl (Nat.le_of_succ_le_succ hn)

/-- Sorting one element more. -/
theorem insertionSort_concat (l : List α) (a : α) :
    (l ++ [a]).insertionSort (· ≤ ·)
      = (l.insertionSort (· ≤ ·)).orderedInsert (· ≤ ·) a := by
  refine List.Perm.eq_of_pairwise' (List.pairwise_insertionSort _ _)
    ((List.pairwise_insertionSort _ _).orderedInsert a _) ?_
  calc (l ++ [a]).insertionSort (· ≤ ·) ~ l ++ [a] := List.perm_insertionSort _ _
    _ ~ a :: l := List.perm_append_singleton a l
    _ ~ a :: l.insertionSort (· ≤ ·) := (List.perm_insertionSort _ _).symm.cons a
    _ ~ _ := (List.perm_orderedInsert _ _ _).symm

/-- **What is in the queue after a stream.** -/
theorem elems_foldl_offer (k : Nat) (l : List α) :
    (l.foldl (offer k) empty).elems = (l.insertionSort (· ≤ ·)).drop (l.length - k) := by
  induction l using List.reverseRecOn with
  | nil => simp [empty]
  | append_singleton l a ih =>
    have hlength : (l.insertionSort (· ≤ ·)).length = l.length := List.length_insertionSort _ _
    have hsize : ((l.foldl (offer k) empty).push a).size = l.length - (l.length - k) + 1 := by
      rw [size, elems_push, List.orderedInsert_length, ih, List.length_drop, hlength]
    rw [List.foldl_append, List.foldl_cons, List.foldl_nil, offer, hsize, insertionSort_concat,
      List.length_append, List.length_singleton]
    by_cases hfull : l.length - (l.length - k) + 1 > k
    · have hcount : l.length + 1 - k = l.length - k + 1 := by omega
      rw [if_pos hfull, hcount, drop_orderedInsert (List.pairwise_insertionSort _ _) _ (by omega),
        ← ih, elems_pop, elems_push]
    · have hcount : l.length + 1 - k = 0 := by omega
      have hcount' : l.length - k = 0 := by omega
      rw [if_neg hfull, hcount, List.drop_zero, elems_push, ih, hcount', List.drop_zero]

/-- In a descending list, an element is among the first `k` if fewer than `k` are greater. -/
theorem mem_take_iff_countP {l : List α} (hl : l.Pairwise (· > ·)) (a : α) (k : Nat) :
    a ∈ l.take k ↔ a ∈ l ∧ l.countP (a < ·) < k := by
  induction l generalizing k with
  | nil => simp
  | cons b l ih =>
    obtain ⟨hb, hl⟩ := List.pairwise_cons.1 hl
    rcases k with _ | k
    · simp
    rw [List.take_succ_cons, List.mem_cons, List.mem_cons, ih hl, List.countP_cons]
    by_cases hab : a = b
    · subst hab
      -- nothing is greater than the first element
      have hnone : l.countP (a < ·) = 0 := by
        refine List.countP_eq_zero.2 fun c hc ↦ ?_
        simpa using (hb c hc).le
      simp [hnone]
    · refine ⟨fun h ↦ ?_, fun h ↦ .inr ?_⟩
      · obtain ⟨ha, hcount⟩ := h.resolve_left hab
        refine ⟨.inr ha, ?_⟩
        split <;> omega
      · obtain ⟨ha, hcount⟩ := h
        have ha := ha.resolve_left hab
        have hlt : a < b := hb a ha
        simp only [hlt, decide_true, if_true] at hcount
        exact ⟨ha, by omega⟩

/-- An element is among the `k` greatest if fewer than `k` are greater. -/
theorem mem_take_insertionSort {l : List α} (hl : l.Nodup) (a : α) (k : Nat) :
    a ∈ (l.insertionSort (· ≥ ·)).take k ↔ a ∈ l ∧ l.countP (a < ·) < k := by
  have hperm := List.perm_insertionSort (· ≥ ·) l
  have hsorted : (l.insertionSort (· ≥ ·)).Pairwise (· > ·) := by
    refine (List.pairwise_insertionSort (· ≥ ·) l).imp₂ (fun b c hge hne ↦ ?_)
      (hperm.nodup_iff.2 hl)
    exact lt_of_le_of_ne hge (Ne.symm hne)
  rw [mem_take_iff_countP hsorted, hperm.mem_iff, hperm.countP_eq]

/-- The opposite order gives the opposite list. -/
theorem insertionSort_ge (l : List α) :
    l.insertionSort (· ≥ ·) = (l.insertionSort (· ≤ ·)).reverse := by
  refine List.Perm.eq_of_pairwise' (r := (· ≥ ·)) (List.pairwise_insertionSort _ _)
    (List.pairwise_reverse.2 (List.pairwise_insertionSort _ _)) ?_
  calc l.insertionSort (· ≥ ·) ~ l := List.perm_insertionSort _ _
    _ ~ l.insertionSort (· ≤ ·) := (List.perm_insertionSort _ _).symm
    _ ~ _ := (List.reverse_perm _).symm

/-- **The `k` greatest elements of a stream, in descending order.** -/
theorem reverse_drain (k : Nat) (l : List α) :
    (l.foldl (offer k) empty).drain.reverse = (l.insertionSort (· ≥ ·)).take k := by
  rw [drain_eq, elems_foldl_offer, insertionSort_ge, List.take_reverse, List.length_insertionSort]

end MinQueue
