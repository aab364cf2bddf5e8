import Mathlib.Data.List.Basic
import Mathlib.Data.List.DropRight
import Mathlib.Logic.Function.Basic

/-!
# A stream in a ring

A ring of cells to which a stream is written: the element at position `p` of the stream goes to cell
`p % size`, so that the ring remembers the last `size` elements.

* `Ring.Holds cell size s` says that the ring holds what it can of the stream `s`.
* `Holds.write` is the step: writing an element to the cell of its position keeps the ring in order.
* `Ring.range` is what a reader finds at consecutive positions, and `Holds.range` says that it finds
  the stream, if it does not start more than `size` positions back.
* `Holds.latest` is the same with the starting position made explicit: the last elements, as many as
  are pending and as fit.
-/

set_option autoImplicit false

namespace Ring

variable {α : Type} {cell : Nat → α} {size : Nat} {s : List α}

/-- The ring holds the last `size` elements of the stream. -/
def Holds (cell : Nat → α) (size : Nat) (s : List α) : Prop :=
  ∀ p (h : p < s.length), s.length ≤ p + size → cell (p % size) = s[p]

theorem Holds.nil : Holds cell size [] := fun _ h ↦ absurd h (Nat.not_lt_zero _)

/-- Positions less than `size` apart have cells of their own. -/
theorem mod_ne_mod {p q : Nat} (hlt : p < q) (hsize : q < p + size) : p % size ≠ q % size := by
  intro h
  have hdvd : size ∣ q - p := Nat.dvd_of_mod_eq_zero (Nat.sub_mod_eq_zero_of_mod_eq h.symm)
  exact absurd (Nat.le_of_dvd (by omega) hdvd) (by omega)

/-- The next element goes to the cell of its position. -/
theorem Holds.write (h : Holds cell size s) {cell' : Nat → α} (b : α)
    (hself : cell' (s.length % size) = b)
    (hother : ∀ i < size, i ≠ s.length % size → cell' i = cell i) :
    Holds cell' size (s ++ [b]) := by
  intro p hp hsize
  rw [List.length_append, List.length_singleton] at hp hsize
  by_cases hlast : p = s.length
  · subst hlast
    rw [hself, List.getElem_concat_length rfl]
  · have hlt : p < s.length := by omega
    rw [hother _ (Nat.mod_lt _ (by omega)) (mod_ne_mod hlt (by omega)), h p hlt (by omega),
      List.getElem_append_left]

/-- What a ring that holds a stream is independent of. -/
theorem Holds.congr (h : Holds cell size s) {cell' : Nat → α}
    (hcell : ∀ i < size, cell' i = cell i) : Holds cell' size s := by
  intro p hp hsize
  rw [hcell _ (Nat.mod_lt _ (by omega)), h p hp hsize]

/-- What a reader finds at the positions `p, …, p + n - 1`. -/
def range (cell : Nat → α) (size p n : Nat) : List α :=
  (List.range' p n).map fun q ↦ cell (q % size)

theorem range_succ (cell : Nat → α) (size p n : Nat) :
    range cell size p (n + 1) = cell (p % size) :: range cell size (p + 1) n := by
  rw [range, range, List.range'_succ, List.map_cons]

/-- A reader that is too far behind finds an element of the stream all the same: the newest one that
went to the cell. -/
theorem Holds.newest (h : Holds cell size s) (hpos : 0 < size) {p : Nat} (hp : p < s.length) :
    ∃ q, p ≤ q ∧ q % size = p % size ∧ s[q]? = some (cell (p % size)) := by
  have hdiv := Nat.div_mul_le_self (s.length - 1 - p) size
  have hmod := Nat.mod_add_div (s.length - 1 - p) size
  have hlt := Nat.mod_lt (s.length - 1 - p) hpos
  rw [Nat.mul_comm] at hmod
  have hq : p + (s.length - 1 - p) / size * size < s.length := by omega
  refine ⟨p + (s.length - 1 - p) / size * size, Nat.le_add_right _ _,
    Nat.add_mul_mod_self_right _ _ _, ?_⟩
  rw [List.getElem?_eq_getElem hq, ← h _ hq (by omega), Nat.add_mul_mod_self_right]

/-- A reader that is at most `size` positions behind finds the rest of the stream. -/
theorem Holds.range (h : Holds cell size s) {p : Nat} (hsize : s.length ≤ p + size) :
    Ring.range cell size p (s.length - p) = s.drop p := by
  refine List.ext_getElem (by simp [Ring.range]) fun i hi hi' ↦ ?_
  rw [List.length_drop] at hi'
  simp only [Ring.range, List.getElem_map, List.getElem_range', Nat.one_mul, List.getElem_drop]
  exact h (p + i) (by omega) (by omega)

/-- A reader that is at position `r`, or at the oldest position that is left, finds the last
elements of the stream, as many as are pending and as the ring has cells. -/
theorem Holds.latest (h : Holds cell size s) {r : Nat} (hr : r ≤ s.length) :
    Ring.range cell size (max r (s.length - size)) (s.length - max r (s.length - size))
      = s.rtake (min size (s.length - r)) := by
  rw [h.range (by omega), List.rtake]
  congr 1
  omega

end Ring
