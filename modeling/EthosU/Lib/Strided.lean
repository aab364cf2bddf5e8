import EthosU.Lib.Layout

/-!
# Strided arrays

An array in memory, described by the extent and the stride of each of its dimensions, the outermost
first.  Strides are arbitrary: an array may be transposed, reversed, or a part of another one.

* `Strided.rowMajor` lists the displacements of the elements in row-major order.
  `Strided.getD_rowMajor` and `Strided.getD_bytes` find each element and its bytes by its index.
* `Strided.Contiguous` says that the strides are those of an array whose elements lie one after the
  other in that order.  `Strided.bytes_eq_iff`: so do the bytes of the elements exactly then, or if
  there are none.
* `Strided.map_eq_iff` goes from lists that look the same, whatever the memory holds, to the lists.
-/

set_option autoImplicit false

namespace Strided

variable {extent size : Nat} {stride : Int} {dims : List (Nat × Int)}

/-- The number of elements. -/
def count : List (Nat × Int) → Nat
  | [] => 1
  | (extent, _) :: dims => extent * count dims

/-- The displacements of the elements, in row-major order. -/
def rowMajor : List (Nat × Int) → List Int
  | [] => [0]
  | (extent, stride) :: dims =>
    (List.range extent).flatMap fun i : Nat ↦ (rowMajor dims).map (i * stride + ·)

/-- The displacements of the bytes of the elements, each of which has `size` of them. -/
def bytes (size : Nat) (dims : List (Nat × Int)) : List Int :=
  (rowMajor dims).flatMap fun d ↦ (List.range size).map fun b : Nat ↦ d + b

/-- Each stride is the number of bytes that the dimensions further in take.  The stride of a
dimension with one element does not matter. -/
def Contiguous (size : Nat) : List (Nat × Int) → Prop
  | [] => True
  | (extent, stride) :: dims =>
    (extent = 1 ∨ stride = (count dims * size : Nat)) ∧ Contiguous size dims

instance decidableContiguous (size : Nat) : ∀ dims, Decidable (Contiguous size dims)
  | [] => .isTrue trivial
  | _ :: dims =>
    have := decidableContiguous size dims
    inferInstanceAs (Decidable (_ ∧ _))

/-! ## Elements -/

/-- The index of an element: one number for each dimension. -/
def IsIndex (dims : List (Nat × Int)) (index : List Nat) : Prop :=
  List.Forall₂ (fun dim i ↦ i < dim.1) dims index

/-- The displacement of the element with an index. -/
def displacement : List (Nat × Int) → List Nat → Int
  | (_, stride) :: dims, i :: index => i * stride + displacement dims index
  | _, _ => 0

/-- Its number. -/
def position : List (Nat × Int) → List Nat → Nat
  | _ :: dims, i :: index => i * count dims + position dims index
  | _, _ => 0

theorem length_rowMajor (dims : List (Nat × Int)) : (rowMajor dims).length = count dims := by
  induction dims with
  | nil => rfl
  | cons dim dims ih =>
    rw [rowMajor, count, Layout.length_flatMap fun i _ ↦ by rw [List.length_map, ih],
      List.length_range]

theorem position_lt {index : List Nat} (h : IsIndex dims index) :
    position dims index < count dims := by
  induction h with
  | nil => exact Nat.one_pos
  | @cons dim i dims index hi _ ih =>
    have hrow : (i + 1) * count dims ≤ dim.1 * count dims := Nat.mul_le_mul_right _ hi
    rw [Nat.succ_mul] at hrow
    rw [position, count]
    omega

/-- The elements of the block that the outermost index `i` selects. -/
theorem getD_rowMajor_cons {i k : Nat} (hi : i < extent) (hk : k < count dims) (d d' : Int) :
    (rowMajor ((extent, stride) :: dims)).getD (i * count dims + k) d
      = i * stride + (rowMajor dims).getD k d' := by
  have hlen : ∀ i ∈ List.range extent,
      ((rowMajor dims).map ((i : Int) * stride + ·)).length = count dims := fun i _ ↦ by
    rw [List.length_map, length_rowMajor]
  have hk' : k < (rowMajor dims).length := by rwa [length_rowMajor]
  rw [rowMajor, Layout.getD_flatMap hlen (by rwa [List.length_range]) hk, List.getElem_range,
    List.getD_eq_getElem _ _ (by rwa [List.length_map]), List.getElem_map,
    List.getD_eq_getElem _ _ hk']

/-- The element with an index is listed at its number. -/
theorem getD_rowMajor {index : List Nat} (h : IsIndex dims index) (d : Int) :
    (rowMajor dims).getD (position dims index) d = displacement dims index := by
  induction h generalizing d with
  | nil => rfl
  | cons hi h ih => rw [position, displacement, getD_rowMajor_cons hi (position_lt h) d 0, ih]

/-- So are its bytes. -/
theorem getD_bytes {index : List Nat} (h : IsIndex dims index) {b : Nat} (hb : b < size) (d : Int) :
    (bytes size dims).getD (position dims index * size + b) d = displacement dims index + b := by
  have hlt : position dims index < (rowMajor dims).length := by
    rw [length_rowMajor]
    exact position_lt h
  have hlen : ∀ d ∈ rowMajor dims,
      ((List.range size).map fun b : Nat ↦ d + (b : Int)).length = size := fun d _ ↦ by
    rw [List.length_map, List.length_range]
  rw [bytes, Layout.getD_flatMap hlen hlt hb, ← List.getD_eq_getElem _ 0 hlt, getD_rowMajor h 0]
  simp [hb]

/-! ## Inner dimensions -/

theorem count_append (dims dims' : List (Nat × Int)) :
    count (dims ++ dims') = count dims * count dims' := by
  induction dims with
  | nil => rw [List.nil_append, count, Nat.one_mul]
  | cons dim dims ih => rw [List.cons_append, count, count, ih, Nat.mul_assoc]

theorem rowMajor_append (dims dims' : List (Nat × Int)) :
    rowMajor (dims ++ dims') = (rowMajor dims).flatMap fun d ↦ (rowMajor dims').map (d + ·) := by
  induction dims with
  | nil => simp [rowMajor]
  | cons dim dims ih =>
    rw [List.cons_append, rowMajor, rowMajor, List.flatMap_assoc]
    refine congrArg (fun f ↦ List.flatMap f _) (funext fun i ↦ ?_)
    rw [ih, List.map_flatMap, List.flatMap_map]
    simp only [List.map_map, Function.comp_def, add_assoc]

theorem contiguous_append (size : Nat) (dims dims' : List (Nat × Int)) :
    Contiguous size (dims ++ dims')
      ↔ Contiguous (count dims' * size) dims ∧ Contiguous size dims' := by
  induction dims with
  | nil => rw [List.nil_append, Contiguous, true_and]
  | cons dim dims ih =>
    rw [List.cons_append, Contiguous, Contiguous, ih, count_append, Nat.mul_assoc, and_assoc]

/-- The bytes of an element are one more dimension. -/
theorem bytes_eq (size : Nat) (dims : List (Nat × Int)) :
    bytes size dims = rowMajor (dims ++ [(size, 1)]) := by
  have hinner : rowMajor [(size, 1)] = (List.range size).map fun b : Nat ↦ (b : Int) := by
    rw [List.map_eq_flatMap]
    simp [rowMajor]
  rw [rowMajor_append, bytes, hinner]
  simp only [List.map_map, Function.comp_def]

theorem length_bytes (size : Nat) (dims : List (Nat × Int)) :
    (bytes size dims).length = count dims * size := by
  rw [bytes_eq, length_rowMajor, count_append, count, count, Nat.mul_one]

/-! ## Contiguous arrays -/

/-- The elements lie where those of an array without gaps do exactly if the strides are its
strides. -/
theorem getD_rowMajor_eq_iff (size : Nat) (hpos : 0 < count dims) :
    (∀ k < count dims, (rowMajor dims).getD k 0 = (k * size : Nat)) ↔ Contiguous size dims := by
  induction dims with
  | nil =>
    refine iff_of_true (fun k hk ↦ ?_) trivial
    rw [count, Nat.lt_one_iff] at hk
    rw [hk, Nat.zero_mul]
    rfl
  | cons dim dims ih =>
    obtain ⟨extent, stride⟩ := dim
    rw [count] at hpos
    have hextent : 0 < extent := Nat.pos_of_mul_pos_right hpos
    have hinner : 0 < count dims := Nat.pos_of_mul_pos_left hpos
    rw [Contiguous, ← ih hinner, count]
    refine ⟨?_, ?_⟩
    · intro hall
      have hfirst : ∀ k < count dims, (rowMajor dims).getD k 0 = (k * size : Nat) := by
        intro k hk
        have hblock : (rowMajor ((extent, stride) :: dims)).getD (0 * count dims + k) 0 = _ :=
          getD_rowMajor_cons hextent hk 0 0
        rw [Nat.zero_mul, Nat.zero_add, hall k (hk.trans_le (Nat.le_mul_of_pos_left _ hextent)),
          Nat.cast_zero, zero_mul, zero_add] at hblock
        exact hblock.symm
      refine ⟨or_iff_not_imp_left.2 fun hone ↦ ?_, hfirst⟩
      -- the first element of the second block
      have hsecond : (rowMajor ((extent, stride) :: dims)).getD (1 * count dims + 0) 0 = _ :=
        getD_rowMajor_cons (by omega) hinner 0 0
      have hlt : 1 * count dims + 0 < extent * count dims := by
        rw [Nat.add_zero]
        exact Nat.mul_lt_mul_of_pos_right (by omega) hinner
      rw [hall _ hlt, hfirst 0 hinner, Nat.zero_mul, Nat.cast_zero, Nat.cast_one, Nat.one_mul,
        Nat.add_zero, one_mul, add_zero] at hsecond
      exact hsecond.symm
    · rintro ⟨hstride, hrest⟩ k hk
      have hi : k / count dims < extent := Nat.div_lt_of_lt_mul (by rwa [Nat.mul_comm])
      have hr := Nat.mod_lt k hinner
      have hsplit := Nat.div_add_mod' k (count dims)
      rw [← hsplit, getD_rowMajor_cons hi hr 0 0, hrest _ hr, Nat.add_mul, Nat.cast_add]
      rcases hstride with rfl | rfl
      · rw [Nat.lt_one_iff.1 hi]
        simp
      · push_cast
        ring

/-- A list of numbers, element by element. -/
theorem eq_map_range_iff {l : List Int} {n : Nat} (hlen : l.length = n) (f : Nat → Int) :
    l = (List.range n).map f ↔ ∀ k < n, l.getD k 0 = f k := by
  refine ⟨?_, ?_⟩
  · rintro rfl k hk
    rw [List.getD_eq_getElem _ _ (by rwa [hlen]), List.getElem_map, List.getElem_range]
  · intro hall
    refine List.ext_getElem (by rw [hlen, List.length_map, List.length_range]) fun k hk _ ↦ ?_
    rw [List.getElem_map, List.getElem_range, ← hall k (by rwa [← hlen]),
      List.getD_eq_getElem _ _ hk]

/-- **The bytes of the elements are consecutive bytes**, in this order, exactly if the array is
contiguous or has no bytes. -/
theorem bytes_eq_iff (size : Nat) (dims : List (Nat × Int)) :
    bytes size dims = (List.range (count dims * size)).map (fun k : Nat ↦ (k : Int))
      ↔ count dims * size = 0 ∨ Contiguous size dims := by
  have hcount : count (dims ++ [(size, 1)]) = count dims * size := by
    rw [count_append, count, count, Nat.mul_one]
  rcases Nat.eq_zero_or_pos (count dims * size) with hzero | hpos
  · refine iff_of_true ?_ (.inl hzero)
    rw [hzero]
    exact List.eq_nil_of_length_eq_zero ((length_bytes size dims).trans hzero)
  · have hinner : Contiguous 1 [(size, 1)] := ⟨.inr rfl, trivial⟩
    have hdense := getD_rowMajor_eq_iff 1 (hcount ▸ hpos)
    rw [contiguous_append, hcount, count, count, Nat.mul_one, Nat.mul_one] at hdense
    rw [eq_map_range_iff (length_bytes size dims), bytes_eq, or_iff_right (by omega),
      ← and_iff_left (a := Contiguous size dims) hinner, ← hdense]
    simp only [Nat.mul_one]

/-- Memories tell displacements apart. -/
theorem map_eq_iff {α β : Type} [DecidableEq α] [Nontrivial β] {l l' : List α} :
    (∀ f : α → β, l.map f = l'.map f) ↔ l = l' := by
  refine ⟨fun hall ↦ ?_, fun heq _ ↦ congrArg _ heq⟩
  obtain ⟨x, y, hne⟩ := exists_pair_ne β
  have hlen : l.length = l'.length := by simpa using congrArg List.length (hall fun _ ↦ x)
  refine List.ext_getElem hlen fun k hk hk' ↦ ?_
  -- a memory that differs at one displacement from all others
  have hat := List.getElem_of_eq (hall fun a ↦ if a = l[k] then x else y) (by simpa using hk)
  rw [List.getElem_map, List.getElem_map, if_pos rfl] at hat
  by_contra hother
  rw [if_neg (Ne.symm hother)] at hat
  exact hne hat

end Strided
