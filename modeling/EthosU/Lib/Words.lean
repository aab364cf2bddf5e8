import Mathlib.Algebra.Group.Nat.Defs
import Mathlib.Data.List.Basic
import Mathlib.Logic.Function.Basic

/-!
# Flat word memory

A struct of 32-bit members, seen the way a compiler lays it out: a memory of words, in which a
member is a position and an array is a run of consecutive positions.  A store to an array with a
subscript that is too large is then not an error but a store to whatever lies behind the array,
which is what has to be reasoned about when the subscript is computed at run time.

* `Words.store` writes one word, `Words.get_store_self` and `Words.get_store_ne` read it back.
* `Words.block` is the list of the words of a run, `Words.fill` a loop that sets one.
* `Words.push` is the idiom `s.array[s.count++] = v` in which the counter is itself a member, and
  `Words.pushAll` its repetition over a list; `Words.storeCounted` is the loop that starts from a
  counter of zero.  As long as the counter lies before the array, `storeCounted_counter`,
  `block_storeCounted` and `storeCounted_frame` say what it leaves behind, and
  `storeCountedSubscripts_eq` which subscripts it uses.
-/

set_option autoImplicit false

/-- A memory of 32-bit words. -/
abbrev Words := Nat → UInt32

namespace Words

/-- The memory after `v` has been stored at position `i`. -/
def store (m : Words) (i : Nat) (v : UInt32) : Words := Function.update m i v

@[simp] theorem get_store_self (m : Words) (i : Nat) (v : UInt32) : m.store i v i = v := by
  rw [store, Function.update_self]

@[simp] theorem get_store_ne (m : Words) {i j : Nat} (v : UInt32) (h : j ≠ i) :
    m.store i v j = m j := by
  rw [store, Function.update_of_ne h]

/-- The words at positions `base, …, base + n - 1`. -/
def block (m : Words) (base n : Nat) : List UInt32 := (List.range n).map fun i ↦ m (base + i)

@[simp] theorem block_zero (m : Words) (base : Nat) : m.block base 0 = [] := rfl

theorem getD_block (m : Words) {base n k : Nat} (h : k < n) :
    (m.block base n).getD k 0 = m (base + k) := by
  simp [block, List.getD, h]

theorem block_succ (m : Words) (base n : Nat) :
    m.block base (n + 1) = m.block base n ++ [m (base + n)] := by
  simp [block, List.range_succ]

theorem block_congr {m m' : Words} {base n : Nat} (h : ∀ i, i < n → m (base + i) = m' (base + i)) :
    m.block base n = m'.block base n :=
  List.map_congr_left fun i hi ↦ h i (List.mem_range.1 hi)

/-- A store outside a run leaves the run as it is. -/
theorem block_store_of_disjoint (m : Words) {base n i : Nat} (v : UInt32)
    (h : i < base ∨ base + n ≤ i) : (m.store i v).block base n = m.block base n :=
  block_congr fun j hj ↦ get_store_ne m v (by omega)

/-! ## Filling an array in a counted loop -/

/-- `for (i = 0; i < n; i++) array[i] = f(i)`, with `array` starting at position `base`. -/
def fill (m : Words) (base : Nat) (f : Nat → UInt32) : Nat → Words
  | 0 => m
  | n + 1 => (m.fill base f n).store (base + n) (f n)

theorem fill_frame (m : Words) {base n j : Nat} (f : Nat → UInt32)
    (h : j < base ∨ base + n ≤ j) : m.fill base f n j = m j := by
  induction n with
  | zero => rfl
  | succ n ih => rw [fill, get_store_ne _ _ (by omega), ih (by omega)]

theorem block_fill (m : Words) (base : Nat) (f : Nat → UInt32) (n : Nat) :
    (m.fill base f n).block base n = (List.range n).map f := by
  induction n with
  | zero => rfl
  | succ n ih =>
    rw [block_succ, fill, block_store_of_disjoint _ _ (by omega), ih, get_store_self,
      List.range_succ, List.map_append, List.map_singleton]

/-! ## Appending to an array whose counter is a member of the same struct -/

/-- `array[count++] = v`, with `count` the member at position `c` and `array` starting at position
`base`. -/
def push (m : Words) (c base : Nat) (v : UInt32) : Words :=
  (m.store c (m c + 1)).store (base + (m c).toNat) v

theorem push_counter (m : Words) {c base : Nat} (v : UInt32) (h : c < base) :
    m.push c base v c = m c + 1 := by
  rw [push, get_store_ne _ _ (by omega), get_store_self]

theorem push_frame (m : Words) {c base j : Nat} (v : UInt32) (hc : j ≠ c)
    (hj : j ≠ base + (m c).toNat) : m.push c base v j = m j := by
  rw [push, get_store_ne _ _ hj, get_store_ne _ _ hc]

/-- The memory after every value of a list has been appended in turn. -/
def pushAll (m : Words) (c base : Nat) : List UInt32 → Words
  | [] => m
  | v :: vs => (m.push c base v).pushAll c base vs

/-- The subscripts the loop stores to. -/
def pushSubscripts (m : Words) (c base : Nat) : List UInt32 → List Nat
  | [] => []
  | v :: vs => (m c).toNat :: (m.push c base v).pushSubscripts c base vs

section PushAll

variable {c base : Nat}

private theorem toNat_add_one {n : UInt32} {k : Nat} (h : n.toNat + (k + 1) < 2 ^ 32) :
    (n + 1).toNat = n.toNat + 1 := by
  rw [UInt32.toNat_add, UInt32.toNat_one]
  exact Nat.mod_eq_of_lt (by omega)

/-- The counter after the loop. -/
theorem pushAll_counter (hc : c < base) (vs : List UInt32) (m : Words)
    (hlt : (m c).toNat + vs.length < 2 ^ 32) :
    (m.pushAll c base vs c).toNat = (m c).toNat + vs.length := by
  induction vs generalizing m with
  | nil => rfl
  | cons v vs ih =>
    rw [List.length_cons] at hlt
    have hn : (m.push c base v c).toNat = (m c).toNat + 1 := by
      rw [push_counter m v hc, toNat_add_one hlt]
    rw [pushAll, ih _ (by omega), hn, List.length_cons]
    omega

/-- The loop writes its counter and the words from the counter's value on, and nothing else. -/
theorem pushAll_frame (hc : c < base) (vs : List UInt32) (m : Words)
    (hlt : (m c).toNat + vs.length < 2 ^ 32) {j : Nat} (hjc : j ≠ c)
    (hj : j < base + (m c).toNat ∨ base + (m c).toNat + vs.length ≤ j) :
    m.pushAll c base vs j = m j := by
  induction vs generalizing m with
  | nil => rfl
  | cons v vs ih =>
    rw [List.length_cons] at hlt hj
    have hn : (m.push c base v c).toNat = (m c).toNat + 1 := by
      rw [push_counter m v hc, toNat_add_one hlt]
    rw [pushAll, ih _ (by omega) (by omega), push_frame m v hjc (by omega)]

/-- **The loop appends the list to the array.** -/
theorem block_pushAll (hc : c < base) (vs : List UInt32) (m : Words)
    (hlt : (m c).toNat + vs.length < 2 ^ 32) :
    (m.pushAll c base vs).block base ((m c).toNat + vs.length)
      = m.block base (m c).toNat ++ vs := by
  induction vs generalizing m with
  | nil => simp [pushAll]
  | cons v vs ih =>
    rw [List.length_cons] at hlt
    have hn : (m.push c base v c).toNat = (m c).toNat + 1 := by
      rw [push_counter m v hc, toNat_add_one hlt]
    have hfst : (m.push c base v).block base (m c).toNat = m.block base (m c).toNat :=
      block_congr fun i hi ↦ push_frame m v (by omega) (by omega)
    have hlast : m.push c base v (base + (m c).toNat) = v := get_store_self _ _ _
    have hrec := ih (m.push c base v) (by omega)
    rw [hn, block_succ, hfst, hlast] at hrec
    rw [pushAll, List.length_cons, show (m c).toNat + (vs.length + 1)
      = (m c).toNat + 1 + vs.length by omega, hrec]
    simp

/-- The subscripts are consecutive, from the counter on. -/
theorem pushSubscripts_eq (hc : c < base) (vs : List UInt32) (m : Words)
    (hlt : (m c).toNat + vs.length < 2 ^ 32) :
    m.pushSubscripts c base vs = List.range' (m c).toNat vs.length := by
  induction vs generalizing m with
  | nil => rfl
  | cons v vs ih =>
    rw [List.length_cons] at hlt
    have hn : (m.push c base v c).toNat = (m c).toNat + 1 := by
      rw [push_counter m v hc, toNat_add_one hlt]
    rw [pushSubscripts, ih _ (by omega), hn, List.length_cons, List.range'_succ]

/-- `count = 0; for (v : vs) array[count++] = v`. -/
def storeCounted (m : Words) (c base : Nat) (vs : List UInt32) : Words :=
  (m.store c 0).pushAll c base vs

/-- The subscripts this loop stores to. -/
def storeCountedSubscripts (m : Words) (c base : Nat) (vs : List UInt32) : List Nat :=
  (m.store c 0).pushSubscripts c base vs

section StoreCounted

variable (hc : c < base) (m : Words) {vs : List UInt32} (hlt : vs.length < 2 ^ 32)

private theorem toNat_store_zero (hlt : vs.length < 2 ^ 32) :
    (m.store c 0 c).toNat + vs.length < 2 ^ 32 := by
  rw [get_store_self, UInt32.toNat_zero, Nat.zero_add]
  exact hlt

include hc hlt

theorem storeCounted_counter : (m.storeCounted c base vs c).toNat = vs.length := by
  rw [storeCounted, pushAll_counter hc vs _ (toNat_store_zero m hlt), get_store_self]
  exact Nat.zero_add _

theorem storeCounted_frame {j : Nat} (hjc : j ≠ c) (hj : j < base ∨ base + vs.length ≤ j) :
    m.storeCounted c base vs j = m j := by
  rw [storeCounted, pushAll_frame hc vs _ (toNat_store_zero m hlt) hjc (by simpa using hj),
    get_store_ne _ _ hjc]

theorem block_storeCounted : (m.storeCounted c base vs).block base vs.length = vs := by
  simpa [storeCounted] using block_pushAll hc vs (m.store c 0) (toNat_store_zero m hlt)

theorem storeCountedSubscripts_eq :
    m.storeCountedSubscripts c base vs = List.range vs.length := by
  rw [storeCountedSubscripts, pushSubscripts_eq hc vs _ (toNat_store_zero m hlt),
    List.range_eq_range']
  simp

end StoreCounted

end PushAll

end Words
