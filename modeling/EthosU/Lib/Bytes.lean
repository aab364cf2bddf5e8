import Mathlib.Algebra.Group.Nat.Defs
import Mathlib.Data.List.Basic
import Mathlib.Logic.Function.Basic

/-!
# Byte memory

A memory of bytes, runs of consecutive bytes in it, and unsigned integers stored in such runs with
the least significant byte first.

* `Bytes.gather` and `Bytes.scatter` copy bytes out of and into a memory, one at a time, from and to
  positions that a function computes; `Bytes.load` and `Bytes.store` are the case of consecutive
  positions.
* `Bytes.decode` and `Bytes.encode` turn bytes into a number and back; `decode_encode` says what
  survives.  `Bytes.encodeBig` has the most significant byte first.
* `Bytes.word` is the 32-bit integer at a position, and `word_storeWord` and
  `word_store_of_disjoint` say what a store makes of it.
-/

set_option autoImplicit false

namespace Bytes

/-- A memory of bytes. -/
abbrev Memory := Nat → UInt8

/-! ## Copying bytes -/

/-- `for (i = 0; i < n; i++) dst[i] = m[at(i)]`. -/
def gather (m : Memory) (position : Nat → Nat) (n : Nat) : List UInt8 :=
  (List.range n).map fun i ↦ m (position i)

/-- `for (i = 0; i < n; i++) m[at(i)] = src[i]`. -/
def scatter (m : Memory) (position : Nat → Nat) : List UInt8 → Memory
  | [] => m
  | b :: bytes => scatter (Function.update m (position 0) b) (fun i ↦ position (i + 1)) bytes

/-- The `n` bytes from `base` on. -/
def load (m : Memory) (base n : Nat) : List UInt8 := gather m (base + ·) n

/-- The memory after `bytes` have been stored from `base` on. -/
def store (m : Memory) (base : Nat) (bytes : List UInt8) : Memory := scatter m (base + ·) bytes

theorem gather_congr (m : Memory) {f g : Nat → Nat} {n : Nat} (h : ∀ i < n, f i = g i) :
    gather m f n = gather m g n :=
  List.map_congr_left fun i hi ↦ by rw [h i (List.mem_range.1 hi)]

theorem scatter_congr (m : Memory) {f g : Nat → Nat} (bytes : List UInt8)
    (h : ∀ i < bytes.length, f i = g i) : scatter m f bytes = scatter m g bytes := by
  induction bytes generalizing m f g with
  | nil => rfl
  | cons b bytes ih =>
    rw [scatter, scatter, h 0 (Nat.zero_lt_succ _)]
    exact ih _ fun i hi ↦ h (i + 1) (Nat.succ_lt_succ hi)

@[simp] theorem length_load (m : Memory) (base n : Nat) : (load m base n).length = n := by
  simp [load, gather]

theorem store_cons (m : Memory) (base : Nat) (b : UInt8) (bytes : List UInt8) :
    store m base (b :: bytes) = store (Function.update m base b) (base + 1) bytes := by
  rw [store, scatter, store]
  exact scatter_congr _ _ fun i _ ↦ by omega

/-- A store changes the bytes it is about only. -/
theorem store_frame (m : Memory) {base j : Nat} (bytes : List UInt8)
    (h : j < base ∨ base + bytes.length ≤ j) : store m base bytes j = m j := by
  induction bytes generalizing m base with
  | nil => rfl
  | cons b bytes ih =>
    rw [List.length_cons] at h
    rw [store_cons, ih _ (by omega), Function.update_of_ne (by omega)]

/-- A run of bytes depends on the bytes of the run. -/
theorem load_congr {m m' : Memory} {base n : Nat} (h : ∀ i < n, m (base + i) = m' (base + i)) :
    load m base n = load m' base n :=
  List.map_congr_left fun i hi ↦ h i (List.mem_range.1 hi)

theorem load_store_of_disjoint (m : Memory) {base n a : Nat} (bytes : List UInt8)
    (h : base + n ≤ a ∨ a + bytes.length ≤ base) :
    load (store m a bytes) base n = load m base n :=
  load_congr fun i hi ↦ store_frame m bytes (by omega)

/-- What is stored is loaded again. -/
theorem load_store (m : Memory) (base : Nat) (bytes : List UInt8) :
    load (store m base bytes) base bytes.length = bytes := by
  induction bytes generalizing m base with
  | nil => rfl
  | cons b bytes ih =>
    have hrest : load (store m base (b :: bytes)) (base + 1) bytes.length = bytes := by
      rw [store_cons]
      exact ih _ _
    have hfirst : store m base (b :: bytes) base = b := by
      rw [store_cons, store_frame _ _ (.inl (Nat.lt_succ_self _)), Function.update_self]
    have hcons : load (store m base (b :: bytes)) base (b :: bytes).length
        = store m base (b :: bytes) base
          :: load (store m base (b :: bytes)) (base + 1) bytes.length := by
      simp only [load, gather, List.length_cons, List.range_succ_eq_map, List.map_cons,
        List.map_map, Nat.add_zero]
      congr 1
      refine List.map_congr_left fun i _ ↦ ?_
      rw [Function.comp_apply, Nat.add_assoc, Nat.add_comm 1]
    rw [hcons, hfirst, hrest]

theorem store_add (m : Memory) (base : Nat) {bytes : List UInt8} {i : Nat} (h : i < bytes.length) :
    store m base bytes (base + i) = bytes[i] := by
  have hload := load_store m base bytes
  have hi : i < (load (store m base bytes) base bytes.length).length := by simpa using h
  have hat : (load (store m base bytes) base bytes.length)[i] = store m base bytes (base + i) := by
    simp [load, gather]
  rw [← hat]
  simp only [hload]

/-- Bytes that are copied from computed positions to the start of a buffer. -/
theorem store_gather (dst m : Memory) (position : Nat → Nat) {n i : Nat} (h : i < n) :
    store dst 0 (gather m position n) i = m (position i) := by
  have hi : i < (gather m position n).length := by simpa [gather] using h
  have hat := store_add dst 0 hi
  rw [Nat.zero_add] at hat
  rw [hat]
  simp [gather]

/-- A part of a run is a run. -/
theorem take_drop_load (m : Memory) (base : Nat) {n i k : Nat} (h : i + k ≤ n) :
    ((load m base n).drop i).take k = load m (base + i) k := by
  refine List.ext_getElem (by simp; omega) fun j hj hj' ↦ ?_
  simp [load, gather, Nat.add_assoc]

/-! ## Numbers -/

/-- The number with the given bytes, least significant first. -/
def decode : List UInt8 → Nat
  | [] => 0
  | b :: bytes => b.toNat + 256 * decode bytes

/-- The `k` lowest bytes of a number, least significant first. -/
def encode : Nat → Nat → List UInt8
  | 0, _ => []
  | k + 1, n => UInt8.ofNat n :: encode k (n / 256)

@[simp] theorem length_encode (k n : Nat) : (encode k n).length = k := by
  induction k generalizing n with
  | zero => rfl
  | succ k ih => rw [encode, List.length_cons, ih]

theorem decode_encode (k n : Nat) : decode (encode k n) = n % 256 ^ k := by
  induction k generalizing n with
  | zero => rw [encode, decode, Nat.pow_zero, Nat.mod_one]
  | succ k ih =>
    have hbyte : (UInt8.ofNat n).toNat = n % 256 := UInt8.toNat_ofNat'
    rw [encode, decode, ih, hbyte, Nat.pow_succ', Nat.mod_mul]

theorem decode_lt (bytes : List UInt8) : decode bytes < 256 ^ bytes.length := by
  induction bytes with
  | nil => simp [decode]
  | cons b bytes ih =>
    have hb : b.toNat < 256 := b.toNat_lt
    rw [decode, List.length_cons, Nat.pow_succ]
    omega

/-- Bytes are determined by their number and by how many they are. -/
theorem decode_injective {l l' : List UInt8} (hlen : l.length = l'.length)
    (h : decode l = decode l') : l = l' := by
  induction l generalizing l' with
  | nil => exact (List.length_eq_zero_iff.1 hlen.symm).symm
  | cons b l ih =>
    rcases l' with _ | ⟨b', l'⟩
    · simp at hlen
    · have hb : b.toNat < 256 := b.toNat_lt
      have hb' : b'.toNat < 256 := b'.toNat_lt
      simp only [decode] at h
      have hfirst : b = b' := UInt8.toNat_inj.1 (by omega)
      have hrest : l = l' := ih (by simpa using hlen) (by omega)
      rw [hfirst, hrest]

/-- The `k` lowest bytes of a number, most significant first. -/
def encodeBig (k n : Nat) : List UInt8 := (encode k n).reverse

@[simp] theorem length_encodeBig (k n : Nat) : (encodeBig k n).length = k := by
  rw [encodeBig, List.length_reverse, length_encode]

theorem decode_reverse_encodeBig {k n : Nat} (h : n < 256 ^ k) :
    decode (encodeBig k n).reverse = n := by
  rw [encodeBig, List.reverse_reverse, decode_encode, Nat.mod_eq_of_lt h]

/-- The 32-bit integer at position `a`. -/
def word (m : Memory) (a : Nat) : UInt32 := .ofNat (decode (load m a 4))

/-- The memory after `v` has been stored at position `a`. -/
def storeWord (m : Memory) (a : Nat) (v : UInt32) : Memory := store m a (encode 4 v.toNat)

theorem word_storeWord (m : Memory) (a : Nat) (v : UInt32) : word (storeWord m a v) a = v := by
  have hload : load (storeWord m a v) a 4 = encode 4 v.toNat := by
    have h := load_store m a (encode 4 v.toNat)
    rwa [length_encode] at h
  have hlt : v.toNat < 256 ^ 4 := v.toNat_lt
  rw [word, hload, decode_encode, Nat.mod_eq_of_lt hlt, UInt32.ofNat_toNat]

theorem word_store_of_disjoint (m : Memory) {a base : Nat} (bytes : List UInt8)
    (h : base + 4 ≤ a ∨ a + bytes.length ≤ base) : word (store m a bytes) base = word m base := by
  rw [word, load_store_of_disjoint m bytes h, word]

theorem word_storeWord_of_disjoint (m : Memory) {a base : Nat} (v : UInt32)
    (h : base + 4 ≤ a ∨ a + 4 ≤ base) : word (storeWord m a v) base = word m base :=
  word_store_of_disjoint m _ (by rwa [length_encode])

theorem storeWord_frame (m : Memory) {a j : Nat} (v : UInt32) (h : j < a ∨ a + 4 ≤ j) :
    storeWord m a v j = m j :=
  store_frame m _ (by rwa [length_encode])

theorem word_update_of_disjoint (m : Memory) {a base : Nat} (b : UInt8)
    (h : a < base ∨ base + 4 ≤ a) : word (Function.update m a b) base = word m base := by
  rw [word, word, load_congr fun i hi ↦ Function.update_of_ne (by omega) b m]

end Bytes
