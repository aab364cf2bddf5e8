import EthosU.Lib.LinearExtension

/-!
# Versions

The class `SemanticVersion` of the driver library and its comparison operators, from
`driver_library/src/ethosu.cpp`.

* `lt` looks at the three components one after the other and answers `true` at the first one that
  is larger on the other side; it does not stop at one that is smaller.  What it computes is
  therefore `¬ other ≤ v` in the product order (`lt_iff`).
* `key` is the lexicographic order a version number is meant to have.
* `TotallyOrdered a b c` says that the operators on three versions are those of that order, and
  `totallyOrdered_iff` that they are so exactly if any two of the three can be compared component
  by component.
-/

set_option autoImplicit false

namespace EthosU

structure SemanticVersion where
  major : UInt32 := 0
  minor : UInt32 := 0
  patch : UInt32 := 0
  deriving DecidableEq, Repr

namespace SemanticVersion

variable (v other : SemanticVersion)

/-! ## The operators -/

def eq : Bool := other.major == v.major && other.minor == v.minor && other.patch == v.patch

def lt : Bool :=
  if other.major > v.major then true
  else if other.minor > v.minor then true
  else other.patch > v.patch

def le : Bool := v.lt other || v.eq other

def ne : Bool := !v.eq other

def gt : Bool := !v.le other

def ge : Bool := !v.lt other

/-! ## The order -/

/-- The components, with the product order. -/
def parts : ℕ × ℕ × ℕ := (v.major.toNat, v.minor.toNat, v.patch.toNat)

/-- The components, with the lexicographic order. -/
def key : ℕ ×ₗ ℕ ×ₗ ℕ := toLex (v.major.toNat, toLex (v.minor.toNat, v.patch.toNat))

/-- The operators on `a` and `b` are those of the lexicographic order, and have the properties of
a linear order. -/
structure Ordered (a b : SemanticVersion) : Prop where
  lt : a.lt b = true ↔ a.key < b.key
  le : a.le b = true ↔ a.key ≤ b.key
  gt : a.gt b = true ↔ b.key < a.key
  ge : a.ge b = true ↔ b.key ≤ a.key
  ne : a.ne b = true ↔ a.key ≠ b.key
  /-- Exactly one of `a < b`, `a == b` and `a > b`. -/
  one : (a.lt b = true ∧ a.eq b = false ∧ a.gt b = false)
    ∨ (a.lt b = false ∧ a.eq b = true ∧ a.gt b = false)
    ∨ (a.lt b = false ∧ a.eq b = false ∧ a.gt b = true)
  asymm : a.lt b = true → b.lt a = false
  antisymm : a.le b = true → b.le a = true → a.eq b = true

/-- The operators order the three versions totally. -/
structure TotallyOrdered (a b c : SemanticVersion) : Prop where
  ordered : ∀ x ∈ [a, b, c], ∀ y ∈ [a, b, c], Ordered x y
  trans : ∀ x ∈ [a, b, c], ∀ y ∈ [a, b, c], ∀ z ∈ [a, b, c],
    x.lt y = true → y.lt z = true → x.lt z = true

/-- One version is at most the other one in every component. -/
def Comparable (a b : SemanticVersion) : Prop := a.parts ≤ b.parts ∨ b.parts ≤ a.parts

instance (a b : SemanticVersion) : Decidable (Comparable a b) := inferInstanceAs (Decidable (_ ∨ _))

variable {v other} {a b c : SemanticVersion}

theorem eq_iff : v.eq other = true ↔ v.key = other.key := by
  rw [eq, Bool.and_eq_true, Bool.and_eq_true, beq_iff_eq, beq_iff_eq, beq_iff_eq, key, key,
    toLex_inj, Prod.mk.injEq, toLex_inj, Prod.mk.injEq, UInt32.toNat_inj, UInt32.toNat_inj,
    UInt32.toNat_inj]
  rw [eq_comm (a := other.major), eq_comm (a := other.minor), eq_comm (a := other.patch), and_assoc]

/-- What `<` computes. -/
theorem lt_iff : v.lt other = true ↔ ¬ other.parts ≤ v.parts := by
  have hparts : other.parts ≤ v.parts ↔ other.major.toNat ≤ v.major.toNat
      ∧ other.minor.toNat ≤ v.minor.toNat ∧ other.patch.toNat ≤ v.patch.toNat := Iff.rfl
  rw [hparts, lt]
  simp only [gt_iff_lt, UInt32.lt_iff_toNat_lt]
  split <;> simp <;> omega

theorem le_iff : v.le other = true ↔ v.lt other = true ∨ v.key = other.key := by
  rw [le, Bool.or_eq_true, eq_iff]

/-! ## When the operators order versions -/

theorem lt_iff_key (h : Comparable a b) : a.lt b = true ↔ a.key < b.key := by
  rw [lt_iff]
  exact LinearExtension.not_le_iff_lt LinearExtension.strictMono_toLex h

theorem ordered_of_comparable (h : Comparable a b) : Ordered a b := by
  have hlt := lt_iff_key h
  have hlt' : b.lt a = true ↔ b.key < a.key := lt_iff_key h.symm
  have hle : a.le b = true ↔ a.key ≤ b.key := by rw [le_iff, hlt, le_iff_lt_or_eq]
  have hle' : b.le a = true ↔ b.key ≤ a.key := by rw [le_iff, hlt', le_iff_lt_or_eq]
  have hgt : a.gt b = true ↔ b.key < a.key := by
    rw [gt, Bool.not_eq_true', ← Bool.not_eq_true, hle, not_le]
  refine ⟨hlt, hle, hgt, ?_, ?_, ?_, fun hab ↦ ?_, fun hab hba ↦ ?_⟩
  · rw [ge, Bool.not_eq_true', ← Bool.not_eq_true, hlt, not_lt]
  · rw [ne, Bool.not_eq_true', ← Bool.not_eq_true, eq_iff]
  · simp only [← Bool.not_eq_true, hlt, hgt, eq_iff]
    rcases lt_trichotomy a.key b.key with h | h | h
    · exact .inl ⟨h, ne_of_lt h, lt_asymm h⟩
    · exact .inr (.inl ⟨by rw [h]; exact lt_irrefl _, h, by rw [h]; exact lt_irrefl _⟩)
    · exact .inr (.inr ⟨lt_asymm h, ne_of_gt h, h⟩)
  · rw [← Bool.not_eq_true, hlt']
    exact lt_asymm (hlt.1 hab)
  · rw [eq_iff]
    exact le_antisymm (hle.1 hab) (hle'.1 hba)

/-- Nothing less will do. -/
theorem comparable_of_ordered (h : Ordered a b) (h' : Ordered b a) : Comparable a b := by
  have hlt := h.lt
  have hlt' := h'.lt
  rw [lt_iff] at hlt hlt'
  exact (LinearExtension.agree_iff LinearExtension.strictMono_toLex).1 ⟨hlt, hlt'⟩

/-- **When three versions are ordered.**  The operators order them exactly if, of any two of them,
one is at most the other one in every component. -/
theorem totallyOrdered_iff (a b c : SemanticVersion) :
    TotallyOrdered a b c ↔ Comparable a b ∧ Comparable b c ∧ Comparable a c := by
  refine ⟨?_, ?_⟩
  · intro h
    have hcomparable : ∀ x ∈ [a, b, c], ∀ y ∈ [a, b, c], Comparable x y := fun x hx y hy ↦
      comparable_of_ordered (h.ordered x hx y hy) (h.ordered y hy x hx)
    exact ⟨hcomparable a (by simp) b (by simp), hcomparable b (by simp) c (by simp),
      hcomparable a (by simp) c (by simp)⟩
  · rintro ⟨hab, hbc, hac⟩
    have hself (x : SemanticVersion) : Comparable x x := .inl le_rfl
    have hcomparable : ∀ x ∈ [a, b, c], ∀ y ∈ [a, b, c], Comparable x y := by
      simp only [List.forall_mem_cons]
      exact ⟨⟨hself a, hab, hac, by simp⟩, ⟨hab.symm, hself b, hbc, by simp⟩,
        ⟨hac.symm, hbc.symm, hself c, by simp⟩, by simp⟩
    refine ⟨fun x hx y hy ↦ ordered_of_comparable (hcomparable x hx y hy),
      fun x hx y hy z hz hxy hyz ↦ ?_⟩
    rw [lt_iff_key (hcomparable x hx y hy)] at hxy
    rw [lt_iff_key (hcomparable y hy z hz)] at hyz
    rw [lt_iff_key (hcomparable x hx z hz)]
    exact lt_trans hxy hyz

/-- Version 2.0.0 comes before version 1.1.0, and 1.1.0 before 2.0.0. -/
theorem two_lt_one :
    lt ⟨2, 0, 0⟩ ⟨1, 1, 0⟩ = true ∧ lt ⟨1, 1, 0⟩ ⟨2, 0, 0⟩ = true
      ∧ ¬ TotallyOrdered ⟨2, 0, 0⟩ ⟨1, 1, 0⟩ ⟨1, 0, 0⟩ := by
  refine ⟨by decide, by decide, fun h ↦ ?_⟩
  have hasymm := (h.ordered ⟨2, 0, 0⟩ (by simp) ⟨1, 1, 0⟩ (by simp)).asymm (by decide)
  exact absurd hasymm (by decide)

end SemanticVersion

end EthosU
