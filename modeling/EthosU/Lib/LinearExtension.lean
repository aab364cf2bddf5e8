import Mathlib.Data.Prod.Lex
import Mathlib.Order.Monotone.Basic

/-!
# Linear extensions

A program that compares records component by component has a partial order before it, and may take
`¬ b ≤ a` for "`a` comes before `b`".  This file asks when that is the order of a linear extension.

* `LinearExtension.not_le_iff_lt`: on two comparable elements it is.
* `LinearExtension.agree_iff`: on two incomparable ones it is not, whatever the extension.
* `LinearExtension.strictMono_toLex`: the lexicographic order of three components is a linear
  extension of their product order.
-/

set_option autoImplicit false

namespace LinearExtension

section

variable {P L : Type} [PartialOrder P] [LinearOrder L] {e : P → L} {a b : P}

theorem not_le_iff_lt (he : StrictMono e) (h : a ≤ b ∨ b ≤ a) : ¬ b ≤ a ↔ e a < e b := by
  refine ⟨?_, ?_⟩
  · intro hnot
    rcases h with hab | hba
    · exact he (lt_of_le_not_ge hab hnot)
    · exact absurd hba hnot
  · intro hlt hba
    exact absurd (he.monotone hba) (not_le_of_gt hlt)

/-- **`¬ b ≤ a` and `¬ a ≤ b` are the two sides of a linear extension exactly if `a` and `b` are
comparable.** -/
theorem agree_iff (he : StrictMono e) :
    ((¬ b ≤ a ↔ e a < e b) ∧ (¬ a ≤ b ↔ e b < e a)) ↔ a ≤ b ∨ b ≤ a := by
  refine ⟨?_, ?_⟩
  · rintro ⟨hab, hba⟩
    by_contra hnone
    rw [not_or] at hnone
    exact lt_asymm (hab.1 hnone.2) (hba.1 hnone.1)
  · intro h
    exact ⟨not_le_iff_lt he h, not_le_iff_lt he h.symm⟩

end

variable {α β γ : Type} [LinearOrder α] [LinearOrder β] [LinearOrder γ]

theorem strictMono_toLex :
    StrictMono fun x : α × β × γ ↦ toLex (x.1, toLex (x.2.1, x.2.2)) := by
  intro x y hxy
  rw [Prod.Lex.toLex_lt_toLex]
  rcases Prod.lt_iff.1 hxy with ⟨h₁, -⟩ | ⟨h₁, hrest⟩
  · exact .inl h₁
  · refine (lt_or_eq_of_le h₁).imp id fun heq ↦ ⟨heq, ?_⟩
    rw [Prod.Lex.toLex_lt_toLex]
    rcases Prod.lt_iff.1 hrest with ⟨h₂, -⟩ | ⟨h₂, h₃⟩
    · exact .inl h₂
    · exact (lt_or_eq_of_le h₂).imp id fun heq ↦ ⟨heq, h₃⟩

end LinearExtension
