import Mathlib.Algebra.Group.Int.Defs
import Mathlib.Algebra.Group.Nat.Defs
import Mathlib.Logic.Basic
import Mathlib.Order.Basic

/-!
# Arithmetic in `int`

An expression over `int` has a value in wrapping arithmetic and a value over the integers.  The two
are the same if no intermediate result leaves the range of an `int`.

* `IntExpr.eval` is the wrapping value and `IntExpr.exact` the other one.
* `IntExpr.Fits` says that every operation of the expression has a result that is an `int`.
* `IntExpr.toInt_eval` is the reason to want that.
-/

set_option autoImplicit false

/-- An expression, with the values of its variables. -/
inductive IntExpr
  | val (n : Int32)
  | add (a b : IntExpr)
  | sub (a b : IntExpr)
  | mul (a b : IntExpr)
  | div (a b : IntExpr)

namespace IntExpr

instance : Coe Int32 IntExpr := ⟨val⟩
instance {n : Nat} : OfNat IntExpr n := ⟨val (OfNat.ofNat n)⟩
instance : Add IntExpr := ⟨add⟩
instance : Sub IntExpr := ⟨sub⟩
instance : Mul IntExpr := ⟨mul⟩
instance : Div IntExpr := ⟨div⟩

def eval : IntExpr → Int32
  | val n => n
  | add a b => a.eval + b.eval
  | sub a b => a.eval - b.eval
  | mul a b => a.eval * b.eval
  | div a b => a.eval / b.eval

def exact : IntExpr → Int
  | val n => n.toInt
  | add a b => a.exact + b.exact
  | sub a b => a.exact - b.exact
  | mul a b => a.exact * b.exact
  | div a b => a.exact.tdiv b.exact

/-- The range of an `int`. -/
def InRange (n : Int) : Prop := -2 ^ 31 ≤ n ∧ n < 2 ^ 31

instance (n : Int) : Decidable (InRange n) := inferInstanceAs (Decidable (_ ∧ _))

/-- No operation overflows, and nothing is divided by zero. -/
def Fits : IntExpr → Prop
  | val _ => True
  | add a b => a.Fits ∧ b.Fits ∧ InRange (a.exact + b.exact)
  | sub a b => a.Fits ∧ b.Fits ∧ InRange (a.exact - b.exact)
  | mul a b => a.Fits ∧ b.Fits ∧ InRange (a.exact * b.exact)
  | div a b => a.Fits ∧ b.Fits ∧ b.exact ≠ 0 ∧ InRange (a.exact.tdiv b.exact)

section

variable (n : Int32) (k : Nat) (a b : IntExpr)

@[simp] theorem eval_val : (val n).eval = n := rfl
@[simp] theorem eval_ofNat : (no_index (OfNat.ofNat k) : IntExpr).eval = OfNat.ofNat k := rfl
@[simp] theorem eval_add : (a + b).eval = a.eval + b.eval := rfl
@[simp] theorem eval_sub : (a - b).eval = a.eval - b.eval := rfl
@[simp] theorem eval_mul : (a * b).eval = a.eval * b.eval := rfl
@[simp] theorem eval_div : (a / b).eval = a.eval / b.eval := rfl

@[simp] theorem exact_val : (val n).exact = n.toInt := rfl
@[simp] theorem exact_ofNat :
    (no_index (OfNat.ofNat k) : IntExpr).exact = (OfNat.ofNat k : Int32).toInt := rfl
@[simp] theorem exact_add : (a + b).exact = a.exact + b.exact := rfl
@[simp] theorem exact_sub : (a - b).exact = a.exact - b.exact := rfl
@[simp] theorem exact_mul : (a * b).exact = a.exact * b.exact := rfl
@[simp] theorem exact_div : (a / b).exact = a.exact.tdiv b.exact := rfl

@[simp] theorem fits_val : (val n).Fits := trivial
@[simp] theorem fits_ofNat : (no_index (OfNat.ofNat k) : IntExpr).Fits := trivial

@[simp] theorem fits_add : (a + b).Fits ↔ a.Fits ∧ b.Fits ∧ InRange (a.exact + b.exact) := Iff.rfl
@[simp] theorem fits_sub : (a - b).Fits ↔ a.Fits ∧ b.Fits ∧ InRange (a.exact - b.exact) := Iff.rfl
@[simp] theorem fits_mul : (a * b).Fits ↔ a.Fits ∧ b.Fits ∧ InRange (a.exact * b.exact) := Iff.rfl
@[simp] theorem fits_div : (a / b).Fits
    ↔ a.Fits ∧ b.Fits ∧ b.exact ≠ 0 ∧ InRange (a.exact.tdiv b.exact) := Iff.rfl

end

theorem InRange.bmod {n : Int} (h : InRange n) : n.bmod (2 ^ 32) = n := by
  obtain ⟨hlower, hupper⟩ := h
  exact Int.bmod_eq_of_le_mul_two (by omega) (by omega)

/-- **If nothing overflows, wrapping arithmetic is exact.** -/
theorem toInt_eval : ∀ {e : IntExpr}, e.Fits → e.eval.toInt = e.exact
  | val _, _ => rfl
  | add a b, h => by
    obtain ⟨ha, hb, hrange⟩ := h
    rw [eval, exact, Int32.toInt_add, toInt_eval ha, toInt_eval hb]
    exact hrange.bmod
  | sub a b, h => by
    obtain ⟨ha, hb, hrange⟩ := h
    rw [eval, exact, Int32.toInt_sub, toInt_eval ha, toInt_eval hb]
    exact hrange.bmod
  | mul a b, h => by
    obtain ⟨ha, hb, hrange⟩ := h
    rw [eval, exact, Int32.toInt_mul, toInt_eval ha, toInt_eval hb]
    exact hrange.bmod
  | div a b, h => by
    obtain ⟨ha, hb, hne, hrange⟩ := h
    rw [eval, exact, Int32.toInt_div, toInt_eval ha, toInt_eval hb]
    exact hrange.bmod

end IntExpr
