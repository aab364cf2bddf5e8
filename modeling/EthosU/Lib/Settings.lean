import Mathlib.Logic.Basic
import Mathlib.Data.List.Basic

/-!
# Settings

A list of commands is carried out one after the other, and a command may overwrite what an earlier
one has set.

* `Settings.lastOf read l` is the last value that `read` finds in `l`.
* `Settings.get_foldl`: a setting that each command overwrites with what `read` finds in it, or
  leaves alone, ends up as the last of these values.
-/

set_option autoImplicit false

namespace Settings

variable {α β γ σ : Type}

/-- The last value in the list. -/
def lastOf (read : α → Option β) (l : List α) : Option β := (l.filterMap read).getLast?

theorem lastOf_cons (read : α → Option β) (a : α) (l : List α) :
    lastOf read (a :: l) = (lastOf read l).or (read a) := by
  rw [lastOf, lastOf, List.filterMap_cons]
  cases read a with
  | none => simp
  | some b =>
    rw [List.getLast?_cons]
    cases (l.filterMap read).getLast? <;> rfl

theorem foldl_induction {I : σ → Prop} {set : σ → α → σ} (hI : ∀ s a, I s → I (set s a))
    (l : List α) {s : σ} (hs : I s) : I (l.foldl set s) := by
  induction l generalizing s with
  | nil => exact hs
  | cons a l ih => exact ih (hI s a hs)

/-- **The last command wins.** -/
theorem get_foldl (get : σ → γ) (read : α → Option β) (f : β → γ) {I : σ → Prop} {set : σ → α → σ}
    {l : List α} (hI : ∀ s a, I s → I (set s a))
    (hget : ∀ s, I s → ∀ a ∈ l, get (set s a) = ((read a).map f).getD (get s)) {s : σ} (hs : I s) :
    get (l.foldl set s) = ((lastOf read l).map f).getD (get s) := by
  induction l generalizing s with
  | nil => rfl
  | cons a l ih =>
    have ha := hget s hs a List.mem_cons_self
    rw [List.foldl_cons, ih (fun s hs b hb ↦ hget s hs b (List.mem_cons_of_mem a hb)) (hI s a hs),
      lastOf_cons, ha]
    cases lastOf read l <;> rfl

end Settings
