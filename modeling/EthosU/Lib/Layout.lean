import Mathlib.Logic.Basic
import Mathlib.Logic.Function.Basic
import Mathlib.Data.Nat.Basic
import Mathlib.Data.List.GetD
import Mathlib.Tactic.Ring

/-!
# Row-major layouts

The elements of an array of `h` rows, `w` columns and `c` channels are numbered row by row, and the
program that fills it stores them one after the other.

* `Layout.offset` is the number of an element.  No two elements share one (`Layout.offset_inj`), and
  every number below `h * w * c` is that of an element (`Layout.exists_offset`).
* `Layout.getD_flatMap` finds an element of a list that is made of blocks of one length.
* `Layout.foldl_update_eq` and `Layout.foldl_update_of_forall_ne` say what a list of stores leaves
  at a position, whatever their order, and `Layout.foldl_update_of_isLast` what the last store there
  leaves.
* `Layout.read_foldl` is about steps that each read and replace a cell of their own.
-/

set_option autoImplicit false

namespace Layout

/-! ## Numbering -/

/-- The number of channel `k` of column `x` of row `y`. -/
def offset (w c y x k : Nat) : Nat := (y * w + x) * c + k

variable {h w c y x k y' x' k' : Nat}

theorem offset_lt (hy : y < h) (hx : x < w) (hk : k < c) : offset w c y x k < h * w * c := by
  have hpixel : y * w + x + 1 ≤ h * w := by
    have hrow : (y + 1) * w ≤ h * w := Nat.mul_le_mul_right _ hy
    rw [Nat.succ_mul] at hrow
    omega
  have hall : (y * w + x + 1) * c ≤ h * w * c := Nat.mul_le_mul_right _ hpixel
  rw [Nat.succ_mul] at hall
  rw [offset]
  omega

/-- The quotients and remainders that undo `offset`. -/
theorem offset_div (hx : x < w) (hk : k < c) :
    offset w c y x k % c = k ∧ offset w c y x k / c % w = x ∧ offset w c y x k / c / w = y := by
  have hdiv : offset w c y x k / c = y * w + x := by
    rw [offset, Nat.mul_comm, Nat.mul_add_div (Nat.zero_lt_of_lt hk), Nat.div_eq_of_lt hk,
      Nat.add_zero]
  refine ⟨?_, ?_, ?_⟩
  · rw [offset, Nat.mul_comm, Nat.mul_add_mod, Nat.mod_eq_of_lt hk]
  · rw [hdiv, Nat.mul_comm, Nat.mul_add_mod, Nat.mod_eq_of_lt hx]
  · rw [hdiv, Nat.mul_comm, Nat.mul_add_div (Nat.zero_lt_of_lt hx), Nat.div_eq_of_lt hx,
      Nat.add_zero]

theorem offset_inj (hx : x < w) (hk : k < c) (hx' : x' < w) (hk' : k' < c)
    (heq : offset w c y x k = offset w c y' x' k') : y = y' ∧ x = x' ∧ k = k' := by
  obtain ⟨h₁, h₂, h₃⟩ := offset_div (y := y) hx hk
  obtain ⟨h₁', h₂', h₃'⟩ := offset_div (y := y') hx' hk'
  rw [heq] at h₁ h₂ h₃
  exact ⟨h₃.symm.trans h₃', h₂.symm.trans h₂', h₁.symm.trans h₁'⟩

theorem exists_offset {p : Nat} (hp : p < h * w * c) :
    ∃ y < h, ∃ x < w, ∃ k < c, p = offset w c y x k := by
  have hc : 0 < c := Nat.pos_of_ne_zero fun hzero ↦ by simp [hzero] at hp
  have hw : 0 < w := Nat.pos_of_ne_zero fun hzero ↦ by simp [hzero] at hp
  have hpixel : p / c < h * w := Nat.div_lt_of_lt_mul (by rwa [Nat.mul_comm])
  refine ⟨p / c / w, Nat.div_lt_of_lt_mul (by rwa [Nat.mul_comm]), p / c % w, Nat.mod_lt _ hw,
    p % c, Nat.mod_lt _ hc, ?_⟩
  rw [offset, Nat.div_add_mod', Nat.div_add_mod']

/-- The last element. -/
theorem offset_last (hh : 0 < h) (hw : 0 < w) (hc : 0 < c) :
    offset w c (h - 1) (w - 1) (c - 1) = h * w * c - 1 := by
  have hrows : (h - 1) * w + (w - 1) + 1 = h * w := by
    rw [Nat.add_assoc, Nat.sub_add_cancel hw, ← Nat.succ_mul, Nat.succ_eq_add_one,
      Nat.sub_add_cancel hh]
  have hall : ((h - 1) * w + (w - 1) + 1) * c = h * w * c := by rw [hrows]
  rw [Nat.succ_mul] at hall
  rw [offset]
  omega

theorem offset_le_offset (w c : Nat) (hy : y ≤ y') (hx : x ≤ x') (hk : k ≤ k') :
    offset w c y x k ≤ offset w c y' x' k' := by
  rw [offset, offset]
  gcongr

/-- Blocks of one length, one after the other. -/
theorem length_flatMap {ι β : Type} {f : ι → List β} {n : Nat} {l : List ι}
    (hlen : ∀ a ∈ l, (f a).length = n) : (l.flatMap f).length = l.length * n := by
  induction l with
  | nil => simp
  | cons a l ih =>
    rw [List.flatMap_cons, List.length_append, hlen a List.mem_cons_self,
      ih fun b hb ↦ hlen b (List.mem_cons_of_mem _ hb), List.length_cons, Nat.succ_mul,
      Nat.add_comm]

theorem getD_flatMap {ι β : Type} {f : ι → List β} {n : Nat} {l : List ι}
    (hlen : ∀ a ∈ l, (f a).length = n) {r k : Nat} (hr : r < l.length) (hk : k < n) (d : β) :
    (l.flatMap f).getD (r * n + k) d = (f l[r]).getD k d := by
  induction l generalizing r with
  | nil => simp at hr
  | cons a l ih =>
    have hfirst := hlen a List.mem_cons_self
    rw [List.flatMap_cons]
    rcases r with _ | r
    · rw [Nat.zero_mul, Nat.zero_add, List.getD_append _ _ _ _ (by omega)]
      rfl
    · have hskip : (r + 1) * n + k - n = r * n + k := by
        rw [Nat.succ_mul]
        omega
      have hle : n ≤ (r + 1) * n + k := by
        rw [Nat.succ_mul]
        omega
      rw [List.getD_append_right _ _ _ _ (by omega), hfirst, hskip,
        ih (fun b hb ↦ hlen b (List.mem_cons_of_mem _ hb)) (Nat.lt_of_succ_lt_succ hr)]
      rfl

/-! ## Lists of stores -/

section

variable {ι α β : Type}

/-- No later store of the list is to the position of this one. -/
def IsLast (f : ι → α) (l : List ι) (s : ι) : Prop :=
  ∃ l₁ l₂, l = l₁ ++ s :: l₂ ∧ ∀ t ∈ l₂, f t ≠ f s

theorem IsLast.mem {f : ι → α} {l : List ι} {s : ι} (hlast : IsLast f l s) : s ∈ l := by
  obtain ⟨l₁, l₂, rfl, -⟩ := hlast
  exact List.mem_append_right _ List.mem_cons_self

variable [DecidableEq α] (f : ι → α) (g : ι → β)

/-- A position that no store is to keeps its value. -/
theorem foldl_update_of_forall_ne (l : List ι) (m : α → β) {a : α} (hne : ∀ s ∈ l, f s ≠ a) :
    l.foldl (fun m s ↦ Function.update m (f s) (g s)) m a = m a := by
  induction l generalizing m with
  | nil => rfl
  | cons s l ih =>
    rw [List.foldl_cons, ih _ fun t ht ↦ hne t (List.mem_cons_of_mem _ ht)]
    exact Function.update_of_ne (hne s List.mem_cons_self).symm _ _

/-- The last store to a position decides. -/
theorem foldl_update_of_isLast {l : List ι} {s : ι} (hlast : IsLast f l s) (m : α → β) :
    l.foldl (fun m s ↦ Function.update m (f s) (g s)) m (f s) = g s := by
  obtain ⟨l₁, l₂, rfl, hne⟩ := hlast
  rw [List.foldl_append, List.foldl_cons, foldl_update_of_forall_ne f g l₂ _ hne]
  exact Function.update_self _ _ _

/-- If all stores to a position are of one value, it ends up there. -/
theorem foldl_update_eq (l : List ι) (m : α → β) {a : α} {v : β} (hex : ∃ s ∈ l, f s = a)
    (hall : ∀ s ∈ l, f s = a → g s = v) :
    l.foldl (fun m s ↦ Function.update m (f s) (g s)) m a = v := by
  induction l generalizing m with
  | nil => simp at hex
  | cons s l ih =>
    rw [List.foldl_cons]
    by_cases hrest : ∃ t ∈ l, f t = a
    · exact ih _ hrest fun t ht ↦ hall t (List.mem_cons_of_mem _ ht)
    · have hne : ∀ t ∈ l, f t ≠ a := fun t ht heq ↦ hrest ⟨t, ht, heq⟩
      have hs : f s = a := by
        obtain ⟨t, ht, heq⟩ := hex
        rcases List.mem_cons.1 ht with rfl | ht
        · exact heq
        · exact absurd heq (hne t ht)
      rw [foldl_update_of_forall_ne f g l _ hne, ← hs, Function.update_self]
      exact hall s List.mem_cons_self hs

/-- Some store to a position is the last one. -/
theorem exists_isLast {l : List ι} {a : α} (hex : ∃ s ∈ l, f s = a) :
    ∃ s, IsLast f l s ∧ f s = a := by
  induction l with
  | nil => simp at hex
  | cons s l ih =>
    by_cases hrest : ∃ t ∈ l, f t = a
    · obtain ⟨t, ⟨l₁, l₂, rfl, hne⟩, ht⟩ := ih hrest
      exact ⟨t, ⟨s :: l₁, l₂, rfl, hne⟩, ht⟩
    · obtain ⟨t, ht, heq⟩ := hex
      rcases List.mem_cons.1 ht with rfl | ht
      · exact ⟨t, ⟨[], l, rfl, fun u hu hut ↦ hrest ⟨u, hu, hut.trans heq⟩⟩, heq⟩
      · exact absurd ⟨t, ht, heq⟩ hrest

end

/-! ## Conversion in place -/

/-- Every step replaces the value of its own cell.  If no cell comes up twice, it does not matter
what the other steps do. -/
theorem read_foldl {ι σ α : Type} [DecidableEq ι] (read : σ → ι → α) (step : σ → ι → σ) (f : α → α)
    (hself : ∀ s i, read (step s i) i = f (read s i))
    (hother : ∀ s i j, i ≠ j → read (step s i) j = read s j) {l : List ι} (hl : l.Nodup) (s : σ)
    (j : ι) : read (l.foldl step s) j = if j ∈ l then f (read s j) else read s j := by
  induction l generalizing s with
  | nil => simp
  | cons i l ih =>
    obtain ⟨hi, hl⟩ := List.nodup_cons.1 hl
    rw [List.foldl_cons, ih hl]
    by_cases hji : j = i
    · subst hji
      rw [if_neg hi, if_pos List.mem_cons_self, hself]
    · rw [hother _ _ _ (Ne.symm hji)]
      simp [hji]

end Layout
