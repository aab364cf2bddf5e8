import Mathlib.Algebra.Order.Group.Multiset
import Mathlib.Data.Multiset.Bind
import Mathlib.Logic.Function.Basic

/-!
# Objects that are shared

Objects refer to each other by pointers that are counted.  An object lives as long as somebody
refers to it: a variable of the program, which is a *root*, or another object, of which it is a
*member*.  When the last reference goes away the object goes with it, and its members lose a
reference each.

* `Shape` says of a type of objects how they are numbered and what their members are.
* `Counted` is the invariant: every object that lives is older than the objects it is a member of,
  and it is counted as often as it is referred to.
* `Counted.copy`, `Counted.drop`, `Counted.last` and `Counted.make` are the four things a program
  can do to references.
* `Counted.forall_live`: what holds of the roots and is passed on to members holds of everything
  that lives.  In particular nothing lives when there are no roots (`Counted.collect`): reference
  counting leaves no garbage where members are older than what they belong to.
-/

set_option autoImplicit false

namespace Sharing

variable {O : Type}

/-- Numbered objects, and the objects they refer to. -/
structure Shape (O : Type) where
  id : O → ℕ
  members : O → Multiset O

variable (S : Shape O)

/-- All references: those of the roots, and those of the members of what lives. -/
def Shape.refs (roots live : Multiset O) : Multiset O := roots + live.bind S.members

/-- How often the object with a number is referred to. -/
def Shape.count (roots live : Multiset O) (n : ℕ) : ℕ := ((S.refs roots live).map S.id).count n

/-- The objects that live are counted right. -/
structure Counted (roots live : Multiset O) (made : ℕ) (uses : ℕ → ℕ) : Prop where
  /-- Every object has a number of its own. -/
  ids : (live.map S.id).Nodup
  /-- What is referred to lives. -/
  closed : ∀ o ∈ S.refs roots live, o ∈ live
  /-- Members are older than what they belong to. -/
  older : ∀ o ∈ live, ∀ m ∈ S.members o, S.id m < S.id o
  /-- Numbers are given out one after the other. -/
  below : ∀ o ∈ live, S.id o < made
  counts : ∀ n, uses n = S.count roots live n
  /-- What nobody refers to is gone. -/
  needed : ∀ o ∈ live, uses (S.id o) ≠ 0

variable {S} {o : O} {roots live members : Multiset O} {made : ℕ} {uses : ℕ → ℕ}

theorem Shape.count_cons (n : ℕ) : S.count (o ::ₘ roots) live n
    = S.count roots live n + if n = S.id o then 1 else 0 := by
  rw [count, refs, Multiset.cons_add, Multiset.map_cons, Multiset.count_cons]
  rfl

/-- It makes no difference whether the members of an object are its own or the program's. -/
theorem Shape.refs_cons_live :
    S.refs roots (o ::ₘ live) = S.refs (S.members o + roots) live := by
  rw [refs, refs, Multiset.cons_bind, add_left_comm, add_assoc]

theorem Shape.count_cons_live (n : ℕ) :
    S.count roots (o ::ₘ live) n = S.count (S.members o + roots) live n := by
  rw [count, refs_cons_live, count]

namespace Counted

/-- Nothing has been made yet. -/
theorem init : Counted S 0 0 0 fun _ ↦ 0 := by
  refine ⟨?_, ?_, ?_, ?_, fun n ↦ ?_, ?_⟩ <;> simp [Shape.refs, Shape.count]

theorem mem_live (h : Counted S roots live made uses) (ho : o ∈ roots) : o ∈ live :=
  h.closed o (Multiset.mem_add.2 (.inl ho))

theorem mem_live_of_member (h : Counted S roots live made uses) (ho : o ∈ live) {m : O}
    (hm : m ∈ S.members o) : m ∈ live :=
  h.closed m (Multiset.mem_add.2 (.inr (Multiset.mem_bind.2 ⟨o, ho, hm⟩)))

/-- The number of an object is all there is to it. -/
theorem eq_of_id (h : Counted S roots live made uses) {o' : O} (ho : o ∈ live) (ho' : o' ∈ live)
    (hid : S.id o = S.id o') : o = o' :=
  Multiset.inj_on_of_nodup_map h.ids o ho o' ho' hid

/-- What has not been made is not referred to. -/
theorem count_made (h : Counted S roots live made uses) : S.count roots live made = 0 := by
  rw [Shape.count, Multiset.count_eq_zero]
  intro hmem
  obtain ⟨o, ho, hid⟩ := Multiset.mem_map.1 hmem
  have hbelow := h.below o (h.closed o ho)
  omega

/-- Everything that lives is referred to. -/
theorem mem_refs (h : Counted S roots live made uses) (ho : o ∈ live) : o ∈ S.refs roots live := by
  have hneeded := h.needed o ho
  rw [h.counts, Shape.count, Multiset.count_ne_zero] at hneeded
  obtain ⟨o', ho', hid⟩ := Multiset.mem_map.1 hneeded
  rwa [← h.eq_of_id (h.closed o' ho') ho hid]

/-- **What holds of the roots and is passed on to members holds of everything that lives**, by
induction on the objects, the youngest first. -/
theorem forall_live (h : Counted S roots live made uses) {P : O → Prop}
    (hroots : ∀ r ∈ roots, P r) (hmembers : ∀ o ∈ live, P o → ∀ m ∈ S.members o, P m)
    {o : O} (ho : o ∈ live) : P o := by
  induction hn : made - S.id o using Nat.strong_induction_on generalizing o with
  | _ n ih =>
    rcases Multiset.mem_add.1 (h.mem_refs ho) with hroot | hmember
    · exact hroots o hroot
    · obtain ⟨x, hx, hox⟩ := Multiset.mem_bind.1 hmember
      have holder := h.older x hx o hox
      have hbelow := h.below x hx
      exact hmembers x hx (ih (made - S.id x) (by omega) hx rfl) o hox

/-- **Without roots nothing lives.** -/
theorem collect (h : Counted S 0 live made uses) : live = 0 := by
  refine Multiset.eq_zero_of_forall_notMem fun o ho ↦ ?_
  exact h.forall_live (P := fun _ ↦ False) (fun r hr ↦ Multiset.notMem_zero r hr)
    (fun _ _ hf ↦ hf.elim) ho

/-- One more reference. -/
theorem copy (h : Counted S roots live made uses) (ho : o ∈ live) :
    Counted S (o ::ₘ roots) live made (Function.update uses (S.id o) (uses (S.id o) + 1)) := by
  refine ⟨h.ids, fun x hx ↦ ?_, h.older, h.below, fun n ↦ ?_, fun x hx ↦ ?_⟩
  · rw [Shape.refs, Multiset.cons_add, Multiset.mem_cons] at hx
    rcases hx with rfl | hx
    · exact ho
    · exact h.closed x hx
  · rw [Shape.count_cons, ← h.counts]
    by_cases hn : n = S.id o
    · rw [hn, Function.update_self, if_pos rfl]
    · rw [Function.update_of_ne hn, if_neg hn, Nat.add_zero]
  · have hneeded := h.needed x hx
    by_cases hn : S.id x = S.id o
    · rw [hn, Function.update_self]
      omega
    · rwa [Function.update_of_ne hn]

private theorem uses_dropped (h : Counted S (o ::ₘ roots) live made uses) (n : ℕ) :
    Function.update uses (S.id o) (uses (S.id o) - 1) n = S.count roots live n := by
  have huses := h.counts n
  rw [Shape.count_cons] at huses
  by_cases hn : n = S.id o
  · rw [hn] at huses ⊢
    rw [Function.update_self, huses, if_pos rfl, Nat.add_sub_cancel]
  · rw [Function.update_of_ne hn, huses, if_neg hn, Nat.add_zero]

/-- One reference of several goes away. -/
theorem drop (h : Counted S (o ::ₘ roots) live made uses) (huses : uses (S.id o) ≠ 1) :
    Counted S roots live made (Function.update uses (S.id o) (uses (S.id o) - 1)) := by
  refine ⟨h.ids, fun x hx ↦ ?_, h.older, h.below, uses_dropped h, fun x hx ↦ ?_⟩
  · refine h.closed x ?_
    rw [Shape.refs, Multiset.cons_add]
    exact Multiset.mem_cons_of_mem hx
  · have hneeded := h.needed x hx
    by_cases hn : S.id x = S.id o
    · rw [hn] at hneeded ⊢
      rw [Function.update_self]
      omega
    · rwa [Function.update_of_ne hn]

/-- The last reference goes away, and the object with it.  Its members are left to the program. -/
theorem last (h : Counted S (o ::ₘ roots) live made uses) (huses : uses (S.id o) = 1) :
    ∃ live', live = o ::ₘ live' ∧ Counted S (S.members o + roots) live' made
      (Function.update uses (S.id o) (uses (S.id o) - 1)) := by
  obtain ⟨live', rfl⟩ := Multiset.exists_cons_of_mem (h.mem_live (Multiset.mem_cons_self o roots))
  have hids := h.ids
  rw [Multiset.map_cons, Multiset.nodup_cons] at hids
  have hcount := uses_dropped h
  have hgone : S.count roots (o ::ₘ live') (S.id o) = 0 := by
    rw [← hcount, Function.update_self, huses]
  have hne (x : O) (hx : x ∈ S.refs (S.members o + roots) live') : S.id x ≠ S.id o := by
    intro hid
    rw [Shape.count_cons_live, Shape.count, Multiset.count_eq_zero] at hgone
    exact hgone (Multiset.mem_map.2 ⟨x, hx, hid⟩)
  have hkept (x : O) (hx : x ∈ live') : S.id x ≠ S.id o := fun hid ↦
    hids.1 (Multiset.mem_map.2 ⟨x, hx, hid⟩)
  refine ⟨live', rfl, hids.2, fun x hx ↦ ?_, fun x hx ↦ h.older x (Multiset.mem_cons_of_mem hx),
    fun x hx ↦ h.below x (Multiset.mem_cons_of_mem hx), fun n ↦ ?_, fun x hx ↦ ?_⟩
  · have hlive : x ∈ o ::ₘ live' := by
      refine h.closed x ?_
      rw [Shape.refs, Multiset.cons_add]
      refine Multiset.mem_cons_of_mem ?_
      have hx' := hx
      rwa [← Shape.refs_cons_live] at hx'
    exact (Multiset.mem_cons.1 hlive).resolve_left fun heq ↦ hne x hx (by rw [heq])
  · rw [hcount, Shape.count_cons_live]
  · rw [Function.update_of_ne (hkept x hx)]
    exact h.needed x (Multiset.mem_cons_of_mem hx)

/-- A new object, whose members were the program's. -/
theorem make (h : Counted S (S.members o + roots) live made uses) (hid : S.id o = made) :
    Counted S (o ::ₘ roots) (o ::ₘ live) (made + 1) (Function.update uses made 1) := by
  have hmembers (m : O) (hm : m ∈ S.members o) : m ∈ live :=
    h.mem_live (Multiset.mem_add.2 (.inl hm))
  have hnew (x : O) (hx : x ∈ live) : S.id x ≠ made := Nat.ne_of_lt (h.below x hx)
  refine ⟨?_, fun x hx ↦ ?_, fun x hx ↦ ?_, fun x hx ↦ ?_, fun n ↦ ?_, fun x hx ↦ ?_⟩
  · rw [Multiset.map_cons, Multiset.nodup_cons, hid]
    refine ⟨fun hmem ↦ ?_, h.ids⟩
    obtain ⟨x, hx, hxid⟩ := Multiset.mem_map.1 hmem
    exact hnew x hx hxid
  · rw [Shape.refs_cons_live, Multiset.add_cons, Shape.refs, Multiset.cons_add,
      Multiset.mem_cons] at hx
    rcases hx with rfl | hx
    · exact Multiset.mem_cons_self _ _
    · exact Multiset.mem_cons_of_mem (h.closed x hx)
  · rcases Multiset.mem_cons.1 hx with rfl | hx
    · intro m hm
      rw [hid]
      exact h.below m (hmembers m hm)
    · exact h.older x hx
  · rcases Multiset.mem_cons.1 hx with rfl | hx
    · omega
    · exact Nat.lt_succ_of_lt (h.below x hx)
  · rw [Shape.count_cons_live, Multiset.add_cons, Shape.count_cons, ← h.counts, hid]
    by_cases hn : n = made
    · rw [hn, Function.update_self, if_pos rfl, h.counts, h.count_made]
    · rw [Function.update_of_ne hn, if_neg hn, Nat.add_zero]
  · rcases Multiset.mem_cons.1 hx with rfl | hx
    · rw [hid, Function.update_self]
      omega
    · rw [Function.update_of_ne (hnew x hx)]
      exact h.needed x hx

end Counted

end Sharing
