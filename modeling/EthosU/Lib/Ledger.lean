import Mathlib.Data.List.Basic
import Mathlib.Data.List.Count

/-!
# A ledger of resources

A program acquires resources and releases them.  Some are made from others, and then have to be
released before them.  The ledger replays what the program did and keeps the list of what it holds,
latest first; it refuses an action that has no place in such a history.

* `Ledger.replay` is what is held after a list of actions, `none` if one of them was refused: a
  release of something that is not held, or that something held was made from, or an acquisition
  from sources that are not held.
* `Ledger.acquired_eq` balances the books: what was acquired was released or is still held.  A
  history that leaves nothing behind has released everything as often as it was acquired
  (`Ledger.acquired_eq_released`).
* `Ledger.WellSourced`: whatever is held was made from things that are held since before it.
* `Ledger.step_acquire`, `Ledger.step_release_head` and `Ledger.step_release_below` perform a step
  on a list that is known.

Nothing here says that resources have different names; a step lemma asks for it where it matters.
-/

set_option autoImplicit false

namespace Ledger

variable {R : Type} [DecidableEq R]

/-- What a program does. -/
inductive Action (R : Type)
  /-- It acquires a resource, made from others. -/
  | acquire (resource : R) (sources : List R)
  | release (resource : R)

/-- A resource that is held, and what it was made from. -/
structure Holding (R : Type) where
  resource : R
  sources : List R

/-- The names of what is held. -/
def resources (held : List (Holding R)) : List R := held.map Holding.resource

omit [DecidableEq R] in
@[simp] theorem resources_nil : resources ([] : List (Holding R)) = [] := rfl

omit [DecidableEq R] in
@[simp] theorem resources_cons (h : Holding R) (held : List (Holding R)) :
    resources (h :: held) = h.resource :: resources held := rfl

omit [DecidableEq R] in
@[simp] theorem resources_append (held held' : List (Holding R)) :
    resources (held ++ held') = resources held ++ resources held' := List.map_append

/-- Nothing held was made from `r`. -/
def Unneeded (held : List (Holding R)) (r : R) : Prop := ∀ h ∈ held, r ∉ h.sources

instance (held : List (Holding R)) (r : R) : Decidable (Unneeded held r) :=
  inferInstanceAs (Decidable (∀ h ∈ held, r ∉ h.sources))

omit [DecidableEq R] in
@[simp] theorem unneeded_nil (r : R) : Unneeded [] r := fun _ hh ↦ absurd hh List.not_mem_nil

omit [DecidableEq R] in
@[simp] theorem unneeded_cons (h : Holding R) (held : List (Holding R)) (r : R) :
    Unneeded (h :: held) r ↔ r ∉ h.sources ∧ Unneeded held r := List.forall_mem_cons

omit [DecidableEq R] in
@[simp] theorem unneeded_append (held held' : List (Holding R)) (r : R) :
    Unneeded (held ++ held') r ↔ Unneeded held r ∧ Unneeded held' r := List.forall_mem_append

/-- What is held after an action, if the ledger does not refuse it. -/
def step (held : List (Holding R)) : Action R → Option (List (Holding R))
  | .acquire r sources =>
    if ∀ s ∈ sources, s ∈ resources held then some (⟨r, sources⟩ :: held) else none
  | .release r =>
    if r ∈ resources held ∧ Unneeded held r then some (held.eraseP fun h ↦ h.resource = r)
    else none

/-- What is held after a list of actions, latest first. -/
def replay : List (Action R) → Option (List (Holding R))
  | [] => some []
  | a :: past => (replay past).bind fun held ↦ step held a

theorem replay_cons {a : Action R} {past : List (Action R)} {held : List (Holding R)}
    (h : replay past = some held) : replay (a :: past) = step held a := by
  rw [replay, h, Option.bind_some]

/-! ## The order of what is held -/

/-- Everything was made from things that are held since before it. -/
def WellSourced : List (Holding R) → Prop
  | [] => True
  | x :: below => (∀ s ∈ x.sources, s ∈ resources below) ∧ WellSourced below

omit [DecidableEq R] in
theorem WellSourced.of_append {above below : List (Holding R)} (h : WellSourced (above ++ below)) :
    WellSourced below := by
  induction above with
  | nil => exact h
  | cons x above ih => exact ih h.2

omit [DecidableEq R] in
/-- What is not held is not needed. -/
theorem WellSourced.unneeded {held : List (Holding R)} (h : WellSourced held) {r : R}
    (hr : r ∉ resources held) : Unneeded held r := by
  induction held with
  | nil => exact unneeded_nil r
  | cons x below ih =>
    have hbelow : r ∉ resources below := fun hmem ↦ hr (List.mem_cons_of_mem _ hmem)
    exact (unneeded_cons _ _ _).2 ⟨fun hs ↦ hbelow (h.1 r hs), ih h.2 hbelow⟩

theorem WellSourced.eraseP {held : List (Holding R)} (h : WellSourced held) {r : R}
    (hr : Unneeded held r) : WellSourced (held.eraseP fun x ↦ x.resource = r) := by
  induction held with
  | nil => exact h
  | cons x below ih =>
    obtain ⟨hx, hbelow⟩ := (unneeded_cons _ _ _).1 hr
    by_cases heq : x.resource = r
    · rw [List.eraseP_cons_of_pos (by simpa using heq)]
      exact h.2
    · rw [List.eraseP_cons_of_neg (by simpa using heq)]
      refine ⟨fun s hs ↦ ?_, ih h.2 hbelow⟩
      obtain ⟨y, hy, rfl⟩ := List.mem_map.1 (h.1 s hs)
      have hne : y.resource ≠ r := fun hyr ↦ hx (hyr ▸ hs)
      exact List.mem_map.2 ⟨y, (List.mem_eraseP_of_neg (by simpa using hne)).2 hy, rfl⟩

theorem wellSourced_of_replay {actions : List (Action R)} {held : List (Holding R)}
    (h : replay actions = some held) : WellSourced held := by
  induction actions generalizing held with
  | nil =>
    cases h
    exact trivial
  | cons a past ih =>
    obtain ⟨before, hbefore, hstep⟩ := Option.bind_eq_some_iff.1 h
    cases a with
    | acquire r sources =>
      rw [step] at hstep
      split at hstep
      · rename_i hsources
        cases hstep
        exact ⟨hsources, ih hbefore⟩
      · cases hstep
    | release r =>
      rw [step] at hstep
      split at hstep
      · rename_i hheld
        cases hstep
        exact (ih hbefore).eraseP hheld.2
      · cases hstep

/-- A property of all sources that were ever named. -/
theorem forall_sources {P : List R → Prop} {actions : List (Action R)} {held : List (Holding R)}
    (h : replay actions = some held)
    (hP : ∀ r sources, .acquire r sources ∈ actions → P sources) : ∀ x ∈ held, P x.sources := by
  induction actions generalizing held with
  | nil =>
    cases h
    exact fun _ hx ↦ absurd hx List.not_mem_nil
  | cons a past ih =>
    obtain ⟨before, hbefore, hstep⟩ := Option.bind_eq_some_iff.1 h
    have hrest := ih hbefore fun r sources hr ↦ hP r sources (List.mem_cons_of_mem _ hr)
    cases a with
    | acquire r sources =>
      rw [step] at hstep
      split at hstep
      · cases hstep
        exact List.forall_mem_cons.2 ⟨hP r sources List.mem_cons_self, hrest⟩
      · cases hstep
    | release r =>
      rw [step] at hstep
      split at hstep
      · cases hstep
        exact fun x hx ↦ hrest x (List.mem_of_mem_eraseP hx)
      · cases hstep

/-! ## One step -/

theorem step_acquire {held : List (Holding R)} (r : R) {sources : List R}
    (h : ∀ s ∈ sources, s ∈ resources held) :
    step held (.acquire r sources) = some (⟨r, sources⟩ :: held) :=
  if_pos h

/-- Releasing what is needed neither by what was acquired since nor by what was there before. -/
theorem step_release {a b : List (Holding R)} {r : R} {sources : List R}
    (hr : r ∉ resources a) (hneed : Unneeded (a ++ ⟨r, sources⟩ :: b) r) :
    step (a ++ ⟨r, sources⟩ :: b) (.release r) = some (a ++ b) := by
  have hmem : r ∈ resources (a ++ ⟨r, sources⟩ :: b) := by simp
  have hskip : ∀ h ∈ a, ¬ (decide (h.resource = r)) = true := by
    intro h hh heq
    exact hr (List.mem_map.2 ⟨h, hh, by simpa using heq⟩)
  rw [step, if_pos ⟨hmem, hneed⟩, List.eraseP_append_right _ hskip,
    List.eraseP_cons_of_pos (by simp)]

/-- Where names are used once, what came before never needs it. -/
theorem step_release_below {a b : List (Holding R)} {r : R} {sources : List R}
    (h : WellSourced (a ++ ⟨r, sources⟩ :: b)) (habove : r ∉ resources a)
    (hneed : Unneeded a r) (hbelow : r ∉ resources b) :
    step (a ++ ⟨r, sources⟩ :: b) (.release r) = some (a ++ b) := by
  have hx := h.of_append
  refine step_release habove ((unneeded_append _ _ _).2 ⟨hneed, (unneeded_cons _ _ _).2 ⟨?_, ?_⟩⟩)
  · exact fun hs ↦ hbelow (hx.1 r hs)
  · exact hx.2.unneeded hbelow

/-- Releasing what was acquired last. -/
theorem step_release_head {b : List (Holding R)} {r : R} {sources : List R}
    (h : WellSourced (⟨r, sources⟩ :: b)) (hbelow : r ∉ resources b) :
    step (⟨r, sources⟩ :: b) (.release r) = some b :=
  step_release_below (a := []) h List.not_mem_nil (unneeded_nil r) hbelow

/-! ## The books -/

/-- How often `r` was acquired. -/
def acquired (r : R) (actions : List (Action R)) : Nat :=
  actions.countP fun
    | .acquire r' _ => r' = r
    | .release _ => false

/-- How often `r` was released. -/
def released (r : R) (actions : List (Action R)) : Nat :=
  actions.countP fun
    | .acquire _ _ => false
    | .release r' => r' = r

private theorem resources_eraseP (held : List (Holding R)) (r : R) :
    resources (held.eraseP fun h ↦ h.resource = r) = (resources held).erase r := by
  induction held with
  | nil => rfl
  | cons h held ih =>
    by_cases heq : h.resource = r
    · rw [List.eraseP_cons_of_pos (by simpa using heq), resources_cons, heq, List.erase_cons_head]
    · rw [List.eraseP_cons_of_neg (by simpa using heq), resources_cons, resources_cons,
        List.erase_cons_tail (by simpa using heq), ih]

/-- **The books balance**: what was acquired was released or is still held. -/
theorem acquired_eq {actions : List (Action R)} {held : List (Holding R)}
    (h : replay actions = some held) (r : R) :
    acquired r actions = released r actions + (resources held).count r := by
  induction actions generalizing held with
  | nil =>
    cases h
    rfl
  | cons a past ih =>
    obtain ⟨before, hbefore, hstep⟩ := Option.bind_eq_some_iff.1 h
    have hbooks := ih hbefore
    cases a with
    | acquire r' sources =>
      rw [step] at hstep
      split at hstep
      · cases hstep
        have hcons : acquired r (.acquire r' sources :: past)
            = acquired r past + if r' = r then 1 else 0 := by
          simp [acquired, List.countP_cons]
        have hreleased : released r (.acquire r' sources :: past) = released r past := by
          simp [released]
        rw [hcons, hreleased, hbooks, resources_cons, List.count_cons]
        simp only [beq_iff_eq]
        omega
      · cases hstep
    | release r' =>
      rw [step] at hstep
      split at hstep
      · rename_i hheld
        cases hstep
        have hacquired : acquired r (.release r' :: past) = acquired r past := by simp [acquired]
        have hcons : released r (.release r' :: past)
            = released r past + if r' = r then 1 else 0 := by
          simp [released, List.countP_cons]
        rw [hacquired, hcons, hbooks, resources_eraseP, List.count_erase]
        by_cases heq : r' = r
        · subst heq
          have hpos := List.count_pos_iff.2 hheld.1
          simp only [beq_self_eq_true, if_true]
          omega
        · simp [heq]
      · cases hstep

/-- A history that leaves nothing behind releases everything as often as it was acquired. -/
theorem acquired_eq_released {actions : List (Action R)} (h : replay actions = some []) (r : R) :
    acquired r actions = released r actions := by
  rw [acquired_eq h r, resources_nil, List.count_nil, Nat.add_zero]

end Ledger
