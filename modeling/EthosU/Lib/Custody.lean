import EthosU.Lib.Ledger
import Mathlib.Data.Multiset.MapFold

/-!
# Custody of things of several kinds

A ledger (`Ledger`) whose entries also say what kind of thing is held, for programs that have to
name a thing of the right kind with everything they do.

* `Custody.replay` is what is held after a list of acts.  It is `none` if one of them was refused:
  because it named something that was not held, or that is of another kind, because it gained
  something that was held already, or because it gave away something that was not held or that
  something held was made from.
* `Custody.ledger_replay`: without the kinds, it is a ledger.
* `Custody.step_pairwise` is for a relation between all that is held.
* `Custody.Holds` is the same up to the order in which things were gained.  `Holds.keep`,
  `Holds.gain` and `Holds.give` are its rules, one for each effect of an act.
* `Custody.Sound` is what is known of everything that is held: names are used once, and what a thing
  was made from is held with it.
-/

set_option autoImplicit false

namespace Custody

variable {N K : Type}

/-- Something that is held, and what it was made from. -/
structure Piece (N K : Type) where
  name : N
  kind : K
  sources : List (N × K)

/-- The name with the kind. -/
def Piece.tag (p : Piece N K) : N × K := (p.name, p.kind)

/-- What an act does to what is held. -/
inductive Effect (N K : Type)
  | keep
  | gain (name : N) (kind : K)
  | give (name : N)

/-- Something a program does, and what it names in doing so. -/
structure Act (N K : Type) where
  needs : List (N × K)
  effect : Effect N K

/-- Nothing held was made from `n`. -/
def Unneeded (held : List (Piece N K)) (n : N) : Prop := ∀ p ∈ held, n ∉ p.sources.map Prod.fst

section

variable [DecidableEq N] [DecidableEq K]

instance decidableUnneeded (held : List (Piece N K)) (n : N) : Decidable (Unneeded held n) :=
  inferInstanceAs (Decidable (∀ p ∈ held, n ∉ p.sources.map Prod.fst))

/-- What is held after an effect, if it is allowed. -/
def Effect.apply (held : List (Piece N K)) (sources : List (N × K)) :
    Effect N K → Option (List (Piece N K))
  | .keep => some held
  | .gain name kind =>
    if name ∈ held.map Piece.name then none else some (⟨name, kind, sources⟩ :: held)
  | .give name =>
    if name ∈ held.map Piece.name ∧ Unneeded held name then
      some (held.eraseP fun p ↦ p.name = name)
    else none

/-- What is held after an act, if it is allowed. -/
def step (held : List (Piece N K)) (a : Act N K) : Option (List (Piece N K)) :=
  if ∀ x ∈ a.needs, x ∈ held.map Piece.tag then a.effect.apply held a.needs else none

/-- What is held after a list of acts, latest first. -/
def replay : List (Act N K) → Option (List (Piece N K))
  | [] => some []
  | a :: past => (replay past).bind fun held ↦ step held a

/-! ## The ledger -/

/-- An act without the kinds. -/
def Act.forget (a : Act N K) : Option (Ledger.Action N) :=
  match a.effect with
  | .keep => none
  | .gain name _ => some (.acquire name (a.needs.map Prod.fst))
  | .give name => some (.release name)

/-- A piece without the kinds. -/
def Piece.forget (p : Piece N K) : Ledger.Holding N := ⟨p.name, p.sources.map Prod.fst⟩

omit [DecidableEq N] [DecidableEq K] in
theorem resources_forget (held : List (Piece N K)) :
    Ledger.resources (held.map Piece.forget) = held.map Piece.name := by
  rw [Ledger.resources, List.map_map]
  rfl

omit [DecidableEq K] in
private theorem map_eraseP_forget (held : List (Piece N K)) (n : N) :
    (held.eraseP fun p ↦ p.name = n).map Piece.forget
      = (held.map Piece.forget).eraseP fun h ↦ h.resource = n := by
  rw [List.eraseP_map]
  rfl

/-- Without the kinds, custody is a ledger. -/
theorem ledger_replay {acts : List (Act N K)} {held : List (Piece N K)}
    (h : replay acts = some held) :
    Ledger.replay (acts.filterMap Act.forget) = some (held.map Piece.forget) := by
  induction acts generalizing held with
  | nil =>
    cases h
    rfl
  | cons a past ih =>
    obtain ⟨before, hbefore, hstep⟩ := Option.bind_eq_some_iff.1 h
    have hledger := ih hbefore
    obtain ⟨needs, effect⟩ := a
    rw [step] at hstep
    split at hstep
    · rename_i hneeds
      cases effect with
      | keep =>
        cases hstep
        exact hledger
      | gain name kind =>
        rw [Effect.apply] at hstep
        split at hstep
        · cases hstep
        · cases hstep
          refine (Ledger.replay_cons hledger).trans (Ledger.step_acquire name fun s hs ↦ ?_)
          obtain ⟨x, hx, rfl⟩ := List.mem_map.1 hs
          obtain ⟨p, hp, rfl⟩ := List.mem_map.1 (hneeds x hx)
          rw [resources_forget]
          exact List.mem_map_of_mem hp
      | give name =>
        rw [Effect.apply] at hstep
        split at hstep
        · rename_i hheld
          cases hstep
          have hneed : Ledger.Unneeded (before.map Piece.forget) name := by
            intro x hx
            obtain ⟨p, hp, rfl⟩ := List.mem_map.1 hx
            exact hheld.2 p hp
          refine (Ledger.replay_cons hledger).trans ?_
          rw [Ledger.step, resources_forget, if_pos ⟨hheld.1, hneed⟩, map_eraseP_forget]
        · cases hstep
    · cases hstep

end

/-- A relation between all that is held, which whatever is gained is in with what is there. -/
theorem step_pairwise [DecidableEq N] [DecidableEq K] {R : N → N → Prop}
    {held held' : List (Piece N K)} {a : Act N K} (hstep : step held a = some held')
    (hgain : ∀ name kind, a.effect = .gain name kind → ∀ q ∈ held, R name q.name)
    (h : held.Pairwise fun q r ↦ R q.name r.name) :
    held'.Pairwise fun q r ↦ R q.name r.name := by
  obtain ⟨needs, effect⟩ := a
  rw [step] at hstep
  split at hstep
  · cases effect with
    | keep =>
      cases hstep
      exact h
    | gain name kind =>
      rw [Effect.apply] at hstep
      split at hstep
      · cases hstep
      · cases hstep
        exact List.pairwise_cons.2 ⟨hgain name kind rfl, h⟩
    | give name =>
      rw [Effect.apply] at hstep
      split at hstep
      · cases hstep
        exact h.sublist (List.eraseP_sublist)
      · cases hstep
  · cases hstep

/-! ## What is known of everything that is held -/

/-- Names are used once, and what a thing was made from is held with it. -/
structure Sound (held : Multiset (Piece N K)) : Prop where
  nodup : (held.map Piece.name).Nodup
  sourced : ∀ p ∈ held, ∀ x ∈ p.sources, x ∈ held.map Piece.tag
  /-- Nothing is made from itself. -/
  irrefl : ∀ p ∈ held, ∀ x ∈ p.sources, x.1 ≠ p.name

variable {held : Multiset (Piece N K)} {p : Piece N K}

theorem Sound.eq_of_name (h : Sound held) {q : Piece N K} (hp : p ∈ held) (hq : q ∈ held)
    (hname : p.name = q.name) : p = q :=
  Multiset.inj_on_of_nodup_map h.nodup p hp q hq hname

/-- What is not needed under its kind is not needed. -/
theorem Sound.not_mem_sources (h : Sound (p ::ₘ held)) (hneed : ∀ q ∈ held, p.tag ∉ q.sources) :
    ∀ q ∈ p ::ₘ held, p.name ∉ q.sources.map Prod.fst := by
  intro q hq hmem
  obtain ⟨x, hx, hname⟩ := List.mem_map.1 hmem
  obtain ⟨p', hp', htag⟩ := Multiset.mem_map.1 (h.sourced q hq x hx)
  have heq : p' = p :=
    h.eq_of_name hp' (Multiset.mem_cons_self p held) ((congrArg Prod.fst htag).trans hname)
  rw [heq] at htag
  rcases Multiset.mem_cons.1 hq with rfl | hq
  · exact h.irrefl q (Multiset.mem_cons_self q held) x hx hname
  · exact hneed q hq (htag ▸ hx)

/-- What nothing needs can go. -/
theorem Sound.of_cons (h : Sound (p ::ₘ held)) (hneed : ∀ q ∈ held, p.tag ∉ q.sources) :
    Sound held := by
  have hnodup := h.nodup
  rw [Multiset.map_cons, Multiset.nodup_cons] at hnodup
  refine ⟨hnodup.2, fun q hq x hx ↦ ?_, fun q hq ↦ h.irrefl q (Multiset.mem_cons_of_mem hq)⟩
  have hsourced := h.sourced q (Multiset.mem_cons_of_mem hq) x hx
  rw [Multiset.map_cons, Multiset.mem_cons] at hsourced
  refine hsourced.resolve_left fun heq ↦ hneed q hq ?_
  rwa [← heq]

/-- What is new can come. -/
theorem Sound.cons (h : Sound held) (hnew : p.name ∉ held.map Piece.name)
    (hsources : ∀ x ∈ p.sources, x ∈ held.map Piece.tag) : Sound (p ::ₘ held) := by
  refine ⟨?_, ?_, ?_⟩
  · rw [Multiset.map_cons, Multiset.nodup_cons]
    exact ⟨hnew, h.nodup⟩
  · intro q hq x hx
    rw [Multiset.map_cons]
    refine Multiset.mem_cons_of_mem ?_
    rcases Multiset.mem_cons.1 hq with rfl | hq
    · exact hsources x hx
    · exact h.sourced q hq x hx
  · intro q hq x hx hname
    rcases Multiset.mem_cons.1 hq with rfl | hq
    · obtain ⟨r, hr, htag⟩ := Multiset.mem_map.1 (hsources x hx)
      refine hnew (Multiset.mem_map.2 ⟨r, hr, ?_⟩)
      rw [← hname, ← htag]
      rfl
    · exact h.irrefl q hq x hx hname

/-! ## Up to order -/

variable [DecidableEq N] [DecidableEq K]

/-- What is held after a list of acts, in any order. -/
structure Holds (acts : List (Act N K)) (held : Multiset (Piece N K)) : Prop where
  replay : ∃ l : List (Piece N K), replay acts = some l ∧ (l : Multiset (Piece N K)) = held
  sound : Sound held

theorem Holds.nil : Holds ([] : List (Act N K)) 0 :=
  ⟨⟨[], rfl, rfl⟩, ⟨Multiset.nodup_zero, fun p hp ↦ absurd hp (Multiset.notMem_zero p),
    fun p hp ↦ absurd hp (Multiset.notMem_zero p)⟩⟩

private theorem replay_cons {acts : List (Act N K)} {l : List (Piece N K)} {a : Act N K}
    (h : replay acts = some l) (hneeds : ∀ x ∈ a.needs, x ∈ l.map Piece.tag) :
    Custody.replay (a :: acts) = a.effect.apply l a.needs := by
  rw [Custody.replay, h, Option.bind_some, step, if_pos hneeds]

variable {acts : List (Act N K)} {needs : List (N × K)}

theorem Holds.keep (h : Holds acts held) (hneeds : ∀ x ∈ needs, x ∈ held.map Piece.tag) :
    Holds (⟨needs, .keep⟩ :: acts) held := by
  obtain ⟨⟨l, hl, rfl⟩, hsound⟩ := h
  exact ⟨⟨l, replay_cons hl hneeds, rfl⟩, hsound⟩

theorem Holds.gain (h : Holds acts held) (hneeds : ∀ x ∈ needs, x ∈ held.map Piece.tag) {name : N}
    (hnew : name ∉ held.map Piece.name) (kind : K) :
    Holds (⟨needs, .gain name kind⟩ :: acts) (⟨name, kind, needs⟩ ::ₘ held) := by
  have hsound' := h.sound.cons (p := ⟨name, kind, needs⟩) hnew hneeds
  obtain ⟨⟨l, hl, rfl⟩, hsound⟩ := h
  refine ⟨⟨⟨name, kind, needs⟩ :: l, (replay_cons hl hneeds).trans ?_, rfl⟩, hsound'⟩
  exact if_neg hnew

/-- Giving away what nothing held was made from. -/
theorem Holds.give (needs : List (N × K)) (h : Holds acts (p ::ₘ held))
    (hneeds : ∀ x ∈ needs, x ∈ (p ::ₘ held).map Piece.tag)
    (hneed : ∀ q ∈ held, p.tag ∉ q.sources) : Holds (⟨needs, .give p.name⟩ :: acts) held := by
  obtain ⟨⟨l, hl, heq⟩, hsound⟩ := h
  have hunneeded : Unneeded l p.name := fun q hq ↦
    hsound.not_mem_sources hneed q (by rw [← heq]; exact hq)
  have hp : p ∈ l := by
    rw [← Multiset.mem_coe, heq]
    exact Multiset.mem_cons_self p held
  rw [← heq] at hneeds
  -- the first piece with the name is the one that is meant
  have herase : ((l.eraseP fun q ↦ q.name = p.name : List (Piece N K)) : Multiset (Piece N K))
      = held := by
    obtain ⟨q, l₁, l₂, -, hname, rfl, herase⟩ :=
      List.exists_of_eraseP (p := fun q ↦ decide (q.name = p.name)) hp (by simp)
    have hq : q = p := hsound.eq_of_name (by rw [← heq]; simp)
      (Multiset.mem_cons_self p held) (by simpa using hname)
    rw [herase]
    subst hq
    rw [← Multiset.cons_inj_right q, ← heq, Multiset.cons_coe, Multiset.coe_eq_coe]
    exact List.perm_middle.symm
  refine ⟨⟨_, (replay_cons hl hneeds).trans (if_pos ⟨List.mem_map_of_mem hp, hunneeded⟩), herase⟩,
    hsound.of_cons hneed⟩

end Custody
