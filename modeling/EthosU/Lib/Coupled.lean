import EthosU.Lib.Wp

/-!
# Two runs side by side

A property that compares two runs of a program — that what it does is a function of its inputs,
say — is proved by walking through both runs at once.

`Coupled R V x y` says that, started in states related by `R`, the programs `x` and `y` end in the
same way: both return, with values related by `V`, or both throw the same exception; and the states
they leave behind are again related by `R`.  The rules below follow the structure of the programs,
and a fixed `R` makes them composable without any bookkeeping.

With `x` and `y` the same program and `R` the diagonal of an invariant, `Coupled` is preservation
of that invariant (`Coupled.preserves`), so one family of lemmas about the operations of a library
serves for both purposes.
-/

set_option autoImplicit false

namespace Wp

variable {ε σ τ σ' τ' α β γ δ : Type}

/-- From `R`-related states, `x` and `y` end in the same way and in `R`-related states. -/
def Coupled (R : σ → τ → Prop) (V : α → β → Prop) (x : EStateM ε σ α) (y : EStateM ε τ β) :
    Prop :=
  ∀ s t, R s t →
    match x s, y t with
    | .ok a s', .ok b t' => V a b ∧ R s' t'
    | .error e s', .error f t' => e = f ∧ R s' t'
    | _, _ => False

namespace Coupled

variable {R : σ → τ → Prop} {V : α → β → Prop}

/-- The two ways a coupled pair of runs can end. -/
theorem cases {x : EStateM ε σ α} {y : EStateM ε τ β} (h : Coupled R V x y) {s : σ} {t : τ}
    (hR : R s t) :
    (∃ a b s' t', x s = .ok a s' ∧ y t = .ok b t' ∧ V a b ∧ R s' t')
      ∨ ∃ e s' t', x s = .error e s' ∧ y t = .error e t' ∧ R s' t' := by
  have hst := h s t hR
  cases hx : x s with
  | ok a s' =>
    cases hy : y t with
    | ok b t' =>
      simp only [hx, hy] at hst
      exact .inl ⟨a, b, s', t', rfl, rfl, hst⟩
    | error f t' => simp [hx, hy] at hst
  | error e s' =>
    cases hy : y t with
    | ok b t' => simp [hx, hy] at hst
    | error f t' =>
      simp only [hx, hy] at hst
      obtain ⟨rfl, hR'⟩ := hst
      exact .inr ⟨e, s', t', rfl, rfl, hR'⟩

theorem of_ok {x : EStateM ε σ α} {y : EStateM ε τ β} {s s' : σ} {t t' : τ} {a : α} {b : β}
    (hx : x s = .ok a s') (hy : y t = .ok b t') (hV : V a b) (hR : R s' t') :
    match x s, y t with
    | .ok a s', .ok b t' => V a b ∧ R s' t'
    | .error e s', .error f t' => e = f ∧ R s' t'
    | _, _ => False := by
  rw [hx, hy]
  exact ⟨hV, hR⟩

theorem of_error {x : EStateM ε σ α} {y : EStateM ε τ β} {s s' : σ} {t t' : τ} {e : ε}
    (hx : x s = .error e s') (hy : y t = .error e t') (hR : R s' t') :
    match x s, y t with
    | .ok a s', .ok b t' => V a b ∧ R s' t'
    | .error e s', .error f t' => e = f ∧ R s' t'
    | _, _ => False := by
  rw [hx, hy]
  exact ⟨rfl, hR⟩

/-! ## The structural rules -/

theorem pure {a : α} {b : β} (h : V a b) :
    Coupled R V (Pure.pure a : EStateM ε σ α) (Pure.pure b : EStateM ε τ β) :=
  fun _ _ hR ↦ ⟨h, hR⟩

theorem throw (e : ε) :
    Coupled R V (MonadExcept.throw e : EStateM ε σ α) (MonadExcept.throw e : EStateM ε τ β) :=
  fun _ _ hR ↦ ⟨rfl, hR⟩

theorem bind {W : γ → δ → Prop} {x : EStateM ε σ α} {y : EStateM ε τ β}
    {f : α → EStateM ε σ γ} {g : β → EStateM ε τ δ} (h : Coupled R V x y)
    (hfg : ∀ a b, V a b → Coupled R W (f a) (g b)) : Coupled R W (x >>= f) (y >>= g) := by
  intro s t hR
  show match EStateM.bind x f s, EStateM.bind y g t with
    | .ok c s', .ok d t' => W c d ∧ R s' t'
    | .error e s', .error f t' => e = f ∧ R s' t'
    | _, _ => False
  obtain ⟨a, b, s', t', hx, hy, hV, hR'⟩ | ⟨e, s', t', hx, hy, hR'⟩ := h.cases hR
  · simp only [EStateM.bind, hx, hy]
    exact hfg a b hV s' t' hR'
  · simp only [EStateM.bind, hx, hy]
    exact ⟨trivial, hR'⟩

theorem tryCatch {x : EStateM ε σ α} {y : EStateM ε τ β} {f : ε → EStateM ε σ α}
    {g : ε → EStateM ε τ β} (h : Coupled R V x y) (hfg : ∀ e, Coupled R V (f e) (g e)) :
    Coupled R V (MonadExcept.tryCatch x f) (MonadExcept.tryCatch y g) := by
  intro s t hR
  show match EStateM.tryCatch x f s, EStateM.tryCatch y g t with
    | .ok c s', .ok d t' => V c d ∧ R s' t'
    | .error e s', .error f t' => e = f ∧ R s' t'
    | _, _ => False
  obtain ⟨a, b, s', t', hx, hy, hV, hR'⟩ | ⟨e, s', t', hx, hy, hR'⟩ := h.cases hR
  · simp only [EStateM.tryCatch, hx, hy]
    exact ⟨hV, hR'⟩
  · simp only [EStateM.tryCatch, hx, hy]
    exact hfg e s' t' hR'

theorem ite {c d : Prop} [Decidable c] [Decidable d] (hcd : c ↔ d) {x x' : EStateM ε σ α}
    {y y' : EStateM ε τ β} (h : Coupled R V x y) (h' : Coupled R V x' y') :
    Coupled R V (if c then x else x') (if d then y else y') := by
  by_cases hc : c
  · rw [if_pos hc, if_pos (hcd.1 hc)]
    exact h
  · rw [if_neg hc, if_neg (mt hcd.2 hc)]
    exact h'

theorem get : Coupled R R (MonadState.get : EStateM ε σ σ) (MonadState.get : EStateM ε τ τ) :=
  fun _ _ hR ↦ ⟨hR, hR⟩

theorem modify {f : σ → σ} {g : τ → τ} (h : ∀ s t, R s t → R (f s) (g t)) :
    Coupled R Eq (modify f : EStateM ε σ PUnit) (modify g : EStateM ε τ PUnit) :=
  fun s t hR ↦ ⟨rfl, h s t hR⟩

theorem onThrow {x : EStateM ε σ α} {y : EStateM ε τ β} {cleanup : EStateM ε σ Unit}
    {cleanup' : EStateM ε τ Unit} (caught : ε → Bool) (double : ε → ε → ε)
    (hc : Coupled R Eq cleanup cleanup') (h : Coupled R V x y) :
    Coupled R V (Wp.onThrow caught double cleanup x) (Wp.onThrow caught double cleanup' y) :=
  h.tryCatch fun e ↦ ite Iff.rfl
    (bind (hc.tryCatch fun f ↦ throw (double e f)) fun _ _ _ ↦ throw e) (throw e)

theorem forM {f : γ → EStateM ε σ PUnit} {g : γ → EStateM ε τ PUnit}
    (h : ∀ c, Coupled R Eq (f c) (g c)) (cs : List γ) :
    Coupled R Eq (cs.forM f) (cs.forM g) := by
  induction cs with
  | nil => exact pure rfl
  | cons c cs ih => exact bind (h c) fun _ _ _ ↦ ih

/-- Programs that run on a component of the state. -/
theorem onPart {S : σ' → τ' → Prop} {get₁ : σ' → σ} {set₁ : σ' → σ → σ'} {get₂ : τ' → τ}
    {set₂ : τ' → τ → τ'} {x : EStateM ε σ α} {y : EStateM ε τ β} (h : Coupled R V x y)
    (hget : ∀ s t, S s t → R (get₁ s) (get₂ t))
    (hset : ∀ s t s' t', S s t → R s' t' → S (set₁ s s') (set₂ t t')) :
    Coupled S V (Wp.onPart get₁ set₁ x) (Wp.onPart get₂ set₂ y) := by
  intro s t hS
  simp only [Wp.onPart]
  obtain ⟨a, b, s', t', hx, hy, hV, hR'⟩ | ⟨e, s', t', hx, hy, hR'⟩ := h.cases (hget s t hS)
  · simp only [hx, hy]
    exact ⟨hV, hset s t s' t' hS hR'⟩
  · simp only [hx, hy]
    exact ⟨trivial, hset s t s' t' hS hR'⟩

end Coupled

end Wp
