import Mathlib.Logic.Basic
import Mathlib.Order.Basic

/-!
# Weakest preconditions of programs with state and exceptions

A program is an `EStateM ε σ α`: from a state it either returns a value or throws, and in both
cases leaves a state behind.  Nothing is rolled back by a `throw`, which is what makes this the
right monad for a language whose exceptions unwind through destructors.

* `Wp.wp x Q E` is the set of states from which `x` returns into `Q` or throws into `E`.  Programs
  are deterministic, so `wp` is an equivalence and not merely an under-approximation
  (`Wp.wp_iff`): the same lemmas serve to prove a property of every run and to find out what a
  given run did.
* The structural rules (`wp_pure`, `wp_bind`, `wp_throw`, `wp_tryCatch`, …) are simp lemmas, so
  that `simp` executes a program symbolically until it meets an operation that has a
  specification of its own.
* `Wp.wp_mono` and `Wp.wp_conj` combine such specifications.
* `Wp.onPart` runs a program on one component of a larger state, and `Wp.onThrow` runs cleanup code
  on the exceptional path only.
* `Wp.wp_forM` is the invariant rule of a loop over a list.
-/

set_option autoImplicit false

namespace Wp

variable {ε σ τ α β : Type}

/-- The states from which `x` returns into `Q` or throws into `E`. -/
def wp (x : EStateM ε σ α) (Q : α → σ → Prop) (E : ε → σ → Prop) (s : σ) : Prop :=
  match x s with
  | .ok a s' => Q a s'
  | .error e s' => E e s'

theorem wp_of_ok {x : EStateM ε σ α} {Q : α → σ → Prop} {E : ε → σ → Prop} {s s' : σ} {a : α}
    (h : x s = .ok a s') : wp x Q E s ↔ Q a s' := by
  rw [wp, h]

theorem wp_of_error {x : EStateM ε σ α} {Q : α → σ → Prop} {E : ε → σ → Prop} {s s' : σ} {e : ε}
    (h : x s = .error e s') : wp x Q E s ↔ E e s' := by
  rw [wp, h]

/-- Programs that do the same from `s`. -/
theorem wp_congr {x y : EStateM ε σ α} {Q : α → σ → Prop} {E : ε → σ → Prop} {s : σ}
    (h : x s = y s) : wp x Q E s ↔ wp y Q E s := by
  rw [wp, wp, h]

/-- Programs that begin in the same way, and then do the same. -/
theorem bind_congr {x : EStateM ε σ β} {f g : β → EStateM ε σ α} {s : σ}
    (h : ∀ b s', x s = .ok b s' → f b s' = g b s') : (x >>= f) s = (x >>= g) s := by
  show EStateM.bind x f s = EStateM.bind x g s
  simp only [EStateM.bind]
  rcases hx : x s with ⟨b, s'⟩ | ⟨e, s'⟩
  · exact h b s' hx
  · rfl

/-- What `wp` says about each of the two ways a run can end. -/
theorem wp_iff {x : EStateM ε σ α} {Q : α → σ → Prop} {E : ε → σ → Prop} {s : σ} :
    wp x Q E s ↔ (∀ a s', x s = .ok a s' → Q a s') ∧ (∀ e s', x s = .error e s' → E e s') := by
  cases h : x s with
  | ok a s' =>
    rw [wp_of_ok h]
    refine ⟨?_, ?_⟩
    · intro hq
      refine ⟨fun b t hb ↦ ?_, fun e t he ↦ by simp at he⟩
      cases hb
      exact hq
    · intro hq
      exact hq.1 a s' rfl
  | error e s' =>
    rw [wp_of_error h]
    refine ⟨?_, ?_⟩
    · intro hq
      refine ⟨fun b t hb ↦ by simp at hb, fun f t hf ↦ ?_⟩
      cases hf
      exact hq
    · intro hq
      exact hq.2 e s' rfl

theorem wp_mono {x : EStateM ε σ α} {Q Q' : α → σ → Prop} {E E' : ε → σ → Prop} {s : σ}
    (h : wp x Q E s) (hQ : ∀ a s', Q a s' → Q' a s') (hE : ∀ e s', E e s' → E' e s') :
    wp x Q' E' s := by
  rw [wp_iff] at h ⊢
  exact ⟨fun a s' hx ↦ hQ a s' (h.1 a s' hx), fun e s' hx ↦ hE e s' (h.2 e s' hx)⟩

/-- Postconditions that hold anyway. -/
theorem wp_of_forall {x : EStateM ε σ α} {Q : α → σ → Prop} {E : ε → σ → Prop} {s : σ}
    (hQ : ∀ a s', Q a s') (hE : ∀ e s', E e s') : wp x Q E s :=
  wp_iff.2 ⟨fun a s' _ ↦ hQ a s', fun e s' _ ↦ hE e s'⟩

theorem wp_conj {x : EStateM ε σ α} {Q Q' : α → σ → Prop} {E E' : ε → σ → Prop} {s : σ}
    (h : wp x Q E s) (h' : wp x Q' E' s) :
    wp x (fun a s' ↦ Q a s' ∧ Q' a s') (fun e s' ↦ E e s' ∧ E' e s') s := by
  rw [wp_iff] at h h' ⊢
  exact ⟨fun a s' hx ↦ ⟨h.1 a s' hx, h'.1 a s' hx⟩, fun e s' hx ↦ ⟨h.2 e s' hx, h'.2 e s' hx⟩⟩

/-- A program that returned did so into every postcondition it meets. -/
theorem ok_of_wp {x : EStateM ε σ α} {Q : α → σ → Prop} {E : ε → σ → Prop} {s s' : σ} {a : α}
    (h : wp x Q E s) (hx : x s = .ok a s') : Q a s' :=
  (wp_iff.1 h).1 a s' hx

theorem error_of_wp {x : EStateM ε σ α} {Q : α → σ → Prop} {E : ε → σ → Prop} {s s' : σ} {e : ε}
    (h : wp x Q E s) (hx : x s = .error e s') : E e s' :=
  (wp_iff.1 h).2 e s' hx

/-- The state a run leaves behind, however it ends. -/
def left (x : EStateM ε σ α) (s : σ) : σ :=
  match x s with
  | .ok _ s' => s'
  | .error _ s' => s'

theorem left_of_wp {x : EStateM ε σ α} {P : σ → Prop} {s : σ}
    (h : wp x (fun _ s' ↦ P s') (fun _ s' ↦ P s') s) : P (left x s) := by
  rw [wp] at h
  rw [left]
  cases hx : x s <;> simpa [hx] using h

/-- A program that can not throw returns. -/
theorem exists_of_wp {x : EStateM ε σ α} {Q : α → σ → Prop} {s : σ}
    (h : wp x Q (fun _ _ ↦ False) s) : ∃ a s', x s = .ok a s' ∧ Q a s' := by
  cases hx : x s with
  | ok a s' => exact ⟨a, s', rfl, (wp_of_ok hx).1 h⟩
  | error e s' => exact ((wp_of_error hx).1 h).elim

/-- What can be tested of a result can be tested by running. -/
instance decidableExistsOk {r : EStateM.Result ε σ α} {Q : α → σ → Prop}
    [∀ a s', Decidable (Q a s')] :
    Decidable (∃ a s', r = .ok a s' ∧ Q a s') :=
  match r with
  | .ok a s' => decidable_of_iff (Q a s')
      ⟨fun h ↦ ⟨a, s', rfl, h⟩, fun ⟨_, _, hr, h⟩ ↦ by cases hr; exact h⟩
  | .error _ _ => isFalse fun ⟨_, _, hr, _⟩ ↦ by cases hr

/-! ## The structural rules -/

section Rules

variable {Q : α → σ → Prop} {E : ε → σ → Prop} {s : σ}

@[simp] theorem wp_pure (a : α) : wp (pure a : EStateM ε σ α) Q E s ↔ Q a s := Iff.rfl

@[simp] theorem wp_bind (x : EStateM ε σ β) (f : β → EStateM ε σ α) :
    wp (x >>= f) Q E s ↔ wp x (fun b s' ↦ wp (f b) Q E s') E s := by
  show wp (EStateM.bind x f) Q E s ↔ _
  simp only [wp, EStateM.bind]
  cases x s <;> rfl

@[simp] theorem wp_map (f : β → α) (x : EStateM ε σ β) :
    wp (f <$> x) Q E s ↔ wp x (fun b s' ↦ Q (f b) s') E s := by
  show wp (EStateM.map f x) Q E s ↔ _
  simp only [wp, EStateM.map]
  cases x s <;> rfl

@[simp] theorem wp_discard (x : EStateM ε σ β) {Q : PUnit → σ → Prop} :
    wp (discard x) Q E s ↔ wp x (fun _ s' ↦ Q ⟨⟩ s') E s := by
  show wp (EStateM.map (fun _ ↦ PUnit.unit) x) Q E s ↔ _
  simp only [wp, EStateM.map]
  cases x s <;> rfl

@[simp] theorem wp_throw (e : ε) : wp (throw e : EStateM ε σ α) Q E s ↔ E e s := Iff.rfl

@[simp] theorem wp_tryCatch (x : EStateM ε σ α) (h : ε → EStateM ε σ α) :
    wp (tryCatch x h) Q E s ↔ wp x Q (fun e s' ↦ wp (h e) Q E s') s := by
  show wp (EStateM.tryCatch x h) Q E s ↔ _
  simp only [wp, EStateM.tryCatch]
  cases x s <;> rfl

@[simp] theorem wp_tryCatchThe (x : EStateM ε σ α) (h : ε → EStateM ε σ α) :
    wp (tryCatchThe ε x h) Q E s ↔ wp x Q (fun e s' ↦ wp (h e) Q E s') s :=
  wp_tryCatch x h

@[simp] theorem wp_get {Q : σ → σ → Prop} : wp (get : EStateM ε σ σ) Q E s ↔ Q s s := Iff.rfl

@[simp] theorem wp_modify {Q : PUnit → σ → Prop} (f : σ → σ) :
    wp (modify f : EStateM ε σ PUnit) Q E s ↔ Q ⟨⟩ (f s) := Iff.rfl

theorem wp_ite (c : Prop) [Decidable c] (x y : EStateM ε σ α) :
    wp (if c then x else y) Q E s ↔ (c → wp x Q E s) ∧ (¬ c → wp y Q E s) := by
  by_cases h : c <;> simp [h]

end Rules

/-! ## Running on one component of the state -/

/-- Runs `x` on the component of the state that `get` reads and `set` replaces. -/
def onPart (get : τ → σ) (set : τ → σ → τ) (x : EStateM ε σ α) : EStateM ε τ α := fun t ↦
  match x (get t) with
  | .ok a s => .ok a (set t s)
  | .error e s => .error e (set t s)

@[simp] theorem wp_onPart {get : τ → σ} {set : τ → σ → τ} (x : EStateM ε σ α)
    {Q : α → τ → Prop} {E : ε → τ → Prop} {t : τ} :
    wp (onPart get set x) Q E t
      ↔ wp x (fun a s ↦ Q a (set t s)) (fun e s ↦ E e (set t s)) (get t) := by
  simp only [wp, onPart]
  cases x (get t) <;> rfl

/-! ## Cleaning up on the exceptional path -/

/-- Runs `x`; if it throws an exception that is `caught`, runs `cleanup` and throws again.  When
the cleanup throws in its turn, `double` says what is thrown in place of the two exceptions. -/
def onThrow (caught : ε → Bool) (double : ε → ε → ε) (cleanup : EStateM ε σ Unit)
    (x : EStateM ε σ α) : EStateM ε σ α :=
  tryCatch x fun e ↦
    if caught e then do
      tryCatch cleanup fun f ↦ throw (double e f)
      throw e
    else throw e

@[simp] theorem wp_onThrow {Q : α → σ → Prop} {E : ε → σ → Prop} {s : σ} (caught : ε → Bool)
    (double : ε → ε → ε) (cleanup : EStateM ε σ Unit) (x : EStateM ε σ α) :
    wp (onThrow caught double cleanup x) Q E s
      ↔ wp x Q (fun e s' ↦ if caught e then
          wp cleanup (fun _ s'' ↦ E e s'') (fun f s'' ↦ E (double e f) s'') s' else E e s') s := by
  rw [onThrow, wp_tryCatch]
  refine Iff.of_eq (congrArg (fun E' ↦ wp x Q E' s) (funext fun e ↦ funext fun s' ↦ propext ?_))
  by_cases h : caught e = true <;> simp [h]

/-! ## Loops -/

/-- The invariant rule of a loop over a list: `I` holds of the elements already visited. -/
theorem wp_forM {f : β → EStateM ε σ PUnit} {E : ε → σ → Prop} (I : List β → σ → Prop)
    (hstep : ∀ done b s, I done s → wp (f b) (fun _ s' ↦ I (done ++ [b]) s') E s)
    (todo done : List β) {s : σ} (h : I done s) :
    wp (todo.forM f) (fun _ s' ↦ I (done ++ todo) s') E s := by
  induction todo generalizing done s with
  | nil => simpa using h
  | cons b todo ih =>
    show wp (f b >>= fun _ ↦ todo.forM f) _ E s
    rw [wp_bind]
    refine wp_mono (hstep done b s h) (fun _ s' hs' ↦ ?_) (fun _ _ he ↦ he)
    simpa using ih (done ++ [b]) hs'

end Wp
