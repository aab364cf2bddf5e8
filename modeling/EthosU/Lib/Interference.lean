import Mathlib.Logic.Function.Basic

/-!
# Threads that interfere

Threads take turns at a shared state, in any order, and so does the rest of the world.  Each thread
has a state of its own, which nobody else sees.

* `Interference.State.after` is what an interleaving of their steps leads to.
* `Sound` is the proof obligation for an invariant: a step keeps what is known of the shared state
  and of the thread that makes it, and does nothing to the shared state but what the others put up
  with.  `Sound.after` is what follows, for all interleavings.
* `Descends` says that a thread is getting somewhere whatever the others do, and `Descends.done`
  that it then gets there: it is enough to let it make as many steps as it has left.
-/

set_option autoImplicit false

namespace Interference

variable {I S L E : Type} [DecidableEq I]

/-- The shared state, and the state of every thread. -/
structure State (I S L : Type) where
  shared : S
  locals : I → L

/-- Whose turn it is, and what the world does if it is the world's. -/
inductive Move (I E : Type)
  | thread (i : I)
  | world (e : E)

variable (step : L → S → L × S) (act : E → S → S)

def State.move (σ : State I S L) : Move I E → State I S L
  | .thread i =>
    let stepped := step (σ.locals i) σ.shared
    ⟨stepped.2, Function.update σ.locals i stepped.1⟩
  | .world e => { σ with shared := act e σ.shared }

/-- The state after an interleaving, latest move first. -/
def State.after (σ : State I S L) : List (Move I E) → State I S L
  | [] => σ
  | m :: moves => (σ.after moves).move step act m

/-- An invariant of the shared state and of every thread, next to threads and a world that do
nothing but `R` to the shared state.  The world does what is `allowed`. -/
structure Sound (Shared : S → Prop) (Local : L → S → Prop) (R : S → S → Prop)
    (allowed : S → E → Prop) : Prop where
  thread : ∀ l s, Shared s → Local l s →
    Shared (step l s).2 ∧ Local (step l s).1 (step l s).2 ∧ R s (step l s).2
  world : ∀ e s, allowed s e → Shared s → Shared (act e s) ∧ R s (act e s)
  stable : ∀ l s s', Local l s → R s s' → Local l s'

/-- The world has done what it may. -/
def Allowed (allowed : S → E → Prop) (σ : State I S L) : List (Move I E) → Prop
  | [] => True
  | .thread _ :: moves => Allowed allowed σ moves
  | .world e :: moves =>
    allowed (σ.after step act moves).shared e ∧ Allowed allowed σ moves

section

variable {step act} {Shared : S → Prop} {Local : L → S → Prop} {R : S → S → Prop}
  {allowed : S → E → Prop} {σ : State I S L}

theorem Sound.move (h : Sound step act Shared Local R allowed) {m : Move I E}
    (hallowed : ∀ e, m = .world e → allowed σ.shared e) (hshared : Shared σ.shared)
    (hlocal : ∀ i, Local (σ.locals i) σ.shared) :
    Shared (σ.move step act m).shared
      ∧ ∀ i, Local ((σ.move step act m).locals i) (σ.move step act m).shared := by
  cases m with
  | thread i =>
    obtain ⟨hshared', hlocal', hR⟩ := h.thread _ _ hshared (hlocal i)
    refine ⟨hshared', fun j ↦ ?_⟩
    by_cases hj : j = i
    · subst hj
      simpa [State.move] using hlocal'
    · simpa [State.move, hj] using h.stable _ _ _ (hlocal j) hR
  | world e =>
    obtain ⟨hshared', hR⟩ := h.world e _ (hallowed e rfl) hshared
    exact ⟨hshared', fun i ↦ h.stable _ _ _ (hlocal i) hR⟩

/-- **The invariant holds after every interleaving**, by induction on the moves. -/
theorem Sound.after (h : Sound step act Shared Local R allowed) (moves : List (Move I E))
    (hallowed : Allowed step act allowed σ moves) (hshared : Shared σ.shared)
    (hlocal : ∀ i, Local (σ.locals i) σ.shared) :
    Shared (σ.after step act moves).shared
      ∧ ∀ i, Local ((σ.after step act moves).locals i) (σ.after step act moves).shared := by
  induction moves with
  | nil => exact ⟨hshared, hlocal⟩
  | cons m moves ih =>
    cases m with
    | thread i =>
      obtain ⟨hs, hl⟩ := ih hallowed
      exact h.move (fun e he ↦ by cases he) hs hl
    | world e =>
      obtain ⟨hs, hl⟩ := ih hallowed.2
      refine h.move (fun e' he ↦ ?_) hs hl
      cases he
      exact hallowed.1

end

/-! ## Progress -/

/-- The number of steps a thread has made. -/
def steps (i : I) : List (Move I E) → Nat
  | [] => 0
  | .thread j :: moves => steps i moves + if j = i then 1 else 0
  | .world _ :: moves => steps i moves

/-- A step of its own brings a thread nearer to its end, wherever the others have got to. -/
def Descends (Shared : S → Prop) (Local : L → S → Prop) (left : L → Nat) : Prop :=
  ∀ l s, Shared s → Local l s → left (step l s).1 ≤ left l - 1

variable {step act} {Shared : S → Prop} {Local : L → S → Prop} {R : S → S → Prop}
  {allowed : S → E → Prop} {σ : State I S L} {left : L → Nat}

/-- **A thread that has made as many steps as it had left has got to its end.** -/
theorem Descends.done (hdescends : Descends step Shared Local left)
    (h : Sound step act Shared Local R allowed) (moves : List (Move I E))
    (hallowed : Allowed step act allowed σ moves) (hshared : Shared σ.shared)
    (hlocal : ∀ i, Local (σ.locals i) σ.shared) (i : I) :
    left ((σ.after step act moves).locals i) ≤ left (σ.locals i) - steps i moves := by
  induction moves with
  | nil => exact Nat.le_refl _
  | cons m moves ih =>
    cases m with
    | world e => exact ih hallowed.2
    | thread j =>
      have hbefore := ih hallowed
      obtain ⟨hs, hl⟩ := h.after moves hallowed hshared hlocal
      by_cases hj : j = i
      · subst hj
        have hstep := hdescends _ _ hs (hl j)
        simp only [State.after, State.move, Function.update_self, steps, if_true]
        omega
      · simpa [State.after, State.move, Function.update_of_ne (Ne.symm hj), steps, hj] using hbefore

end Interference
