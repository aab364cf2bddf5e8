import EthosU.Lib.Wp

/-!
# Invariants of programs

`Keeps I x` says that `x` leads from states with the invariant `I` to states with the invariant `I`,
whether it returns or throws.  It is a weakest precondition that does not mention what comes back,
so its rules follow the structure of a program without any bookkeeping; where the value matters,
`wp` takes over (`Keeps.wp`, `keeps_of_wp`).
-/

set_option autoImplicit false

namespace Wp

variable {ε σ τ α β : Type}

/-- Whether it returns or throws, `x` keeps the invariant. -/
def Keeps (I : σ → Prop) (x : EStateM ε σ α) : Prop :=
  ∀ s, I s → wp x (fun _ s' ↦ I s') (fun _ s' ↦ I s') s

namespace Keeps

variable {I : σ → Prop}

theorem left {x : EStateM ε σ α} (h : Keeps I x) {s : σ} (hs : I s) : I (Wp.left x s) :=
  left_of_wp (h s hs)

theorem and {J : σ → Prop} {x : EStateM ε σ α} (hI : Keeps I x) (hJ : Keeps J x) :
    Keeps (fun s ↦ I s ∧ J s) x := fun s hs ↦ wp_conj (hI s hs.1) (hJ s hs.2)

theorem pure (a : α) : Keeps I (Pure.pure a : EStateM ε σ α) := fun _ hs ↦ hs

theorem throw (e : ε) : Keeps I (MonadExcept.throw e : EStateM ε σ α) := fun _ hs ↦ hs

theorem get : Keeps I (MonadState.get : EStateM ε σ σ) := fun _ hs ↦ hs

theorem modify {f : σ → σ} (h : ∀ s, I s → I (f s)) :
    Keeps I (modify f : EStateM ε σ PUnit) := fun s hs ↦ h s hs

theorem bind {x : EStateM ε σ β} {f : β → EStateM ε σ α} (hx : Keeps I x)
    (hf : ∀ b, Keeps I (f b)) : Keeps I (x >>= f) := fun s hs ↦
  (wp_bind x f).2 (wp_mono (hx s hs) (fun b s' hs' ↦ hf b s' hs') (fun _ _ he ↦ he))

/-- What keeps the invariant, followed by what needs it. -/
theorem step {x : EStateM ε σ β} {f : β → EStateM ε σ α} (hx : Keeps I x) {Q : α → σ → Prop}
    {E : ε → σ → Prop} {s : σ} (hs : I s) (hf : ∀ b s', I s' → Wp.wp (f b) Q E s')
    (hE : ∀ e s', I s' → E e s') : Wp.wp (x >>= f) Q E s :=
  (wp_bind x f).2 (wp_mono (hx s hs) hf hE)

theorem discard {x : EStateM ε σ β} (hx : Keeps I x) : Keeps I (discard x) := fun s hs ↦
  (wp_discard x).2 (hx s hs)

theorem tryCatch {x : EStateM ε σ α} {h : ε → EStateM ε σ α} (hx : Keeps I x)
    (hh : ∀ e, Keeps I (h e)) : Keeps I (MonadExcept.tryCatch x h) := fun s hs ↦
  (wp_tryCatch x h).2 (wp_mono (hx s hs) (fun _ _ hq ↦ hq) fun e s' hs' ↦ hh e s' hs')

theorem ite {c : Prop} [Decidable c] {x y : EStateM ε σ α} (hx : Keeps I x) (hy : Keeps I y) :
    Keeps I (if c then x else y) := fun s hs ↦ (wp_ite c x y).2 ⟨fun _ ↦ hx s hs, fun _ ↦ hy s hs⟩

theorem onThrow {caught : ε → Bool} {double : ε → ε → ε} {cleanup : EStateM ε σ Unit}
    {x : EStateM ε σ α} (hcleanup : Keeps I cleanup) (hx : Keeps I x) :
    Keeps I (onThrow caught double cleanup x) :=
  hx.tryCatch fun _ ↦ .ite ((hcleanup.tryCatch fun _ ↦ .throw _).bind fun _ ↦ .throw _) (.throw _)

theorem onPart {J : τ → Prop} {get : τ → σ} {set : τ → σ → τ} {x : EStateM ε σ α}
    (hget : ∀ t, J t → I (get t)) (hset : ∀ t s, J t → I s → J (set t s)) (hx : Keeps I x) :
    Keeps J (onPart get set x) := fun t ht ↦
  (wp_onPart x).2 (wp_mono (hx _ (hget t ht)) (fun _ s hs ↦ hset t s ht hs)
    fun _ s hs ↦ hset t s ht hs)

theorem listForM {f : β → EStateM ε σ PUnit} (l : List β) (hf : ∀ b, Keeps I (f b)) :
    Keeps I (l.forM f) := by
  induction l with
  | nil => exact .pure _
  | cons b l ih => exact (hf b).bind fun _ ↦ ih

theorem listForM_mem {f : β → EStateM ε σ PUnit} {l : List β} (hf : ∀ b ∈ l, Keeps I (f b)) :
    Keeps I (l.forM f) := by
  induction l with
  | nil => exact .pure _
  | cons b l ih =>
    rw [List.forall_mem_cons] at hf
    exact hf.1.bind fun _ ↦ ih hf.2

theorem optionForM {f : β → EStateM ε σ PUnit} (o : Option β) (hf : ∀ b, Keeps I (f b)) :
    Keeps I (o.forM f) := by
  cases o with
  | none => exact .pure _
  | some b => exact hf b

end Keeps

end Wp
