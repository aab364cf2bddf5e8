import Mathlib.Data.List.Basic

/-!
# Programs that avoid a failure

A program is an `Except ε α`, and one of its failures is not an error that is reported but something
that must not happen.  `Fallible.Avoids bad x` says that `x` does not end in it.

* `avoids_bind` takes a sequence of steps apart, and `avoids_mapM` a loop over a list whose steps
  fail in no other way (`FailsOnly`).
* `mapM_ok` and `exists_of_mapM_error` say how such a loop ends.
-/

set_option autoImplicit false

namespace Fallible

variable {ε α β : Type}

/-- The program does not end in the failure. -/
def Avoids (bad : ε) (x : Except ε α) : Prop := x ≠ .error bad

theorem avoids_ok (bad : ε) (a : α) : Avoids bad (.ok a) := fun h ↦ by cases h

theorem avoids_error {bad e : ε} (h : e ≠ bad) : Avoids bad (.error e : Except ε α) :=
  fun he ↦ h (Except.error.inj he)

theorem not_avoids (bad : ε) : ¬ Avoids bad (.error bad : Except ε α) := fun h ↦ h rfl

/-- The second step is made if the first one gets something. -/
theorem avoids_bind {bad : ε} {x : Except ε β} {f : β → Except ε α} :
    Avoids bad (x >>= f) ↔ Avoids bad x ∧ ∀ b, x = .ok b → Avoids bad (f b) := by
  rcases x with e | b
  · refine ⟨fun h ↦ ⟨fun he ↦ h ?_, fun _ hb ↦ by cases hb⟩, fun h he ↦ h.1 ?_⟩
    · rw [Except.error.inj he]
      rfl
    · rw [Except.error.inj he]
  · refine ⟨fun h ↦ ⟨avoids_ok bad b, fun b' hb ↦ ?_⟩, fun h ↦ h.2 b rfl⟩
    cases hb
    exact h

/-- The program fails in this way or not at all. -/
def FailsOnly (bad : ε) (x : Except ε α) : Prop := ∀ e, x = .error e → e = bad

theorem failsOnly_ok (bad : ε) (a : α) : FailsOnly bad (.ok a) := fun _ h ↦ by cases h

theorem failsOnly_bad (bad : ε) : FailsOnly bad (.error bad : Except ε α) :=
  fun _ h ↦ (Except.error.inj h).symm

theorem FailsOnly.bind {bad : ε} {x : Except ε β} {f : β → Except ε α} (hx : FailsOnly bad x)
    (hf : ∀ b, FailsOnly bad (f b)) : FailsOnly bad (x >>= f) := by
  intro e he
  rcases x with e' | b
  · cases he
    exact hx _ rfl
  · exact hf b e he

/-- What fails in no other way and avoids this one returns. -/
theorem FailsOnly.exists_ok {bad : ε} {x : Except ε α} (hx : FailsOnly bad x) (h : Avoids bad x) :
    ∃ a, x = .ok a := by
  rcases x with e | a
  · exact absurd (congrArg _ (hx e rfl)) h
  · exact ⟨a, rfl⟩

/-! ## Loops -/

variable {f : α → Except ε β} {l : List α}

theorem mapM_ok {g : α → β} (h : ∀ a ∈ l, f a = .ok (g a)) : l.mapM f = .ok (l.map g) := by
  induction l with
  | nil => rfl
  | cons a l ih =>
    rw [List.mapM_cons, h a List.mem_cons_self, ih fun b hb ↦ h b (List.mem_cons_of_mem _ hb)]
    rfl

/-- A loop fails in the way one of its steps does. -/
theorem exists_of_mapM_error {e : ε} (h : l.mapM f = .error e) : ∃ a ∈ l, f a = .error e := by
  induction l with
  | nil => cases h
  | cons a l ih =>
    rw [List.mapM_cons] at h
    rcases ha : f a with e' | b
    · rw [ha] at h
      cases h
      exact ⟨a, List.mem_cons_self, ha⟩
    · rcases hl : l.mapM f with e' | bs
      · rw [ha, hl] at h
        cases h
        obtain ⟨c, hc, hfc⟩ := ih hl
        exact ⟨c, List.mem_cons_of_mem a hc, hfc⟩
      · rw [ha, hl] at h
        cases h

theorem failsOnly_mapM {bad : ε} (h : ∀ a ∈ l, FailsOnly bad (f a)) :
    FailsOnly bad (l.mapM f) := by
  intro e he
  obtain ⟨a, ha, hfa⟩ := exists_of_mapM_error he
  exact h a ha e hfa

/-- A loop that returns has made every step, and returns what the steps did. -/
theorem forall_of_mapM_ok {bs : List β} (h : l.mapM f = .ok bs) :
    (∀ a ∈ l, ∃ b ∈ bs, f a = .ok b) ∧ ∀ b ∈ bs, ∃ a ∈ l, f a = .ok b := by
  induction l generalizing bs with
  | nil =>
    cases h
    simp
  | cons a l ih =>
    rw [List.mapM_cons] at h
    rcases ha : f a with e | b
    · rw [ha] at h
      cases h
    rcases hl : l.mapM f with e | bs'
    · rw [ha, hl] at h
      cases h
    rw [ha, hl] at h
    cases h
    obtain ⟨hsteps, hresults⟩ := ih hl
    refine ⟨fun c hc ↦ ?_, fun c hc ↦ ?_⟩
    · rcases List.mem_cons.1 hc with rfl | hc
      · exact ⟨b, List.mem_cons_self, ha⟩
      · obtain ⟨d, hd, hfd⟩ := hsteps c hc
        exact ⟨d, List.mem_cons_of_mem b hd, hfd⟩
    · rcases List.mem_cons.1 hc with rfl | hc
      · exact ⟨a, List.mem_cons_self, ha⟩
      · obtain ⟨d, hd, hfd⟩ := hresults c hc
        exact ⟨d, List.mem_cons_of_mem a hd, hfd⟩

/-- A loop whose steps fail in this way only. -/
theorem avoids_mapM {bad : ε} (h : ∀ a ∈ l, FailsOnly bad (f a)) :
    Avoids bad (l.mapM f) ↔ ∀ a ∈ l, Avoids bad (f a) := by
  refine ⟨fun havoids a ha hbad ↦ ?_, fun hall hbad ↦ ?_⟩
  · obtain ⟨bs, hl⟩ := (failsOnly_mapM h).exists_ok havoids
    obtain ⟨b, -, hfa⟩ := (forall_of_mapM_ok hl).1 a ha
    rw [hbad] at hfa
    cases hfa
  · obtain ⟨a, ha, hfa⟩ := exists_of_mapM_error hbad
    exact hall a ha hfa

end Fallible
