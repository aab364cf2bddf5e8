import Mathlib.Data.List.Basic
import Mathlib.Logic.Function.Basic

/-!
# What is known of a memory

Things are kept in a memory, each of them in cells of its own, and the cells of different things may
overlap.  A program that stores to a thing knows what is there from then on, until something is
stored to cells that the thing shares with another one, or somebody else gets at the memory.

* `Contents` is what is known of each thing, and `Agrees` says of a memory that it is so.
* `put` is what is known after a store: the thing has its new content, or an unknown one, and
  nothing is known of what overlaps it.  `Agrees.put` is the rule for a store, and `agrees_read`
  that for looking at a memory that has come to rest.
-/

set_option autoImplicit false

/-- What is known of the things in a memory. -/
abbrev Contents (ι β : Type) := ι → Option (List β)

namespace Contents

variable {ι α β : Type}

/-- Nothing is known. -/
def nothing : Contents ι β := fun _ ↦ none

/-- Everything is known to be as it is in a memory. -/
def read (cells : ι → List α) (m : α → β) : Contents ι β := fun i ↦ some ((cells i).map m)

/-- What is known is so. -/
def Agrees (cells : ι → List α) (σ : Contents ι β) (m : α → β) : Prop :=
  ∀ i bytes, σ i = some bytes → (cells i).map m = bytes

/-- Two things have no cell in common. -/
def Apart (cells : ι → List α) (i j : ι) : Prop := ∀ a ∈ cells i, a ∉ cells j

instance decidableApart [DecidableEq α] (cells : ι → List α) (i j : ι) :
    Decidable (Apart cells i j) :=
  inferInstanceAs (Decidable (∀ a ∈ cells i, a ∉ cells j))

/-- After something has been stored to `i`. -/
def put [DecidableEq ι] [DecidableEq α] (cells : ι → List α) (σ : Contents ι β) (i : ι)
    (content : Option (List β)) : Contents ι β := fun j ↦
  if j = i then content else if Apart cells j i then σ j else none

variable {cells : ι → List α} {σ : Contents ι β} {m m' : α → β}

theorem agrees_nothing : Agrees cells nothing m := fun _ _ h ↦ by cases h

theorem agrees_read : Agrees cells (read cells m) m := fun _ _ h ↦ Option.some.inj h

/-- **The rule for a store**: it leaves the content there, and other cells alone. -/
theorem Agrees.put [DecidableEq ι] [DecidableEq α] (h : Agrees cells σ m) {i : ι}
    {content : Option (List β)} (hcontent : ∀ bytes, content = some bytes →
      (cells i).map m' = bytes) (hframe : ∀ a, a ∉ cells i → m' a = m a) :
    Agrees cells (Contents.put cells σ i content) m' := by
  intro j bytes hj
  rw [Contents.put] at hj
  split at hj
  · rename_i heq
    subst heq
    exact hcontent bytes hj
  · split at hj
    · rename_i hapart
      have hsame : ∀ a ∈ cells j, m' a = m a := fun a ha ↦ hframe a (hapart a ha)
      rw [List.map_congr_left hsame]
      exact h j bytes hj
    · cases hj

end Contents
