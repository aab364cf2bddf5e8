import Mathlib.Data.List.Basic

/-!
# Lists of terminated texts

A list of texts can be stored as one text, each of them followed by a terminator that occurs in none
of them.

* `Terminated.pieces` takes such a text apart, searching for one terminator after the other.
* `Terminated.pieces_flatMap` is the round trip.
-/

set_option autoImplicit false

namespace Terminated

variable {α : Type} [DecidableEq α]

/-- The pieces of a text that have a terminator behind them. -/
def pieces (t : α) (text : List α) : List (List α) :=
  if text.idxOf t < text.length then
    text.take (text.idxOf t) :: pieces t (text.drop (text.idxOf t + 1))
  else
    []
termination_by text.length
decreasing_by
  rw [List.length_drop]
  omega

theorem pieces_nil (t : α) : pieces t [] = [] := by
  rw [pieces]
  rfl

/-- The first piece ends at the first terminator. -/
theorem pieces_append_cons {t : α} {piece : List α} (h : t ∉ piece) (rest : List α) :
    pieces t (piece ++ t :: rest) = piece :: pieces t rest := by
  have hidx : (piece ++ t :: rest).idxOf t = piece.length := by
    rw [List.idxOf_append_of_notMem h, List.idxOf_cons_self, Nat.add_zero]
  have hlt : piece.length < (piece ++ t :: rest).length := by simp
  rw [pieces, hidx, if_pos hlt, List.take_left, ← List.drop_drop, List.drop_left]
  rfl

/-- What has been terminated piece by piece is taken apart again. -/
theorem pieces_flatMap {ι : Type} {t : α} {f : ι → List α} {l : List ι} (h : ∀ a ∈ l, t ∉ f a) :
    pieces t (l.flatMap fun a ↦ f a ++ [t]) = l.map f := by
  induction l with
  | nil => exact pieces_nil t
  | cons a l ih =>
    rw [List.flatMap_cons, List.append_assoc, List.singleton_append,
      pieces_append_cons (h a List.mem_cons_self), ih fun b hb ↦ h b (List.mem_cons_of_mem _ hb),
      List.map_cons]

end Terminated
