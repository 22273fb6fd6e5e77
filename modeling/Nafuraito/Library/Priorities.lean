import Mathlib.Data.List.FinRange
import Mathlib.Logic.Function.Basic
import Mathlib.Tactic.Common

/-! What is due at a number of levels, the first level first. -/
namespace Nafuraito.Library
variable {α : Type*} {n : Nat} {due due' : Fin n → List α} {i : Fin n}

/-- Everything that is due, level by level. -/
def inOrder (due : Fin n → List α) : List α := (List.finRange n).flatMap due

theorem inOrder_eq_nil : inOrder due = [] ↔ ∀ i, due i = [] := by simp [inOrder]

/-- The levels before the first that has something due add nothing. -/
theorem inOrder_first (hbefore : ∀ j < i, due j = []) :
    inOrder due = due i ++ ((List.finRange n).drop (i.val+1)).flatMap due := by
  have hsplit : List.finRange n = (List.finRange n).take i.val ++ i :: (List.finRange n).drop (i.val+1) := by
    have hi : i.val < (List.finRange n).length := by simp
    have hdrop : (List.finRange n).drop i.val = i :: (List.finRange n).drop (i.val+1) := by
      rw [List.drop_eq_getElem_cons hi, List.getElem_finRange]
      rfl
    rw [← hdrop, List.take_append_drop]
  have hnone : ((List.finRange n).take i.val).flatMap due = [] := by
    rw [List.flatMap_eq_nil_iff]
    intro j hj
    obtain ⟨k, hk, rfl⟩ := List.mem_take_iff_getElem.mp hj
    exact hbefore _ (by simp [Fin.lt_def]; omega)
  rw [inOrder, hsplit, List.flatMap_append, List.flatMap_cons, hnone, List.nil_append, ← hsplit]

/-- Taking the first thing due leaves the others in their order. -/
theorem inOrder_take {a : α} (rest : List α) (hbefore : ∀ j < i, due j = []) (hi : due i = a :: rest)
    (hi' : due' i = rest) (hother : ∀ j ≠ i, due' j = due j) : inOrder due = a :: inOrder due' := by
  have hafter : ((List.finRange n).drop (i.val+1)).flatMap due' = ((List.finRange n).drop (i.val+1)).flatMap due := by
    refine List.flatMap_congr fun j hj => hother j ?_
    obtain ⟨k, hk, rfl⟩ := List.mem_drop_iff_getElem.mp hj
    simp [Fin.ext_iff]
    omega
  have hbefore' : ∀ j < i, due' j = [] := fun j hj => (hother j (Fin.ne_of_lt hj)).trans (hbefore j hj)
  rw [inOrder_first hbefore, inOrder_first hbefore', hi, hi', hafter, List.cons_append]

end Nafuraito.Library
