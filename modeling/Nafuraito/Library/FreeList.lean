import Mathlib.Algebra.Group.Nat.Defs
import Mathlib.Data.List.Perm.Subperm
import Mathlib.Data.List.Range
import Mathlib.Tactic.Common

/-! A list threaded through its members: each index leads to the next, a stop mark ends it. -/
namespace Nafuraito.Library

/-- From `start` the links lead through the indices of the list to the stop mark. -/
def FreeChain (next : Nat → Nat) (stop : Nat) : Nat → List Nat → Prop
  | start, [] => start = stop
  | start, i :: rest => start = i ∧ i ≠ stop ∧ FreeChain next stop (next i) rest

/-- An index the links lead to from `start`. -/
inductive Linked (next : Nat → Nat) (stop : Nat) : Nat → Nat → Prop where
  | here {start : Nat} : start ≠ stop → Linked next stop start start
  | there {start i : Nat} : start ≠ stop → Linked next stop (next start) i → Linked next stop start i

namespace FreeChain
variable {next next' : Nat → Nat} {stop start : Nat} {l : List Nat}

/-- The links of the members are all a chain reads. -/
theorem congr (h : FreeChain next stop start l) (hsame : ∀ i ∈ l, next' i = next i) :
    FreeChain next' stop start l := by
  induction l generalizing start with
  | nil => exact h
  | cons i rest ih =>
    obtain ⟨hi, hne, hrest⟩ := h
    refine ⟨hi, hne, ?_⟩
    rw [hsame i List.mem_cons_self]
    exact ih hrest fun j hj => hsame j (List.mem_cons_of_mem i hj)

theorem linked_iff (h : FreeChain next stop start l) {i : Nat} : Linked next stop start i ↔ i ∈ l := by
  constructor
  · intro hl
    induction hl generalizing l with
    | here hne =>
      cases l with
      | nil => exact absurd h hne
      | cons j rest => exact List.mem_cons.mpr (.inl h.1)
    | there hne _ ih =>
      cases l with
      | nil => exact absurd h hne
      | cons j rest =>
        obtain ⟨rfl, _, hrest⟩ := h
        exact List.mem_cons_of_mem _ (ih hrest)
  · intro hi
    induction l generalizing start with
    | nil => cases hi
    | cons j rest ih =>
      obtain ⟨rfl, hne, hrest⟩ := h
      rcases List.mem_cons.mp hi with rfl | hi
      · exact .here hne
      · exact .there hne (ih hrest hi)

/-- Putting an index in front: its link leads to the old start. -/
theorem push (h : FreeChain next stop start l) {i : Nat} (hi : i ≠ stop) (hnew : next' i = start)
    (hsame : ∀ j ∈ l, next' j = next j) : FreeChain next' stop i (i :: l) :=
  ⟨rfl, hi, by rw [hnew]; exact h.congr hsame⟩

/-- The links written in order over `n` cells, the last with the stop mark. -/
theorem range (next : Nat → Nat) {n : Nat} (hstop : n ≤ stop)
    (hnext : ∀ i < n, next i = if i+1 < n then i+1 else stop) {k m : Nat}
    (hk : k + m = n) : FreeChain next stop (if k < n then k else stop) (List.range' k m) := by
  induction m generalizing k with
  | zero =>
    rw [if_neg (by omega)]
    rfl
  | succ m ih =>
    rw [if_pos (by omega), List.range'_succ]
    refine ⟨rfl, by omega, ?_⟩
    rw [hnext k (by omega)]
    exact ih (by omega)

end FreeChain

/-- A list of different numbers below `n` that misses one is shorter than `n`. -/
theorem length_lt_of_missing {l : List Nat} {n i : Nat} (hl : l.Nodup) (hlt : ∀ j ∈ l, j < n) (hi : i < n)
    (hmiss : i ∉ l) : l.length < n := by
  have hsub : (i :: l) ⊆ List.range n := by
    intro j hj
    rcases List.mem_cons.mp hj with rfl | hj
    · exact List.mem_range.mpr hi
    · exact List.mem_range.mpr (hlt j hj)
  have := ((List.nodup_cons.mpr ⟨hmiss, hl⟩).subperm hsub).length_le
  rwa [List.length_cons, List.length_range] at this

end Nafuraito.Library
