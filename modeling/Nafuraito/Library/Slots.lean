import Mathlib.Data.Fintype.Card
import Mathlib.Data.Set.Lattice
import Mathlib.Order.CompletePartialOrder
import Mathlib.Logic.Function.Basic
import Mathlib.Tactic.Common

/-! Tables of slots that hold items, each item covering a set of points, with no point covered
from two slots. -/
namespace Nafuraito.Library.Slots
variable {n : Nat} {ρ A : Type}

/-- The first slot that holds nothing. -/
def firstFree (t : Fin n → Option ρ) : Option (Fin n) := (List.finRange n).find? fun i => (t i).isNone

/-- A slot holds `r`, which covers the point. -/
def At (span : ρ → Set A) (t : Fin n → Option ρ) (a : A) (r : ρ) : Prop := ∃ i, t i = some r ∧ a ∈ span r

/-- The points covered from some slot. -/
def covered (span : ρ → Set A) (t : Fin n → Option ρ) : Set A := {a | ∃ r, At span t a r}

def Apart (span : ρ → Set A) (t : Fin n → Option ρ) : Prop :=
  ∀ i j r q, i ≠ j → t i = some r → t j = some q → Disjoint (span r) (span q)

variable {span : ρ → Set A} {t t' : Fin n → Option ρ} {i : Fin n} {r r' : ρ} {a : A}

theorem firstFree_eq_none (h : firstFree t = some i) : t i = none := by
  have := List.find?_some h
  simpa using this

theorem Apart.slot_unique (h : Apart span t) {j : Fin n} (hr : t i = some r) (hq : t j = some r')
    (ha : a ∈ span r) (ha' : a ∈ span r') : i = j := by
  by_contra hne
  exact Set.disjoint_left.mp (h i j r r' hne hr hq) ha ha'

/-- A point is covered by one item. -/
theorem Apart.unique (h : Apart span t) (hr : At span t a r) (hq : At span t a r') : r = r' := by
  obtain ⟨i, hi, ha⟩ := hr
  obtain ⟨j, hj, ha'⟩ := hq
  obtain rfl := h.slot_unique hi hj ha ha'
  exact Option.some.inj (hi.symm.trans hj)

/-! ### Writing one slot -/

theorem update_apart (h : Apart span t) {x : Option ρ}
    (hx : ∀ r, x = some r → ∀ j q, j ≠ i → t j = some q → Disjoint (span r) (span q)) :
    Apart span (Function.update t i x) := by
  intro j k r q hne hj hk
  rw [Function.update_apply] at hj hk
  split at hj <;> split at hk
  · rename_i h₁ h₂
    exact absurd (h₁.trans h₂.symm) hne
  · exact hx r hj k q ‹_› hk
  · exact (hx q hk j r ‹_› hj).symm
  · exact h j k r q hne hj hk

theorem Apart.clear (h : Apart span t) : Apart span (Function.update t i none) := update_apart h (by simp)

/-- An item may be replaced by one that covers less. -/
theorem Apart.shrink (h : Apart span t) (hi : t i = some r) (hs : span r' ⊆ span r) :
    Apart span (Function.update t i (some r')) := by
  refine update_apart h fun q hq j q' hj hq' => ?_
  obtain rfl := Option.some.inj hq
  exact (h i j r q' (Ne.symm hj) hi hq').mono_left hs

/-- A new item may cover points that are covered by none. -/
theorem Apart.insert (h : Apart span t) (hr : Disjoint (span r) (covered span t)) :
    Apart span (Function.update t i (some r)) := by
  refine update_apart h fun q hq j q' _ hq' => ?_
  obtain rfl := Option.some.inj hq
  have hcovered : span q' ⊆ covered span t := fun a ha => ⟨q', j, hq', ha⟩
  exact hr.mono_right hcovered

theorem at_update {x : Option ρ} : At span (Function.update t i x) a r ↔
    (x = some r ∧ a ∈ span r) ∨ ∃ j, j ≠ i ∧ t j = some r ∧ a ∈ span r := by
  constructor
  · rintro ⟨j, hj, ha⟩
    rw [Function.update_apply] at hj
    split at hj
    · exact .inl ⟨hj, ha⟩
    · exact .inr ⟨j, ‹_›, hj, ha⟩
  · rintro (⟨hx, ha⟩ | ⟨j, hne, hj, ha⟩)
    · exact ⟨i, by rw [Function.update_self, hx], ha⟩
    · exact ⟨j, by rw [Function.update_of_ne hne, hj], ha⟩

/-! ### Counting slots -/

/-- The slots that hold nothing. -/
def vacant (t : Fin n → Option ρ) : Finset (Fin n) := Finset.univ.filter fun i => (t i).isNone

theorem mem_vacant : i ∈ vacant t ↔ t i = none := by
  rw [vacant, Finset.mem_filter, Option.isNone_iff_eq_none]
  exact and_iff_right (Finset.mem_univ i)

theorem vacant_fill : vacant (Function.update t i (some r)) = (vacant t).erase i := by
  ext j
  rw [mem_vacant, Finset.mem_erase, mem_vacant, Function.update_apply]
  by_cases hj : j = i <;> simp [hj]

theorem vacant_clear : vacant (Function.update t i none) = insert i (vacant t) := by
  ext j
  rw [mem_vacant, Finset.mem_insert, mem_vacant, Function.update_apply]
  by_cases hj : j = i <;> simp [hj]

/-- There is a first free slot if there is a free one. -/
theorem firstFree_isSome_iff : (firstFree t).isSome ↔ 0 < (vacant t).card := by
  rw [firstFree, List.find?_isSome, Finset.card_pos]
  exact ⟨fun ⟨i, _, hi⟩ => ⟨i, mem_vacant.mpr (Option.isNone_iff_eq_none.mp hi)⟩,
    fun ⟨i, hi⟩ => ⟨i, List.mem_finRange i, Option.isNone_iff_eq_none.mpr (mem_vacant.mp hi)⟩⟩

/-- How many of the first `k` slots satisfy `p`. -/
def countBefore (p : Fin n → Bool) (k : Nat) : Nat := (Finset.univ.filter fun j : Fin n => j.val < k ∧ p j).card

theorem countBefore_zero (p : Fin n → Bool) : countBefore p 0 = 0 := by simp [countBefore]

theorem countBefore_succ (p : Fin n → Bool) (i : Fin n) :
    countBefore p (i.val+1) = countBefore p i.val + (p i).toNat := by
  have hstep (j : Fin n) : j.val < i.val+1 ∧ p j ↔ j.val < i.val ∧ p j ∨ j = i ∧ p i := by
    by_cases hj : j = i
    · simp [hj]
    · have : j.val ≠ i.val := fun h => hj (Fin.ext h)
      simp only [hj, false_and, or_false]
      exact and_congr_left' (by omega)
  cases hp : p i with
  | false =>
    have hsame : (Finset.univ.filter fun j : Fin n => j.val < i.val+1 ∧ p j) =
        Finset.univ.filter fun j : Fin n => j.val < i.val ∧ p j := by
      refine Finset.filter_congr fun j _ => (hstep j).trans (or_iff_left fun h => ?_)
      cases hp.symm.trans h.2
    rw [countBefore, hsame, Bool.toNat_false, Nat.add_zero, countBefore]
  | true =>
    have hnew : i ∉ Finset.univ.filter fun j : Fin n => j.val < i.val ∧ p j :=
      fun hm => lt_irrefl _ (Finset.mem_filter.mp hm).2.1
    rw [countBefore, countBefore, Bool.toNat_true, ← Finset.card_insert_of_notMem hnew]
    congr 1
    ext j
    rw [Finset.mem_filter, Finset.mem_insert, Finset.mem_filter, hstep, and_iff_left hp]
    have := Finset.mem_univ j
    tauto

end Nafuraito.Library.Slots
