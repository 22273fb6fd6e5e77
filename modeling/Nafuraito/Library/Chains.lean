import Mathlib.Data.Fintype.Pigeonhole
import Mathlib.Logic.Relation

/-! Chains of a relation: how far one can follow it, and when without end. -/
namespace Nafuraito.Library
variable {α : Type*} {R : α → α → Prop}

/-- From `a` on one can follow `R` for `n` steps. -/
def Chain (R : α → α → Prop) : Nat → α → Prop
  | 0, _ => True
  | n+1, a => ∃ b, R a b ∧ Chain R n b

/-- `a` comes to an element that comes back to itself. -/
def ReachesCycle (R : α → α → Prop) (a : α) : Prop :=
  ∃ b, Relation.ReflTransGen R a b ∧ Relation.TransGen R b b

theorem ReachesCycle.step {a : α} (h : ReachesCycle R a) : ∃ b, R a b ∧ ReachesCycle R b := by
  obtain ⟨c, hac, hcycle⟩ := h
  rcases Relation.ReflTransGen.cases_head hac with rfl | ⟨b, hab, hbc⟩
  · obtain ⟨b, hab, hba⟩ := Relation.TransGen.head'_iff.mp hcycle
    exact ⟨b, hab, a, hba, hcycle⟩
  · exact ⟨b, hab, c, hbc, hcycle⟩

/-- A cycle can be followed for ever. -/
theorem ReachesCycle.chain {a : α} (h : ReachesCycle R a) (n : Nat) : Chain R n a := by
  induction n generalizing a with
  | zero => trivial
  | succ n ih =>
    obtain ⟨b, hab, hb⟩ := h.step
    exact ⟨b, hab, ih hb⟩

/-- A chain as the sequence of its elements. -/
theorem Chain.exists_path {n : Nat} {a : α} (h : Chain R n a) :
    ∃ f : Nat → α, f 0 = a ∧ ∀ i < n, R (f i) (f (i+1)) := by
  induction n generalizing a with
  | zero => exact ⟨fun _ => a, rfl, fun i hi => absurd hi (Nat.not_lt_zero i)⟩
  | succ n ih =>
    obtain ⟨b, hab, hb⟩ := h
    obtain ⟨f, hf, hsteps⟩ := ih hb
    refine ⟨fun i => Nat.casesOn i a f, rfl, fun i hi => ?_⟩
    cases i with
    | zero =>
      change R a (f 0)
      rwa [hf]
    | succ i => exact hsteps i (by omega)

private theorem path_reaches {f : Nat → α} {n : Nat} (hsteps : ∀ i < n, R (f i) (f (i+1))) {i j : Nat}
    (hij : i ≤ j) (hj : j ≤ n) : Relation.ReflTransGen R (f i) (f j) := by
  induction j, hij using Nat.le_induction with
  | base => exact .refl
  | succ j _ ih => exact (ih (by omega)).tail (hsteps j (by omega))

/-- A chain of as many steps as there are elements comes to one of them twice. -/
theorem Chain.reachesCycle {n : Nat} {e : α → Fin n} (he : Function.Injective e) {a : α} (h : Chain R n a) :
    ReachesCycle R a := by
  obtain ⟨f, hf, hsteps⟩ := h.exists_path
  have hcard : Fintype.card (Fin n) < Fintype.card (Fin (n+1)) := by simp
  obtain ⟨i, j, hne, heq⟩ := Fintype.exists_ne_map_eq_of_card_lt (fun i : Fin (n+1) => e (f i)) hcard
  have hcycle : ∀ i j : Nat, i < j → j ≤ n → f i = f j → ReachesCycle R a := by
    intro i j hij hj heq
    refine ⟨f i, hf ▸ path_reaches hsteps (Nat.zero_le i) (by omega), ?_⟩
    have hback := path_reaches hsteps hij hj
    rw [← heq] at hback
    exact Relation.TransGen.head' (hsteps i (by omega)) hback
  rcases Nat.lt_or_gt_of_ne (fun h => hne (Fin.ext h)) with hlt | hgt
  · exact hcycle i j hlt (Nat.lt_succ_iff.mp j.isLt) (he heq)
  · exact hcycle j i hgt (Nat.lt_succ_iff.mp i.isLt) (he heq).symm

/-- Over finitely many elements a chain of that length is as good as an endless one. -/
theorem reachesCycle_iff_chain {n : Nat} {e : α → Fin n} (he : Function.Injective e) {a : α} :
    ReachesCycle R a ↔ Chain R n a :=
  ⟨fun h => h.chain n, Chain.reachesCycle he⟩

/-! ### Trees -/

/-- Every element has at most one predecessor, and the root has none. -/
structure Rooted (R : α → α → Prop) (root : α) : Prop where
  unique : ∀ a b c, R a c → R b c → a = b
  root : ∀ a, ¬ R a root

namespace Rooted
variable {root a b c x : α} (h : Rooted R root)
include h

theorem not_cycle (ha : Relation.ReflTransGen R root a) : ¬ Relation.TransGen R a a := by
  induction ha with
  | refl =>
    intro hcycle
    obtain ⟨b, -, hb⟩ := Relation.TransGen.tail'_iff.mp hcycle
    exact h.root b hb
  | tail _ hstep ih =>
    intro hcycle
    obtain ⟨q, hback, hlast⟩ := Relation.TransGen.tail'_iff.mp hcycle
    obtain rfl := h.unique _ _ _ hstep hlast
    exact ih (.head' hstep hback)

theorem not_reachesCycle (ha : Relation.ReflTransGen R root a) : ¬ ReachesCycle R a := by
  rintro ⟨b, hab, hcycle⟩
  exact h.not_cycle (ha.trans hab) hcycle

/-- Of two elements that come to a third one comes to the other. -/
theorem comparable (ha : Relation.ReflTransGen R a x) (hb : Relation.ReflTransGen R b x) :
    Relation.ReflTransGen R a b ∨ Relation.ReflTransGen R b a := by
  have hunique : Relator.RightUnique (Function.swap R) := fun _ _ _ h₁ h₂ => h.unique _ _ _ h₁ h₂
  rcases Relation.ReflTransGen.total_of_right_unique hunique (Relation.reflTransGen_swap.mpr ha)
    (Relation.reflTransGen_swap.mpr hb) with hab | hba
  · exact .inr (Relation.reflTransGen_swap.mp hab)
  · exact .inl (Relation.reflTransGen_swap.mp hba)

/-- What two children of an element come to is apart. -/
theorem children_apart (ha : Relation.ReflTransGen R root a) (hb : R a b) (hc : R a c) (hne : b ≠ c)
    (hbx : Relation.ReflTransGen R b x) : ¬ Relation.ReflTransGen R c x := by
  intro hcx
  have hloop : ∀ {d e}, R a d → R a e → d ≠ e → ¬ Relation.ReflTransGen R d e := by
    intro d e hd he hne hde
    rcases Relation.ReflTransGen.cases_tail hde with rfl | ⟨q, hdq, hq⟩
    · exact hne rfl
    · obtain rfl := h.unique _ _ _ he hq
      exact h.not_cycle ha (.head' hd hdq)
  rcases h.comparable hbx hcx with hbc | hcb
  · exact hloop hb hc hne hbc
  · exact hloop hc hb hne.symm hcb

end Rooted

end Nafuraito.Library
