import Mathlib.Data.Set.Card
import Mathlib.Tactic.Common

/-! Reference-counted sharing: owners point at resources, and an owner may write the resource it
points at only where it is the only one. -/
namespace Nafuraito.Library

/-- Who points where, who may write, and how often each resource is counted. -/
structure Sharing (κ F : Type) where
  target : κ → Option F
  writable : κ → Prop
  count : F → Nat

namespace Sharing
variable {κ F : Type} (x y : Sharing κ F)

def owners (f : F) : Set κ := {k | x.target k = some f}

/-- The resource has no more owners than it is counted, or one, and one that may write it owns
it alone. -/
structure Private (f : F) : Prop where
  counted : (x.owners f).ncard ≤ max 1 (x.count f)
  alone : ∀ k ∈ x.owners f, x.writable k → ∀ j ∈ x.owners f, j = k

variable {x y} {f g n : F} {k k' : κ}

theorem mem_owners : k ∈ x.owners f ↔ x.target k = some f := Iff.rfl

variable [Finite κ]

/-- A resource with one owner is private, whatever its count. -/
theorem Private.of_once (h : (x.owners f).ncard ≤ 1) : x.Private f :=
  ⟨h.trans (Nat.le_max_left _ _), fun k hk _ j hj => (Set.ncard_le_one (Set.toFinite _)).mp h j hj k hk⟩

/-- A resource that keeps its count, loses owners at most, and gains no writer. -/
theorem Private.mono (h : x.Private f) (ht : ∀ j ∈ y.owners f, j ∈ x.owners f)
    (hw : ∀ j ∈ y.owners f, y.writable j → x.writable j) (hc : x.count f ≤ y.count f) : y.Private f where
  counted := (Set.ncard_le_ncard ht (Set.toFinite _)).trans (h.counted.trans (max_le_max_left 1 hc))
  alone k hk hwk j hj := h.alone k (ht k hk) (hw k hk hwk) j (ht j hj)

/-- `k` shares its resource with `k'`: neither may write it, and it is counted once more. -/
theorem Private.share (h : x.Private f) (hk : x.target k = some g) (hcount : 1 ≤ x.count g)
    (hk' : y.target k' = some g) (ht : ∀ j ≠ k', y.target j = x.target j)
    (hw : ∀ j, y.writable j → j ≠ k ∧ j ≠ k' ∧ x.writable j)
    (hcg : y.count g = x.count g + 1) (hc : ∀ e ≠ g, y.count e = x.count e) : y.Private f := by
  by_cases hf : f = g
  · subst hf
    have hsub : y.owners f ⊆ insert k' (x.owners f) := by
      intro j hj
      by_cases hjk : j = k'
      · exact .inl hjk
      · exact .inr (by rwa [mem_owners, ← ht j hjk])
    refine ⟨?_, fun j hj hwj => ?_⟩
    · have h₁ := Set.ncard_le_ncard hsub (Set.toFinite _)
      have h₂ := Set.ncard_insert_le k' (x.owners f)
      have h₃ := h.counted
      omega
    -- a writer of it would have been its only owner, and so `k`
    · obtain ⟨hjk, hjk', hxj⟩ := hw j hwj
      rw [mem_owners, ht j hjk'] at hj
      exact absurd (h.alone j hj hxj k hk).symm hjk
  · refine h.mono (fun j hj => ?_) (fun j _ hwj => (hw j hwj).2.2) (hc f hf).ge
    by_cases hjk : j = k'
    · rw [mem_owners, hjk, hk'] at hj
      exact absurd (Option.some.inj hj).symm hf
    · rwa [mem_owners, ← ht j hjk]

/-- A resource counted at most once has one owner, who may take it for its own. -/
theorem Private.own (h : x.Private f) (hk : x.target k = some g) (hcount : x.count g ≤ 1)
    (ht : ∀ j, y.target j = x.target j) (hw : ∀ j, y.writable j → j = k ∨ x.writable j)
    (hc : ∀ e ≠ g, y.count e = x.count e) : y.Private f := by
  have hsame : y.owners f = x.owners f := by
    ext j
    rw [mem_owners, mem_owners, ht]
  by_cases hf : f = g
  · subst hf
    refine .of_once ?_
    rw [hsame]
    exact h.counted.trans (max_le (Nat.le_refl 1) hcount)
  · refine ⟨?_, fun j hj hwj => ?_⟩
    · rw [hsame, hc f hf]
      exact h.counted
    · rw [hsame] at hj ⊢
      rcases hw j hwj with rfl | hxj
      · rw [mem_owners, hk] at hj
        exact absurd (Option.some.inj hj).symm hf
      · exact h.alone j hj hxj

/-- `k` moves from a shared resource to one that nobody owns. -/
theorem Private.copy (h : x.Private f) (hk : x.target k = some g) (hcount : 2 ≤ x.count g)
    (hn : ∀ j, x.target j ≠ some n) (hkn : y.target k = some n) (ht : ∀ j ≠ k, y.target j = x.target j)
    (hw : ∀ j, y.writable j → j = k ∨ x.writable j) (hcg : x.count g ≤ y.count g + 1)
    (hc : ∀ e, e ≠ g → e ≠ n → y.count e = x.count e) : y.Private f := by
  by_cases hfn : f = n
  · subst hfn
    have hone : y.owners f ⊆ {k} := by
      intro j hj
      by_contra hjk
      rw [mem_owners, ht j hjk] at hj
      exact hn j hj
    exact .of_once ((Set.ncard_le_ncard hone (Set.toFinite _)).trans (Set.ncard_singleton k).le)
  have hsub : y.owners f ⊆ x.owners f \ {k} := by
    intro j hj
    have hjk : j ≠ k := by
      rintro rfl
      rw [mem_owners, hkn] at hj
      exact hfn (Option.some.inj hj).symm
    exact ⟨by rwa [mem_owners, ← ht j hjk], hjk⟩
  have halone (j : κ) (hj : j ∈ y.owners f) (hwj : y.writable j) : ∀ i ∈ y.owners f, i = j := by
    rcases hw j hwj with rfl | hxj
    · exact absurd rfl (hsub hj).2
    · exact fun i hi => h.alone j (hsub hj).1 hxj i (hsub hi).1
  refine ⟨?_, halone⟩
  have h₁ := Set.ncard_le_ncard hsub (Set.toFinite _)
  by_cases hf : f = g
  · subst hf
    have h₂ := Set.ncard_sdiff_singleton_add_one (show k ∈ x.owners f from hk) (Set.toFinite _)
    have h₃ := h.counted
    omega
  · rw [hc f hf hfn]
    exact (h₁.trans (Set.ncard_le_ncard Set.sdiff_subset (Set.toFinite _))).trans h.counted

end Sharing
end Nafuraito.Library
