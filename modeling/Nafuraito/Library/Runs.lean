import Mathlib.Data.Finset.Card
import Mathlib.Data.Finset.Filter
import Mathlib.Order.Interval.Finset.Nat

/-! The longest run of a predicate below a bound, as one scan upwards finds it. -/
namespace Nafuraito.Library

/-- After the first `n` numbers: the longest run seen and the run still open. -/
def runScan (p : Nat → Bool) : Nat → Nat × Nat
  | 0 => (0, 0)
  | n+1 =>
    if p n then (max (runScan p n).1 ((runScan p n).2+1), (runScan p n).2+1)
    else ((runScan p n).1, 0)

/-- Every number from `first` on, `n` of them, is in `p`. -/
def IsRun (p : Nat → Bool) (first n : Nat) : Prop := ∀ i, first ≤ i → i < first+n → p i = true

namespace runScan
variable {p : Nat → Bool}

theorem open_le (n : Nat) : (runScan p n).2 ≤ n := by
  induction n with
  | zero => exact Nat.le_refl 0
  | succ n ih =>
    rw [runScan]
    split
    · exact Nat.succ_le_succ ih
    · exact Nat.zero_le _

theorem open_isRun (n : Nat) : IsRun p (n - (runScan p n).2) (runScan p n).2 := by
  induction n with
  | zero => intro i h₁ h₂; exact absurd h₂ (Nat.not_lt.mpr h₁)
  | succ n ih =>
    have hle := open_le (p := p) n
    rw [runScan]
    split
    · rename_i hp
      intro i h₁ h₂
      dsimp only at h₁ h₂
      rcases Nat.lt_succ_iff_lt_or_eq.mp (show i < n+1 by omega) with hlt | rfl
      · exact ih i (by omega) (by omega)
      · exact hp
    · intro i h₁ h₂
      exact absurd h₂ (Nat.not_lt.mpr h₁)

/-- A run that ends at the bound is still open. -/
theorem le_open {first n : Nat} (hrun : IsRun p first (n-first)) : n - first ≤ (runScan p n).2 := by
  induction n with
  | zero => exact Nat.le_of_eq (Nat.zero_sub first)
  | succ n ih =>
    rcases Nat.lt_or_ge n first with hlt | hge
    · omega
    · have hp : p n = true := hrun n hge (by omega)
      have hn := ih fun i h₁ h₂ => hrun i h₁ (by omega)
      rw [runScan, if_pos hp]
      dsimp only
      omega

theorem open_le_longest (n : Nat) : (runScan p n).2 ≤ (runScan p n).1 := by
  cases n with
  | zero => exact Nat.le_refl 0
  | succ n =>
    rw [runScan]
    split
    · exact Nat.le_max_right _ _
    · exact Nat.zero_le _

theorem longest_mono (n : Nat) : (runScan p n).1 ≤ (runScan p (n+1)).1 := by
  rw [runScan]
  split
  · exact Nat.le_max_left _ _
  · exact Nat.le_refl _

/-- No run below the bound is longer. -/
theorem le_longest {first m n : Nat} (hrun : IsRun p first m) (hle : first+m ≤ n) :
    m ≤ (runScan p n).1 := by
  induction n with
  | zero => omega
  | succ n ih =>
    rcases Nat.lt_or_ge n (first+m) with hlt | hge
    · have hend : n+1-first = m := by omega
      have hopen := le_open (n := n+1) (hend ▸ hrun)
      have := open_le_longest (p := p) (n+1)
      omega
    · exact Nat.le_trans (ih hge) (longest_mono n)

/-- Some run below the bound is as long. -/
theorem exists_longest (n : Nat) : ∃ first, first + (runScan p n).1 ≤ n ∧ IsRun p first (runScan p n).1 := by
  induction n with
  | zero => exact ⟨0, Nat.le_refl 0, fun i h₁ h₂ => absurd h₂ (Nat.not_lt.mpr h₁)⟩
  | succ n ih =>
    obtain ⟨first, hle, hrun⟩ := ih
    rcases Nat.lt_or_ge (runScan p n).1 (runScan p (n+1)).1 with hlt | hge
    · have hopen : (runScan p (n+1)).1 = (runScan p (n+1)).2 := by
        rw [runScan] at hlt ⊢
        split
        · rename_i hp
          rw [if_pos hp] at hlt
          exact Nat.max_eq_right (by omega)
        · rename_i hp
          rw [if_neg hp] at hlt
          exact absurd hlt (Nat.lt_irrefl _)
      have := open_le (p := p) (n+1)
      rw [hopen]
      exact ⟨n+1 - (runScan p (n+1)).2, by omega, open_isRun (n+1)⟩
    · have heq := Nat.le_antisymm hge (longest_mono n)
      exact ⟨first, by omega, heq ▸ hrun⟩

private theorem run_subset {first m n : Nat} (hrun : IsRun p first m) (hle : first+m ≤ n) :
    Finset.Ico first (first+m) ⊆ (Finset.range n).filter (fun i => p i = true) := by
  intro i hi
  obtain ⟨h₁, h₂⟩ := Finset.mem_Ico.mp hi
  exact Finset.mem_filter.mpr ⟨Finset.mem_range.mpr (by omega), hrun i h₁ h₂⟩

theorem longest_le_card (n : Nat) :
    (runScan p n).1 ≤ ((Finset.range n).filter (fun i => p i = true)).card := by
  obtain ⟨first, hle, hrun⟩ := exists_longest (p := p) n
  simpa using Finset.card_le_card (run_subset hrun hle)

/-- The longest run counts every number of `p` exactly when they are one run. -/
theorem longest_eq_card {n : Nat} :
    (runScan p n).1 = ((Finset.range n).filter (fun i => p i = true)).card ↔
      ∃ first last, ∀ i, (i < n ∧ p i = true) ↔ first ≤ i ∧ i < last := by
  constructor
  · intro heq
    obtain ⟨first, hle, hrun⟩ := exists_longest (p := p) n
    refine ⟨first, first + (runScan p n).1, fun i => ?_⟩
    have hset := Finset.eq_of_subset_of_card_le (run_subset hrun hle)
      (by simpa using Nat.le_of_eq heq.symm)
    rw [← Finset.mem_Ico, hset]
    simp
  · rintro ⟨first, last, hiff⟩
    apply Nat.le_antisymm (longest_le_card n)
    have hset : (Finset.range n).filter (fun i => p i = true) = Finset.Ico first last := by
      ext i
      simp [hiff i]
    rw [hset, Nat.card_Ico]
    rcases Nat.lt_or_ge first last with hlt | hge
    · have hlast := ((hiff (last-1)).mpr (by omega)).1
      have hrun : IsRun p first (last-first) := fun i h₁ h₂ => ((hiff i).mpr (by omega)).2
      exact le_longest hrun (by omega)
    · omega

end runScan
end Nafuraito.Library
