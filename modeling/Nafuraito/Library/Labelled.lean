import Mathlib.Data.List.Basic
import Mathlib.Tactic.Common

/-! Runs of a step function with labels: invariants, and what the labels of a run say of its last state. -/
namespace Nafuraito.Library
variable {σ Λ : Type*} {step : σ → Λ → Option σ} {s t : σ} {ls : List Λ}

theorem run_cons {l : Λ} : (l :: ls).foldlM step s = some t ↔ ∃ u, step s l = some u ∧ ls.foldlM step u = some t := by
  rw [List.foldlM_cons]
  exact Option.bind_eq_some_iff

theorem run_invariant {inv : σ → Prop} (hstep : ∀ s l t, inv s → step s l = some t → inv t)
    (hrun : ls.foldlM step s = some t) (h : inv s) : inv t := by
  induction ls generalizing s with
  | nil => exact Option.some.inj hrun ▸ h
  | cons l ls ih =>
    obtain ⟨u, hfirst, hrest⟩ := run_cons.mp hrun
    exact ih hrest (hstep s l u h hfirst)

/-- A level that every gain raises and every loss lowers by one, and nothing else changes, counts gains and losses. -/
theorem run_tally (inv : σ → Prop) (level : σ → Nat) (gain loss : Λ → Bool)
    (hinv : ∀ s l t, inv s → step s l = some t → inv t)
    (hstep : ∀ s l t, inv s → step s l = some t → level s + (gain l).toNat = level t + (loss l).toNat)
    (hrun : ls.foldlM step s = some t) (h : inv s) : level s + ls.countP gain = level t + ls.countP loss := by
  induction ls generalizing s with
  | nil => exact Option.some.inj hrun ▸ rfl
  | cons l ls ih =>
    obtain ⟨u, hfirst, hrest⟩ := run_cons.mp hrun
    have hu := ih hrest (hinv s l u h hfirst)
    have hl := hstep s l u h hfirst
    have hcount (p : Λ → Bool) : (l :: ls).countP p = ls.countP p + (p l).toNat := by
      rw [List.countP_cons]
      cases p l <;> rfl
    rw [hcount, hcount]
    omega

/-- What the labels fold to is what each step says of its label. -/
theorem run_fold {α : Type*} (inv : σ → Prop) (see : σ → α) (act : α → Λ → α)
    (hinv : ∀ s l t, inv s → step s l = some t → inv t)
    (hstep : ∀ s l t, inv s → step s l = some t → see t = act (see s) l) (hrun : ls.foldlM step s = some t)
    (h : inv s) : see t = ls.foldl act (see s) := by
  induction ls generalizing s with
  | nil => exact Option.some.inj hrun ▸ rfl
  | cons l ls ih =>
    obtain ⟨u, hfirst, hrest⟩ := run_cons.mp hrun
    rw [List.foldl_cons, ← hstep s l u h hfirst]
    exact ih hrest (hinv s l u h hfirst)

end Nafuraito.Library
