import Mathlib.Logic.Basic
import Mathlib.Tactic.Common

/-! Programs that access a device: what holds after every single access, and in between calls. -/
namespace Nafuraito.Library

/-- An access has an answer, and the program goes on with it. -/
inductive Accesses (A : Type) (R : A → Type) (α : Type) where
  | done (a : α)
  | access (a : A) (next : R a → Accesses A R α)

namespace Accesses
variable {A : Type} {R : A → Type} {α β σ : Type}

def bind : Accesses A R α → (α → Accesses A R β) → Accesses A R β
  | done a, f => f a
  | access a next, f => access a fun r => (next r).bind f

instance : Monad (Accesses A R) where
  pure := done
  bind := bind

theorem forM_cons {ι : Type} (f : ι → Accesses A R PUnit) (x : ι) (xs : List ι) :
    (x :: xs).forM f = f x >>= fun _ => xs.forM f := rfl

/-- A single access. -/
def perform (a : A) : Accesses A R (R a) := access a done

section Run
variable (step : (a : A) → σ → R a × σ)

def run : Accesses A R α → σ → α × σ
  | done a, s => (a, s)
  | access a next, s => run (next (step a s).1) (step a s).2

/-- The states after each access, in their order. -/
def moments : Accesses A R α → σ → List σ
  | done _, _ => []
  | access a next, s => (step a s).2 :: moments (next (step a s).1) (step a s).2

/-- `P` holds after every access, and `Q` of the result and the last state. -/
def Always (P : σ → Prop) (Q : α → σ → Prop) : Accesses A R α → σ → Prop
  | done a, s => Q a s
  | access a next, s => P (step a s).2 ∧ Always P Q (next (step a s).1) (step a s).2

variable {step} {P : σ → Prop} {Q : α → σ → Prop} {Q' : β → σ → Prop} {p : Accesses A R α} {s : σ}

@[simp] theorem run_pure (a : α) : (pure a : Accesses A R α).run step s = (a, s) := rfl

@[simp] theorem run_perform (a : A) : (perform a : Accesses A R (R a)).run step s = step a s := rfl

@[simp] theorem run_bind (p : Accesses A R α) (f : α → Accesses A R β) (s : σ) :
    (p >>= f).run step s = (f (p.run step s).1).run step (p.run step s).2 := by
  induction p generalizing s with
  | done a => rfl
  | access a next ih => exact ih _ _

@[simp] theorem moments_pure (a : α) : (pure a : Accesses A R α).moments step s = [] := rfl

theorem moments_bind (p : Accesses A R α) (f : α → Accesses A R β) (s : σ) :
    (p >>= f).moments step s = p.moments step s ++ (f (p.run step s).1).moments step (p.run step s).2 := by
  induction p generalizing s with
  | done a => rfl
  | access a next ih => exact congrArg _ (ih _ _)

@[simp] theorem moments_perform_bind (a : A) (f : R a → Accesses A R β) :
    (perform a >>= f).moments step s = (step a s).2 :: (f (step a s).1).moments step (step a s).2 := rfl

@[simp] theorem always_pure (a : α) : Always step P Q (pure a) s ↔ Q a s := Iff.rfl

@[simp] theorem always_perform (a : A) {Q : R a → σ → Prop} :
    Always step P Q (perform a) s ↔ P (step a s).2 ∧ Q (step a s).1 (step a s).2 := Iff.rfl

@[simp] theorem always_bind (p : Accesses A R α) (f : α → Accesses A R β) :
    Always step P Q' (p >>= f) s ↔ Always step P (fun a t => Always step P Q' (f a) t) p s := by
  induction p generalizing s with
  | done a => rfl
  | access a next ih => exact and_congr_right fun _ => ih _

/-- A run ends at a moment of it, or where it started. -/
theorem run_or_moment (p : Accesses A R α) (s : σ) : (p.run step s).2 = s ∨ (p.run step s).2 ∈ p.moments step s := by
  induction p generalizing s with
  | done a => exact .inl rfl
  | access a next ih =>
    rcases ih (step a s).1 (step a s).2 with hsame | hmoment
    · exact .inr (hsame ▸ List.mem_cons_self)
    · exact .inr (List.mem_cons_of_mem _ hmoment)

/-- What holds always holds at every moment, and conversely. -/
theorem always_iff : Always step P Q p s ↔ (∀ t ∈ p.moments step s, P t) ∧ Q (p.run step s).1 (p.run step s).2 := by
  induction p generalizing s with
  | done a => simp [Always, moments, run]
  | access a next ih => simp [Always, moments, run, ih, and_assoc]

/-- The second program starts from the state the first one reaches. -/
theorem Always.bind {f : α → Accesses A R β} (hp : Always step P Q p s)
    (hf : Q (p.run step s).1 (p.run step s).2 → Always step P Q' (f (p.run step s).1) (p.run step s).2) :
    Always step P Q' (p >>= f) s := by
  induction p generalizing s with
  | done a => exact hf hp
  | access a next ih => exact ⟨hp.1, ih _ hp.2 hf⟩

theorem Always.mono {P' : σ → Prop} {Q' : α → σ → Prop} (h : Always step P Q p s) (hP : ∀ t, P t → P' t)
    (hQ : ∀ a t, Q a t → Q' a t) : Always step P' Q' p s := by
  rw [always_iff] at h ⊢
  exact ⟨fun t ht => hP t (h.1 t ht), hQ _ _ h.2⟩

/-- A loop that every round keeps going. -/
theorem always_forM {ι : Type} {I : σ → Prop} {f : ι → Accesses A R PUnit} (xs : List ι)
    (hround : ∀ x ∈ xs, ∀ t, I t → Always step P (fun _ => I) (f x) t) (hs : I s) :
    Always step P (fun _ => I) (xs.forM f) s := by
  induction xs generalizing s with
  | nil => exact hs
  | cons x xs ih =>
    rw [forM_cons, always_bind]
    exact (hround x List.mem_cons_self s hs).mono (fun _ h => h)
      fun _ t ht => ih (fun y hy => hround y (List.mem_cons_of_mem x hy)) ht

end Run
end Accesses
end Nafuraito.Library
