import Nafuraito.Library.Fallible

/-! Computations watched step by step: beside the state they carry what an observer has seen on the
way, the newest first. -/
namespace Nafuraito.Library.Fallible
variable {σ ω ε α β : Type}

/-- One step; `see` is what the observer may see between the states before and after it. -/
def observed (x : Fallible σ ε α) (see : σ → σ → List ω) : Fallible (σ × List ω) ε α := fun s =>
  ((x s.1).1, ((x s.1).2, see s.1 (x s.1).2 ++ s.2))

/-- Without the observer, `y` is `x`. -/
def Observes (y : Fallible (σ × List ω) ε α) (x : Fallible σ ε α) : Prop := ∀ s, ((y s).1, (y s).2.1) = x s.1

section Observes
variable {x : Fallible σ ε α} {y : Fallible (σ × List ω) ε α}

theorem Observes.observed (x : Fallible σ ε α) (see : σ → σ → List ω) : Observes (x.observed see) x := fun _ => rfl

theorem Observes.pure (a : α) : Observes (pure a : Fallible (σ × List ω) ε α) (pure a) := fun _ => rfl

theorem Observes.bind (hx : Observes y x) {f : α → Fallible σ ε β} {g : α → Fallible (σ × List ω) ε β}
    (hf : ∀ a, Observes (g a) (f a)) : Observes (y >>= g) (x >>= f) := by
  intro s
  rw [bind_run, bind_run, ← hx s]
  rcases y s with ⟨e | a, t⟩
  · rfl
  · exact hf a t

theorem Observes.ite {c : Prop} [Decidable c] {x' : Fallible σ ε α} {y' : Fallible (σ × List ω) ε α}
    (h : Observes y x) (h' : Observes y' x') : Observes (if c then y else y') (if c then x else x') := by
  by_cases hc : c
  · rwa [if_pos hc, if_pos hc]
  · rwa [if_neg hc, if_neg hc]

theorem Observes.result (h : Observes y x) (s : σ × List ω) : (y s).1 = (x s.1).1 := congrArg Prod.fst (h s)

theorem Observes.state (h : Observes y x) (s : σ × List ω) : (y s).2.1 = (x s.1).2 := congrArg Prod.snd (h s)

end Observes

/-- From `s` the observer sees only what has `P`, and the state that is reached has `Q`. -/
structure Sees (P : ω → Prop) (Q : σ → Prop) (y : Fallible (σ × List ω) ε α) (s : σ × List ω) : Prop where
  state : Q (y s).2.1
  seen : ∃ new, (y s).2.2 = new ++ s.2 ∧ ∀ x ∈ new, P x

section Sees
variable {P : ω → Prop} {Q : σ → Prop} {y : Fallible (σ × List ω) ε α} {s : σ × List ω}

theorem Sees.observed {x : Fallible σ ε α} {see : σ → σ → List ω} (hs : Q (x s.1).2)
    (hsee : ∀ m ∈ see s.1 (x s.1).2, P m) : Sees P Q (x.observed see) s := ⟨hs, _, rfl, hsee⟩

theorem Sees.pure (hs : Q s.1) (a : α) : Sees P Q (pure a : Fallible (σ × List ω) ε α) s := ⟨hs, [], rfl, by simp⟩

theorem Sees.bind (hy : Sees P Q y s) {g : α → Fallible (σ × List ω) ε β}
    (hg : ∀ a t, y s = (.ok a, t) → Q t.1 → Sees P Q (g a) t) : Sees P Q (y >>= g) s := by
  obtain ⟨hstate, new, hnew, hP⟩ := hy
  rcases hr : y s with ⟨e | a, t⟩
  · rw [hr] at hstate hnew
    have hrun := bind_of_error (f := g) hr
    exact ⟨by rwa [hrun], new, by rwa [hrun], hP⟩
  · rw [hr] at hstate hnew
    have hrun := bind_of_ok (f := g) hr
    obtain ⟨hstate', new', hnew', hP'⟩ := hg a t hr hstate
    refine ⟨by rwa [hrun], new' ++ new, ?_, fun x hx => (List.mem_append.mp hx).elim (hP' x) (hP x)⟩
    rw [hrun, hnew', List.append_assoc]
    exact congrArg _ hnew

end Sees

end Nafuraito.Library.Fallible
