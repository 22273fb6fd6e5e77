import Mathlib.Logic.Relation

/-! Services that may be interrupted by further services, to any depth. -/
namespace Nafuraito.Library
variable {ι σ : Type*}

/-- `serve` is one service, given those that may interrupt it; `n` bounds how deep they nest. A service has an
argument, such as what it has to leave alone. -/
def Nested (serve : (ι → σ → σ → Prop) → ι → σ → σ → Prop) : Nat → ι → σ → σ → Prop
  | 0 => fun _ _ _ => False
  | n+1 => serve (Nested serve n)

/-- What one service guarantees if those that interrupt it do, all guarantee. -/
theorem Nested.sound {serve : (ι → σ → σ → Prop) → ι → σ → σ → Prop} {Q : ι → σ → σ → Prop}
    (hserve : ∀ R, (∀ i s t, R i s t → Q i s t) → ∀ i s t, serve R i s t → Q i s t) {n : Nat} {i : ι} {s t : σ}
    (h : Nested serve n i s t) : Q i s t := by
  induction n generalizing i s t with
  | zero => exact h.elim
  | succ n ih => exact hserve _ (fun _ _ _ => ih) i s t h

/-- A reflexive and transitive guarantee of single services is one of any number, one after the other. -/
theorem reflTransGen_sound {R Q : σ → σ → Prop} (hrefl : ∀ s, Q s s) (htrans : ∀ s t u, Q s t → Q t u → Q s u)
    (hR : ∀ s t, R s t → Q s t) {s t : σ} (h : Relation.ReflTransGen R s t) : Q s t := by
  induction h with
  | refl => exact hrefl s
  | tail _ hlast ih => exact htrans _ _ _ ih (hR _ _ hlast)

end Nafuraito.Library
