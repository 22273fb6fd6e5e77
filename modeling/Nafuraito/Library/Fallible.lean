import Mathlib.Logic.Basic

/-! Computations that return a value or an error and keep their state in both cases,
as a method does that mutates through `&mut self` and returns a `Result`. -/
namespace Nafuraito.Library

/-- A state transformer with errors. An error does not undo the state reached so far. -/
def Fallible (σ ε α : Type) := σ → Except ε α × σ

namespace Fallible
variable {σ τ ε δ α β : Type}

instance : Monad (Fallible σ ε) where
  pure a := fun s => (.ok a, s)
  bind x f := fun s => match x s with
    | (.ok a, t) => f a t
    | (.error e, t) => (.error e, t)

def throw (e : ε) : Fallible σ ε α := fun s => (.error e, s)

def get : Fallible σ ε σ := fun s => (.ok s, s)

def modify (f : σ → σ) : Fallible σ ε Unit := fun s => (.ok (), f s)

/-- Fail with `e` unless the condition holds. -/
def require (c : Prop) [Decidable c] (e : ε) : Fallible σ ε Unit := if c then pure () else throw e

/-- `Option::ok_or`. -/
def okOr (o : Option α) (e : ε) : Fallible σ ε α := match o with
  | some a => pure a
  | none => throw e

/-- Run `body first`, `body (first+1)`, ... for `n` rounds, stopping at the first error. -/
def forRange (body : Nat → Fallible σ ε Unit) : Nat → Nat → Fallible σ ε Unit
  | _, 0 => pure ()
  | first, n+1 => body first >>= fun _ => forRange body (first+1) n

/-- Run a computation on a part of the state. -/
def zoom (part : σ → τ) (put : τ → σ → σ) (x : Fallible τ ε α) : Fallible σ ε α := fun s =>
  ((x (part s)).1, put (x (part s)).2 s)

/-- A result that does not touch the state. -/
def lift (r : Except ε α) : Fallible σ ε α := fun s => (r, s)

def mapError (f : ε → δ) (x : Fallible σ ε α) : Fallible σ δ α := fun s =>
  ((x s).1.mapError f, (x s).2)

@[simp] theorem pure_run (a : α) (s : σ) : (pure a : Fallible σ ε α) s = (.ok a, s) := rfl

@[simp] theorem throw_run (e : ε) (s : σ) : (throw e : Fallible σ ε α) s = (.error e, s) := rfl

@[simp] theorem get_run (s : σ) : (get : Fallible σ ε σ) s = (.ok s, s) := rfl

@[simp] theorem modify_run (f : σ → σ) (s : σ) : (modify f : Fallible σ ε Unit) s = (.ok (), f s) := rfl

theorem bind_run (x : Fallible σ ε α) (f : α → Fallible σ ε β) (s : σ) :
    (x >>= f) s = match x s with
      | (.ok a, t) => f a t
      | (.error e, t) => (.error e, t) := rfl

theorem bind_of_ok {x : Fallible σ ε α} {f : α → Fallible σ ε β} {s t : σ} {a : α}
    (h : x s = (.ok a, t)) : (x >>= f) s = f a t := by
  rw [bind_run, h]

theorem bind_of_error {x : Fallible σ ε α} {f : α → Fallible σ ε β} {s t : σ} {e : ε}
    (h : x s = (.error e, t)) : (x >>= f) s = (.error e, t) := by
  rw [bind_run, h]

theorem bind_congr {x y : Fallible σ ε α} {s : σ} (h : x s = y s) (f : α → Fallible σ ε β) :
    (x >>= f) s = (y >>= f) s := by
  rw [bind_run, bind_run, h]

@[simp] theorem pure_bind_run (a : α) (f : α → Fallible σ ε β) (s : σ) :
    ((pure a : Fallible σ ε α) >>= f) s = f a s := rfl

theorem bind_pure_run (x : Fallible σ ε α) (s : σ) : (x >>= pure) s = x s := by
  rw [bind_run]
  rcases x s with ⟨_ | _, _⟩ <;> rfl

theorem bind_map_fst (x : Fallible σ ε α) (g : α → β) (s : σ) :
    ((x >>= fun a => (pure (g a) : Fallible σ ε β)) s).1 = (x s).1.map g := by
  rw [bind_run]
  rcases x s with ⟨_ | _, _⟩ <;> rfl

@[simp] theorem throw_bind_run (e : ε) (f : α → Fallible σ ε β) (s : σ) :
    ((throw e : Fallible σ ε α) >>= f) s = (.error e, s) := rfl

@[simp] theorem get_bind_run (f : σ → Fallible σ ε β) (s : σ) :
    ((get : Fallible σ ε σ) >>= f) s = f s s := rfl

@[simp] theorem modify_bind_run (g : σ → σ) (f : Unit → Fallible σ ε β) (s : σ) :
    ((modify g : Fallible σ ε Unit) >>= f) s = f () (g s) := rfl

theorem bind_assoc {γ : Type} (x : Fallible σ ε α) (f : α → Fallible σ ε β) (g : β → Fallible σ ε γ) :
    x >>= f >>= g = x >>= fun a => f a >>= g := by
  funext s
  rw [bind_run, bind_run, bind_run]
  rcases x s with ⟨e | a, t⟩ <;> rfl

theorem run_of_fst {x : Fallible σ ε α} {s : σ} {r : Except ε α} (h : (x s).1 = r) : x s = (r, (x s).2) :=
  Prod.ext h rfl

/-- A result that a check passes. -/
theorem ok_of_any {r : Except ε α} {p : α → Bool} (h : r.toOption.any p = true) : ∃ a, r = .ok a ∧ p a = true := by
  cases r with
  | error e => cases h
  | ok a => exact ⟨a, rfl, h⟩

/-- A bind that returns a value ran both halves to their values. -/
theorem bind_ok {x : Fallible σ ε α} {f : α → Fallible σ ε β} {s u : σ} {b : β}
    (h : (x >>= f) s = (.ok b, u)) : ∃ a t, x s = (.ok a, t) ∧ f a t = (.ok b, u) := by
  rw [bind_run] at h
  cases hx : x s with
  | mk r t =>
    rw [hx] at h
    cases r with
    | ok a => exact ⟨a, t, rfl, h⟩
    | error e => simp at h

/-- A bind that fails did so in its first half or, after a value, in its second. -/
theorem bind_error {x : Fallible σ ε α} {f : α → Fallible σ ε β} {s u : σ} {e : ε}
    (h : (x >>= f) s = (.error e, u)) :
    x s = (.error e, u) ∨ ∃ a t, x s = (.ok a, t) ∧ f a t = (.error e, u) := by
  rw [bind_run] at h
  cases hx : x s with
  | mk r t =>
    rw [hx] at h
    cases r with
    | ok a => exact .inr ⟨a, t, rfl, h⟩
    | error e' => exact .inl (by simpa using h)

/-- A property of the state that the first half reaches and the second keeps. -/
theorem bind_snd {P : σ → Prop} {x : Fallible σ ε α} {f : α → Fallible σ ε β} {s : σ} (hx : P (x s).2)
    (hf : ∀ a t, x s = (.ok a, t) → P t → P (f a t).2) : P ((x >>= f) s).2 := by
  rw [bind_run]
  cases hr : x s with
  | mk r t =>
    rw [hr] at hx
    cases r with
    | ok a => exact hf a t hr hx
    | error e => exact hx

theorem require_run_pos {c : Prop} [Decidable c] (e : ε) (h : c) (s : σ) :
    (require c e : Fallible σ ε Unit) s = (.ok (), s) := by simp [require, h]

theorem require_run_neg {c : Prop} [Decidable c] (e : ε) (h : ¬ c) (s : σ) :
    (require c e : Fallible σ ε Unit) s = (.error e, s) := by simp [require, h]

theorem require_ok {c : Prop} [Decidable c] {e : ε} {s t : σ}
    (h : (require c e : Fallible σ ε Unit) s = (.ok (), t)) : c ∧ t = s := by
  by_cases hc : c
  · rw [require_run_pos e hc] at h
    exact ⟨hc, (Prod.mk.inj h).2.symm⟩
  · rw [require_run_neg e hc] at h
    cases h

theorem mapError_ok {f : ε → δ} {x : Fallible σ ε α} {s : σ} {a : α} (h : (mapError f x s).1 = .ok a) :
    (x s).1 = .ok a := by
  change (x s).1.mapError f = .ok a at h
  cases hx : (x s).1 with
  | ok b =>
    rw [hx] at h
    exact congrArg Except.ok (Except.ok.inj h)
  | error e =>
    rw [hx] at h
    cases h

@[simp] theorem okOr_some (a : α) (e : ε) : (okOr (some a) e : Fallible σ ε α) = pure a := rfl

@[simp] theorem okOr_none (e : ε) : (okOr (none : Option α) e : Fallible σ ε α) = throw e := rfl

/-- The computation relates the state before to the state after, whatever it returns. -/
def Relates (R : σ → σ → Prop) (x : Fallible σ ε α) : Prop := ∀ s, R s (x s).2

section Relates
variable {R : σ → σ → Prop}

theorem Relates.pure (hr : ∀ s, R s s) (a : α) : Relates R (pure a : Fallible σ ε α) := hr

theorem Relates.throw (hr : ∀ s, R s s) (e : ε) : Relates R (throw e : Fallible σ ε α) := hr

theorem Relates.bind (ht : ∀ a b c, R a b → R b c → R a c) {x : Fallible σ ε α}
    {f : α → Fallible σ ε β} (hx : Relates R x) (hf : ∀ a, Relates R (f a)) : Relates R (x >>= f) := by
  intro s
  have h := hx s
  rw [bind_run]
  cases hs : x s with
  | mk r t =>
    rw [hs] at h
    cases r with
    | ok a => exact ht _ _ _ h (hf a t)
    | error e => exact h

theorem Relates.forRange (hr : ∀ s, R s s) (ht : ∀ a b c, R a b → R b c → R a c)
    {body : Nat → Fallible σ ε Unit} (hb : ∀ i, Relates R (body i)) (first n : Nat) :
    Relates R (forRange body first n) := by
  induction n generalizing first with
  | zero => exact hr
  | succ n ih => exact Relates.bind ht (hb first) (fun _ => ih (first+1))

end Relates

/-- Where every round returns, an assertion carried from round to round holds at the end. -/
theorem forRange_ok {P : Nat → σ → Prop} {body : Nat → Fallible σ ε Unit} {first n : Nat}
    (hb : ∀ i s t, first ≤ i → i < first+n → P i s → body i s = (.ok (), t) → P (i+1) t) {s t : σ}
    (hs : P first s) (h : forRange body first n s = (.ok (), t)) : P (first+n) t := by
  induction n generalizing first s with
  | zero =>
    obtain rfl := (Prod.mk.inj h).2
    exact hs
  | succ n ih =>
    obtain ⟨_, u, h₁, h₂⟩ := bind_ok h
    have := ih (fun i s t hi hlt => hb i s t (by omega) (by omega)) (hb first s u (by omega) (by omega) hs h₁) h₂
    rwa [show first+(n+1) = first+1+n by omega]

/-- Where every round returns under the assertion, so does the loop. -/
theorem forRange_returns {P : Nat → σ → Prop} {body : Nat → Fallible σ ε Unit} {first n : Nat}
    (hb : ∀ i s, first ≤ i → i < first+n → P i s → ∃ t, body i s = (.ok (), t) ∧ P (i+1) t) {s : σ} (hs : P first s) :
    ∃ t, forRange body first n s = (.ok (), t) ∧ P (first+n) t := by
  induction n generalizing first s with
  | zero => exact ⟨s, rfl, hs⟩
  | succ n ih =>
    obtain ⟨u, h₁, hu⟩ := hb first s (by omega) (by omega) hs
    obtain ⟨t, h₂, ht⟩ := ih (fun i s hi hlt => hb i s (by omega) (by omega)) hu
    refine ⟨t, (bind_of_ok h₁).trans h₂, ?_⟩
    rwa [show first+(n+1) = first+1+n by omega]

/-- One round more is done after the others. -/
theorem forRange_last (body : Nat → Fallible σ ε Unit) (first n : Nat) (s : σ) :
    forRange body first (n+1) s = (forRange body first n >>= fun _ => body (first+n)) s := by
  induction n generalizing first s with
  | zero =>
    change (body first >>= fun _ => pure ()) s = body first s
    rw [bind_run]
    rcases body first s with ⟨e | x, t⟩ <;> rfl
  | succ n ih =>
    change (body first >>= fun _ => forRange body (first+1) (n+1)) s =
      ((body first >>= fun _ => forRange body (first+1) n) >>= fun _ => body (first+(n+1))) s
    rw [bind_run, bind_run, bind_run]
    rcases body first s with ⟨e | x, t⟩
    · rfl
    · exact (ih (first+1) t).trans (by rw [show first+1+n = first+(n+1) by omega]; rfl)

/-- The loop goes on from the state its first rounds end in. -/
theorem forRange_add {body : Nat → Fallible σ ε Unit} {first k : Nat} {s t : σ}
    (h : forRange body first k s = (.ok (), t)) (n : Nat) :
    forRange body first (k+n) s = forRange body (first+k) n t := by
  induction k generalizing first s with
  | zero =>
    obtain rfl := (Prod.mk.inj h).2
    rw [Nat.zero_add, Nat.add_zero]
  | succ k ih =>
    obtain ⟨_, u, h₁, h₂⟩ := bind_ok h
    rw [show k+1+n = (k+n)+1 by omega, show first+(k+1) = first+1+k by omega, ← ih h₂]
    exact bind_of_ok h₁

/-- A loop fails in one of its rounds. -/
theorem forRange_error_iff {body : Nat → Fallible σ ε Unit} {first n : Nat} {s t : σ} {e : ε} :
    forRange body first n s = (.error e, t) ↔
      ∃ k u, k < n ∧ forRange body first k s = (.ok (), u) ∧ body (first+k) u = (.error e, t) := by
  constructor
  · intro h
    induction n with
    | zero => cases h
    | succ n ih =>
      rw [forRange_last] at h
      rcases hrun : forRange body first n s with ⟨e' | x, u⟩
      · rw [bind_of_error hrun] at h
        obtain ⟨k, u', hk, h₁, h₂⟩ := ih (hrun.trans h)
        exact ⟨k, u', by omega, h₁, h₂⟩
      · rw [bind_of_ok hrun] at h
        exact ⟨n, u, by omega, hrun, h⟩
  · rintro ⟨k, u, hk, hrun, hround⟩
    obtain ⟨j, rfl⟩ : ∃ j, n = k+(j+1) := ⟨n-k-1, by omega⟩
    rw [forRange_add hrun]
    exact bind_of_error hround

/-- Whatever the loop returns, it keeps what every round keeps that it comes to. -/
theorem forRange_rounds {P : σ → Prop} {body : Nat → Fallible σ ε Unit} {first n : Nat} {s : σ} (hs : P s)
    (hb : ∀ k t, k < n → forRange body first k s = (.ok (), t) → P t → P (body (first+k) t).2) :
    P (forRange body first n s).2 := by
  induction n with
  | zero => exact hs
  | succ n ih =>
    rw [forRange_last]
    exact bind_snd (ih fun k t hk => hb k t (by omega)) fun _ t hrun ht => hb n t (by omega) hrun ht

/-- Whatever the loop returns, it keeps what every round keeps. -/
theorem forRange_snd {P : σ → Prop} {body : Nat → Fallible σ ε Unit} {first n : Nat}
    (hb : ∀ i s, first ≤ i → i < first+n → P s → P (body i s).2) {s : σ} (hs : P s) : P (forRange body first n s).2 :=
  forRange_rounds hs fun k t hk _ ht => hb (first+k) t (by omega) (by omega) ht

/-- Whatever the computation returns, it keeps the invariant. -/
def Keeps (I : σ → Prop) (x : Fallible σ ε α) : Prop := Relates (fun s t => I s → I t) x

theorem Keeps.forRange {I : σ → Prop} {body : Nat → Fallible σ ε Unit}
    (hb : ∀ i, Keeps I (body i)) (first n : Nat) : Keeps I (forRange body first n) :=
  Relates.forRange (fun _ h => h) (fun _ _ _ h g i => g (h i)) hb first n

/-- The computation does not see what `f` changes in the state, and leaves that change in it. -/
def Ignores (f : σ → σ) (x : Fallible σ ε α) : Prop := ∀ s, x (f s) = ((x s).1, f (x s).2)

section Ignores
variable {f : σ → σ}

theorem Ignores.pure (a : α) : Ignores f (pure a : Fallible σ ε α) := fun _ => rfl

theorem Ignores.throw (e : ε) : Ignores f (throw e : Fallible σ ε α) := fun _ => rfl

theorem Ignores.bind {x : Fallible σ ε α} {g : α → Fallible σ ε β} (hx : Ignores f x) (hg : ∀ a, Ignores f (g a)) :
    Ignores f (x >>= g) := by
  intro s
  rw [bind_run, bind_run, hx s]
  rcases x s with ⟨e | a, t⟩
  · rfl
  · exact hg a t

theorem Ignores.require (c : Prop) [Decidable c] (e : ε) : Ignores f (require c e : Fallible σ ε Unit) := by
  unfold Fallible.require
  split
  · exact .pure ()
  · exact .throw e

end Ignores

/-- From the states in `I` the computation returns `r`; only from a state that is not `good` it may
fail with an error in `E` instead. Both sets of states are kept. -/
def Returns (I good : σ → Prop) (E : ε → Prop) (r : Except ε α) (x : Fallible σ ε α) : Prop :=
  ∀ s, I s → ((x s).1 = r ∨ ¬ good s ∧ ∃ e, E e ∧ (x s).1 = .error e) ∧ I (x s).2 ∧ (good s → good (x s).2)

section Returns
variable {I good : σ → Prop} {E : ε → Prop} {x : Fallible σ ε α} {f : α → Fallible σ ε β}

theorem Returns.pure (a : α) : Returns I good E (.ok a) (pure a : Fallible σ ε α) :=
  fun _ hs => ⟨.inl rfl, hs, id⟩

theorem Returns.throw (e : ε) : Returns I good E (.error e) (throw e : Fallible σ ε α) :=
  fun _ hs => ⟨.inl rfl, hs, id⟩

theorem Returns.require {c : Prop} [Decidable c] (h : c) (e : ε) :
    Returns I good E (.ok ()) (require c e : Fallible σ ε Unit) := by
  rw [Fallible.require, if_pos h]
  exact .pure ()

theorem Returns.require_neg {c : Prop} [Decidable c] (h : ¬ c) (e : ε) :
    Returns I good E (.error e) (Fallible.require c e : Fallible σ ε Unit) := by
  rw [Fallible.require, if_neg h]
  exact .throw e

theorem Returns.bind {a : α} {r : Except ε β} (hx : Returns I good E (.ok a) x) (hf : Returns I good E r (f a)) :
    Returns I good E r (x >>= f) := by
  intro s hs
  obtain ⟨hr, hI, hgood⟩ := hx s hs
  rw [bind_run]
  rcases hrun : x s with ⟨e | b, t⟩
  · rw [hrun] at hr hI hgood
    rcases hr with hr | hr
    · cases hr
    · obtain ⟨hbad, e', he, heq⟩ := hr
      exact ⟨.inr ⟨hbad, e, by rwa [Except.error.inj heq], rfl⟩, hI, hgood⟩
  · rw [hrun] at hr hI hgood
    rcases hr with hr | ⟨_, e', _, heq⟩
    · obtain rfl := Except.ok.inj hr
      obtain ⟨hr', hI', hgood'⟩ := hf t hI
      exact ⟨hr'.imp id fun h => ⟨fun hg => h.1 (hgood hg), h.2⟩, hI', fun hg => hgood' (hgood hg)⟩
    · cases heq

theorem Returns.bind_error {e : ε} (hx : Returns I good E (.error e) x) : Returns I good E (.error e) (x >>= f) := by
  intro s hs
  obtain ⟨hr, hI, hgood⟩ := hx s hs
  rw [bind_run]
  rcases hrun : x s with ⟨e' | b, t⟩
  · rw [hrun] at hr hI hgood
    refine ⟨hr.imp (fun h => by rw [Except.error.inj h]) fun ⟨hbad, e'', he, heq⟩ => ⟨hbad, e'', he, ?_⟩, hI, hgood⟩
    rw [Except.error.inj heq]
  · rw [hrun] at hr
    rcases hr with hr | ⟨_, e', _, heq⟩
    · cases hr
    · cases heq

theorem Returns.get_bind {r : Except ε α} {g : σ → Fallible σ ε α} (hg : ∀ s, I s → Returns I good E r (g s)) :
    Returns I good E r (get >>= g) := fun s hs => hg s hs s hs

/-- From a good state the result is the expected one. -/
theorem Returns.eq {r : Except ε α} (h : Returns I good E r x) {s : σ} (hs : I s) (hg : good s) : (x s).1 = r :=
  (h s hs).1.resolve_right fun h => h.1 hg

/-- From any state it is that or an error that is always possible. -/
theorem Returns.cases {r : Except ε α} (h : Returns I good E r x) {s : σ} (hs : I s) :
    (x s).1 = r ∨ ∃ e, E e ∧ (x s).1 = .error e :=
  (h s hs).1.imp id And.right

end Returns

/-- Calling `next` until its first error: the values that it returns, and the error. -/
inductive Yields (next : Fallible σ ε α) : σ → List α → ε → Prop
  | stop {s t : σ} {e : ε} (h : next s = (.error e, t)) : Yields next s [] e
  | next {s t : σ} {a : α} {rest : List α} {e : ε} (h : next s = (.ok a, t)) (hrest : Yields next t rest e) :
      Yields next s (a :: rest) e

end Fallible
end Nafuraito.Library
