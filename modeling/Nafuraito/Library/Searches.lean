import Mathlib.Logic.Basic

/-! Searches through numbered places for the first hit. -/
namespace Nafuraito.Library
variable {ε δ α : Type}

/-- The first hit in `n` places from `k` on. A place that cannot be read ends the search. -/
def search (place : Nat → Except ε (Option α)) (missing : ε) : Nat → Nat → Except ε α
  | _, 0 => .error missing
  | k, n+1 => match place k with
    | .error e => .error e
    | .ok (some a) => .ok a
    | .ok none => search place missing (k+1) n

/-- The places for a search that goes on where one cannot be read. -/
def skipping (place : Nat → Except ε (Option α)) : Nat → Except δ (Option α) := fun k => match place k with
  | .error _ => .ok none
  | .ok found => .ok found

def Readable (place : Nat → Except ε (Option α)) (k : Nat) : Prop := ∃ found, place k = .ok found

/-- The lowest place with a hit; those below it need not be readable. -/
structure FirstHit (place : Nat → Except ε (Option α)) (k : Nat) (a : α) : Prop where
  hit : place k = .ok (some a)
  first : ∀ j < k, ∀ b, place j ≠ .ok (some b)

section Search
variable {place : Nat → Except ε (Option α)} {missing : ε} {a b : α} {k m : Nat}

theorem FirstHit.unique (h : FirstHit place k a) (h' : FirstHit place m b) : k = m ∧ a = b := by
  rcases Nat.lt_trichotomy k m with hlt | rfl | hgt
  · exact absurd h.hit (h'.first k hlt a)
  · exact ⟨rfl, Option.some.inj (Except.ok.inj (h.hit.symm.trans h'.hit))⟩
  · exact absurd h'.hit (h.first m hgt b)

private theorem search_from {n : Nat} : search place missing k n = .ok a ↔
    ∃ m, k ≤ m ∧ m < k+n ∧ place m = .ok (some a) ∧ ∀ j, k ≤ j → j < m → place j = .ok none := by
  induction n generalizing k with
  | zero =>
    constructor
    · intro h
      cases h
    · rintro ⟨m, h₁, h₂, -⟩
      omega
  | succ n ih =>
    rw [search]
    constructor
    · intro h
      cases hk : place k with
      | error e =>
        simp only [hk] at h
        cases h
      | ok found =>
        cases found with
        | some b =>
          simp only [hk] at h
          exact ⟨k, Nat.le_refl k, by omega, Except.ok.inj h ▸ hk, fun j h₁ h₂ => by omega⟩
        | none =>
          simp only [hk] at h
          obtain ⟨m, h₁, h₂, hit, hnone⟩ := ih.mp h
          refine ⟨m, by omega, by omega, hit, fun j hj hlt => ?_⟩
          rcases Nat.eq_or_lt_of_le hj with rfl | hj
          · exact hk
          · exact hnone j hj hlt
    · rintro ⟨m, h₁, h₂, hit, hnone⟩
      rcases Nat.eq_or_lt_of_le h₁ with rfl | h₁
      · simp only [hit]
      · simp only [hnone k (Nat.le_refl k) h₁]
        exact ih.mpr ⟨m, h₁, by omega, hit, fun j hj => hnone j (by omega)⟩

/-- A search finds the first hit if every place before it can be read. -/
theorem search_ok_iff {n : Nat} : search place missing 0 n = .ok a ↔
    ∃ k < n, FirstHit place k a ∧ ∀ j < k, Readable place j := by
  rw [search_from]
  constructor
  · rintro ⟨k, -, hlt, hit, hnone⟩
    refine ⟨k, by omega, ⟨hit, fun j hj b hb => ?_⟩, fun j hj => ⟨none, hnone j (Nat.zero_le j) hj⟩⟩
    cases (hnone j (Nat.zero_le j) hj).symm.trans hb
  · rintro ⟨k, hlt, hfirst, hread⟩
    refine ⟨k, Nat.zero_le k, by omega, hfirst.hit, fun j _ hj => ?_⟩
    obtain ⟨found, hfound⟩ := hread j hj
    cases found with
    | none => exact hfound
    | some b => exact absurd hfound (hfirst.first j hj b)

theorem skipping_ok {found : α} : skipping (δ := δ) place k = .ok (some found) ↔ place k = .ok (some found) := by
  unfold skipping
  cases place k with
  | error e => constructor <;> intro h <;> cases h
  | ok found' => constructor <;> intro h <;> cases h <;> rfl

theorem skipping_readable : Readable (skipping (δ := δ) place) k := by
  unfold Readable skipping
  cases place k with
  | error e => exact ⟨none, rfl⟩
  | ok found => exact ⟨found, rfl⟩

/-- A search that skips what it cannot read finds the first hit. -/
theorem search_skipping_ok_iff {missing : δ} {n : Nat} : search (skipping place) missing 0 n = .ok a ↔
    ∃ k < n, FirstHit place k a := by
  rw [search_ok_iff]
  constructor
  · rintro ⟨k, hlt, hfirst, -⟩
    exact ⟨k, hlt, skipping_ok.mp hfirst.hit, fun j hj b hb => hfirst.first j hj b (skipping_ok.mpr hb)⟩
  · rintro ⟨k, hlt, hfirst⟩
    refine ⟨k, hlt, ⟨skipping_ok.mpr hfirst.hit, fun j hj b hb => ?_⟩, fun j _ => skipping_readable⟩
    exact hfirst.first j hj b (skipping_ok.mp hb)

/-- What follows the hit of a search and the hit of one that skips, through no more places, comes to the same exactly
if it does where both have the hit, and to nothing where one has it alone. -/
theorem follows_alike_iff {ρ : Type} {n n' : Nat} (hle : n' ≤ n) {P Q : α → ρ → Prop} {Alike : α → Prop}
    (halike : ∀ k < n', ∀ a, FirstHit place k a → ((∀ r, P a r ↔ Q a r) ↔ Alike a)) :
    (∀ r, (∃ a, (∃ k < n', FirstHit place k a) ∧ P a r) ↔
        ∃ a, (∃ k < n, FirstHit place k a ∧ ∀ j < k, Readable place j) ∧ Q a r) ↔
      ∀ k < n, ∀ a, FirstHit place k a →
        (k < n' → (∀ j < k, Readable place j) → Alike a) ∧
        (k < n' → (¬∀ j < k, Readable place j) → ¬∃ r, P a r) ∧
        (¬k < n' → (∀ j < k, Readable place j) → ¬∃ r, Q a r) := by
  by_cases hhit : ∃ k < n, ∃ a, FirstHit place k a
  · obtain ⟨k, hk, a, hfirst⟩ := hhit
    have hskipping (r : ρ) : (∃ b, (∃ m < n', FirstHit place m b) ∧ P b r) ↔ k < n' ∧ P a r := by
      constructor
      · rintro ⟨b, ⟨m, hm, hb⟩, hr⟩
        obtain ⟨rfl, rfl⟩ := hfirst.unique hb
        exact ⟨hm, hr⟩
      · rintro ⟨hlt, hr⟩
        exact ⟨a, ⟨k, hlt, hfirst⟩, hr⟩
    have hreading (r : ρ) : (∃ b, (∃ m < n, FirstHit place m b ∧ ∀ j < m, Readable place j) ∧ Q b r) ↔
        (∀ j < k, Readable place j) ∧ Q a r := by
      constructor
      · rintro ⟨b, ⟨m, -, hb, hread⟩, hr⟩
        obtain ⟨rfl, rfl⟩ := hfirst.unique hb
        exact ⟨hread, hr⟩
      · rintro ⟨hread, hr⟩
        exact ⟨a, ⟨k, hk, hfirst, hread⟩, hr⟩
    have honly (R : Nat → α → Prop) : (∀ m < n, ∀ b, FirstHit place m b → R m b) ↔ R k a := by
      refine ⟨fun h => h k hk a hfirst, fun h m _ b hb => ?_⟩
      obtain ⟨rfl, rfl⟩ := hfirst.unique hb
      exact h
    simp only [hskipping, hreading]
    rw [honly]
    have hrest := fun hlow : k < n' => halike k hlow a hfirst
    generalize (k < n') = low at hrest ⊢
    generalize (∀ j < k, Readable place j) = readable
    by_cases hlow : low <;> by_cases hread : readable
    · simpa [hlow, hread] using hrest hlow
    · simp [hlow, hread]
    · simp [hlow, hread]
    · simp [hlow, hread]
  · constructor
    · intro _ k hk a hfirst
      exact absurd ⟨k, hk, a, hfirst⟩ hhit
    · intro _ r
      constructor
      · rintro ⟨a, ⟨k, hk, hfirst⟩, -⟩
        exact absurd ⟨k, by omega, a, hfirst⟩ hhit
      · rintro ⟨a, ⟨k, hk, hfirst, -⟩, -⟩
        exact absurd ⟨k, hk, a, hfirst⟩ hhit

end Search
end Nafuraito.Library
