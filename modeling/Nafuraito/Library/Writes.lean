import Mathlib.Logic.Function.Basic
import Mathlib.Tactic.Common

/-! Sequences of writes to a store: what each key holds at the end is the last value written to it. -/
namespace Nafuraito.Library
variable {K V W : Type} [DecidableEq K]

/-- The store after the writes, the first one first. -/
def applyWrites (f : K → V) : List (K × V) → K → V
  | [] => f
  | w :: ws => applyWrites (Function.update f w.1 w.2) ws

def lastWrite : List (K × V) → K → Option V
  | [], _ => none
  | w :: ws, k => (lastWrite ws k).or (if w.1 = k then some w.2 else none)

variable (f : K → V) (ws ws' : List (K × V)) (k : K)

theorem applyWrites_append : applyWrites f (ws ++ ws') = applyWrites (applyWrites f ws) ws' := by
  induction ws generalizing f with
  | nil => rfl
  | cons w ws ih => exact ih _

theorem applyWrites_apply : applyWrites f ws k = (lastWrite ws k).getD (f k) := by
  induction ws generalizing f with
  | nil => rfl
  | cons w ws ih =>
    rw [applyWrites, ih, lastWrite]
    cases lastWrite ws k with
    | some v => rfl
    | none =>
      by_cases h : w.1 = k
      · simp [h]
      · simp [h, Function.update_of_ne (Ne.symm h)]

theorem lastWrite_append : lastWrite (ws ++ ws') k = (lastWrite ws' k).or (lastWrite ws k) := by
  induction ws with
  | nil => simp [lastWrite]
  | cons w ws ih => rw [List.cons_append, lastWrite, ih, lastWrite, Option.or_assoc]

theorem lastWrite_map (g : V → W) : lastWrite (ws.map fun w => (w.1, g w.2)) k = (lastWrite ws k).map g := by
  induction ws with
  | nil => rfl
  | cons w ws ih =>
    rw [List.map_cons, lastWrite, ih, lastWrite]
    cases lastWrite ws k with
    | some v => rfl
    | none => by_cases h : w.1 = k <;> simp [h]

variable {ws k}

theorem lastWrite_eq_none : lastWrite ws k = none ↔ ∀ w ∈ ws, w.1 ≠ k := by
  induction ws with
  | nil => simp [lastWrite]
  | cons w ws ih => simp [lastWrite, ih, and_comm]

theorem lastWrite_mem {v : V} (h : lastWrite ws k = some v) : (k, v) ∈ ws := by
  induction ws with
  | nil => cases h
  | cons w ws ih =>
    rw [lastWrite, Option.or_eq_some_iff] at h
    rcases h with h | ⟨_, h⟩
    · exact List.mem_cons_of_mem w (ih h)
    · split at h
      · rename_i he
        obtain rfl := Option.some.inj h
        rw [← he]
        exact List.mem_cons_self
      · cases h

variable {f}

/-- Writes that carry one value leave that value. -/
theorem applyWrites_const {P : V → Prop} (hf : P (f k)) (h : ∀ w ∈ ws, w.1 = k → P w.2) : P (applyWrites f ws k) := by
  rw [applyWrites_apply]
  cases hl : lastWrite ws k with
  | none => exact hf
  | some v => exact h _ (lastWrite_mem hl) rfl

/-! ### All or nothing -/

/-- A store is on `S` at every moment as it was or as it will be. -/
def AllOrNothing (f : K → V) (ws : List (K × V)) (S : K → Prop) : Prop :=
  ∀ n, (∀ k, S k → applyWrites f (ws.take n) k = f k) ∨ (∀ k, S k → applyWrites f (ws.take n) k = applyWrites f ws k)

private theorem applyWrites_take_succ {n : Nat} {w : K × V} (h : ws[n]? = some w) :
    applyWrites f (ws.take (n+1)) = Function.update (applyWrites f (ws.take n)) w.1 w.2 := by
  rw [List.take_add_one, h, Option.toList_some, applyWrites_append]
  rfl

/-- A property that holds at first and not in the end is lost in some step. -/
private theorem exists_last {P : Nat → Prop} (h₀ : P 0) {n : Nat} (hn : ¬ P n) : ∃ m < n, P m ∧ ¬ P (m+1) := by
  induction n with
  | zero => exact absurd h₀ hn
  | succ n ih =>
    by_cases hp : P n
    · exact ⟨n, Nat.lt_succ_self n, hp, hn⟩
    · obtain ⟨m, hm, h⟩ := ih hp
      exact ⟨m, Nat.lt_succ_of_lt hm, h⟩

/-- One write changes one key, so a sequence is all or nothing exactly if one key alone is given
anything new, and that key nothing but its old and its final value. -/
theorem allOrNothing_iff [Nonempty K] {S : K → Prop} : AllOrNothing f ws S ↔
    ∃ k₀, ∀ w ∈ ws, S w.1 → w.2 = f w.1 ∨ (w.1 = k₀ ∧ w.2 = applyWrites f ws k₀) := by
  constructor
  · intro h
    -- what a write leaves is old or final
    have hold (w : K × V) (hw : w ∈ ws) (hs : S w.1) : w.2 = f w.1 ∨ w.2 = applyWrites f ws w.1 := by
      obtain ⟨n, hn, he⟩ := List.getElem_of_mem hw
      have hstep := applyWrites_take_succ (f := f) (List.getElem?_eq_some_iff.mpr ⟨hn, he⟩)
      have hval : applyWrites f (ws.take (n+1)) w.1 = w.2 := by rw [hstep, Function.update_self]
      rw [← hval]
      exact (h (n+1)).imp (fun h' => h' _ hs) (fun h' => h' _ hs)
    by_cases hsame : ∀ k, S k → applyWrites f ws k = f k
    · refine ⟨Classical.arbitrary K, fun w hw hs => .inl ?_⟩
      exact (hold w hw hs).elim id fun hfinal => hfinal.trans (hsame _ hs)
    · have hend : ¬ ∀ k, S k → applyWrites f (ws.take ws.length) k = f k := by rwa [List.take_length]
      obtain ⟨n, hn, hbefore, hafter⟩ := exists_last (P := fun n => ∀ k, S k → applyWrites f (ws.take n) k = f k)
        (fun _ _ => rfl) hend
      have hstep := applyWrites_take_succ (f := f) (List.getElem?_eq_some_iff.mpr ⟨hn, rfl⟩)
      -- the write that loses the old contents reaches the final ones, so no other key changes
      have hothers (k : K) (hs : S k) (hk : k ≠ ws[n].1) : applyWrites f ws k = f k := by
        have hfinal := ((h (n+1)).resolve_left hafter) k hs
        rw [hstep, Function.update_of_ne hk, hbefore k hs] at hfinal
        exact hfinal.symm
      refine ⟨ws[n].1, fun w hw hs => ?_⟩
      by_cases hk : w.1 = ws[n].1
      · exact (hold w hw hs).imp id fun hfinal => ⟨hk, by rw [← hk]; exact hfinal⟩
      · exact .inl ((hold w hw hs).elim id fun hfinal => hfinal.trans (hothers _ hs hk))
  · rintro ⟨k₀, h⟩ n
    have hothers {us : List (K × V)} (hus : ∀ w ∈ us, w ∈ ws) (k : K) (hs : S k) (hk : k ≠ k₀) :
        applyWrites f us k = f k := by
      refine applyWrites_const (P := fun v => v = f k) rfl fun w hw he => ?_
      subst he
      exact (h w (hus w hw) hs).elim id fun hfinal => absurd hfinal.1 hk
    by_cases hs₀ : S k₀
    · have hone : applyWrites f (ws.take n) k₀ = f k₀ ∨ applyWrites f (ws.take n) k₀ = applyWrites f ws k₀ := by
        refine applyWrites_const (P := fun v => v = f k₀ ∨ v = applyWrites f ws k₀) (.inl rfl) fun w hw he => ?_
        rw [← he]
        exact (h w (List.mem_of_mem_take hw) (he ▸ hs₀)).imp id fun hfinal => by rw [hfinal.2, hfinal.1]
      refine hone.imp (fun h₀ k hs => ?_) (fun h₀ k hs => ?_)
      · by_cases hk : k = k₀
        · rw [hk, h₀]
        · exact hothers (fun w => List.mem_of_mem_take) k hs hk
      · by_cases hk : k = k₀
        · rw [hk, h₀]
        · rw [hothers (fun w => List.mem_of_mem_take) k hs hk, hothers (fun w hw => hw) k hs hk]
    · exact .inl fun k hs => hothers (fun w => List.mem_of_mem_take) k hs fun hk => hs₀ (hk ▸ hs)

end Nafuraito.Library
