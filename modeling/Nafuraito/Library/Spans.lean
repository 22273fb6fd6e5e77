import Mathlib.Tactic.Common

/-! Spans in increasing order inside a range, as the keys of a search-tree node cut it up. -/
namespace Nafuraito.Library

/-- Where the slot after slot `i` starts, or the end of the range. -/
def upper (key : Nat → Nat) (n hi i : Nat) : Nat := if i+1 < n then key (i+1) else hi

/-- The spans `[key i, stop i)` of the slots below `n` follow each other up to `hi`. -/
def Spans (key stop : Nat → Nat) (n hi : Nat) : Prop :=
  ∀ i < n, key i ≤ stop i ∧ stop i ≤ upper key n hi i

namespace Spans
variable {key stop : Nat → Nat} {n hi : Nat} (h : Spans key stop n hi)
include h

theorem apart {i j : Nat} (hij : i < j) (hj : j < n) : stop i ≤ key j := by
  induction j with
  | zero => omega
  | succ j ih =>
    have hstep : stop j ≤ key (j+1) := by
      have := (h j (by omega)).2
      rwa [upper, if_pos hj] at this
    rcases Nat.lt_succ_iff_lt_or_eq.mp hij with hlt | rfl
    · exact Nat.le_trans (ih hlt (by omega)) (Nat.le_trans (h j (by omega)).1 hstep)
    · exact hstep

theorem stop_le {i : Nat} (hi' : i < n) : stop i ≤ hi := by
  have hlast : stop (n-1) ≤ hi := by
    have := (h (n-1) (by omega)).2
    rwa [upper, if_neg (by omega)] at this
  by_cases hi'' : i = n-1
  · rwa [hi'']
  · have hnext : i < n-1 := by omega
    exact Nat.le_trans (h.apart hnext (by omega)) (Nat.le_trans (h (n-1) (by omega)).1 hlast)

/-- A point lies in one span at most. -/
theorem unique {i j x : Nat} (hi' : i < n) (hj : j < n) (hxi : key i ≤ x ∧ x < stop i)
    (hxj : key j ≤ x ∧ x < stop j) : i = j := by
  rcases Nat.lt_trichotomy i j with hlt | heq | hlt
  · have := h.apart hlt hj
    omega
  · exact heq
  · have := h.apart hlt hi'
    omega

end Spans
end Nafuraito.Library
