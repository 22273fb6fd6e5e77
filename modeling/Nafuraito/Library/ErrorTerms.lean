import Mathlib.Data.Int.GCD
import Mathlib.Data.Int.ModEq
import Mathlib.Tactic.Linarith
import Mathlib.Tactic.Ring

/-! Two counters moved by an error term that is kept to one residue of a modulus `m`. With the residue exact
the counters go along a straight line. -/
namespace Nafuraito.Library

/-- The residue of `z` in the `m` integers up to `top`. -/
def fold (m top z : Int) : Int := top - (top - z) % m

section Fold
variable {m : Int} (hm : 0 < m) (top z : Int)

include hm in
theorem fold_le : fold m top z ≤ top := by
  have := Int.emod_nonneg (top - z) hm.ne'
  rw [fold]
  omega

include hm in
theorem lt_fold : top - m < fold m top z := by
  have := Int.emod_lt_of_pos (top - z) hm
  rw [fold]
  omega

theorem fold_of_mem {top z : Int} (hlow : top - m < z) (hhigh : z ≤ top) : fold m top z = z := by
  rw [fold, Int.emod_eq_of_lt (by omega) (by omega)]
  omega

/-- A value is folded by whole turns. -/
theorem exists_fold : ∃ q, z = fold m top z + m * q := by
  refine ⟨-((top - z) / m), ?_⟩
  have := Int.emod_add_mul_ediv (top - z) m
  rw [fold, Int.mul_neg]
  omega

include hm

/-- A value above the window loses at least one turn. -/
theorem fold_add_le (hz : top < z) : fold m top z + m ≤ z := by
  obtain ⟨q, hq⟩ := exists_fold (m := m) top z
  have hle := fold_le hm top z
  have hpos : 0 < m * q := by omega
  have hturn : m * 1 ≤ m * q := Int.mul_le_mul_of_nonneg_left (pos_of_mul_pos_right hpos hm.le) hm.le
  omega

omit hm in
/-- Folding first changes nothing. -/
theorem fold_add (w : Int) : fold m top (z + w) = fold m top (fold m top z + w) := by
  obtain ⟨q, hq⟩ := exists_fold (m := m) top z
  have hturns : top - (z + w) = top - (fold m top z + w) + m * -q := by
    rw [Int.mul_neg]
    omega
  rw [fold, hturns, Int.add_mul_emod_self_left]
  rfl

/-- Negation mirrors the window. -/
theorem fold_neg : fold m top (-z) = -fold m (m - 1 - top) z := by
  have hlow := Int.emod_nonneg (top + z) hm.ne'
  have hhigh := Int.emod_lt_of_pos (top + z) hm
  have hmirror : (m - 1 - (top + z)) % m = m - 1 - (top + z) % m := by
    have hdiv := Int.emod_add_mul_ediv (top + z) m
    rw [show m - 1 - (top + z) = m - 1 - (top + z) % m + m * -((top + z) / m) by rw [Int.mul_neg]; omega,
      Int.add_mul_emod_self_left, Int.emod_eq_of_lt (by omega) (by omega)]
  rw [fold, fold, show m - 1 - top - z = m - 1 - (top + z) by omega, hmirror, Int.sub_neg]
  omega

end Fold

/-- How often each counter has moved. -/
structure Moves where
  x : Nat
  y : Nat
  deriving DecidableEq

namespace Moves

def err (a b : Int) (s : Moves) : Int := a - b - b * s.x + a * s.y

/-- Both decisions are about twice the error, folded. -/
def next (m top a b : Int) (s : Moves) : Moves :=
  let e := fold m top (2 * s.err a b)
  ⟨s.x + if -b < e then 1 else 0, s.y + if e < a then 1 else 0⟩

def after (m top a b : Int) : Nat → Moves
  | 0 => ⟨0, 0⟩
  | n + 1 => (after m top a b n).next m top a b

section Counting
variable {m top a b : Int}

theorem err_moved (s : Moves) (i j : Nat) : err a b ⟨s.x + i, s.y + j⟩ = s.err a b - b * i + a * j := by
  rw [err, err]
  push_cast
  ring

variable (m top a b) in
theorem after_le (n : Nat) : (after m top a b n).x ≤ n ∧ (after m top a b n).y ≤ n := by
  induction n with
  | zero => exact ⟨Nat.le_refl 0, Nat.le_refl 0⟩
  | succ n ih =>
    rw [after, next]
    dsimp only
    split <;> split <;> omega

theorem after_mono {k n : Nat} (h : k ≤ n) :
    (after m top a b k).x ≤ (after m top a b n).x ∧ (after m top a b k).y ≤ (after m top a b n).y := by
  induction n, h using Nat.le_induction with
  | base => exact ⟨Nat.le_refl _, Nat.le_refl _⟩
  | succ n _ ih =>
    rw [after, next]
    dsimp only
    omega

def swap (s : Moves) : Moves := ⟨s.y, s.x⟩

theorem swap_err (s : Moves) : s.swap.err b a = -s.err a b := by
  rw [err, err, swap]
  ring

variable (top a b) in
/-- Exchanging the two counters mirrors the window. -/
theorem after_swap (hm : 0 < m) (n : Nat) : (after m top a b n).swap = after m (m - 1 - top) b a n := by
  induction n with
  | zero => rfl
  | succ n ih =>
    rw [after, after, ← ih, next, next, swap_err, Int.mul_neg, fold_neg hm, swap, swap]
    rw [show m - 1 - (m - 1 - top) = top by omega]
    dsimp only
    congr 2
    · exact if_congr (by omega) rfl rfl
    · exact if_congr (by omega) rfl rfl

end Counting

/-! ### Along the longer side -/

section Straight
variable {m top a b : Int}

/-- Where the error is while the counters go along the line. -/
def Window (a b e : Int) : Prop := a - 2 * b ≤ 2 * e ∧ 2 * e < 3 * a - 2 * b

theorem gcd_dvd_err (s : Moves) : (Int.gcd a b : Int) ∣ s.err a b := by
  have ha : (Int.gcd a b : Int) ∣ a := Int.gcd_dvd_left a b
  have hb : (Int.gcd a b : Int) ∣ b := Int.gcd_dvd_right a b
  exact Int.dvd_add (Int.dvd_sub (Int.dvd_sub ha hb) (Dvd.dvd.mul_right hb _)) (Dvd.dvd.mul_right ha _)

/-- Within it the longer counter moves. -/
theorem lt_of_window {e : Int} (ha : 0 < a) (hba : b ≤ a) (he : Window a b e) (hdvd : (Int.gcd a b : Int) ∣ e) :
    -b < 2 * e := by
  obtain ⟨hlow, -⟩ := he
  by_contra hle
  have hab : a = b := by omega
  subst hab
  rw [Int.gcd_self, Int.natAbs_of_nonneg ha.le] at hdvd
  obtain ⟨t, rfl⟩ := hdvd
  have hhalf : a * (2 * t + 1) = 0 := by
    rw [Int.mul_add, Int.mul_left_comm]
    omega
  rcases Int.mul_eq_zero.mp hhalf with h | h <;> omega

/-- One step with the error exact and in its window. -/
theorem next_of_window {s : Moves} (ha : 0 < a) (hb : 0 ≤ b) (hba : b ≤ a) (htop : b + top < m)
    (he : Window a b (s.err a b))
    (hfit : 2 * s.err a b ≤ top) : (s.next m top a b).x = s.x + 1 ∧ Window a b ((s.next m top a b).err a b) := by
  have hlow : -b < 2 * s.err a b := lt_of_window ha hba he (gcd_dvd_err s)
  obtain ⟨hfrom, hto⟩ := he
  rw [next, fold_of_mem (by omega) hfit]
  dsimp only
  rw [if_pos hlow]
  refine ⟨rfl, ?_⟩
  by_cases hy : 2 * s.err a b < a
  · rw [if_pos hy, err_moved]
    constructor <;> omega
  · rw [if_neg hy, err_moved]
    constructor <;> omega

/-- As long as the doubled error has fitted, the error is in its window and the longer counter has moved each time. -/
theorem window_run (ha : 0 < a) (hb : 0 ≤ b) (hba : b ≤ a) (htop : b + top < m) (n : Nat)
    (hfit : ∀ k < n, 2 * (after m top a b k).err a b ≤ top) :
    (after m top a b n).x = n ∧ Window a b ((after m top a b n).err a b) := by
  induction n with
  | zero =>
    refine ⟨rfl, ?_⟩
    have herr : (after m top a b 0).err a b = a - b := by
      rw [after, err]
      push_cast
      ring
    rw [herr]
    constructor <;> omega
  | succ n ih =>
    obtain ⟨hx, hwindow⟩ := ih fun k hk => hfit k (Nat.lt_succ_of_lt hk)
    obtain ⟨hnext, hwindow'⟩ := next_of_window ha hb hba htop hwindow (hfit n n.lt_succ_self)
    exact ⟨hnext.trans (congrArg (· + 1) hx), hwindow'⟩

/-- A full turn above the window of moves is never made up for. -/
theorem next_high {s : Moves} (hm : 0 < m) (hba : b ≤ a) (htop : b + top < m) (hhigh : m - b ≤ 2 * s.err a b)
    (hmove : -b < fold m top (2 * s.err a b)) : m - b ≤ 2 * (s.next m top a b).err a b := by
  have hturn := fold_add_le hm top _ (show top < 2 * s.err a b by omega)
  rw [next]
  rw [if_pos hmove]
  by_cases hy : fold m top (2 * s.err a b) < a
  · rw [if_pos hy, err_moved]
    omega
  · rw [if_neg hy, err_moved]
    omega

theorem moved_of_all {n : Nat} (hx : (after m top a b (n + 1)).x = n + 1) :
    (after m top a b n).x = n ∧ -b < fold m top (2 * (after m top a b n).err a b) := by
  have hle := (after_le m top a b n).1
  rw [after, next] at hx
  dsimp only at hx
  split at hx
  · exact ⟨by omega, ‹_›⟩
  · omega

/-- Where the longer counter has moved each time, the doubled error has always fitted, or is a turn too high. -/
theorem fits_or_high (hm : 0 < m) (hba : b ≤ a) (htop : b + top < m) (n : Nat) (hx : (after m top a b n).x = n) :
    (∀ k < n, 2 * (after m top a b k).err a b ≤ top) ∨ m - b ≤ 2 * (after m top a b n).err a b := by
  induction n with
  | zero => exact .inl fun k hk => absurd hk k.not_lt_zero
  | succ n ih =>
    obtain ⟨hx, hmove⟩ := moved_of_all hx
    rcases ih hx with hfit | hhigh
    · by_cases hlast : 2 * (after m top a b n).err a b ≤ top
      · refine .inl fun k hk => ?_
        rcases Nat.lt_succ_iff_lt_or_eq.mp hk with hk | rfl
        · exact hfit k hk
        · exact hlast
      · have hturn := fold_add_le hm top _ (show top < 2 * (after m top a b n).err a b by omega)
        exact .inr (next_high hm hba htop (by omega) hmove)
    · exact .inr (next_high hm hba htop hhigh hmove)

/-! ### Along the shorter side -/

/-- If the counter of the shorter side moves each time, the error only sinks, and with steps too short to pass over
the values below `-b` it sinks to them. -/
theorem sinks (hm : 0 < m) (ha : 0 ≤ a) (hab : a < b) (hstep : top - m ≤ 2 * a - 3 * b) {n : Nat}
    (hx : (after m top a b n).x = n) : ∀ k < n, -b < top - 2 * k := by
  have hsink : ∀ k, (after m top a b k).x = k → fold m top (2 * (after m top a b k).err a b) ≤ top - 2 * k := by
    intro k hk
    induction k with
    | zero => exact (fold_le hm _ _).trans_eq (by omega)
    | succ k ih =>
      obtain ⟨hk, hmove⟩ := moved_of_all hk
      have hbelow := ih hk
      have herr (j : Nat) : 2 * err a b ⟨(after m top a b k).x + 1, (after m top a b k).y + j⟩ =
          2 * (after m top a b k).err a b + 2 * (a * j - b) := by
        rw [err_moved]
        push_cast
        ring
      rw [after, next, if_pos hmove, herr, fold_add]
      split
      · rw [Nat.cast_one, Int.mul_one, fold_of_mem (by omega) (by omega)]
        push_cast
        omega
      · rw [Nat.cast_zero, Int.mul_zero, fold_of_mem (by omega) (by omega)]
        push_cast
        omega
  have hall : ∀ k ≤ n, (after m top a b k).x = k := by
    intro k hk
    induction n, hk using Nat.le_induction with
    | base => exact hx
    | succ n _ ih => exact ih (moved_of_all hx).1
  intro k hk
  have hmove := (moved_of_all (hall (k + 1) hk)).2
  exact hmove.trans_le (hsink k (hall k hk.le))

/-! ### How high the error goes -/

/-- The highest multiple of the common divisor in the window. -/
def peak (a b : Int) : Int := Int.gcd a b * ((3 * (a / Int.gcd a b) - 1) / 2) - b

/-- The sides of a line over their common divisor. -/
private theorem exists_sides (ha : 0 < a) : ∃ g a' b' : Int, 0 < g ∧ 0 < a' ∧ (Int.gcd a b : Int) = g ∧ a = g * a' ∧
    b = g * b' ∧ peak a b = g * ((3 * a' - 1) / 2) - b := by
  obtain ⟨a', ha'⟩ : (Int.gcd a b : Int) ∣ a := Int.gcd_dvd_left a b
  obtain ⟨b', hb'⟩ : (Int.gcd a b : Int) ∣ b := Int.gcd_dvd_right a b
  have hg : 0 < (Int.gcd a b : Int) := Int.natCast_pos.mpr (Int.gcd_pos_of_ne_zero_left b ha.ne')
  have hpos : 0 < a' := by
    rw [ha'] at ha
    exact pos_of_mul_pos_right ha hg.le
  have hquot : a / Int.gcd a b = a' := Int.ediv_eq_of_eq_mul_right hg.ne' ha'
  exact ⟨_, a', b', hg, hpos, rfl, ha', hb', by rw [peak, hquot]⟩

theorem le_peak {e : Int} (ha : 0 < a) (hdvd : (Int.gcd a b : Int) ∣ e) (he : 2 * e < 3 * a - 2 * b) :
    e ≤ peak a b := by
  obtain ⟨g, a', b', hg, -, hgcd, haa, hbb, hpeak⟩ := exists_sides (b := b) ha
  rw [hgcd] at hdvd
  obtain ⟨t, rfl⟩ := hdvd
  have hlt : g * (2 * (t + b')) < g * (3 * a') := by
    rw [haa, hbb] at he
    linarith
  have hquot : g * (t + b') ≤ g * ((3 * a' - 1) / 2) :=
    Int.mul_le_mul_of_nonneg_left (by have := lt_of_mul_lt_mul_left hlt hg.le; omega) hg.le
  rw [hpeak, hbb]
  linarith

theorem window_peak (ha : 0 < a) : Window a b (peak a b) := by
  obtain ⟨g, a', b', hg, hpos, -, haa, -, hpeak⟩ := exists_sides (b := b) ha
  have hlow : g * a' ≤ g * (2 * ((3 * a' - 1) / 2)) := Int.mul_le_mul_of_nonneg_left (by omega) hg.le
  have hhigh : g * (2 * ((3 * a' - 1) / 2)) < g * (3 * a') := Int.mul_lt_mul_of_pos_left (by omega) hg
  rw [← haa] at hlow
  rw [Int.mul_left_comm, Int.mul_left_comm g 3, ← haa] at hhigh
  rw [Int.mul_left_comm] at hlow
  rw [Window, hpeak]
  constructor <;> linarith

/-- Among `a` steps in a row each multiple of the common divisor occurs, up to a multiple of `a`. -/
theorem exists_residue (ha : 0 < a) {p : Int} (hp : (Int.gcd a b : Int) ∣ p) :
    ∃ k : Nat, (k : Int) < a ∧ a ∣ p + b * k := by
  obtain ⟨t, rfl⟩ := hp
  obtain ⟨k, hk, hmod⟩ := Int.existsUnique_equiv_nat (-(Int.gcdB a b * t)) ha
  refine ⟨k, hk, ?_⟩
  obtain ⟨u, hu⟩ := hmod.symm.dvd
  refine ⟨Int.gcdA a b * t + b * u, ?_⟩
  rw [Int.gcd_eq_gcd_ab, show (k : Int) = a * u - Int.gcdB a b * t by omega]
  ring

/-- A value and its residue in the window are the same. -/
theorem eq_of_window {e e' : Int} (he : Window a b e) (he' : Window a b e') (hdvd : a ∣ e - e') : e = e' := by
  obtain ⟨t, ht⟩ := hdvd
  obtain ⟨hlow, hhigh⟩ := he
  obtain ⟨hlow', hhigh'⟩ := he'
  have hlt : a * t < a * 1 := by omega
  have hgt : a * -1 < a * t := by omega
  have ha : 0 ≤ a := by omega
  have := lt_of_mul_lt_mul_left hlt ha
  have := lt_of_mul_lt_mul_left hgt ha
  obtain rfl : t = 0 := by omega
  omega

/-- So a run as long as the longer side has met the peak. -/
theorem exists_peak (ha : 0 < a) (hb : 0 ≤ b) (hba : b ≤ a) (htop : b + top < m) {n : Nat} (hn : a ≤ n)
    (hfit : ∀ k < n, 2 * (after m top a b k).err a b ≤ top) : ∃ k < n, (after m top a b k).err a b = peak a b := by
  have hpeak : (Int.gcd a b : Int) ∣ peak a b + b :=
    Dvd.intro _ (Int.sub_add_cancel _ b).symm
  obtain ⟨k, hk, u, hu⟩ := exists_residue ha hpeak
  have hkn : k < n := by omega
  obtain ⟨hx, hwindow⟩ := window_run ha hb hba htop k fun i hi => hfit i (by omega)
  refine ⟨k, hkn, eq_of_window hwindow (window_peak ha) ⟨1 + (after m top a b k).y - u, ?_⟩⟩
  rw [err, hx]
  linarith

/-! ### Where the counters end -/

variable {dx dy : Nat}

/-- If the peak fits, the counters end at any point of the line. -/
theorem after_eq (ha : 0 < a) (hb : 0 ≤ b) (hba : b ≤ a) (htop : b + top < m) (hpeak : 2 * peak a b ≤ top)
    (hline : a * dy = b * dx) : after m top a b dx = ⟨dx, dy⟩ := by
  have hfit (n : Nat) : 2 * (after m top a b n).err a b ≤ top := by
    induction n using Nat.strong_induction_on with
    | _ n ih =>
      obtain ⟨-, hwindow⟩ := window_run ha hb hba htop n ih
      have := le_peak ha (gcd_dvd_err _) hwindow.2
      omega
  obtain ⟨hx, hlow, hhigh⟩ := window_run ha hb hba htop dx fun k _ => hfit k
  have herr : (after m top a b dx).err a b = a - b + a * ((after m top a b dx).y - dy) := by
    rw [err, hx]
    linarith
  rw [herr] at hlow hhigh
  have hlt : a * ((after m top a b dx).y - dy) < a * 1 := by omega
  have hgt : a * -1 < a * ((after m top a b dx).y - dy) := by omega
  have := lt_of_mul_lt_mul_left hlt ha.le
  have := lt_of_mul_lt_mul_left hgt ha.le
  have hy : (after m top a b dx).y = dy := by omega
  calc after m top a b dx = ⟨(after m top a b dx).x, (after m top a b dx).y⟩ := rfl
    _ = ⟨dx, dy⟩ := by rw [hx, hy]

/-- If they end at a point to which the error is not a turn too high, it has always fitted. -/
theorem fits_of_after_eq (hm : 0 < m) (hba : b ≤ a) (htop : b + top < m) (hend : after m top a b dx = ⟨dx, dy⟩)
    (hlow : 2 * (a - b - b * dx + a * dy) < m - b) : ∀ k < dx, 2 * (after m top a b k).err a b ≤ top := by
  refine (fits_or_high hm hba htop dx (by rw [hend])).resolve_right fun hhigh => ?_
  rw [hend, err] at hhigh
  dsimp only at hhigh
  omega

end Straight

end Moves
end Nafuraito.Library
