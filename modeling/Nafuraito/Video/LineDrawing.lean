import Nafuraito.Library.ErrorTerms
import Nafuraito.Video.Framebuffer

/-! When `gfx_draw_line` goes from its first point to its second: the 16-bit error must not overflow. -/
namespace Nafuraito.Video.Mode
open Library

/-- `|dx|` or `|dy|` without a bound. -/
def distance (u v : BitVec 16) : Nat := (v.toInt - u.toInt).natAbs

/-- The rectangle with the two points at opposite corners. -/
def InBox (x0 y0 x1 y1 : BitVec 16) (p : BitVec 16 × BitVec 16) : Prop :=
  (min x0.toInt x1.toInt ≤ p.1.toInt ∧ p.1.toInt ≤ max x0.toInt x1.toInt) ∧
    min y0.toInt y1.toInt ≤ p.2.toInt ∧ p.2.toInt ≤ max y0.toInt y1.toInt

/-- The loop ends, at the second point, after as many steps as the longer side has, and stays in the box. -/
def ReachesEnd (x0 y0 x1 y1 : BitVec 16) : Prop :=
  ∃ rounds points, alongLine (fun x y => [(x, y)]) rounds x0 y0 x1 y1 = (points, true) ∧
    points.length = max (distance x0 x1) (distance y0 y1) + 1 ∧ points.getLast? = some (x1, y1) ∧
    ∀ p ∈ points, InBox x0 y0 x1 y1 p

/-! ### Runs of the loop -/

def LineState.point (s : LineState) : BitVec 16 × BitVec 16 := (s.x0, s.y0)

section Loop
variable {l : Line}

/-- A loop that has ended did so at the first state with the end point, after visiting all before it. -/
theorem loop_eq_iff {rounds : Nat} {s : LineState} {points : List (BitVec 16 × BitVec 16)} :
    l.loop (fun x y => [(x, y)]) rounds s = (points, true) ↔
      ∃ n < rounds, (l.step^[n] s).point = (l.x1, l.y1) ∧ (∀ k < n, (l.step^[k] s).point ≠ (l.x1, l.y1)) ∧
        points = (List.range (n + 1)).map fun k => (l.step^[k] s).point := by
  induction rounds generalizing s points with
  | zero =>
    exact ⟨fun h => absurd (congrArg Prod.snd h) Bool.false_ne_true, fun ⟨_, h, _⟩ => absurd h (Nat.not_lt_zero _)⟩
  | succ rounds ih =>
    have hend : (s.x0 = l.x1 ∧ s.y0 = l.y1) ↔ s.point = (l.x1, l.y1) := Prod.mk.injEq .. ▸ Iff.rfl
    rw [Line.loop]
    split
    · rename_i hat
      rw [hend] at hat
      constructor
      · intro h
        refine ⟨0, Nat.succ_pos _, hat, fun k hk => absurd hk k.not_lt_zero, ?_⟩
        exact (congrArg Prod.fst h).symm
      · rintro ⟨n, -, -, hfirst, rfl⟩
        cases n with
        | zero => rfl
        | succ n => exact absurd hat (hfirst 0 n.succ_pos)
    · rename_i hnot
      rw [hend] at hnot
      dsimp only
      constructor
      · intro h
        obtain ⟨rfl, hdone⟩ := Prod.mk.inj h
        obtain ⟨n, hn, hat, hfirst, hpoints⟩ := ih.mp (Prod.ext rfl hdone)
        refine ⟨n + 1, by omega, hat, fun k hk => ?_, ?_⟩
        · cases k with
          | zero => exact hnot
          | succ k => exact hfirst k (by omega)
        · rw [List.range_succ_eq_map, List.map_cons, List.map_map]
          exact congrArg (List.cons s.point) hpoints
      · rintro ⟨n, hn, hat, hfirst, rfl⟩
        cases n with
        | zero => exact absurd hat hnot
        | succ n =>
          rw [ih.mpr ⟨n, by omega, hat, fun k hk => hfirst (k + 1) (by omega), rfl⟩,
            List.range_succ_eq_map (n := n + 1), List.map_cons, List.map_map]
          rfl

end Loop

/-! ### Coordinates as integers -/

theorem bmod_eq_fold (z : Int) : z.bmod (2^16) = fold 65536 32767 z := by
  rw [Int.bmod_def, fold]
  split <;> omega

private theorem toInt_mem (v : BitVec 16) : -32768 ≤ v.toInt ∧ v.toInt ≤ 32767 := by
  have := BitVec.toInt_lt (x := v)
  have := BitVec.le_toInt v
  omega

/-- A 16-bit difference: exact up to 32767, negative at 32768, and too small above. -/
theorem absI16_sub (u v : BitVec 16) : (absI16 (v - u)).toInt =
    if distance u v < 32768 then (distance u v : Int) else if distance u v = 32768 then -32768
    else 65536 - distance u v := by
  have hu := toInt_mem u
  have hv := toInt_mem v
  have hsub : (v - u).toInt = fold 65536 32767 (v.toInt - u.toInt) := by rw [BitVec.toInt_sub, bmod_eq_fold]
  have hneg : (-(v - u)).toInt = fold 65536 32767 (-(v - u).toInt) := by rw [BitVec.toInt_neg, bmod_eq_fold]
  rw [absI16, distance]
  rw [hsub] at hneg ⊢
  rw [fold] at hneg
  split
  · rw [hneg]
    rw [fold] at *
    omega
  · rw [hsub]
    rw [fold] at *
    omega

section Coordinate
variable (u v : BitVec 16) (n : Nat)

private theorem coordinate_toInt : (u + (if u.toInt < v.toInt then 1 else -1) * BitVec.ofNat 16 n).toInt =
    fold 65536 32767 (u.toInt + (if u.toInt < v.toInt then 1 else -1) * n) := by
  have h (sign : Int) : u + BitVec.ofInt 16 sign * BitVec.ofNat 16 n = BitVec.ofInt 16 (u.toInt + sign * n) := by
    rw [BitVec.ofInt_add, BitVec.ofInt_mul, BitVec.ofInt_toInt, BitVec.ofInt_natCast]
  split
  · rw [show (1 : BitVec 16) = BitVec.ofInt 16 1 from rfl, h, BitVec.toInt_ofInt, bmod_eq_fold]
  · rw [show (-1 : BitVec 16) = BitVec.ofInt 16 (-1) from rfl, h, BitVec.toInt_ofInt, bmod_eq_fold]

variable {u v n}

/-- A coordinate after a number of moves is the other one when they are as many as the distance. -/
theorem coordinate_eq_iff (hn : n < 65536) :
    u + (if u.toInt < v.toInt then 1 else -1) * BitVec.ofNat 16 n = v ↔ n = distance u v := by
  have hu := toInt_mem u
  have hv := toInt_mem v
  rw [← BitVec.toInt_inj, coordinate_toInt, fold, distance]
  split <;> omega

/-- Up to that many moves it is between them. -/
theorem coordinate_mem (hn : n ≤ distance u v) :
    min u.toInt v.toInt ≤ (u + (if u.toInt < v.toInt then 1 else -1) * BitVec.ofNat 16 n).toInt ∧
      (u + (if u.toInt < v.toInt then 1 else -1) * BitVec.ofNat 16 n).toInt ≤ max u.toInt v.toInt := by
  have hu := toInt_mem u
  have hv := toInt_mem v
  rw [distance] at hn
  rw [coordinate_toInt, fold]
  split <;> omega

end Coordinate

/-! ### The moves of the loop -/

/-- The state after given moves from a point: the error is the exact one in 16 bits. -/
def Line.stateAfter (l : Line) (x0 y0 : BitVec 16) (s : Moves) : LineState :=
  ⟨x0 + l.sx * BitVec.ofNat 16 s.x, y0 + l.sy * BitVec.ofNat 16 s.y, BitVec.ofInt 16 (s.err l.dx.toInt l.dy.toInt)⟩

private theorem ofInt_sub (z w : Int) : BitVec.ofInt 16 (z - w) = BitVec.ofInt 16 z - BitVec.ofInt 16 w := by
  rw [Int.sub_eq_add_neg, BitVec.ofInt_add, BitVec.ofInt_neg, BitVec.sub_eq_add_neg]

/-- A round of the loop is a step of the two counters. -/
theorem step_stateAfter (l : Line) (x0 y0 : BitVec 16) (s : Moves) : l.step (l.stateAfter x0 y0 s) =
    l.stateAfter x0 y0 (s.next 65536 32767 l.dx.toInt l.dy.toInt) := by
  have hmove (v w : BitVec 16) (n : Nat) : v + w * BitVec.ofNat 16 n + w = v + w * BitVec.ofNat 16 (n + 1) := by
    rw [BitVec.ofNat_add, BitVec.mul_add, ← BitVec.add_assoc, BitVec.mul_one]
  have he2 : (2 * BitVec.ofInt 16 (s.err l.dx.toInt l.dy.toInt)).toInt =
      fold 65536 32767 (2 * s.err l.dx.toInt l.dy.toInt) := by
    rw [show (2 : BitVec 16) = BitVec.ofInt 16 2 from rfl, ← BitVec.ofInt_mul, BitVec.toInt_ofInt, bmod_eq_fold]
  rw [Line.step, Line.stateAfter, Line.stateAfter, Moves.next]
  dsimp only
  rw [he2, Moves.err_moved]
  by_cases hx : -l.dy.toInt < fold 65536 32767 (2 * s.err l.dx.toInt l.dy.toInt) <;>
    by_cases hy : fold 65536 32767 (2 * s.err l.dx.toInt l.dy.toInt) < l.dx.toInt <;>
    simp only [hx, hy, if_true, if_false, hmove, Nat.add_zero, Nat.cast_one, Nat.cast_zero, Int.mul_one, Int.mul_zero,
      Int.sub_zero, Int.add_zero, ofInt_sub, BitVec.ofInt_add, BitVec.ofInt_toInt]

theorem stateAfter_zero (l : Line) (x0 y0 : BitVec 16) : ⟨x0, y0, l.dx - l.dy⟩ = l.stateAfter x0 y0 ⟨0, 0⟩ := by
  have herr : Moves.err l.dx.toInt l.dy.toInt ⟨0, 0⟩ = l.dx.toInt - l.dy.toInt := by
    rw [Moves.err, Nat.cast_zero, Int.mul_zero, Int.mul_zero, Int.sub_zero, Int.add_zero]
  rw [Line.stateAfter, herr, ofInt_sub, BitVec.ofInt_toInt, BitVec.ofInt_toInt, BitVec.mul_zero, BitVec.mul_zero,
    BitVec.add_zero, BitVec.add_zero]

section Line
variable (x0 y0 x1 y1 : BitVec 16)

/-- The moves of a line after `n` rounds. -/
def lineMoves (n : Nat) : Moves :=
  Moves.after 65536 32767 (absI16 (x1 - x0)).toInt (absI16 (y1 - y0)).toInt n

theorem step_iterate (n : Nat) : (lineOf x0 y0 x1 y1).step^[n]
    ⟨x0, y0, (lineOf x0 y0 x1 y1).dx - (lineOf x0 y0 x1 y1).dy⟩ =
      (lineOf x0 y0 x1 y1).stateAfter x0 y0 (lineMoves x0 y0 x1 y1 n) := by
  induction n with
  | zero => exact stateAfter_zero _ _ _
  | succ n ih =>
    rw [Function.iterate_succ_apply', ih, step_stateAfter]
    rfl

/-- Each counter is at the distance of its coordinates when the coordinate is at its end. -/
theorem point_eq_iff {n : Nat} (hn : n < 65536) :
    ((lineOf x0 y0 x1 y1).stateAfter x0 y0 (lineMoves x0 y0 x1 y1 n)).point = (x1, y1) ↔
      lineMoves x0 y0 x1 y1 n = ⟨distance x0 x1, distance y0 y1⟩ := by
  have hle := Moves.after_le 65536 32767 (absI16 (x1 - x0)).toInt (absI16 (y1 - y0)).toInt n
  rw [LineState.point, Prod.mk.injEq, Moves.mk.injEq]
  exact and_congr (coordinate_eq_iff (hle.1.trans_lt hn)) (coordinate_eq_iff (hle.2.trans_lt hn))

private theorem distance_lt (u v : BitVec 16) : distance u v < 65536 := by
  have := toInt_mem u
  have := toInt_mem v
  rw [distance]
  omega

/-- The whole claim about a line is one about the moves after as many rounds as its longer side has. -/
theorem reachesEnd_iff : ReachesEnd x0 y0 x1 y1 ↔
    lineMoves x0 y0 x1 y1 (max (distance x0 x1) (distance y0 y1)) = ⟨distance x0 x1, distance y0 y1⟩ := by
  have hdx := distance_lt x0 x1
  have hdy := distance_lt y0 y1
  constructor
  · rintro ⟨rounds, points, hloop, hlength, -, -⟩
    obtain ⟨n, -, hat, -, rfl⟩ := loop_eq_iff.mp hloop
    rw [List.length_map, List.length_range] at hlength
    obtain rfl : n = max (distance x0 x1) (distance y0 y1) := by omega
    rw [step_iterate] at hat
    exact (point_eq_iff x0 y0 x1 y1 (by omega)).mp hat
  · generalize hn : max (distance x0 x1) (distance y0 y1) = n
    intro hend
    have hat := (point_eq_iff x0 y0 x1 y1 (show n < 65536 by omega)).mpr hend
    rw [← step_iterate] at hat
    refine ⟨n + 1, _, loop_eq_iff.mpr ⟨n, n.lt_succ_self, hat, fun k hk hearly => ?_, rfl⟩, ?_, ?_, fun p hp => ?_⟩
    · rw [step_iterate] at hearly
      have hk' := (point_eq_iff x0 y0 x1 y1 (by omega)).mp hearly
      have hle : (lineMoves x0 y0 x1 y1 k).x ≤ k ∧ (lineMoves x0 y0 x1 y1 k).y ≤ k := Moves.after_le _ _ _ _ k
      rw [hk'] at hle
      dsimp only at hle
      omega
    · rw [List.length_map, List.length_range, hn]
    · rw [List.range_succ, List.map_append, List.map_singleton, List.getLast?_concat]
      exact congrArg some hat
    · obtain ⟨k, hk, rfl⟩ := List.mem_map.mp hp
      have hmono : (lineMoves x0 y0 x1 y1 k).x ≤ (lineMoves x0 y0 x1 y1 n).x ∧
          (lineMoves x0 y0 x1 y1 k).y ≤ (lineMoves x0 y0 x1 y1 n).y :=
        Moves.after_mono (Nat.lt_succ_iff.mp (List.mem_range.mp hk))
      rw [hend] at hmono
      rw [step_iterate]
      exact ⟨coordinate_mem hmono.1, coordinate_mem hmono.2⟩

end Line

/-! ### Distances in 16 bits -/

/-- A distance and what is left of it in 16 bits, if that is not negative. -/
def Kept (d : Nat) (a : Int) : Prop := (d < 32768 ∧ a = d) ∨ (32768 < d ∧ d < 65536 ∧ a = 65536 - d)

theorem kept_absI16 {u v : BitVec 16} (h : distance u v ≠ 32768) : Kept (distance u v) (absI16 (v - u)).toInt := by
  have hlt := distance_lt u v
  rw [Kept, absI16_sub]
  split
  · exact .inl ⟨‹_›, rfl⟩
  · exact .inr ⟨by omega, hlt, rfl⟩

section Sides
variable {dx dy : Nat} {a b top : Int} (ha : Kept dx a) (hb : Kept dy b) (hle : dy ≤ dx)
include ha hb hle

/-- The error that such an end would leave is no turn above the window. -/
private theorem end_low (hba : b ≤ a) : 2 * (a - b - b * dx + a * dy) < 65536 - b := by
  rcases ha with ⟨hdx, rfl⟩ | ⟨hdx, hdx', rfl⟩ <;> rcases hb with ⟨hdy, rfl⟩ | ⟨hdy, hdy', rfl⟩
  · rw [Int.mul_comm (dx : Int) dy]
    omega
  · omega
  · have hturn : (dy : Int) * (65536 - dx - dx) ≤ 0 := Int.mul_nonpos_of_nonneg_of_nonpos (by omega) (by omega)
    linarith
  · obtain rfl : dx = dy := by omega
    omega

variable (htop : top ≤ 32768)
include htop

/-- Along the longer side, where the kept distances have the direction of the line and the highest error fits. -/
theorem after_eq_of_peak (hline : a * dy = b * dx) (hpeak : 2 * Moves.peak a b ≤ top) :
    Moves.after 65536 top a b dx = ⟨dx, dy⟩ := by
  rcases Nat.eq_zero_or_pos dx with rfl | hpos
  · obtain rfl : dy = 0 := by omega
    rfl
  · rw [Kept] at ha hb
    have hba : b * dx ≤ a * dx := by
      rw [← hline]
      exact Int.mul_le_mul_of_nonneg_left (by omega) (by omega)
    exact Moves.after_eq (by omega) (by omega) (le_of_mul_le_mul_right hba (by omega)) (by omega) hpeak hline

/-- A wrapped distance goes along with another one only if that is zero. -/
private theorem line_of_window (hpos : 0 < dx) (hba : b ≤ a) (hfirst : 2 * (a - b) ≤ top)
    (hwindow : Moves.Window a b (a - b - b * dx + a * dy)) : a * dy = b * dx := by
  rcases ha with ⟨hdx, rfl⟩ | ⟨hdx, hdx', rfl⟩ <;> rcases hb with ⟨hdy, rfl⟩ | ⟨hdy, hdy', rfl⟩
  · exact Int.mul_comm _ _
  · omega
  · obtain ⟨hlow, -⟩ := hwindow
    rcases Nat.eq_zero_or_pos dy with rfl | hdy0
    · rw [Nat.cast_zero, Int.mul_zero, Int.zero_mul]
    · have hover : 4 * ((dy : Int) * (dx - 32768)) ≤ 65536 - dx := by linarith
      have hy : (dy : Int) * 1 ≤ dy * (dx - 32768) := Int.mul_le_mul_of_nonneg_left (by omega) (by omega)
      have hx : 1 * ((dx : Int) - 32768) ≤ dy * (dx - 32768) := Int.mul_le_mul_of_nonneg_right (by omega) (by omega)
      omega
  · obtain rfl : dx = dy := by omega
    rfl

/-- Along a side that wraps to less than the other one the loop stalls, if the error cannot pass over. -/
private theorem le_of_after_eq (hnonneg : 0 ≤ top) (hwrapped : 32768 < dx → 3 * b - 2 * a ≤ 32768)
    (hend : Moves.after 65536 top a b dx = ⟨dx, dy⟩) : b ≤ a := by
  rw [Kept] at ha hb
  by_contra hab
  have hlow := Moves.sinks (m := 65536) (by decide) (by omega) (by omega : a < b) (by omega)
    (show (Moves.after 65536 top a b dx).x = dx by rw [hend]) 32768 (by omega)
  omega

/-- And only there, as long as the kept distances are in the order of the distances. -/
theorem peak_of_after_eq (hnonneg : 0 ≤ top) (hba : b ≤ a) (hend : Moves.after 65536 top a b dx = ⟨dx, dy⟩) :
    a * dy = b * dx ∧ 2 * Moves.peak a b ≤ top := by
  rcases Nat.eq_zero_or_pos dx with rfl | hpos
  · obtain rfl : dy = 0 := by omega
    obtain rfl : a = 0 := by rw [Kept] at ha; omega
    obtain rfl : b = 0 := by rw [Kept] at hb; omega
    exact ⟨rfl, hnonneg⟩
  · have hsides : 0 < a ∧ a ≤ dx ∧ 0 ≤ b ∧ b + top < 65536 := by
      rw [Kept] at ha hb
      omega
    obtain ⟨ha0, hadx, hb0, hsum⟩ := hsides
    have hfit := Moves.fits_of_after_eq (by decide) hba hsum hend (end_low ha hb hle hba)
    obtain ⟨-, hwindow⟩ := Moves.window_run ha0 hb0 hba hsum dx hfit
    rw [hend, Moves.err] at hwindow
    have hfirst := hfit 0 hpos
    rw [Moves.after, Moves.err, Nat.cast_zero, Int.mul_zero, Int.mul_zero, Int.sub_zero, Int.add_zero] at hfirst
    obtain ⟨k, hk, hpeak⟩ := Moves.exists_peak ha0 hb0 hba hsum hadx hfit
    exact ⟨line_of_window ha hb hle htop hpos hba hfirst hwindow, hpeak ▸ hfit k hk⟩

end Sides

/-! ### A distance of 32768 -/

/-- What is kept of it is negative, and its counter does not move at all. -/
private theorem after_x_negative (b : Int) (n : Nat) : (Moves.after 65536 32767 (-32768) b n).y = 0 := by
  induction n with
  | zero => rfl
  | succ n ih =>
    rw [Moves.after, Moves.next]
    have := lt_fold (m := 65536) (by decide) 32767 (2 * (Moves.after 65536 32767 (-32768) b n).err (-32768) b)
    dsimp only
    rw [ih, if_neg (by omega)]

private theorem after_y_negative (a : Int) (n : Nat) : (Moves.after 65536 32767 a (-32768) n).x = 0 := by
  induction n with
  | zero => rfl
  | succ n ih =>
    rw [Moves.after, Moves.next]
    have := fold_le (m := 65536) (by decide) 32767 (2 * (Moves.after 65536 32767 a (-32768) n).err a (-32768))
    dsimp only
    rw [ih, if_neg (by omega)]

private theorem after_stuck {a b : Int} (h : (⟨0, 0⟩ : Moves).next 65536 32767 a b = ⟨0, 0⟩) (n : Nat) :
    Moves.after 65536 32767 a b n = ⟨0, 0⟩ := by
  induction n with
  | zero => rfl
  | succ n ih => rw [Moves.after, ih, h]

/-! ### Which lines end -/

/-- The 16-bit differences keep the direction of the line, and twice the highest error of a line along them is
a 16-bit value. -/
def LineFits (x0 y0 x1 y1 : BitVec 16) : Prop :=
  let dx := (absI16 (x1 - x0)).toInt
  let dy := (absI16 (y1 - y0)).toInt
  distance x0 x1 ≠ 32768 ∧ distance y0 y1 ≠ 32768 ∧ dx * distance y0 y1 = dy * distance x0 x1 ∧
    if distance y0 y1 ≤ distance x0 x1 then Moves.peak dx dy ≤ 16383 else Moves.peak dy dx ≤ 16384

/-- The longer side wraps to so little that a step of the error can pass over the values at which the loop
would stall. -/
def PassesOver (x0 y0 x1 y1 : BitVec 16) : Prop :=
  let dx := (absI16 (x1 - x0)).toInt
  let dy := (absI16 (y1 - y0)).toInt
  (distance y0 y1 < distance x0 x1 ∧ 32768 < distance x0 x1 ∧ 32768 < 3 * dy - 2 * dx) ∨
    (distance x0 x1 < distance y0 y1 ∧ 32768 < distance y0 y1 ∧ 32768 < 3 * dx - 2 * dy)

section Main
variable {x0 y0 x1 y1 : BitVec 16}

/-- No line with a side of 32768 ends. -/
theorem distance_ne (h : ReachesEnd x0 y0 x1 y1) : distance x0 x1 ≠ 32768 ∧ distance y0 y1 ≠ 32768 := by
  rw [reachesEnd_iff, lineMoves] at h
  constructor
  · intro hdx
    rw [absI16_sub x0, if_neg (by omega), if_pos hdx] at h
    have hdy : distance y0 y1 = 0 := by rw [← after_x_negative, h]
    rw [absI16_sub y0, if_pos (by omega), hdx, hdy, after_stuck (by decide), Moves.mk.injEq] at h
    exact absurd h.1 (by decide)
  · intro hdy
    rw [absI16_sub y0, if_neg (by omega), if_pos hdy] at h
    have hdx : distance x0 x1 = 0 := by rw [← after_y_negative, h]
    rw [absI16_sub x0, if_pos (by omega), hdx, hdy, after_stuck (by decide), Moves.mk.injEq] at h
    exact absurd h.2 (by decide)

/-- A steep line is a flat one with its coordinates exchanged, and its window mirrored. -/
theorem reachesEnd_steep (h : distance x0 x1 < distance y0 y1) : ReachesEnd x0 y0 x1 y1 ↔
    Moves.after 65536 32768 (absI16 (y1 - y0)).toInt (absI16 (x1 - x0)).toInt (distance y0 y1) =
      ⟨distance y0 y1, distance x0 x1⟩ := by
  have hswap := Moves.after_swap (m := 65536) 32767 (absI16 (x1 - x0)).toInt (absI16 (y1 - y0)).toInt (by decide)
    (distance y0 y1)
  rw [reachesEnd_iff, lineMoves, show max (distance x0 x1) (distance y0 y1) = distance y0 y1 by omega]
  rw [show (65536 - 1 - 32767 : Int) = 32768 from rfl] at hswap
  rw [← hswap, Moves.swap, Moves.mk.injEq, Moves.mk.injEq]
  exact and_comm

theorem lineFits_reachesEnd (h : LineFits x0 y0 x1 y1) : ReachesEnd x0 y0 x1 y1 := by
  obtain ⟨hdx, hdy, hline, hpeak⟩ := h
  have ha := kept_absI16 hdx
  have hb := kept_absI16 hdy
  by_cases hle : distance y0 y1 ≤ distance x0 x1
  · rw [if_pos hle] at hpeak
    rw [reachesEnd_iff, Nat.max_eq_left hle]
    exact after_eq_of_peak ha hb hle (by decide) hline (by omega)
  · rw [if_neg hle] at hpeak
    rw [reachesEnd_steep (by omega)]
    exact after_eq_of_peak hb ha (by omega) (by decide) hline.symm (by omega)

theorem reachesEnd_lineFits (hkept : ¬ PassesOver x0 y0 x1 y1) (h : ReachesEnd x0 y0 x1 y1) : LineFits x0 y0 x1 y1 := by
  obtain ⟨hdx, hdy⟩ := distance_ne h
  have ha := kept_absI16 hdx
  have hb := kept_absI16 hdy
  rw [PassesOver] at hkept
  by_cases hle : distance y0 y1 ≤ distance x0 x1
  · rw [reachesEnd_iff, Nat.max_eq_left hle] at h
    have hwrapped (hlong : 32768 < distance x0 x1) : 3 * (absI16 (y1 - y0)).toInt - 2 * (absI16 (x1 - x0)).toInt ≤
        32768 := by
      rw [Kept] at ha hb
      omega
    have hba := le_of_after_eq ha hb hle (by decide) (by decide) hwrapped h
    obtain ⟨hline, hpeak⟩ := peak_of_after_eq ha hb hle (by decide) (by decide) hba h
    exact ⟨hdx, hdy, hline, by rw [if_pos hle]; omega⟩
  · rw [reachesEnd_steep (by omega)] at h
    have hab := le_of_after_eq hb ha (by omega) (by decide) (by decide) (fun hlong => by omega) h
    obtain ⟨hline, hpeak⟩ := peak_of_after_eq hb ha (by omega) (by decide) (by decide) hab h
    exact ⟨hdx, hdy, hline.symm, by rw [if_neg hle]; omega⟩

end Main

/-- Lines that fit end, and no others but what the error may chance to in passing over. -/
theorem gfxDrawLine_ends (x0 y0 x1 y1 : BitVec 16) :
    (LineFits x0 y0 x1 y1 → ReachesEnd x0 y0 x1 y1) ∧
      (¬ PassesOver x0 y0 x1 y1 → ReachesEnd x0 y0 x1 y1 → LineFits x0 y0 x1 y1) :=
  ⟨lineFits_reachesEnd, reachesEnd_lineFits⟩

/-- A level line of 20000 pixels leaves its row in the first step. -/
theorem levelLine_leaves : ¬ ReachesEnd 0 0 20000 0 := by
  intro h
  rw [reachesEnd_iff] at h
  have hmono : (lineMoves 0 0 20000 0 1).y ≤ (lineMoves 0 0 20000 0 20000).y :=
    (Moves.after_mono (k := 1) (n := 20000) (by omega)).2
  have hend : lineMoves 0 0 20000 0 20000 = ⟨20000, 0⟩ := h
  rw [hend] at hmono
  exact absurd hmono (by decide)

end Nafuraito.Video.Mode
