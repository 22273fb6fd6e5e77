import Nafuraito.Library.Runs
import Nafuraito.Memory.FrameAccounting

/-! The fragmentation estimate: the longest free run as a share of the free frames.
The operators are a parameter: one body serves the build, which wraps, and a reading in which
an operation out of range has no value. -/
namespace Nafuraito.Memory
open Nafuraito.Library

/-- Operators on `usize`; `none` is a panic or a value out of range. -/
structure Arithmetic where
  add : Nat → Nat → Option Nat
  sub : Nat → Nat → Option Nat
  mul : Nat → Nat → Option Nat
  div : Nat → Nat → Option Nat

namespace Arithmetic

/-- What the build executes: only a division by zero panics. -/
def wrapping : Arithmetic where
  add a b := some (u64 (a+b))
  sub a b := some (u64Sub a b)
  mul a b := some (u64 (a*b))
  div a b := if b = 0 then none else some (a/b)

/-- No overflow and no underflow either. -/
def checked : Arithmetic where
  add a b := if a+b < 2^64 then some (a+b) else none
  sub a b := if b ≤ a then some (a-b) else none
  mul a b := if a*b < 2^64 then some (a*b) else none
  div a b := if b = 0 then none else some (a/b)

/-- The operators agree with the naturals' wherever these stay in range. -/
structure Exact (A : Arithmetic) : Prop where
  add {a b : Nat} : a+b < 2^64 → A.add a b = some (a+b)
  sub {a b : Nat} : b ≤ a → a < 2^64 → A.sub a b = some (a-b)
  mul {a b : Nat} : a*b < 2^64 → A.mul a b = some (a*b)
  div {a b : Nat} : b ≠ 0 → A.div a b = some (a/b)

theorem wrapping_exact : Exact wrapping where
  add h := congrArg some (u64_of_lt h)
  sub h ha := congrArg some (u64Sub_of_le h ha)
  mul h := congrArg some (u64_of_lt h)
  div h := if_neg h

theorem checked_exact : Exact checked where
  add h := if_pos h
  sub h _ := if_pos h
  mul h := if_pos h
  div h := if_neg h

end Arithmetic

namespace PhysicalMemoryManager
variable {s : PhysicalMemoryManager} {A : Arithmetic}

/-- One round of the scan, on `(max_contiguous, current_run)`. -/
def scanFrame (A : Arithmetic) (s : PhysicalMemoryManager) :
    Nat × Nat → Nat → Option (Nat × Nat)
  | (maxContiguous, currentRun), frame =>
    if !s.testBit frame then
      (A.add currentRun 1).map fun run => (if run > maxContiguous then run else maxContiguous, run)
    else some (maxContiguous, 0)

/-- The second test of the counter repeats the first; the cast to `u8` keeps the low byte. -/
def fragmentationWith (A : Arithmetic) (s : PhysicalMemoryManager) : Option Nat :=
  if s.freeFrames = 0 then some 0
  else do
    let (maxContiguous, _) ← (List.range s.totalFrames).foldlM (s.scanFrame A) (0, 0)
    if s.freeFrames = 0 then return 100
    let ratio ← A.div (← A.mul maxContiguous 100) s.freeFrames
    return (← A.sub 100 ratio) % 256

def fragmentationEstimate : PhysicalMemoryManager → Option Nat := fragmentationWith .wrapping

private def isFree (s : PhysicalMemoryManager) (frame : Nat) : Bool := !s.testBit frame

private theorem isFree_iff {f : Nat} : s.isFree f = true ↔ s.Free f := by
  unfold isFree testBit Free
  split <;> simp <;> omega

private theorem scanFrame_eq (hA : A.Exact) {n : Nat} (hn : n < 2^63) (counts : Nat × Nat) (hc : counts.2 ≤ n) :
    s.scanFrame A counts n = some (if s.isFree n then (max counts.1 (counts.2+1), counts.2+1)
      else (counts.1, 0)) := by
  obtain ⟨longest, run⟩ := counts
  change run ≤ n at hc
  have hbit : (!s.testBit n) = s.isFree n := rfl
  simp only [scanFrame, hbit]
  by_cases hfree : s.isFree n = true
  · rw [if_pos hfree, if_pos hfree, hA.add (by omega)]
    have hmax : (if run+1 > longest then run+1 else longest) = max longest (run+1) := by
      split <;> omega
    exact congrArg (fun m => some (m, run+1)) hmax
  · rw [if_neg hfree, if_neg hfree]

/-- The scan is the one that finds the longest run. -/
private theorem scan_eq (hA : A.Exact) {n : Nat} (hn : n < 2^63) :
    (List.range n).foldlM (s.scanFrame A) (0, 0) = some (runScan s.isFree n) := by
  induction n with
  | zero => rfl
  | succ n ih =>
    rw [List.range_succ, List.foldlM_append, ih (by omega)]
    simp only [Option.bind_eq_bind, Option.bind_some, List.foldlM_cons, List.foldlM_nil]
    rw [scanFrame_eq hA (by omega) _ (runScan.open_le n)]
    rfl

private theorem free_card (h : Accounting s) :
    ((Finset.range s.totalFrames).filter (fun f => s.isFree f = true)).card = s.freeFrames := by
  rw [h.counted]
  congr 1
  ext f
  simp [isFree_iff, Bitmap.mem_clearBits, Free]

/-- The value under any operators that are exact in range: the bounds hold because the
longest run cannot exceed the counter. -/
private theorem fragmentationWith_eq (hA : A.Exact) (h : Accounting s) (hfree : s.freeFrames ≠ 0) :
    s.fragmentationWith A =
      some (100 - (runScan s.isFree s.totalFrames).1 * 100 / s.freeFrames) := by
  have htotal := s.total_le
  have hle : (runScan s.isFree s.totalFrames).1 ≤ s.freeFrames := free_card h ▸ runScan.longest_le_card _
  have hfreele := h.free_le
  have hratio : (runScan s.isFree s.totalFrames).1 * 100 / s.freeFrames ≤ 100 := by
    apply Nat.div_le_of_le_mul
    exact Nat.mul_le_mul_right 100 hle
  unfold fragmentationWith
  rw [if_neg hfree, scan_eq hA (by omega)]
  simp only [Option.bind_eq_bind, Option.bind_some, if_neg hfree]
  rw [hA.mul (by omega)]
  simp only [Option.bind_some]
  rw [hA.div hfree]
  simp only [Option.bind_some]
  rw [hA.sub hratio (by decide)]
  exact congrArg some (Nat.mod_eq_of_lt (Nat.lt_of_le_of_lt (Nat.sub_le 100 _) (by decide)))

/-- The estimate is exact at both ends: it always has a value in `0..100`, and it is zero
exactly when the free frames are one run or there are none. -/
theorem fragmentationEstimate_exact (h : Accounting s) :
    ∃ r ≤ 100, s.fragmentationWith .checked = some r ∧ s.fragmentationEstimate = some r ∧
      (r = 0 ↔ ∃ first last, ∀ f, s.Free f ↔ first ≤ f ∧ f < last) := by
  have hcard := free_card h
  have hruns := runScan.longest_eq_card (p := s.isFree) (n := s.totalFrames)
  have hfreeiff (f : Nat) : f < s.totalFrames ∧ s.isFree f = true ↔ s.Free f := by
    rw [isFree_iff]
    exact and_iff_right_of_imp And.left
  simp only [hcard, hfreeiff] at hruns
  rw [← hruns]
  by_cases hfree : s.freeFrames = 0
  · have hlongest : (runScan s.isFree s.totalFrames).1 = s.freeFrames :=
      Nat.le_antisymm (hcard ▸ runScan.longest_le_card _) (hfree ▸ Nat.zero_le _)
    exact ⟨0, by decide, if_pos hfree, if_pos hfree, fun _ => hlongest, fun _ => rfl⟩
  · refine ⟨_, Nat.sub_le _ _, fragmentationWith_eq Arithmetic.checked_exact h hfree,
      fragmentationWith_eq Arithmetic.wrapping_exact h hfree, ?_⟩
    have hle : (runScan s.isFree s.totalFrames).1 ≤ s.freeFrames := hcard ▸ runScan.longest_le_card _
    have hpos : 0 < s.freeFrames := Nat.pos_of_ne_zero hfree
    rw [Nat.sub_eq_zero_iff_le, Nat.le_div_iff_mul_le hpos]
    omega

theorem tenFrames_fragmentation :
    ∃ r ≤ 100, tenFrames.fragmentationWith .checked = some r ∧ tenFrames.fragmentationEstimate = some r ∧
      (r = 0 ↔ ∃ first last, ∀ f, tenFrames.Free f ↔ first ≤ f ∧ f < last) :=
  fragmentationEstimate_exact tenFrames_accounting

/-- Two runs of four and of five frames: the longer one is 55% of the free memory. -/
example : (tenFrames.setBit 4).fragmentationEstimate = some 45 := by decide

end PhysicalMemoryManager
end Nafuraito.Memory
