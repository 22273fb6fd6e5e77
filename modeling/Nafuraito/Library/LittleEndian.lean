import Nafuraito.Library.Bitmap
import Mathlib.Logic.Function.Basic

/-! Numbers stored in consecutive bytes, the low byte first. -/
namespace Nafuraito.Library

/-- The number in the `n` bytes from `a` on. -/
def readLE (b : Bytes) : Nat → Nat → Nat
  | _, 0 => 0
  | a, n+1 => (b a).toNat + 256 * readLE b (a+1) n

/-- The low `n` bytes of `v` stored from `a` on. -/
def writeLE (b : Bytes) : Nat → Nat → Nat → Bytes
  | _, 0, _ => b
  | a, n+1, v => writeLE (Function.update b a (BitVec.ofNat 8 v)) (a+1) n (v/256)

variable {b c : Bytes} {a n : Nat}

theorem readLE_congr (h : ∀ i, a ≤ i → i < a+n → c i = b i) : readLE c a n = readLE b a n := by
  induction n generalizing a with
  | zero => rfl
  | succ n ih =>
    rw [readLE, readLE, h a (by omega) (by omega), ih fun i hi hlt => h i (by omega) (by omega)]

theorem writeLE_other {v i : Nat} (h : i < a ∨ a+n ≤ i) : writeLE b a n v i = b i := by
  induction n generalizing a b v with
  | zero => rfl
  | succ n ih => rw [writeLE, ih (by omega), Function.update_of_ne (by omega)]

theorem readLE_writeLE (v : Nat) : readLE (writeLE b a n v) a n = v % 256^n := by
  induction n generalizing a b v with
  | zero => rw [readLE, Nat.pow_zero, Nat.mod_one]
  | succ n ih =>
    rw [readLE, writeLE, ih, writeLE_other (by omega), Function.update_self, BitVec.toNat_ofNat,
      show 2^8 = 256 from rfl, Nat.pow_succ', Nat.mod_mul]

/-- What is stored elsewhere is read as before. -/
theorem readLE_writeLE_other {k m v : Nat} (h : k+m ≤ a ∨ a+n ≤ k) : readLE (writeLE b a n v) k m = readLE b k m :=
  readLE_congr fun _ _ _ => writeLE_other (by omega)

end Nafuraito.Library
