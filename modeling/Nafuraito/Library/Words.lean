import Mathlib.Algebra.Group.Nat.Defs
import Mathlib.Logic.Basic
import Mathlib.Tactic.Common

/-! Bits of machine words: words with low or high zeros, masks of a bit range, page bases. -/
namespace Nafuraito.Library.Words
variable {w : Nat}

theorem getLsbD_of_mod {x : BitVec w} {k i : Nat} (h : x.toNat % 2^k = 0) (hi : i < k) :
    x.getLsbD i = false := by
  have hd : (x.toNat % 2^k).testBit i = x.getLsbD i := by
    rw [Nat.testBit_mod_two_pow, decide_eq_true hi, Bool.true_and]
    rfl
  rw [← hd, h, Nat.zero_testBit]

theorem getLsbD_of_lt {x : BitVec w} {k i : Nat} (h : x.toNat < 2^k) (hi : k ≤ i) : x.getLsbD i = false :=
  Nat.testBit_lt_two_pow (Nat.lt_of_lt_of_le h (Nat.pow_le_pow_right (by decide) hi))

/-- A single bit. -/
theorem getLsbD_bit {k : Nat} (hk : k < w) (i : Nat) : (1#w <<< k).getLsbD i = decide (i = k) := by
  rw [BitVec.getLsbD_shiftLeft, BitVec.getLsbD_one]
  by_cases hi : i = k
  · subst hi
    simp [hk, Nat.zero_lt_of_lt hk]
  · have : ¬ (¬ i < k ∧ i - k = 0) := by omega
    rw [decide_eq_false hi]
    grind

/-- Testing a word against a single bit. -/
theorem and_bit_ne_zero (x : BitVec w) {k : Nat} (hk : k < w) :
    (x &&& (1#w <<< k) != 0#w) = x.getLsbD k := by
  have hbit (i : Nat) : (x &&& (1#w <<< k)).getLsbD i = (x.getLsbD i && decide (i = k)) := by
    rw [BitVec.getLsbD_and, getLsbD_bit hk]
  rw [Bool.eq_iff_iff, bne_iff_ne]
  constructor
  · intro hne
    by_contra hb
    apply hne
    apply BitVec.eq_of_getLsbD_eq
    intro i _
    rw [hbit, BitVec.getLsbD_zero]
    by_cases hi : i = k
    · subst hi
      rw [Bool.eq_false_iff.mpr hb, Bool.false_and]
    · rw [decide_eq_false hi, Bool.and_false]
  · intro hb hz
    have := hbit k
    rw [hz, BitVec.getLsbD_zero, hb] at this
    simp at this

/-- `mask` has exactly the bits `lo ≤ i < hi`. -/
def IsMask (mask : BitVec w) (lo hi : Nat) : Prop :=
  ∀ i, mask.getLsbD i = decide (lo ≤ i ∧ i < hi)

section Mask
variable {mask x y : BitVec w} {lo hi : Nat} (hm : IsMask mask lo hi)
include hm

theorem getLsbD_and_mask (i : Nat) : (x &&& mask).getLsbD i = (x.getLsbD i && decide (lo ≤ i ∧ i < hi)) := by
  rw [BitVec.getLsbD_and, hm]

theorem and_mask_mod : (x &&& mask).toNat % 2^lo = 0 := by
  apply Nat.eq_of_testBit_eq
  intro i
  rw [Nat.testBit_mod_two_pow, Nat.zero_testBit]
  by_cases hi : i < lo
  · have : (x &&& mask).getLsbD i = false := by
      rw [getLsbD_and_mask hm, decide_eq_false (by omega), Bool.and_false]
    rw [show (x &&& mask).toNat.testBit i = false from this, Bool.and_false]
  · rw [decide_eq_false hi, Bool.false_and]

theorem and_mask_lt : (x &&& mask).toNat < 2^hi := by
  apply Nat.lt_pow_two_of_testBit
  intro i hi
  have : (x &&& mask).getLsbD i = false := by
    rw [getLsbD_and_mask hm, decide_eq_false (by omega), Bool.and_false]
  exact this

/-- Masking keeps a word that has no other bits. -/
theorem and_mask_of_aligned (hmod : x.toNat % 2^lo = 0) (hlt : x.toNat < 2^hi) : x &&& mask = x := by
  apply BitVec.eq_of_getLsbD_eq
  intro i _
  rw [getLsbD_and_mask hm]
  rcases Nat.lt_or_ge i lo with h | h
  · rw [getLsbD_of_mod hmod h, Bool.false_and]
  · rcases Nat.lt_or_ge i hi with h' | h'
    · rw [decide_eq_true ⟨h, h'⟩, Bool.and_true]
    · rw [getLsbD_of_lt hlt h', Bool.false_and]

end Mask

/-- The bits under the mask are those of the first word when the second has none there. -/
theorem and_mask_or {mask x y : BitVec w} (hy : y &&& mask = 0#w) : ((x &&& mask) ||| y) &&& mask = x &&& mask := by
  apply BitVec.eq_of_getLsbD_eq
  intro i hi
  have h : (y.getLsbD i && mask.getLsbD i) = false := by
    rw [← BitVec.getLsbD_and, hy, BitVec.getLsbD_zero]
  rw [BitVec.getLsbD_and, BitVec.getLsbD_or, BitVec.getLsbD_and]
  grind

/-- A base with low zeros and a small offset: `or` is addition. -/
theorem or_toNat {x y : BitVec w} {k : Nat} (hx : x.toNat % 2^k = 0) (hy : y.toNat < 2^k) :
    (x ||| y).toNat = x.toNat + y.toNat := by
  have := Nat.two_pow_add_eq_or_of_lt hy (x.toNat / 2^k)
  rw [Nat.mul_div_cancel' (Nat.dvd_of_mod_eq_zero hx)] at this
  rw [BitVec.toNat_or, ← this]

/-- The word without its low bits, which `mask` has, is the multiple of the page size below. -/
theorem and_not_toNat {x mask : BitVec w} {k : Nat} (hm : IsMask mask 0 k) :
    (x &&& ~~~mask).toNat = x.toNat / 2^k * 2^k := by
  apply Nat.eq_of_testBit_eq
  intro i
  have hl : (x &&& ~~~mask).getLsbD i = (x.getLsbD i && decide (k ≤ i)) := by
    rw [BitVec.getLsbD_and, BitVec.getLsbD_not, hm]
    by_cases hw : i < w
    · by_cases hk : k ≤ i <;> simp [hw, hk]; omega
    · rw [BitVec.getLsbD_of_ge x i (by omega), Bool.false_and, Bool.false_and]
  rw [Nat.mul_comm, Nat.testBit_two_pow_mul, Nat.testBit_div_two_pow]
  change (x &&& ~~~mask).getLsbD i = _
  rw [hl, Bool.and_comm]
  by_cases hk : k ≤ i
  · rw [Nat.sub_add_cancel hk]
    rfl
  · rw [decide_eq_false hk, Bool.false_and, Bool.false_and]

/-- The low bits are the remainder. -/
theorem and_low_toNat {x mask : BitVec w} {k : Nat} (hm : IsMask mask 0 k) :
    (x &&& mask).toNat = x.toNat % 2^k := by
  apply Nat.eq_of_testBit_eq
  intro i
  change (x &&& mask).getLsbD i = _
  rw [getLsbD_and_mask hm, Nat.testBit_mod_two_pow, Bool.and_comm]
  simp only [Nat.zero_le, true_and]
  rfl

end Nafuraito.Library.Words
