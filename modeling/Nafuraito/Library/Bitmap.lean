import Mathlib.Data.Finset.Card
import Mathlib.Data.Finset.Filter
import Mathlib.Order.Interval.Finset.Nat
import Mathlib.Logic.Function.Basic

/-! Bitmaps stored in bytes: bit `n` is bit `n % 8` of byte `n / 8`.
Nothing bounds the bytes, so a store past a bitmap's end is a store like any other. -/
namespace Nafuraito.Library

abbrev Byte := BitVec 8

/-- The bytes from some pointer on. -/
abbrev Bytes := Nat → Byte

namespace Bitmap

/-- `byte & (1 << bit) != 0`. -/
def bitOn (byte : Byte) (bit : Nat) : Bool := byte &&& (1#8 <<< bit) != 0#8

/-- `*p.add(index) |= 1 << bit`. -/
def setAt (b : Bytes) (index bit : Nat) : Bytes :=
  Function.update b index (b index ||| (1#8 <<< bit))

/-- `*p.add(index) &= !(1 << bit)`. -/
def clearAt (b : Bytes) (index bit : Nat) : Bytes :=
  Function.update b index (b index &&& ~~~(1#8 <<< bit))

def test (b : Bytes) (n : Nat) : Bool := bitOn (b (n/8)) (n%8)

/-- Write `byte` to the first `n` bytes. -/
def fill (b : Bytes) (n : Nat) (byte : Byte) : Bytes := fun i => if i < n then byte else b i

private theorem one_shift (i n : Nat) : (1#8 <<< n).getLsbD i = (decide (i < 8) && decide (i = n)) := by
  simp only [BitVec.getLsbD_shiftLeft, BitVec.getLsbD_one]
  grind

theorem bitOn_eq (byte : Byte) {bit : Nat} (h : bit < 8) : bitOn byte bit = byte.getLsbD bit := by
  cases hb : byte.getLsbD bit with
  | false =>
    have : byte &&& (1#8 <<< bit) = 0#8 := by
      apply BitVec.eq_of_getLsbD_eq
      intro i _
      rw [BitVec.getLsbD_and, one_shift]
      grind
    simp [bitOn, this]
  | true =>
    have : (byte &&& (1#8 <<< bit)).getLsbD bit = true := by
      rw [BitVec.getLsbD_and, one_shift, hb]
      simpa using h
    simp only [bitOn, bne_iff_ne, ne_eq]
    intro he
    simp [he] at this

theorem bitOn_full {bit : Nat} (h : bit < 8) : bitOn 255#8 bit = true := by
  rw [bitOn_eq _ h]
  revert h bit
  decide

/-- A byte that is not zero has a set bit. -/
theorem exists_set {byte : Byte} (h : byte ≠ 0#8) : ∃ bit < 8, bitOn byte bit = true := by
  by_contra hnone
  apply h
  apply BitVec.eq_of_getLsbD_eq
  intro i hi
  rw [BitVec.getLsbD_zero, ← Bool.not_eq_true, ← bitOn_eq byte hi]
  exact fun hon => hnone ⟨i, hi, hon⟩

theorem test_byte (b : Bytes) (index : Nat) {bit : Nat} (h : bit < 8) :
    test b (8*index+bit) = bitOn (b index) bit := by
  have hi : (8*index+bit)/8 = index := by omega
  have hb : (8*index+bit)%8 = bit := by omega
  rw [test, hi, hb]

theorem test_setAt (b : Bytes) (index : Nat) {bit : Nat} (h : bit < 8) (n : Nat) :
    test (setAt b index bit) n = (decide (n = 8*index+bit) || test b n) := by
  have hn : n%8 < 8 := Nat.mod_lt n (by decide)
  simp only [test, bitOn_eq _ hn, setAt, Function.update_apply]
  split
  · rename_i hi
    rw [BitVec.getLsbD_or, one_shift, hi]
    have : (n%8 = bit) ↔ n = 8*index+bit := by omega
    grind
  · have : ¬ n = 8*index+bit := by omega
    simp [this]

theorem test_clearAt (b : Bytes) (index : Nat) {bit : Nat} (h : bit < 8) (n : Nat) :
    test (clearAt b index bit) n = (!decide (n = 8*index+bit) && test b n) := by
  have hn : n%8 < 8 := Nat.mod_lt n (by decide)
  simp only [test, bitOn_eq _ hn, clearAt, Function.update_apply]
  split
  · rename_i hi
    rw [BitVec.getLsbD_and, BitVec.getLsbD_not, one_shift, hi]
    have : (n%8 = bit) ↔ n = 8*index+bit := by omega
    grind
  · have : ¬ n = 8*index+bit := by omega
    simp [this]

/-- Stores at a bit number, as `setAt` and `clearAt` see it. -/
@[simp] theorem test_set (b : Bytes) (n k : Nat) :
    test (setAt b (n/8) (n%8)) k = (decide (k = n) || test b k) := by
  rw [test_setAt b _ (Nat.mod_lt n (by decide)), Nat.div_add_mod]

@[simp] theorem test_clear (b : Bytes) (n k : Nat) :
    test (clearAt b (n/8) (n%8)) k = (!decide (k = n) && test b k) := by
  rw [test_clearAt b _ (Nat.mod_lt n (by decide)), Nat.div_add_mod]

theorem test_fill (b : Bytes) (n k : Nat) :
    test (fill b n 255#8) k = (decide (k < 8*n) || test b k) := by
  by_cases h : k/8 < n
  · have : k < 8*n := by omega
    simp [test, fill, h, this, bitOn_full (Nat.mod_lt k (by decide : 0 < 8))]
  · have : ¬ k < 8*n := by omega
    simp [test, fill, h, this]

/-- The clear bits of a range. -/
def clearBits (b : Bytes) (lo hi : Nat) : Finset Nat :=
  (Finset.Ico lo hi).filter (fun n => test b n = false)

theorem mem_clearBits {b : Bytes} {lo hi n : Nat} :
    n ∈ clearBits b lo hi ↔ (lo ≤ n ∧ n < hi) ∧ test b n = false := by
  simp [clearBits]

theorem clearBits_card_le (b : Bytes) (lo hi : Nat) : (clearBits b lo hi).card ≤ hi - lo := by
  have := Finset.card_filter_le (Finset.Ico lo hi) (fun n => test b n = false)
  simpa [clearBits] using this

/-- Setting a run of clear bits takes its length away from every range that holds it. -/
theorem clearBits_card_setRun {b c : Bytes} {first n lo hi : Nat}
    (hf : ∀ k < n, first+k ∈ clearBits b lo hi)
    (hc : ∀ k, test c k = (decide (first ≤ k ∧ k < first+n) || test b k)) :
    (clearBits c lo hi).card + n = (clearBits b lo hi).card := by
  have hsub : Finset.Ico first (first+n) ⊆ clearBits b lo hi := by
    intro k hk
    obtain ⟨h₁, h₂⟩ := Finset.mem_Ico.mp hk
    have := hf (k-first) (by omega)
    rwa [Nat.add_sub_cancel' h₁] at this
  have he : clearBits c lo hi = clearBits b lo hi \ Finset.Ico first (first+n) := by
    ext k
    simp only [mem_clearBits, hc, Finset.mem_sdiff, Finset.mem_Ico]
    grind
  have hle := Finset.card_le_card hsub
  rw [he, Finset.card_sdiff_of_subset hsub]
  simp only [Nat.card_Ico] at hle ⊢
  omega

/-- Setting a clear bit takes one away from every range that holds it. -/
theorem clearBits_card_set {b c : Bytes} {n lo hi : Nat} (hf : test b n = false)
    (hc : ∀ k, test c k = (decide (k = n) || test b k)) (hn : lo ≤ n ∧ n < hi) :
    (clearBits c lo hi).card + 1 = (clearBits b lo hi).card := by
  have he : clearBits c lo hi = (clearBits b lo hi).erase n := by
    ext k
    simp only [mem_clearBits, hc, Finset.mem_erase]
    grind
  rw [he]
  exact Finset.card_erase_add_one (mem_clearBits.mpr ⟨hn, hf⟩)

theorem clearBits_card_set_outside {b c : Bytes} {n lo hi : Nat}
    (hc : ∀ k, test c k = (decide (k = n) || test b k)) (hn : ¬ (lo ≤ n ∧ n < hi)) :
    clearBits c lo hi = clearBits b lo hi := by
  ext k
  simp only [mem_clearBits, hc]
  grind

/-- Clearing a set bit adds one to every range that holds it. -/
theorem clearBits_card_clear {b c : Bytes} {n lo hi : Nat} (hf : test b n = true)
    (hc : ∀ k, test c k = (!decide (k = n) && test b k)) (hn : lo ≤ n ∧ n < hi) :
    (clearBits c lo hi).card = (clearBits b lo hi).card + 1 := by
  have he : clearBits c lo hi = insert n (clearBits b lo hi) := by
    ext k
    simp only [mem_clearBits, hc, Finset.mem_insert]
    grind
  rw [he]
  exact Finset.card_insert_of_notMem (fun hm => by simp [mem_clearBits, hf] at hm)

theorem clearBits_card_clear_outside {b c : Bytes} {n lo hi : Nat}
    (hc : ∀ k, test c k = (!decide (k = n) && test b k)) (hn : ¬ (lo ≤ n ∧ n < hi)) :
    clearBits c lo hi = clearBits b lo hi := by
  ext k
  simp only [mem_clearBits, hc]
  grind

end Bitmap
end Nafuraito.Library
