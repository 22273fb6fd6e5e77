import Nafuraito.Library.Bitmap
import Nafuraito.Memory.MemoryMap
import Mathlib.Logic.Function.Basic

/-! The functions that copy, fill and compare memory, byte by byte. Pointers are `usize` values. -/
namespace Nafuraito.Memory
open Nafuraito.Library

/-- The rounds of `memcpy` that are left, from byte `i` on. -/
def copyUp (dest src : Nat) : Nat → Nat → Bytes → Bytes
  | 0, _, mem => mem
  | n+1, i, mem => copyUp dest src n (i+1) (Function.update mem (u64 (dest+i)) (mem (u64 (src+i))))

/-- The rounds of `memmove` that are left where it copies from the end. -/
def copyDown (dest src : Nat) : Nat → Bytes → Bytes
  | 0, mem => mem
  | i+1, mem => copyDown dest src i (Function.update mem (u64 (dest+i)) (mem (u64 (src+i))))

def memcpy (dest src n : Nat) (mem : Bytes) : Nat × Bytes := (dest, copyUp dest src n 0 mem)

def memmove (dest src n : Nat) (mem : Bytes) : Nat × Bytes :=
  if dest < src then memcpy dest src n mem else (dest, copyDown dest src n mem)

/-- The rounds of `memset` that are left, from byte `i` on. -/
def fillUp (dest : Nat) (c : Byte) : Nat → Nat → Bytes → Bytes
  | 0, _, mem => mem
  | n+1, i, mem => fillUp dest c n (i+1) (Function.update mem (u64 (dest+i)) c)

/-- The low byte of the `i32` is stored. -/
def memset (dest : Nat) (c : BitVec 32) (n : Nat) (mem : Bytes) : Nat × Bytes :=
  (dest, fillUp dest (c.setWidth 8) n 0 mem)

/-- The rounds of `memcmp` that are left, from byte `i` on. -/
def compareFrom (s1 s2 : Nat) (mem : Bytes) : Nat → Nat → Int
  | 0, _ => 0
  | n+1, i =>
    let a := mem (u64 (s1+i))
    let b := mem (u64 (s2+i))
    if a ≠ b then (a.toNat : Int) - b.toNat else compareFrom s1 s2 mem n (i+1)

def memcmp (s1 s2 n : Nat) (mem : Bytes) : Int := compareFrom s1 s2 mem n 0

section Copies
variable {dest src n : Nat} {mem : Bytes}

/-- Upwards, no byte of the source is stored to before it is copied if the destination is not behind it. -/
private theorem copyUp_apply {i : Nat} (hle : dest ≤ src) (hdest : dest + i + n ≤ 2^64) (hsrc : src + i + n ≤ 2^64)
    (a : Nat) :
    copyUp dest src n i mem a = if dest + i ≤ a ∧ a < dest + i + n then mem (src + (a-dest)) else mem a := by
  induction n generalizing i mem with
  | zero => rw [if_neg (by omega)]; rfl
  | succ n ih =>
    rw [copyUp, ih (by omega) (by omega), u64_of_lt (show dest + i < 2^64 by omega),
      u64_of_lt (show src + i < 2^64 by omega)]
    by_cases hfirst : a = dest + i
    · subst hfirst
      rw [if_neg (by omega), if_pos (by omega), Function.update_self, Nat.add_sub_cancel_left]
    · by_cases hin : dest + i ≤ a ∧ a < dest + i + (n+1)
      · rw [if_pos (by omega), if_pos hin, Function.update_of_ne (by omega)]
      · rw [if_neg (by omega), if_neg hin, Function.update_of_ne hfirst]

/-- Downwards, the same if the destination is not before it. -/
private theorem copyDown_apply (hle : src ≤ dest) (hdest : dest + n ≤ 2^64) (a : Nat) :
    copyDown dest src n mem a = if dest ≤ a ∧ a < dest + n then mem (src + (a-dest)) else mem a := by
  induction n generalizing mem with
  | zero => rw [if_neg (by omega)]; rfl
  | succ n ih =>
    rw [copyDown, ih (by omega), u64_of_lt (show dest + n < 2^64 by omega), u64_of_lt (show src + n < 2^64 by omega)]
    by_cases hlast : a = dest + n
    · subst hlast
      rw [if_neg (by omega), if_pos (by omega), Function.update_self, Nat.add_sub_cancel_left]
    · by_cases hin : dest ≤ a ∧ a < dest + (n+1)
      · rw [if_pos (by omega), if_pos hin, Function.update_of_ne (by omega)]
      · rw [if_neg (by omega), if_neg hin, Function.update_of_ne hlast]

/-- Both directions leave each byte of the destination as the source had it, and all other bytes. -/
private theorem memmove_apply (hdest : dest + n ≤ 2^64) (hsrc : src + n ≤ 2^64) (a : Nat) :
    (memmove dest src n mem).2 a = if dest ≤ a ∧ a < dest + n then mem (src + (a-dest)) else mem a := by
  rw [memmove]
  split
  · have hup : copyUp dest src n 0 mem a = _ := copyUp_apply (Nat.le_of_lt ‹dest < src›) hdest hsrc a
    rwa [Nat.add_zero] at hup
  · exact copyDown_apply (Nat.le_of_not_lt ‹¬dest < src›) hdest a

end Copies

private theorem fillUp_apply {dest i n : Nat} {c : Byte} {mem : Bytes} (hdest : dest + i + n ≤ 2^64) (a : Nat) :
    fillUp dest c n i mem a = if dest + i ≤ a ∧ a < dest + i + n then c else mem a := by
  induction n generalizing i mem with
  | zero => rw [if_neg (by omega)]; rfl
  | succ n ih =>
    rw [fillUp, ih (by omega), u64_of_lt (show dest + i < 2^64 by omega)]
    by_cases hfirst : a = dest + i
    · subst hfirst
      rw [if_neg (by omega), if_pos (by omega), Function.update_self]
    · by_cases hin : dest + i ≤ a ∧ a < dest + i + (n+1)
      · rw [if_pos (by omega), if_pos hin]
      · rw [if_neg (by omega), if_neg hin, Function.update_of_ne hfirst]

theorem memset_fills {dest n : Nat} (hdest : dest + n ≤ 2^64) (c : BitVec 32) (mem : Bytes) (a : Nat) :
    (memset dest c n mem).2 a = if dest ≤ a ∧ a < dest + n then c.setWidth 8 else mem a :=
  fillUp_apply hdest a

private theorem compareFrom_eq {s1 s2 n i : Nat} (mem : Bytes) (h1 : s1 + i + n ≤ 2^64)
    (h2 : s2 + i + n ≤ 2^64) :
    ((∀ j < n, mem (s1+(i+j)) = mem (s2+(i+j))) ∧ compareFrom s1 s2 mem n i = 0) ∨
      ∃ k < n, (∀ j < k, mem (s1+(i+j)) = mem (s2+(i+j))) ∧ mem (s1+(i+k)) ≠ mem (s2+(i+k)) ∧
        compareFrom s1 s2 mem n i = (mem (s1+(i+k))).toNat - (mem (s2+(i+k))).toNat := by
  induction n generalizing i with
  | zero => exact .inl ⟨fun j hj => absurd hj j.not_lt_zero, rfl⟩
  | succ n ih =>
    rw [compareFrom, u64_of_lt (show s1 + i < 2^64 by omega), u64_of_lt (show s2 + i < 2^64 by omega)]
    by_cases hne : mem (s1+i) ≠ mem (s2+i)
    · rw [if_pos hne]
      exact .inr ⟨0, n.succ_pos, fun j hj => absurd hj j.not_lt_zero, hne, rfl⟩
    · rw [if_neg hne]
      -- the first byte is equal, so what is found among the others is found one further on
      have hshift {k : Nat} (hbefore : ∀ j < k, mem (s1+(i+1+j)) = mem (s2+(i+1+j))) :
          ∀ j < k+1, mem (s1+(i+j)) = mem (s2+(i+j)) := by
        intro j hj
        cases j with
        | zero => exact not_not.mp hne
        | succ j =>
          have := hbefore j (by omega)
          rwa [Nat.add_right_comm] at this
      rcases ih (i := i+1) (by omega) (by omega) with ⟨hall, hzero⟩ | ⟨k, hk, hbefore, hdiff, hval⟩
      · exact .inl ⟨hshift hall, hzero⟩
      · rw [Nat.add_right_comm] at hdiff hval
        exact .inr ⟨k+1, by omega, hshift hbefore, hdiff, hval⟩

/-- `memcmp` gives 0 for equal bytes, and else the difference of the first two that are not. -/
theorem memcmp_compares {s1 s2 n : Nat} (h1 : s1 + n ≤ 2^64) (h2 : s2 + n ≤ 2^64) (mem : Bytes) :
    ((∀ i < n, mem (s1+i) = mem (s2+i)) ∧ memcmp s1 s2 n mem = 0) ∨
      ∃ k < n, (∀ i < k, mem (s1+i) = mem (s2+i)) ∧ mem (s1+k) ≠ mem (s2+k) ∧
        memcmp s1 s2 n mem = (mem (s1+k)).toNat - (mem (s2+k)).toNat := by
  rw [memcmp]
  simpa only [Nat.zero_add] using compareFrom_eq mem (i := 0) h1 h2

/-- `memmove` copies the bytes that the source had, however the ranges overlap, and changes nothing else. -/
theorem memmove_copies (mem : Bytes) {dest src n : Nat} (hdest : dest + n ≤ 2^64) (hsrc : src + n ≤ 2^64) :
    (memmove dest src n mem).1 = dest ∧
    (∀ i < n, (memmove dest src n mem).2 (dest+i) = mem (src+i)) ∧
    ∀ a, a < dest ∨ dest + n ≤ a → (memmove dest src n mem).2 a = mem a := by
  refine ⟨?_, fun i hi => ?_, fun a ha => ?_⟩
  · rw [memmove]
    split <;> rfl
  · rw [memmove_apply hdest hsrc, if_pos (by omega), Nat.add_sub_cancel_left]
  · rw [memmove_apply hdest hsrc, if_neg (by omega)]

/-- Three bytes moved up by one. -/
theorem memmove_copies_overlap : (memmove 5 4 3 fun a => BitVec.ofNat 8 a).1 = 5 ∧
    (∀ i < 3, (memmove 5 4 3 fun a => BitVec.ofNat 8 a).2 (5+i) = BitVec.ofNat 8 (4+i)) ∧
    ∀ a, a < 5 ∨ 5 + 3 ≤ a → (memmove 5 4 3 fun a => BitVec.ofNat 8 a).2 a = BitVec.ofNat 8 a :=
  memmove_copies _ (by decide) (by decide)

end Nafuraito.Memory
