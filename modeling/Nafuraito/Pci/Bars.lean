import Nafuraito.Library.Words
import Nafuraito.Pci.Config

/-! Base address registers: how they answer writes, and how the kernel finds the size of what they place. -/
namespace Nafuraito.Pci
open Nafuraito.Library

def pciBar0 : BitVec 8 := 0x10

inductive BarType where
  | ioSpace | memory32 | memory64 | none
  deriving DecidableEq, Repr

structure Bar where
  barType : BarType
  baseAddress : BitVec 64
  size : BitVec 64
  prefetchable : Bool
  deriving DecidableEq, Repr

def Bar.none : Bar := ⟨.none, 0, 0, false⟩

/-- The registers of all functions, and the bits of each that keep what is written to them. -/
structure Devices where
  registers : ConfigSpace
  writable : ConfigSpace

namespace Devices

def read32 (d : Devices) (addr : PciAddress) (offset : BitVec 8) : BitVec 32 := pciConfigRead32 d.registers addr offset

def writable32 (d : Devices) (addr : PciAddress) (offset : BitVec 8) : BitVec 32 :=
  pciConfigRead32 d.writable addr offset

/-- What a register holds after a write. -/
def stored (d : Devices) (addr : PciAddress) (offset : BitVec 8) (value : BitVec 32) : BitVec 32 :=
  (value &&& d.writable32 addr offset) ||| (d.read32 addr offset &&& ~~~d.writable32 addr offset)

def write32 (d : Devices) (addr : PciAddress) (offset : BitVec 8) (value : BitVec 32) : Devices :=
  { d with registers := pciConfigWrite32 d.registers addr offset (d.stored addr offset value) }

end Devices

/-- Base, size and kind of a BAR; the size is the complement of what the register reads after all ones, plus one. -/
def pciReadBar (d : Devices) (addr : PciAddress) (barIndex : BitVec 8) : Bar × Devices :=
  if barIndex ≥ 6 then (.none, d)
  else
    let barOffset := pciBar0 + barIndex * 4
    let barValue := d.read32 addr barOffset
    if barValue = 0 then (.none, d)
    else if barValue &&& 0x01 ≠ 0 then
      let baseAddress := (barValue &&& 0xFFFFFFFC).setWidth 64
      let d := d.write32 addr barOffset 0xFFFFFFFF
      let sizeMask := d.read32 addr barOffset
      let d := d.write32 addr barOffset barValue
      let size := ~~~((sizeMask &&& 0xFFFFFFFC).setWidth 64) + 1
      (⟨.ioSpace, baseAddress, size &&& 0xFFFF, false⟩, d)
    else
      let barTypeBits := (barValue >>> 1) &&& 0x03
      let prefetchable := barValue &&& 0x08 != 0
      if barTypeBits = 0b00 then
        let baseAddress := (barValue &&& 0xFFFFFFF0).setWidth 64
        let d := d.write32 addr barOffset 0xFFFFFFFF
        let sizeMask := d.read32 addr barOffset
        let d := d.write32 addr barOffset barValue
        let size := ~~~((sizeMask &&& 0xFFFFFFF0).setWidth 64) + 1
        (⟨.memory32, baseAddress, size, prefetchable⟩, d)
      else if barTypeBits = 0b10 then
        if barIndex ≥ 5 then (.none, d)
        else
          let barHighOffset := barOffset + 4
          let barHigh := d.read32 addr barHighOffset
          let baseAddress := (barHigh.setWidth 64 <<< 32) ||| (barValue &&& 0xFFFFFFF0).setWidth 64
          let d := d.write32 addr barOffset 0xFFFFFFFF
          let d := d.write32 addr barHighOffset 0xFFFFFFFF
          let sizeMaskLow := d.read32 addr barOffset
          let sizeMaskHigh := d.read32 addr barHighOffset
          let d := d.write32 addr barOffset barValue
          let d := d.write32 addr barHighOffset barHigh
          let sizeMask := (sizeMaskHigh.setWidth 64 <<< 32) ||| (sizeMaskLow &&& 0xFFFFFFF0).setWidth 64
          let size := ~~~sizeMask + 1
          (⟨.memory64, baseAddress, size, prefetchable⟩, d)
      else (.none, d)

/-! ### What a function implements -/

def barOffset (index : BitVec 8) : BitVec 8 := pciBar0 + index * 4

/-- The address bits of a region of `2^n` bytes. -/
def addressBits (w n : Nat) : BitVec w := BitVec.allOnes w <<< n

/-- A register keeps its address bits as they are written; the others are fixed, and are these. -/
structure Keeps (d : Devices) (addr : PciAddress) (offset : BitVec 8) (address fixed : BitVec 32) : Prop where
  writable : d.writable32 addr offset = address
  fixed : d.read32 addr offset &&& ~~~address = fixed

/-- A function has at an index a BAR of this kind for a region of `2^n` bytes. An I/O BAR may leave out the address
bits from 16 on; a 64-bit one takes two registers. -/
inductive Implements (d : Devices) (addr : PciAddress) (index : BitVec 8) : BarType → Nat → Prop
  | ioSpace {n : Nat} (hindex : index < 6) (hn : 2 ≤ n ∧ n < 32)
      (h : Keeps d addr (barOffset index) (addressBits 32 n) 1 ∨
        n < 16 ∧ Keeps d addr (barOffset index) (addressBits 32 n &&& 0xFFFF) 1) : Implements d addr index .ioSpace n
  | memory32 {n : Nat} {fixed : BitVec 32} (hindex : index < 6) (hn : 4 ≤ n ∧ n < 32) (hfixed : fixed = 0 ∨ fixed = 8)
      (h : Keeps d addr (barOffset index) (addressBits 32 n) fixed) : Implements d addr index .memory32 n
  | memory64 {n : Nat} {fixed : BitVec 32} (hindex : index < 5) (hn : 4 ≤ n ∧ n < 64)
      (hfixed : fixed = 4 ∨ fixed = 12)
      (hlow : Keeps d addr (barOffset index) ((addressBits 64 n).setWidth 32) fixed)
      (hhigh : Keeps d addr (barOffset index + 4) ((addressBits 64 n >>> 32).setWidth 32) 0) :
      Implements d addr index .memory64 n

/-- The address in a register. -/
def Devices.address (d : Devices) (addr : PciAddress) (offset : BitVec 8) : BitVec 64 :=
  (d.read32 addr offset &&& d.writable32 addr offset).setWidth 64

/-- The BAR of this kind for a region of `2^n` bytes. -/
def barOf (d : Devices) (addr : PciAddress) (index : BitVec 8) (type : BarType) (n : Nat) : Bar where
  barType := type
  baseAddress :=
    if type = .memory64 then (d.address addr (barOffset index + 4) <<< 32) ||| d.address addr (barOffset index)
    else d.address addr (barOffset index)
  size := BitVec.ofNat 64 (2^n)
  prefetchable := type != .ioSpace && (d.read32 addr (barOffset index)).getLsbD 3

/-! ### Writing and restoring -/

section Registers
variable {d : Devices} {addr : PciAddress} {offset offset' : BitVec 8}

namespace Devices

@[simp] theorem writable32_write32 (value : BitVec 32) :
    (d.write32 addr offset value).writable32 addr offset' = d.writable32 addr offset' := rfl

theorem read32_write32 (value : BitVec 32) :
    (d.write32 addr offset value).read32 addr offset = d.stored addr offset value := by
  rw [write32, read32]
  dsimp only
  rw [pciConfigRead32, pciConfigWrite32, Function.update_self, Function.update_self]

theorem read32_write32_other (h : offset' &&& 0xFC ≠ offset &&& 0xFC) (value : BitVec 32) :
    (d.write32 addr offset value).read32 addr offset' = d.read32 addr offset' :=
  pciConfigRead32_write32_other h _

/-- Of what a register held, a write leaves the fixed bits, and they are the same after every write. -/
theorem stored_write32 (value value' : BitVec 32) :
    (d.write32 addr offset value).stored addr offset value' = d.stored addr offset value' := by
  have twice : ∀ a b c m : Bool, (a && m || (b && m || c && !m) && !m) = (a && m || c && !m) := by decide
  rw [stored, writable32_write32, read32_write32, stored, stored]
  apply BitVec.eq_of_getLsbD_eq
  intro i hi
  simp only [BitVec.getLsbD_or, BitVec.getLsbD_and, BitVec.getLsbD_not, hi, decide_true, Bool.true_and]
  exact twice _ _ _ _

/-- The value a register has is stored as it is. -/
theorem stored_read32 : d.stored addr offset (d.read32 addr offset) = d.read32 addr offset := by
  have same : ∀ a m : Bool, (a && m || a && !m) = a := by decide
  rw [stored]
  apply BitVec.eq_of_getLsbD_eq
  intro i hi
  simp only [BitVec.getLsbD_or, BitVec.getLsbD_and, BitVec.getLsbD_not, hi, decide_true, Bool.true_and]
  exact same _ _

theorem write32_restore (value : BitVec 32) :
    (d.write32 addr offset value).write32 addr offset (d.read32 addr offset) = d := by
  rw [write32, stored_write32, stored_read32, write32]
  dsimp only
  rw [pciConfigWrite32, pciConfigWrite32, Function.update_idem, Function.update_self, Function.update_idem, read32,
    pciConfigRead32, Function.update_eq_self, Function.update_eq_self]

theorem stored_write32_other (h : offset' &&& 0xFC ≠ offset &&& 0xFC) (value value' : BitVec 32) :
    (d.write32 addr offset value).stored addr offset' value' = d.stored addr offset' value' := by
  rw [stored, read32_write32_other h, writable32_write32, stored]

theorem write32_comm (h : offset' &&& 0xFC ≠ offset &&& 0xFC) (value value' : BitVec 32) :
    (d.write32 addr offset value).write32 addr offset' value' =
      (d.write32 addr offset' value').write32 addr offset value := by
  rw [write32, stored_write32_other h, write32.eq_def (d.write32 addr offset' value'), stored_write32_other h.symm,
    write32, write32]
  dsimp only
  rw [pciConfigWrite32, pciConfigWrite32, pciConfigWrite32, pciConfigWrite32, Function.update_idem,
    Function.update_self, Function.update_idem, Function.update_self, Function.update_comm h]

end Devices

/-! ### What a register reads -/

/-- A word without bits below `k`. -/
def NoneBelow {w : Nat} (k : Nat) (x : BitVec w) : Prop := ∀ i < k, x.getLsbD i = false

theorem addressBits_mask (w n : Nat) : Words.IsMask (addressBits w n) n w := by
  intro i
  rw [addressBits, BitVec.getLsbD_shiftLeft, BitVec.getLsbD_allOnes]
  grind

theorem addressBits_toNat {w n : Nat} (hn : n ≤ w) : (addressBits w n).toNat = 2^w - 2^n := by
  have hle : 2^n ≤ 2^w := Nat.pow_le_pow_right (by decide) hn
  have hpos := Nat.two_pow_pos n
  have hsplit : (2^w - 1)*2^n = (2^w - 2^n) + 2^w*(2^n - 1) := by
    rw [Nat.sub_mul, Nat.mul_sub, Nat.one_mul, Nat.mul_one]
    have := Nat.le_mul_of_pos_right (2^w) hpos
    omega
  rw [addressBits, BitVec.toNat_shiftLeft, BitVec.toNat_allOnes, Nat.shiftLeft_eq, hsplit, Nat.add_mul_mod_self_left,
    Nat.mod_eq_of_lt (by omega)]

theorem NoneBelow.addressBits {w k n : Nat} (h : k ≤ n) : NoneBelow k (addressBits w n) := fun i hi => by
  rw [addressBits_mask, decide_eq_false (by omega)]

theorem NoneBelow.and {w k : Nat} {x : BitVec w} (h : NoneBelow k x) (y : BitVec w) : NoneBelow k (x &&& y) :=
  fun i hi => by rw [BitVec.getLsbD_and, h i hi, Bool.false_and]

theorem NoneBelow.setWidth {w v k : Nat} {x : BitVec w} (h : NoneBelow k x) : NoneBelow k (x.setWidth v) :=
  fun i hi => by rw [BitVec.getLsbD_setWidth, h i hi, Bool.and_false]

theorem NoneBelow.and_low {w k : Nat} {x y : BitVec w} (h : NoneBelow k x) (hy : y.toNat < 2^k) : x &&& y = 0 := by
  apply BitVec.eq_of_getLsbD_eq
  intro i _
  rw [BitVec.getLsbD_and]
  rcases Nat.lt_or_ge i k with hi | hi
  · rw [h i hi, Bool.false_and]
    exact BitVec.getLsbD_zero.symm
  · rw [Words.getLsbD_of_lt hy hi, Bool.and_false]
    exact BitVec.getLsbD_zero.symm

theorem NoneBelow.and_addressBits {w k : Nat} {x : BitVec w} (h : NoneBelow k x) : x &&& Pci.addressBits w k = x := by
  apply BitVec.eq_of_getLsbD_eq
  intro i hi
  rw [BitVec.getLsbD_and, addressBits_mask]
  rcases Nat.lt_or_ge i k with hlt | hge
  · rw [h i hlt, Bool.false_and]
  · rw [decide_eq_true ⟨hge, hi⟩, Bool.and_true]

namespace Keeps
variable {address fixed mask : BitVec 32} (h : Keeps d addr offset address fixed)
include h

/-- Outside the address bits the register reads its fixed bits. -/
theorem read_and_fixed (hmask : address &&& mask = 0) : d.read32 addr offset &&& mask = fixed &&& mask := by
  rw [← h.fixed, BitVec.and_assoc]
  apply BitVec.eq_of_getLsbD_eq
  intro i hi
  have hbit := congrArg (fun x => x.getLsbD i) hmask
  simp only [BitVec.getLsbD_and, BitVec.getLsbD_not, hi, decide_true, Bool.true_and] at hbit ⊢
  have houtside : ∀ a m r : Bool, (a && m) = false → (r && m) = (r && (!a && m)) := by decide
  exact houtside _ _ _ (hbit.trans BitVec.getLsbD_zero)

/-- A mask that takes away the fixed bits leaves the address. -/
theorem read_and_address {mask : BitVec 32} (hmask : address &&& mask = address) (hfixed : fixed &&& mask = 0) :
    (d.read32 addr offset &&& mask).setWidth 64 = d.address addr offset := by
  rw [Devices.address, h.writable]
  congr 1
  have hout : d.read32 addr offset &&& ~~~address &&& mask = 0 := h.fixed ▸ hfixed
  apply BitVec.eq_of_getLsbD_eq
  intro i hi
  have hin := congrArg (fun x => x.getLsbD i) hmask
  have hbit := congrArg (fun x => x.getLsbD i) hout
  simp only [BitVec.getLsbD_and, BitVec.getLsbD_not, hi, decide_true, Bool.true_and] at hin hbit ⊢
  have hinside : ∀ a m r : Bool, (a && m) = a → (r && !a && m) = false → (r && m) = (r && a) := by decide
  exact hinside _ _ _ hin (hbit.trans BitVec.getLsbD_zero)

/-- After all ones the register reads its address bits and its fixed bits. -/
theorem stored_ones (hmask : address &&& mask = address) (hfixed : fixed &&& mask = 0) :
    d.stored addr offset 0xFFFFFFFF &&& mask = address := by
  have hones : (0xFFFFFFFF : BitVec 32) = BitVec.allOnes 32 := by decide
  have hout : d.read32 addr offset &&& ~~~address &&& mask = 0 := h.fixed ▸ hfixed
  rw [Devices.stored, h.writable, hones, BitVec.allOnes_and, BitVec.and_or_distrib_right, hmask, hout]
  exact BitVec.or_zero

end Keeps
end Registers

/-! ### The kinds in turn -/

section Kinds
variable {d : Devices} {addr : PciAddress} {index : BitVec 8} {n : Nat}

private theorem high_offset (hindex : index < 5) : (barOffset index + 4) &&& 0xFC ≠ barOffset index &&& 0xFC := by
  have : ∀ index : BitVec 8, index < 5 → (barOffset index + 4) &&& 0xFC ≠ barOffset index &&& 0xFC := by decide
  exact this index hindex

private theorem mask_eq :
    (0xFFFFFFF0 : BitVec 32) = addressBits 32 4 ∧ (0xFFFFFFFC : BitVec 32) = addressBits 32 2 := by
  decide

private theorem prefetch_bit (value : BitVec 32) : (value &&& 0x08 != 0) = value.getLsbD 3 :=
  Words.and_bit_ne_zero value (k := 3) (by decide)

private theorem type_bits (value : BitVec 32) : (value >>> 1) &&& (0x03 : BitVec 32) = (value &&& 0x06) >>> 1 := by
  rw [BitVec.ushiftRight_and_distrib]
  rfl

/-- An I/O BAR is read from its one register. -/
theorem pciReadBar_ioSpace {address : BitVec 32} (hindex : index < 6) (hlow : NoneBelow 2 address)
    (h : Keeps d addr (barOffset index) address 1) :
    pciReadBar d addr index = (⟨.ioSpace, d.address addr (barOffset index),
      (~~~address.setWidth 64 + 1) &&& 0xFFFF, false⟩, d) := by
  have hmask := hlow.and_addressBits
  rw [← mask_eq.2] at hmask
  have hio : d.read32 addr (barOffset index) &&& 0x01 ≠ 0 := by
    rw [h.read_and_fixed (hlow.and_low (by decide))]
    decide
  have hvalue : d.read32 addr (barOffset index) ≠ 0 := fun hzero => hio (by rw [hzero]; rfl)
  rw [pciReadBar, if_neg (BitVec.not_le.mpr hindex)]
  dsimp only
  rw [← barOffset, if_neg hvalue, if_pos hio, Devices.write32_restore, Devices.read32_write32,
    h.read_and_address hmask (by decide), h.stored_ones hmask (by decide)]

/-- A 32-bit memory BAR is read from its one register. -/
theorem pciReadBar_memory32 {address fixed : BitVec 32} (hindex : index < 6) (hlow : NoneBelow 4 address)
    (hfixed : fixed = 0 ∨ fixed = 8) (h : Keeps d addr (barOffset index) address fixed)
    (hvalue : d.read32 addr (barOffset index) ≠ 0) :
    pciReadBar d addr index = (⟨.memory32, d.address addr (barOffset index), ~~~address.setWidth 64 + 1,
      (d.read32 addr (barOffset index)).getLsbD 3⟩, d) := by
  have hmask := hlow.and_addressBits
  rw [← mask_eq.1] at hmask
  have hnone : fixed &&& 0xFFFFFFF0 = 0 := by rcases hfixed with rfl | rfl <;> decide
  have hmemory : d.read32 addr (barOffset index) &&& 0x01 = 0 := by
    rw [h.read_and_fixed (hlow.and_low (by decide))]
    rcases hfixed with rfl | rfl <;> decide
  have htype : (d.read32 addr (barOffset index) >>> 1) &&& 0x03 = 0 := by
    rw [type_bits, h.read_and_fixed (hlow.and_low (by decide))]
    rcases hfixed with rfl | rfl <;> decide
  rw [pciReadBar, if_neg (BitVec.not_le.mpr hindex)]
  dsimp only
  rw [← barOffset, if_neg hvalue, if_neg (not_not_intro hmemory), if_pos htype, Devices.write32_restore,
    Devices.read32_write32, h.read_and_address hmask hnone, h.stored_ones hmask hnone, prefetch_bit]

/-- A 64-bit memory BAR is read from its two registers. -/
theorem pciReadBar_memory64 {low high fixed : BitVec 32} (hindex : index < 5) (hnone : NoneBelow 4 low)
    (hfixed : fixed = 4 ∨ fixed = 12) (hlow : Keeps d addr (barOffset index) low fixed)
    (hhigh : Keeps d addr (barOffset index + 4) high 0) :
    pciReadBar d addr index = (⟨.memory64,
      (d.address addr (barOffset index + 4) <<< 32) ||| d.address addr (barOffset index),
      ~~~((high.setWidth 64 <<< 32) ||| low.setWidth 64) + 1, (d.read32 addr (barOffset index)).getLsbD 3⟩, d) := by
  have hmask := hnone.and_addressBits
  rw [← mask_eq.1] at hmask
  have hout : fixed &&& 0xFFFFFFF0 = 0 := by rcases hfixed with rfl | rfl <;> decide
  have hmemory : d.read32 addr (barOffset index) &&& 0x01 = 0 := by
    rw [hlow.read_and_fixed (hnone.and_low (by decide))]
    rcases hfixed with rfl | rfl <;> decide
  have htype : (d.read32 addr (barOffset index) >>> 1) &&& 0x03 = 2 := by
    rw [type_bits, hlow.read_and_fixed (hnone.and_low (by decide))]
    rcases hfixed with rfl | rfl <;> decide
  have hvalue : d.read32 addr (barOffset index) ≠ 0 := fun hzero => by
    rw [hzero] at htype
    exact absurd htype (by decide)
  have hne := high_offset hindex
  have hones {address : BitVec 32} : address &&& BitVec.allOnes 32 = address := BitVec.and_allOnes
  have hzeros : (0 : BitVec 32) &&& BitVec.allOnes 32 = 0 := BitVec.zero_and
  have hbarHigh := hhigh.read_and_address hones hzeros
  have hmaskHigh := hhigh.stored_ones hones hzeros
  rw [BitVec.and_allOnes] at hbarHigh hmaskHigh
  rw [pciReadBar, if_neg (BitVec.not_le.mpr (BitVec.lt_trans hindex (by decide)))]
  dsimp only
  rw [← barOffset, if_neg hvalue, if_neg (not_not_intro hmemory), htype, if_neg (by decide), if_pos rfl,
    if_neg (BitVec.not_le.mpr hindex), Devices.write32_comm hne.symm, Devices.write32_restore, Devices.write32_restore,
    Devices.read32_write32_other hne.symm, Devices.read32_write32, Devices.read32_write32,
    Devices.stored_write32_other hne, hlow.read_and_address hmask hout, hlow.stored_ones hmask hout, hbarHigh,
    hmaskHigh, prefetch_bit]

/-! ### The sizes -/

private theorem complement_toNat (x : BitVec 64) : (~~~x + 1).toNat = (2^64 - x.toNat)%2^64 := by
  have hneg : ~~~x + 1 = -x := (BitVec.neg_eq_not_add x).symm
  rw [hneg, BitVec.toNat_neg]

/-- The complement of a 32-bit mask in 64 bits: the upper half is ones. -/
theorem size_memory32 (hn : n < 32) : (~~~(addressBits 32 n).setWidth 64 + 1).toNat = 2^64 - 2^32 + 2^n := by
  have hle : 2^n < 2^32 := Nat.pow_lt_pow_right (by decide) hn
  have hpos := Nat.two_pow_pos n
  rw [complement_toNat, BitVec.toNat_setWidth, addressBits_toNat hn.le]
  omega

private theorem halves (x : BitVec 64) :
    (((x >>> 32).setWidth 32).setWidth 64 <<< 32) ||| (x.setWidth 32).setWidth 64 = x := by
  apply BitVec.eq_of_getLsbD_eq
  intro i hi
  simp only [BitVec.getLsbD_or, BitVec.getLsbD_shiftLeft, BitVec.getLsbD_setWidth, BitVec.getLsbD_ushiftRight, hi,
    decide_true, Bool.true_and]
  by_cases hlow : i < 32
  · rw [decide_eq_true hlow, Bool.not_true, Bool.false_and, Bool.false_or, Bool.true_and]
  · rw [decide_eq_false hlow, Bool.not_false, Bool.true_and, Bool.false_and, Bool.or_false,
      decide_eq_true (show i-32 < 64 by omega), decide_eq_true (show i-32 < 32 by omega), Bool.true_and, Bool.true_and,
      Nat.add_sub_cancel' (Nat.le_of_not_lt hlow)]

theorem size_memory64 (hn : n < 64) : ~~~((((addressBits 64 n >>> 32).setWidth 32).setWidth 64 <<< 32) |||
    ((addressBits 64 n).setWidth 32).setWidth 64) + 1 = BitVec.ofNat 64 (2^n) := by
  have hle : 2^n < 2^64 := Nat.pow_lt_pow_right (by decide) hn
  have hpos := Nat.two_pow_pos n
  apply BitVec.eq_of_toNat_eq
  rw [halves, complement_toNat, addressBits_toNat hn.le, BitVec.toNat_ofNat]
  omega

/-- The last 16 bits of the complement, with or without the upper address bits. -/
theorem size_ioSpace (hn : n < 32) {address : BitVec 32}
    (haddress : address = addressBits 32 n ∨ n < 16 ∧ address = addressBits 32 n &&& 0xFFFF) :
    ((~~~address.setWidth 64 + 1) &&& 0xFFFF).toNat = 2^n%2^16 := by
  have hle : 2^n < 2^32 := Nat.pow_lt_pow_right (by decide) hn
  have hpos := Nat.two_pow_pos n
  have hand (x : BitVec 64) : (x &&& 0xFFFF).toNat = x.toNat%2^16 := by
    rw [BitVec.toNat_and]
    exact Nat.and_two_pow_sub_one_eq_mod x.toNat 16
  rw [hand, complement_toNat, BitVec.toNat_setWidth]
  rcases haddress with rfl | ⟨hlt, rfl⟩
  · rw [addressBits_toNat hn.le]
    omega
  · have hlow : (addressBits 32 n &&& 0xFFFF).toNat = (2^32 - 2^n)%2^16 := by
      rw [BitVec.toNat_and, addressBits_toNat hn.le]
      exact Nat.and_two_pow_sub_one_eq_mod _ 16
    have hsmall : 2^n < 2^16 := Nat.pow_lt_pow_right (by decide) hlt
    rw [hlow]
    omega

end Kinds

/-- Every register is as it was, and kind and base are right; the size is right of 64-bit memory and of I/O regions
below 64 KiB. -/
theorem pciReadBar_size {d : Devices} {addr : PciAddress} {index : BitVec 8} {type : BarType} {n : Nat}
    (h : Implements d addr index type n) (hvalue : d.read32 addr (barOffset index) ≠ 0) :
    (pciReadBar d addr index).2 = d ∧
    (pciReadBar d addr index).1 = { barOf d addr index type n with size := (pciReadBar d addr index).1.size } ∧
    ((pciReadBar d addr index).1.size = BitVec.ofNat 64 (2^n) ↔ type = .memory64 ∨ type = .ioSpace ∧ n < 16) := by
  cases h with
  | ioSpace hindex hn h =>
    obtain ⟨address, haddress, hlow, hkeeps⟩ : ∃ address,
        (address = addressBits 32 n ∨ n < 16 ∧ address = addressBits 32 n &&& 0xFFFF) ∧ NoneBelow 2 address ∧
          Keeps d addr (barOffset index) address 1 := by
      rcases h with h | ⟨hlt, h⟩
      · exact ⟨_, .inl rfl, .addressBits hn.1, h⟩
      · exact ⟨_, .inr ⟨hlt, rfl⟩, (NoneBelow.addressBits hn.1).and _, h⟩
    rw [pciReadBar_ioSpace hindex hlow hkeeps]
    refine ⟨rfl, rfl, ?_⟩
    have hle : 2^n < 2^32 := Nat.pow_lt_pow_right (by decide) hn.2
    have hpos := Nat.two_pow_pos n
    rw [← BitVec.toNat_inj, size_ioSpace hn.2 haddress, BitVec.toNat_ofNat, Nat.mod_eq_of_lt (by omega : 2^n < 2^64)]
    constructor
    · intro hsize
      refine .inr ⟨rfl, ?_⟩
      by_contra hge
      have : 2^16 ≤ 2^n := Nat.pow_le_pow_right (by decide) (Nat.not_lt.mp hge)
      omega
    · rintro (hkind | ⟨-, hlt⟩)
      · cases hkind
      · exact Nat.mod_eq_of_lt (Nat.pow_lt_pow_right (by decide) hlt)
  | memory32 hindex hn hfixed h =>
    rw [pciReadBar_memory32 hindex (.addressBits hn.1) hfixed h hvalue]
    refine ⟨rfl, rfl, ?_⟩
    have hle : 2^n < 2^32 := Nat.pow_lt_pow_right (by decide) hn.2
    rw [← BitVec.toNat_inj, size_memory32 hn.2, BitVec.toNat_ofNat, Nat.mod_eq_of_lt (by omega : 2^n < 2^64)]
    constructor
    · intro hsize
      omega
    · rintro (hkind | ⟨hkind, -⟩) <;> cases hkind
  | memory64 hindex hn hfixed hlow hhigh =>
    rw [pciReadBar_memory64 hindex (NoneBelow.addressBits hn.1).setWidth hfixed hlow hhigh]
    exact ⟨rfl, rfl, fun _ => .inl rfl, fun _ => size_memory64 hn.2⟩

/-- A BAR is read right, and every register left as it was, exactly for 64-bit memory and I/O regions below 64 KiB. -/
theorem pciReadBar_iff {d : Devices} {addr : PciAddress} {index : BitVec 8} {type : BarType} {n : Nat}
    (h : Implements d addr index type n) (hvalue : d.read32 addr (barOffset index) ≠ 0) :
    (pciReadBar d addr index).2 = d ∧
    ((pciReadBar d addr index).1 = barOf d addr index type n ↔ type = .memory64 ∨ type = .ioSpace ∧ n < 16) := by
  obtain ⟨hkept, hparts, hsize⟩ := pciReadBar_size h hvalue
  refine ⟨hkept, ?_⟩
  rw [← hsize]
  constructor
  · intro heq
    rw [heq]
    rfl
  · intro heq
    rw [hparts, heq]
    rfl

/-! ### Two BARs -/

/-- Registers of zeros but for two. -/
def twoRegisters (low high : BitVec 32) : ConfigSpace := fun _ offset =>
  if offset = 0x10 then low else if offset = 0x14 then high else 0

/-- A prefetchable 64-bit BAR of 8 GiB at 0xC00000000. -/
theorem largeBar_read : (pciReadBar ⟨twoRegisters 0x0000000C 0x0000000C, twoRegisters 0x00000000 0xFFFFFFFE⟩
    ⟨0, 3, 0⟩ 0).1 = barOf ⟨twoRegisters 0x0000000C 0x0000000C, twoRegisters 0x00000000 0xFFFFFFFE⟩ ⟨0, 3, 0⟩ 0
      .memory64 33 := by
  refine (pciReadBar_iff ?_ (by decide)).2.mpr (.inl rfl)
  exact .memory64 (by decide) (by decide) (.inr rfl) ⟨by decide, by decide⟩ ⟨by decide, by decide⟩

/-- A 32-bit BAR of 4 KiB, and the size it is given. -/
theorem smallBar_size :
    Implements ⟨twoRegisters 0xFEBC0000 0, twoRegisters 0xFFFFF000 0⟩ ⟨0, 3, 0⟩ 0 .memory32 12 ∧
    (pciReadBar ⟨twoRegisters 0xFEBC0000 0, twoRegisters 0xFFFFF000 0⟩ ⟨0, 3, 0⟩ 0).1.size = 0xFFFFFFFF00001000 ∧
    (barOf ⟨twoRegisters 0xFEBC0000 0, twoRegisters 0xFFFFF000 0⟩ ⟨0, 3, 0⟩ 0 .memory32 12).size = 0x1000 :=
  ⟨.memory32 (by decide) (by decide) (.inl rfl) ⟨by decide, by decide⟩, by decide, by decide⟩

end Nafuraito.Pci
