import Nafuraito.Library.Words
import Nafuraito.Pci.Msi

/-! The pending-bit array of MSI-X, one bit for each vector in words of 64 bits. -/
namespace Nafuraito.Pci
open Nafuraito.Library

/-- An MSI-X controller with the address of its pending-bit array. -/
structure MappedMsixController extends MsixController where
  pbaAddr : BitVec 64
  deriving DecidableEq, Repr

/-- The 64-bit word that is read at each address. -/
abbrev DeviceMemory := BitVec 64 → BitVec 64

/-- The argument is an index of vectors. -/
def MappedMsixController.pbaQwordAddr (controller : MappedMsixController) (index : BitVec 16) : BitVec 64 :=
  controller.pbaAddr + (index.setWidth 64 / 64) * 8

def msixIsPending (memory : DeviceMemory) (controller : MappedMsixController) (index : BitVec 16) : Bool :=
  if index ≥ controller.tableSize then false
  else
    let qwordIndex := index / 64
    let bitIndex := index % 64
    let pbaAddr := controller.pbaQwordAddr qwordIndex
    let pending := memory pbaAddr
    pending &&& ((1 : BitVec 64) <<< bitIndex) != 0

/-- Word `n` of the array, as the device lays it out. -/
def pbaWord (memory : DeviceMemory) (controller : MappedMsixController) (n : Nat) : BitVec 64 :=
  memory (controller.pbaAddr + BitVec.ofNat 64 (8*n))

/-- The pending bit of a vector. -/
def pendingBit (memory : DeviceMemory) (controller : MappedMsixController) (index : BitVec 16) : Bool :=
  (pbaWord memory controller (index.toNat/64)).getLsbD (index.toNat%64)

variable {controller : MappedMsixController} {index : BitVec 16}

/-- The index is divided by 64 twice, and the bit comes from the first word. -/
theorem msixIsPending_eq (memory : DeviceMemory) (hsize : controller.tableSize.toNat ≤ 2048)
    (hindex : index < controller.tableSize) :
    msixIsPending memory controller index = (pbaWord memory controller 0).getLsbD (index.toNat%64) := by
  have hlt := BitVec.lt_def.mp hindex
  have hword : ((index / 64).setWidth 64 / 64 : BitVec 64) * 8 = BitVec.ofNat 64 (8*0) := by
    apply BitVec.eq_of_toNat_eq
    rw [BitVec.toNat_mul, BitVec.toNat_udiv, BitVec.toNat_setWidth, BitVec.toNat_udiv]
    change index.toNat/64%2^64/64*8%2^64 = 0
    omega
  have hbit : (index % 64).toNat = index.toNat%64 := BitVec.toNat_umod
  rw [msixIsPending, if_neg (BitVec.not_le.mpr hindex)]
  dsimp only
  rw [MappedMsixController.pbaQwordAddr, hword, BitVec.shiftLeft_eq', hbit]
  exact Words.and_bit_ne_zero _ (Nat.mod_lt _ (by decide))

/-- A vector's pending bit is read exactly if the first word has at its place what the vector's own word has there;
for vectors below 64, and only for them, that is so whatever the array holds. -/
theorem msixIsPending_iff (hsize : controller.tableSize.toNat ≤ 2048) (hindex : index < controller.tableSize) :
    (∀ memory, msixIsPending memory controller index = pendingBit memory controller index ↔
      (pbaWord memory controller 0).getLsbD (index.toNat%64) =
        (pbaWord memory controller (index.toNat/64)).getLsbD (index.toNat%64)) ∧
    ((∀ memory, msixIsPending memory controller index = pendingBit memory controller index) ↔ index.toNat < 64) := by
  have hread (memory : DeviceMemory) :
      msixIsPending memory controller index = pendingBit memory controller index ↔
        (pbaWord memory controller 0).getLsbD (index.toNat%64) =
          (pbaWord memory controller (index.toNat/64)).getLsbD (index.toNat%64) := by
    rw [msixIsPending_eq memory hsize hindex, pendingBit]
  refine ⟨hread, fun h => ?_, fun hlt memory => (hread memory).mpr ?_⟩
  · by_contra hge
    -- an array of zeros but for the vector's own word
    have hlt := BitVec.lt_def.mp hindex
    have hother : controller.pbaAddr + BitVec.ofNat 64 (8*0) ≠
        controller.pbaAddr + BitVec.ofNat 64 (8*(index.toNat/64)) := by
      rw [ne_eq, BitVec.add_right_inj]
      intro heq
      have := congrArg BitVec.toNat heq
      rw [BitVec.toNat_ofNat, BitVec.toNat_ofNat] at this
      omega
    have hsame := (hread (Function.update (fun _ => 0)
      (controller.pbaAddr + BitVec.ofNat 64 (8*(index.toNat/64))) (BitVec.allOnes 64))).mp (h _)
    rw [pbaWord, pbaWord, Function.update_self, Function.update_of_ne hother, BitVec.getLsbD_allOnes,
      decide_eq_true (Nat.mod_lt _ (by decide))] at hsame
    exact absurd hsame (by simp)
  · rw [Nat.div_eq_of_lt hlt]

/-! ### Vector 64 of 65 -/

/-- A table of 65 entries, and the pending bits from address 0x1000 on. -/
def msixOf65 : MappedMsixController := ⟨⟨⟨0, 0, 0⟩, 65⟩, 0x1000⟩

/-- Vector 3 is read right. -/
theorem msixOf65_third : msixIsPending (fun _ => 8) msixOf65 3 = pendingBit (fun _ => 8) msixOf65 3 :=
  (msixIsPending_iff (by decide) (by decide)).2.mpr (by decide) (fun _ => 8)

/-- Vector 64 is pending, and reads as not pending. -/
theorem msixOf65_last : ∃ memory : DeviceMemory,
    pendingBit memory msixOf65 64 = true ∧ msixIsPending memory msixOf65 64 = false :=
  ⟨fun addr => if addr = 0x1008 then 1 else 0, by decide, by decide⟩

end Nafuraito.Pci
