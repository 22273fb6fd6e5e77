import Nafuraito.Library.FreeList
import Nafuraito.Library.LittleEndian
import Nafuraito.Memory.MemoryMap

/-! Slab pages: one page cut into objects of a size class, the free ones linked through their
first two bytes. Pointers are `usize` values; memory is the bytes at all addresses. -/
namespace Nafuraito.Memory
open Nafuraito.Library

/-- `n as u16`. -/
def u16 (n : Nat) : Nat := n % 2^16

theorem u16_of_lt {n : Nat} (h : n < 2^16) : u16 n = n := Nat.mod_eq_of_lt h

namespace Slab

def pageSize : Nat := 4096

/-- `SLAB_CLASS_SIZES`. -/
def classSizes : List Nat := [16, 32, 64, 128, 256, 512, 1024, 2048]

def freeListEnd : Nat := 0xFFFF

/-- The smallest class that fits; an object needs at least the two bytes of a link. -/
def classIndexFor (size align : Nat) : Option Nat :=
  let required := max (max size align) 2
  classSizes.findIdx? fun classSize => required ≤ classSize

def classSize (classIndex : Nat) : Nat := if classIndex ≥ 8 then 0 else classSizes.getD classIndex 0

end Slab

structure SlabPage where
  active : Bool
  classIndex : Nat
  freeHead : Nat
  inUse : Nat
  capacity : Nat
  deriving DecidableEq, Repr

namespace SlabPage
open Slab

def empty : SlabPage := ⟨false, 0, freeListEnd, 0, 0⟩

def hasFreeObjects (slab : SlabPage) : Bool := slab.active && slab.freeHead != freeListEnd

def isEmpty (slab : SlabPage) : Bool := slab.active && slab.inUse == 0

/-- The loop of `init_slab_page`: each object links the next, the last one none. -/
def writeLinks (mem : Bytes) (pagePtr objSize capacity : Nat) : Bytes :=
  (List.range capacity).foldl
    (fun mem i => writeLE mem (pagePtr + i*objSize) 2 (if i+1 < capacity then i+1 else freeListEnd)) mem

/-- `init_slab_page` stores every field, so it does not depend on what was there. -/
def initSlabPage (pagePtr classIndex : Nat) (mem : Bytes) : SlabPage × Bytes :=
  let objSize := classSize classIndex
  let capacity := u16 (pageSize / objSize)
  let slab : SlabPage := ⟨true, classIndex % 256, if capacity > 0 then 0 else freeListEnd, 0, capacity⟩
  if capacity = 0 then (slab, mem) else (slab, writeLinks mem pagePtr objSize capacity)

/-- The pointer, 0 if there is no free object. -/
def allocFromSlab (pagePtr : Nat) (slab : SlabPage) (mem : Bytes) : Nat × SlabPage :=
  if !slab.hasFreeObjects then (0, slab)
  else
    let objSize := classSize slab.classIndex
    if objSize = 0 then (0, slab)
    else
      let objPtr := pagePtr + slab.freeHead*objSize
      (objPtr, { slab with freeHead := readLE mem objPtr 2, inUse := min (slab.inUse + 1) 0xFFFF })

/-- Whether the pointer was taken back. -/
def freeToSlab (pagePtr : Nat) (slab : SlabPage) (ptr : Nat) (mem : Bytes) : Bool × SlabPage × Bytes :=
  if ptr = 0 then (true, slab, mem)
  else if !slab.active then (false, slab, mem)
  else
    let objSize := classSize slab.classIndex
    if objSize = 0 then (false, slab, mem)
    else if ptr < pagePtr ∨ ptr ≥ pagePtr + pageSize then (false, slab, mem)
    else
      let offset := ptr - pagePtr
      if offset % objSize ≠ 0 then (false, slab, mem)
      else
        let objIndex := u16 (offset / objSize)
        if objIndex ≥ slab.capacity then (false, slab, mem)
        else (true, { slab with freeHead := objIndex, inUse := slab.inUse - 1 },
          writeLE mem (pagePtr + offset) 2 slab.freeHead)

end SlabPage

/-! ### Size classes -/

namespace Slab

/-- A class has a power of two for its size, which a page holds a whole number of times. -/
theorem classSize_spec {i : Nat} (h : i < 8) : ∃ k, 4 ≤ k ∧ k ≤ 11 ∧ classSize i = 2^k ∧
    2^k * (pageSize / 2^k) = pageSize := by
  have : ∀ i < 8, classSize i = 2^(i+4) ∧ 2^(i+4) * (pageSize / 2^(i+4)) = pageSize := by decide
  exact ⟨i+4, by omega, by omega, this i h⟩

/-- The class of a request has room for its size and alignment. -/
theorem classIndexFor_some {size align i : Nat} (h : classIndexFor size align = some i) :
    i < 8 ∧ size ≤ classSize i ∧ align ≤ classSize i := by
  rw [classIndexFor, List.findIdx?_eq_some_iff_getElem] at h
  obtain ⟨hlt, hfit, _⟩ := h
  have hi : i < 8 := hlt
  have hget : ∀ i (h : i < classSizes.length), classSizes[i] = classSize i := by decide
  rw [hget i hlt, decide_eq_true_eq] at hfit
  omega

/-- Different objects do not overlap. -/
theorem object_apart (size : Nat) {i j : Nat} (h : i ≠ j) : i*size + size ≤ j*size ∨ j*size + size ≤ i*size := by
  rcases Nat.lt_or_gt_of_ne h with hlt | hlt
  · have := Nat.mul_le_mul_right size hlt
    rw [Nat.succ_mul] at this
    exact .inl this
  · have := Nat.mul_le_mul_right size hlt
    rw [Nat.succ_mul] at this
    exact .inr this

/-- The links written so far, and what is left as it was. -/
theorem linksUpTo (mem : Bytes) (pagePtr size capacity : Nat) (hsize : 2 ≤ size) (hcap : capacity ≤ 4096) (n : Nat) :
    let mem' := (List.range n).foldl
      (fun mem i => writeLE mem (pagePtr + i*size) 2 (if i+1 < capacity then i+1 else freeListEnd)) mem
    (∀ addr, addr < pagePtr ∨ pagePtr + n*size ≤ addr → mem' addr = mem addr) ∧
      ∀ i < n, readLE mem' (pagePtr + i*size) 2 = if i+1 < capacity then i+1 else freeListEnd := by
  induction n with
  | zero => exact ⟨fun _ _ => rfl, fun i hi => absurd hi (Nat.not_lt_zero i)⟩
  | succ n ih =>
    obtain ⟨hother, hlink⟩ := ih
    rw [List.range_succ, List.foldl_append, List.foldl_cons, List.foldl_nil]
    refine ⟨fun addr ha => ?_, fun i hi => ?_⟩
    · rw [Nat.succ_mul] at ha
      rw [writeLE_other (by omega)]
      exact hother addr (by omega)
    · by_cases he : i = n
      · subst he
        rw [readLE_writeLE, Nat.mod_eq_of_lt]
        rw [freeListEnd]
        split <;> omega
      · rw [readLE_writeLE_other, hlink i (by omega)]
        rcases object_apart size he with h | h <;> omega

end Slab

/-! ### Pages of a class -/

namespace SlabPage
open Slab

theorem initSlabPage_run {classIndex : Nat} (hc : classIndex < 8) (pagePtr : Nat) (mem : Bytes) :
    initSlabPage pagePtr classIndex mem = (⟨true, classIndex, 0, 0, pageSize / classSize classIndex⟩,
      writeLinks mem pagePtr (classSize classIndex) (pageSize / classSize classIndex)) := by
  have hcap : ∀ c < 8, u16 (pageSize / classSize c) = pageSize / classSize c ∧ 0 < pageSize / classSize c := by decide
  obtain ⟨h₁, h₂⟩ := hcap classIndex hc
  rw [initSlabPage]
  simp only [h₁]
  rw [if_neg (by omega), if_pos h₂, Nat.mod_eq_of_lt (by omega)]

/-- The page is active, and as many objects of its class as it has room for fill it. -/
structure Formed (slab : SlabPage) : Prop where
  active : slab.active = true
  classIndex : slab.classIndex < 8
  capacity : slab.capacity = pageSize / classSize slab.classIndex

namespace Formed
variable {slab : SlabPage} (h : slab.Formed)
include h

/-- An object has room for a link. -/
theorem two_le : 2 ≤ classSize slab.classIndex := by
  obtain ⟨k, hk, _, hsize, _⟩ := classSize_spec h.classIndex
  rw [hsize]
  exact Nat.le_trans (show 2 ≤ 2^4 by decide) (Nat.pow_le_pow_right (by decide) hk)

theorem full : slab.capacity * classSize slab.classIndex = pageSize := by
  obtain ⟨k, _, _, hk, hfull⟩ := classSize_spec h.classIndex
  rw [h.capacity, hk, Nat.mul_comm]
  exact hfull

theorem capacity_le : slab.capacity ≤ 4096 := by
  rw [h.capacity]
  exact Nat.div_le_self _ _

/-- What `free_to_slab` makes of an object's pointer. -/
theorem freeToSlab_run {pagePtr index : Nat} (hpage : 0 < pagePtr) (hi : index < slab.capacity) (mem : Bytes) :
    slab.freeToSlab pagePtr (pagePtr + index*classSize slab.classIndex) mem =
      (true, { slab with freeHead := index, inUse := slab.inUse - 1 },
        writeLE mem (pagePtr + index*classSize slab.classIndex) 2 slab.freeHead) := by
  have htwo := h.two_le
  have hcap := h.capacity_le
  have hinside : index*classSize slab.classIndex < pageSize := by
    have := Nat.mul_le_mul_right (classSize slab.classIndex) (Nat.succ_le_of_lt hi)
    rw [h.full, Nat.succ_mul] at this
    omega
  have hindex : u16 (index*classSize slab.classIndex / classSize slab.classIndex) = index := by
    rw [Nat.mul_div_cancel _ (by omega), u16_of_lt (by omega)]
  have hmod : ¬ index*classSize slab.classIndex % classSize slab.classIndex ≠ 0 := by
    rw [Nat.mul_mod_left]
    exact fun h => h rfl
  rw [freeToSlab, if_neg (by omega), if_neg (by simp [h.active])]
  simp only [Nat.add_sub_cancel_left, hindex]
  rw [if_neg (by omega), if_neg (by omega), if_neg hmod, if_neg (by omega)]

end Formed
end SlabPage
end Nafuraito.Memory
