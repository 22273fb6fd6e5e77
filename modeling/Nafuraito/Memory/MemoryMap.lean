import Mathlib.Algebra.Group.Nat.Defs
import Mathlib.Logic.Basic
import Mathlib.Tactic.SplitIfs

/-! The boot memory map: zones, E820 entries and the queries the frame allocator makes.
Addresses and lengths are the `u64` values as naturals; sums wrap through `u64`. -/
namespace Nafuraito.Memory

/-- Wrap to 64 bits: the build has `overflow-checks=no`. -/
def u64 (n : Nat) : Nat := n % 2^64

/-- `a - b` on 64-bit words. -/
def u64Sub (a b : Nat) : Nat := u64 (a + (2^64 - u64 b))

theorem u64_lt (n : Nat) : u64 n < 2^64 := Nat.mod_lt n (by decide)

theorem u64_of_lt {n : Nat} (h : n < 2^64) : u64 n = n := Nat.mod_eq_of_lt h

theorem u64Sub_of_le {a b : Nat} (h : b ≤ a) (ha : a < 2^64) : u64Sub a b = a - b := by
  unfold u64Sub u64
  omega

def dmaZoneEnd : Nat := 16*1024*1024

def dma32ZoneEnd : Nat := 4*1024*1024*1024

inductive MemoryZone where
  | dma | dma32 | normal | highMem
  deriving DecidableEq, Repr

namespace MemoryZone

/-- The discriminants of the enumeration. -/
def idx : MemoryZone → Fin 4
  | dma => 0
  | dma32 => 1
  | normal => 2
  | highMem => 3

def startAddress : MemoryZone → Nat
  | dma => 0
  | dma32 => dmaZoneEnd
  | normal => dma32ZoneEnd
  | highMem => 2^64-1

def endAddress : MemoryZone → Nat
  | dma => dmaZoneEnd
  | dma32 => dma32ZoneEnd
  | normal => 2^64-1
  | highMem => 2^64-1

def fromAddress (addr : Nat) : MemoryZone :=
  if addr < dmaZoneEnd then dma
  else if addr < dma32ZoneEnd then dma32
  else normal

/-- The frames `alloc_frame_in_zone` searches: the zone's, below `total`. -/
def frameStart (z : MemoryZone) : Nat := z.startAddress / 4096

def frameEnd (z : MemoryZone) (total : Nat) : Nat := min (z.endAddress / 4096) total

theorem idx_injective : Function.Injective idx := by
  intro a b h
  cases a <;> cases b <;> first | rfl | exact absurd h (by decide)

/-- A tracked frame lies in the searched range of the zone of its address and in no other. -/
theorem fromAddress_iff {f total : Nat} (hf : f < total) (ht : total ≤ 2^52-1) (z : MemoryZone) :
    fromAddress (f*4096) = z ↔ z.frameStart ≤ f ∧ f < z.frameEnd total := by
  have hd : f*4096 < dmaZoneEnd ↔ f < 4096 := by unfold dmaZoneEnd; omega
  have hd32 : f*4096 < dma32ZoneEnd ↔ f < 1048576 := by unfold dma32ZoneEnd; omega
  simp only [fromAddress, hd, hd32]
  cases z <;> simp only [frameStart, frameEnd, startAddress, endAddress, dmaZoneEnd, dma32ZoneEnd]
    <;> split_ifs <;> simp <;> omega

end MemoryZone

/-- A `packed` 24-byte entry as the loader leaves it. -/
structure E820Entry where
  base : Nat
  length : Nat
  regionType : Nat
  acpiExtended : Nat
  deriving DecidableEq, Repr

namespace E820Entry

/-- Saturating, unlike the sums `base + length` in the frame allocator. -/
def endAddr (e : E820Entry) : Nat := min (e.base + e.length) (2^64-1)

def isValid (e : E820Entry) : Prop :=
  0 < e.length ∧ (e.acpiExtended &&& 1 ≠ 0 ∨ e.acpiExtended = 0)

/-- Region type 1 is usable RAM. -/
def isUsable (e : E820Entry) : Prop := e.isValid ∧ e.regionType = 1

instance (e : E820Entry) : Decidable e.isValid := inferInstanceAs (Decidable (_ ∧ _))

instance (e : E820Entry) : Decidable e.isUsable := inferInstanceAs (Decidable (_ ∧ _))

end E820Entry

/-- `MAX_MEMORY_ENTRIES`, the most entries a parsed map has. -/
def maxMemoryEntries : Nat := 64

/-- The entries the map's pointer and count delimit, and the pointer. -/
structure MemoryMap where
  entriesPtr : Nat
  entries : List E820Entry

namespace MemoryMap

/-- The loop of `highest_usable_address`. -/
def highestUsableAddress (m : MemoryMap) : Nat :=
  m.entries.foldl (fun highest e => if e.isUsable ∧ highest < e.endAddr then e.endAddr else highest) 0

private theorem highest_fold_le {bound : Nat} (es : List E820Entry) (h : ∀ e ∈ es, e.endAddr ≤ bound)
    (h₀ : Nat) (h₁ : h₀ ≤ bound) :
    es.foldl (fun highest e => if e.isUsable ∧ highest < e.endAddr then e.endAddr else highest) h₀
      ≤ bound := by
  induction es generalizing h₀ with
  | nil => exact h₁
  | cons e es ih =>
    apply ih fun e' he => h e' (List.mem_cons_of_mem e he)
    dsimp only
    split
    · exact h e List.mem_cons_self
    · exact h₁

/-- The result is bounded by any bound of the entries' ends. -/
theorem highestUsableAddress_le {m : MemoryMap} {bound : Nat} (h : ∀ e ∈ m.entries, e.endAddr ≤ bound) :
    m.highestUsableAddress ≤ bound :=
  highest_fold_le m.entries h 0 (Nat.zero_le bound)

theorem highestUsableAddress_lt (m : MemoryMap) : m.highestUsableAddress < 2^64 := by
  have h : m.highestUsableAddress ≤ 2^64-1 := highestUsableAddress_le fun e _ => Nat.min_le_right _ _
  omega

end MemoryMap
end Nafuraito.Memory
