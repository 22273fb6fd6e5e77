import Nafuraito.Library.Bitmap
import Nafuraito.Library.Fallible
import Nafuraito.Memory.MemoryMap

/-! The frame allocator: one bitmap, a search hint, a global counter and one counter a zone.
The bitmap is what the `bitmap` pointer reads; nothing stops a store past its end. -/
namespace Nafuraito.Memory
open Nafuraito.Library

structure MemoryError where
  code : Nat
  message : String
  fatal : Bool
  deriving DecidableEq, Repr

structure ZoneStats where
  totalFrames : Nat
  freeFrames : Nat
  deriving DecidableEq, Repr

/-- The last three fields hold of every manager `init` builds, and no operation changes
what they speak about. -/
structure PhysicalMemoryManager where
  bitmap : Bytes
  bitmapSize : Nat
  totalFrames : Nat
  freeFrames : Nat
  lastAllocIndex : Nat
  highestAddress : Nat
  zones : Fin 4 → ZoneStats
  highest_lt : highestAddress < 2^64
  total_eq : totalFrames = highestAddress / 4096
  size_eq : bitmapSize = (totalFrames + 7) / 8

namespace PhysicalMemoryManager

abbrev Op (α : Type) := Fallible PhysicalMemoryManager MemoryError α

theorem total_le (s : PhysicalMemoryManager) : s.totalFrames ≤ 2^52-1 := by
  have h₁ := s.highest_lt
  have h₂ := s.total_eq
  omega

/-- Add to a zone's free counter, as `self.zones[zone_idx].free_frames -= 1` and `+= 1` do. -/
def bumpZone (zones : Fin 4 → ZoneStats) (z : MemoryZone) (f : Nat → Nat) : Fin 4 → ZoneStats :=
  Function.update zones z.idx { zones z.idx with freeFrames := f (zones z.idx).freeFrames }

/-- `for bit_offset in 0..8`: the first clear bit. -/
def firstClear (byte : Byte) : Option Nat := (List.range 8).find? (fun bit => !Bitmap.bitOn byte bit)

/-- The wrap-around search of `alloc_frame`; the first argument is `bitmap_size - loop_count`.
A clear phantom bit ends the scan of its byte. -/
def allocFrameSearch (s : PhysicalMemoryManager) : Nat → Nat → Option (Nat × Nat)
  | 0, _ => none
  | n+1, current =>
    match if s.bitmap current ≠ 0xFF#8 then firstClear (s.bitmap current) else none with
    | none => allocFrameSearch s n ((current+1) % s.bitmapSize)
    | some bit =>
      if current*8+bit ≥ s.totalFrames then allocFrameSearch s n ((current+1) % s.bitmapSize)
      else some (current, bit)

def allocFrame : Op Nat := fun s =>
  if s.freeFrames = 0 then (.error ⟨3, "No free memory available!", false⟩, s)
  else match s.allocFrameSearch s.bitmapSize s.lastAllocIndex with
    | some (index, bit) => (.ok ((index*8+bit)*4096),
        { s with
          bitmap := Bitmap.setAt s.bitmap index bit
          freeFrames := u64Sub s.freeFrames 1
          lastAllocIndex := index })
    | none => (.error ⟨4, "Failed to find free frame!", false⟩, s)

/-- The two loops of `alloc_frame_in_zone`: the first byte with a clear bit inside the zone. -/
def zoneSearch (s : PhysicalMemoryManager) (lo hi : Nat) : Option (Nat × Nat) :=
  (List.range' (lo/8) ((hi+7)/8 - lo/8)).findSome? fun index =>
    if s.bitmap index ≠ 0xFF#8 then
      ((List.range 8).find? fun bit =>
        decide (lo ≤ index*8+bit ∧ index*8+bit < hi) && !Bitmap.bitOn (s.bitmap index) bit).map (index, ·)
    else none

def allocFrameInZone (z : MemoryZone) : Op Nat := fun s =>
  if (s.zones z.idx).freeFrames = 0 then
    (.error ⟨10, "No free frames in requested zone!", false⟩, s)
  else match s.zoneSearch z.frameStart (z.frameEnd s.totalFrames) with
    | some (index, bit) => (.ok ((index*8+bit)*4096),
        { s with
          bitmap := Bitmap.setAt s.bitmap index bit
          freeFrames := u64Sub s.freeFrames 1
          zones := bumpZone s.zones z (u64Sub · 1)
          lastAllocIndex := index })
    | none => (.error ⟨11, "Failed to find free frame in zone!", false⟩, s)

def allocDmaFrame : Op Nat := allocFrameInZone .dma

/-- The DMA zone first, then the DMA32 zone. -/
def allocDma32Frame : Op Nat := fun s =>
  match allocFrameInZone .dma s with
  | (.ok addr, t) => (.ok addr, t)
  | (.error _, t) => allocFrameInZone .dma32 t

/-- Out of bounds counts as used. -/
def testBit (s : PhysicalMemoryManager) (frame : Nat) : Bool :=
  if frame ≥ s.totalFrames then true else Bitmap.test s.bitmap frame

/-- The inner loop of `alloc_frames_contiguous`: the first used frame among `count`. -/
def firstUsed (s : PhysicalMemoryManager) : Nat → Nat → Option Nat
  | _, 0 => none
  | frame, n+1 => if s.testBit frame then some frame else firstUsed s (u64 (frame+1)) n

/-- The outer loop: `current_frame` strictly grows below `2^64`, so the fuel the caller
gives is never used up. -/
def runSearch (s : PhysicalMemoryManager) (count hi : Nat) : Nat → Nat → Option Nat
  | 0, _ => none
  | fuel+1, current =>
    if u64 (current+count) ≤ hi then
      match s.firstUsed current count with
      | some frame => runSearch s count hi fuel (u64 (frame+1))
      | none => some current
    else none

/-- Set the bits of a found run and debit the zone of each frame. -/
def takeRun : Nat → Nat → PhysicalMemoryManager → PhysicalMemoryManager
  | _, 0, s => s
  | frame, n+1, s => takeRun (u64 (frame+1)) n
      { s with
        bitmap := Bitmap.setAt s.bitmap (frame/8) (frame%8)
        zones := bumpZone s.zones (.fromAddress (u64 (frame*4096))) (u64Sub · 1) }

/-- The frames searched: those of the zone, or all. -/
def searchRange (s : PhysicalMemoryManager) : Option MemoryZone → Nat × Nat
  | some z => (z.frameStart, z.frameEnd s.totalFrames)
  | none => (0, s.totalFrames)

def allocFramesContiguous (count : Nat) (zone : Option MemoryZone) : Op Nat := fun s =>
  if count = 0 then (.error ⟨12, "Cannot allocate zero frames!", false⟩, s)
  else if count = 1 then
    match zone with
    | some z => allocFrameInZone z s
    | none => allocFrame s
  else match s.runSearch count (s.searchRange zone).2 (2^64) (s.searchRange zone).1 with
    | some first => (.ok (u64 (first*4096)),
        { takeRun first count s with freeFrames := u64Sub (takeRun first count s).freeFrames count })
    | none => (.error ⟨13, "No contiguous frames available!", false⟩, s)

def freeFrame (addr : Nat) : Op Unit := fun s =>
  if addr % 4096 ≠ 0 then (.error ⟨5, "Address not page-aligned!", false⟩, s)
  else if addr / 4096 ≥ s.totalFrames then (.error ⟨6, "Address out of bounds!", false⟩, s)
  else if !Bitmap.bitOn (s.bitmap (addr/4096/8)) (addr/4096%8) then
    (.error ⟨7, "Double free detected!", false⟩, s)
  else (.ok (),
    { s with
      bitmap := Bitmap.clearAt s.bitmap (addr/4096/8) (addr/4096%8)
      freeFrames := u64 (s.freeFrames+1)
      zones := bumpZone s.zones (.fromAddress addr) (fun n => u64 (n+1))
      lastAllocIndex := if addr/4096/8 < s.lastAllocIndex then addr/4096/8 else s.lastAllocIndex })

def freeFramesContiguous (baseAddr count : Nat) : Op Unit := fun s =>
  if count = 0 then (.ok (), s)
  else if baseAddr % 4096 ≠ 0 then (.error ⟨5, "Address not page-aligned!", false⟩, s)
  else Fallible.forRange (fun i => freeFrame (u64 (baseAddr + u64 (i*4096)))) 0 count s

def setBit (s : PhysicalMemoryManager) (frame : Nat) : PhysicalMemoryManager :=
  if frame ≥ s.totalFrames then s
  else if Bitmap.bitOn (s.bitmap (frame/8)) (frame%8) then s
  else { s with
    bitmap := Bitmap.setAt s.bitmap (frame/8) (frame%8)
    freeFrames := s.freeFrames - 1 }

def clearBit (s : PhysicalMemoryManager) (frame : Nat) : PhysicalMemoryManager :=
  if frame ≥ s.totalFrames then s
  else if Bitmap.bitOn (s.bitmap (frame/8)) (frame%8) then
    { s with
      bitmap := Bitmap.clearAt s.bitmap (frame/8) (frame%8)
      freeFrames := u64 (s.freeFrames+1) }
  else s

/-- The frame range of `[base, base+length)`, rounded outward. -/
def regionFrames (base length : Nat) : List Nat :=
  List.range' (base/4096) (u64 (base+length+4096-1)/4096 - base/4096)

def markRegionUsed (base length : Nat) (s : PhysicalMemoryManager) : PhysicalMemoryManager :=
  (regionFrames base length).foldl setBit s

def markRegionFree (base length : Nat) (s : PhysicalMemoryManager) : PhysicalMemoryManager :=
  (regionFrames base length).foldl clearBit s

def isFrameUsed (s : PhysicalMemoryManager) (addr : Nat) : Bool := s.testBit (addr/4096)

/-- The cast to `u8` keeps the low byte. -/
def zoneUsagePercent (s : PhysicalMemoryManager) (z : MemoryZone) : Nat :=
  if (s.zones z.idx).totalFrames = 0 then 0
  else u64 (u64Sub (s.zones z.idx).totalFrames (s.zones z.idx).freeFrames * 100)
    / (s.zones z.idx).totalFrames % 256

end PhysicalMemoryManager
end Nafuraito.Memory
