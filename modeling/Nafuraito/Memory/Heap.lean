import Nafuraito.Memory.Slab

/-! The kernel heap: slab pages for small requests, runs of pages with a header for the others.
One caller at a time holds the lock, so a call is one step. -/
namespace Nafuraito.Memory
open Nafuraito.Library
open Slab (pageSize classIndexFor)

def heapSize : Nat := 4*1024*1024

def heapPageCount : Nat := heapSize / pageSize

/-- Where the linker put the arena. -/
structure HeapArena where
  base : Nat
  aligned : base % 4096 = 0
  base_pos : 0 < base
  fits : base + heapSize ≤ 2^64

/-- `core::alloc::Layout`. -/
structure Layout where
  size : Nat
  align : Nat
  align_pow : ∃ k, align = 2^k
  align_le : align ≤ 2^63
  size_le : size ≤ 2^63-1 - (align-1)
  deriving DecidableEq

inductive PageKind where
  | free | slab | large
  deriving DecidableEq, Repr

/-- `HEAP_READY`, `HEAP_STATE` and memory. -/
structure Heap where
  ready : Bool
  pageBitmap : Bytes
  pageKind : Nat → PageKind
  pageHead : Nat → Nat
  slabs : Nat → SlabPage
  mem : Bytes

namespace HeapArena

def pagePtr (arena : HeapArena) (page : Nat) : Nat := arena.base + page*pageSize

theorem pagePtr_succ (arena : HeapArena) (page : Nat) : arena.pagePtr (page+1) = arena.pagePtr page + pageSize := by
  rw [pagePtr, pagePtr, Nat.add_mul, Nat.one_mul, Nat.add_assoc]

end HeapArena

namespace Heap

/-- `LARGE_MAGIC`. -/
def largeMagic : Nat := 0x4E414655

/-- `size_of::<LargeAllocHeader>()`. -/
def headerSize : Nat := 8

/-- `(value + align - 1) & !(align - 1)`. -/
def alignUp (value align : Nat) : Nat :=
  (BitVec.ofNat 64 (value + align - 1) &&& ~~~BitVec.ofNat 64 (align - 1)).toNat

/-- `heap_init`. -/
def heapInit (h : Heap) : Heap where
  ready := true
  pageBitmap := Bitmap.fill h.pageBitmap (heapPageCount/8) 0
  pageKind page := if page < heapPageCount then .free else h.pageKind page
  pageHead page := if page < heapPageCount then 0xFFFF else h.pageHead page
  slabs page := if page < heapPageCount then .empty else h.slabs page
  mem := h.mem

def isPageUsed (h : Heap) (page : Nat) : Bool := Bitmap.bitOn (h.pageBitmap (page/8)) (page%8)

def setPageUsed (h : Heap) (page : Nat) (used : Bool) : Heap :=
  { h with pageBitmap := if used then Bitmap.setAt h.pageBitmap (page/8) (page%8)
    else Bitmap.clearAt h.pageBitmap (page/8) (page%8) }

def setKind (h : Heap) (page : Nat) (kind : PageKind) (head : Nat) : Heap :=
  { h with pageKind := Function.update h.pageKind page kind, pageHead := Function.update h.pageHead page head }

def setSlab (h : Heap) (page : Nat) (slab : SlabPage) : Heap :=
  { h with slabs := Function.update h.slabs page slab }

/-! ### Page runs -/

/-- The first run of `count` free pages; the first argument is the number of pages left to look at. -/
def findRun (h : Heap) (count : Nat) : Nat → Nat → Nat → Nat → Option Nat
  | 0, _, _, _ => none
  | n+1, page, runStart, runLen =>
    if !h.isPageUsed page then
      let runStart := if runLen = 0 then page else runStart
      if runLen+1 = count then some runStart else findRun h count n (page+1) runStart (runLen+1)
    else findRun h count n (page+1) runStart 0

def markUsed (h : Heap) (start count : Nat) : Heap :=
  (List.range count).foldl (fun h i => h.setPageUsed (start+i) true) h

def allocContiguousPages (count : Nat) (h : Heap) : Option Nat × Heap :=
  if count = 0 ∨ count > heapPageCount then (none, h)
  else match h.findRun count heapPageCount 0 0 0 with
    | some start => (some start, h.markUsed start count)
    | none => (none, h)

def releasePage (h : Heap) (page : Nat) : Heap :=
  ((h.setPageUsed page false).setKind page .free 0xFFFF).setSlab page .empty

/-- The loop also stops at the end of the arena. -/
def freeContiguousPages (h : Heap) (start count : Nat) : Heap :=
  (List.range (min count (heapPageCount - start))).foldl (fun h i => h.releasePage (start+i)) h

/-! ### Allocation -/

variable (arena : HeapArena)

/-- The first pass of `alloc_small` over the pages. -/
def allocExisting (classIndex : Nat) : List Nat → Heap → Option (Nat × Heap)
  | [], _ => none
  | page :: rest, h =>
    let slab := h.slabs page
    if h.pageKind page = .slab ∧ slab.active ∧ slab.classIndex = classIndex ∧ slab.hasFreeObjects then
      let (ptr, slab) := slab.allocFromSlab (arena.pagePtr page) h.mem
      if ptr ≠ 0 then some (ptr, h.setSlab page slab) else allocExisting classIndex rest (h.setSlab page slab)
    else allocExisting classIndex rest h

/-- A new slab page and its first object. -/
def allocNewSlab (classIndex newPage : Nat) (h : Heap) : Nat × Heap :=
  let h := h.setKind newPage .slab (u16 newPage)
  let (slab, mem) := SlabPage.initSlabPage (arena.pagePtr newPage) classIndex h.mem
  let h := { h with mem := mem }
  let (ptr, slab) := slab.allocFromSlab (arena.pagePtr newPage) h.mem
  (ptr, h.setSlab newPage slab)

/-- Null pointers are 0. -/
def allocSmall (size align : Nat) (h : Heap) : Nat × Heap :=
  match classIndexFor size align with
  | none => (0, h)
  | some classIndex => match allocExisting arena classIndex (List.range heapPageCount) h with
    | some result => result
    | none => match allocContiguousPages 1 h with
      | (none, h) => (0, h)
      | (some newPage, h) => allocNewSlab arena classIndex newPage h

/-- `magic`, `pages` and `_reserved`. -/
def writeHeader (mem : Bytes) (basePtr pages : Nat) : Bytes :=
  writeLE (writeLE (writeLE mem basePtr 4 largeMagic) (basePtr+4) 2 (u16 pages)) (basePtr+6) 2 0

def markLarge (h : Heap) (headPage pages : Nat) : Heap :=
  (List.range pages).foldl (fun h i => h.setKind (headPage+i) .large (u16 headPage)) h

/-- The pages of a large request; the sums before the division saturate. -/
def largePages (size align : Nat) : Nat :=
  let bytesNeeded := min (min (size + align) (2^64-1) + headerSize) (2^64-1)
  u64 (bytesNeeded + pageSize - 1) / pageSize

def allocLarge (size align : Nat) (h : Heap) : Nat × Heap :=
  let pages := largePages size align
  if pages = 0 ∨ pages > 0xFFFF then (0, h)
  else match allocContiguousPages pages h with
    | (none, h) => (0, h)
    | (some headPage, h) =>
      let h := h.markLarge headPage pages
      (alignUp (arena.pagePtr headPage + headerSize) (max align 1),
        { h with mem := writeHeader h.mem (arena.pagePtr headPage) pages })

def allocInner (size align : Nat) (h : Heap) : Nat × Heap :=
  if size = 0 then (0, h)
  else if (classIndexFor size align).isSome then
    let (ptr, h) := allocSmall arena size align h
    if ptr ≠ 0 then (ptr, h) else allocLarge arena size align h
  else allocLarge arena size align h

def heapAlloc (layout : Layout) (h : Heap) : Nat × Heap :=
  if !h.ready then (0, h) else allocInner arena layout.size layout.align h

/-! ### Freeing -/

/-- The magic and the page count a header holds. -/
def headerMagic (mem : Bytes) (basePtr : Nat) : Nat := readLE mem basePtr 4

def headerPages (mem : Bytes) (basePtr : Nat) : Nat := readLE mem (basePtr+4) 2

def freeSlabObject (headPage ptr : Nat) (h : Heap) : Heap :=
  if headPage ≥ heapPageCount then h
  else
    let (ok, slab, mem) := (h.slabs headPage).freeToSlab (arena.pagePtr headPage) ptr h.mem
    let h := { h.setSlab headPage slab with mem := mem }
    if !ok then h
    else if slab.isEmpty then h.freeContiguousPages headPage 1 else h

def freeLargeRun (headPage : Nat) (h : Heap) : Heap :=
  if headPage ≥ heapPageCount then h
  else if headerMagic h.mem (arena.pagePtr headPage) ≠ largeMagic then h
  else h.freeContiguousPages headPage (headerPages h.mem (arena.pagePtr headPage))

def freeInner (ptr : Nat) (h : Heap) : Heap :=
  if ptr = 0 then h
  else if ptr < arena.base ∨ ptr ≥ arena.base + heapSize then h
  else
    let page := (ptr - arena.base) / pageSize
    if page ≥ heapPageCount then h
    else match h.pageKind page with
      | .slab => freeSlabObject arena (h.pageHead page) ptr h
      | .large => freeLargeRun arena (h.pageHead page) h
      | .free => h

def heapDealloc (ptr : Nat) (h : Heap) : Heap := if !h.ready then h else freeInner arena ptr h

end Heap
end Nafuraito.Memory
