import Nafuraito.Library.Slots
import Nafuraito.Memory.Paging

/-! The registry of demand-paged regions: registering, removing and faulting in. -/
namespace Nafuraito.Memory
open Nafuraito.Library

def alignDown (addr : BitVec 64) : BitVec 64 := addr &&& ~~~offsetMask

/-- The addition wraps. -/
def alignUp (addr : BitVec 64) : BitVec 64 := (addr + 4096#64 - 1#64) &&& ~~~offsetMask

def rangesOverlap (aStart aEnd bStart bEnd : BitVec 64) : Bool := aStart < bEnd && bStart < aEnd

def checkedAdd (a b : BitVec 64) : Option (BitVec 64) := if a.toNat + b.toNat < 2^64 then some (a + b) else none

def checkedSub (a b : BitVec 64) : Option (BitVec 64) := if b ≤ a then some (a - b) else none

/-! ### The registry -/

/-- The region from an address on. -/
def VmRegion.shrinkFront (region : VmRegion) (addr : BitVec 64) : VmRegion := { region with start := addr }

/-- The region up to an address. -/
def VmRegion.shrinkBack (region : VmRegion) (addr : BitVec 64) : VmRegion := { region with endAddr := addr }

namespace Regions

/-- Some region overlaps the range. -/
def overlaps (regions : Regions) (start endAddr : BitVec 64) : Bool :=
  (List.finRange 64).any fun i => match regions i with
    | some region => rangesOverlap start endAddr region.start region.endAddr
    | none => false

/-- Put a region into the first free slot. -/
def store (region : VmRegion) (message : String) : Fallible Regions Stop Unit := fun regions =>
  match Slots.firstFree regions with
  | some i => (.ok (), Function.update regions i (some region))
  | none => (.error (.err message), regions)

def findRegion (regions : Regions) (addr : BitVec 64) : Option VmRegion :=
  (List.finRange 64).findSome? fun i => (regions i).filter fun region => region.start ≤ addr && addr < region.endAddr

/-- What `munmap` does with the region in one slot. -/
def cutSlot (unmapStart unmapEnd : BitVec 64) (i : Fin 64) : Fallible Regions Stop Unit := fun regions =>
  match regions i with
  | none => (.ok (), regions)
  | some region =>
    if !rangesOverlap unmapStart unmapEnd region.start region.endAddr then (.ok (), regions)
    else if unmapStart ≤ region.start ∧ unmapEnd ≥ region.endAddr then
      (.ok (), Function.update regions i none)
    else if unmapStart ≤ region.start ∧ unmapEnd < region.endAddr then
      (.ok (), Function.update regions i (some (region.shrinkFront unmapEnd)))
    else if unmapStart > region.start ∧ unmapEnd ≥ region.endAddr then
      (.ok (), Function.update regions i (some (region.shrinkBack unmapStart)))
    else
      store (region.shrinkFront unmapEnd) "No free region slots for split"
        (Function.update regions i (some (region.shrinkBack unmapStart)))

/-- The loop over all slots, in which a split may fill a slot still ahead. -/
def cut (unmapStart unmapEnd : BitVec 64) : Fallible Regions Stop Unit :=
  Fallible.forRange (fun i => cutSlot unmapStart unmapEnd (Fin.ofNat 64 i)) 0 64

end Regions

namespace Machine

def onRegions {α : Type} (x : Fallible Regions Stop α) : Op α :=
  Fallible.zoom (fun s => s.regions) (fun regions s => { s with regions := regions }) x

/-- The pages a call is about. -/
def pageRange (start : VirtAddr) (size : BitVec 64) : Op (BitVec 64 × BitVec 64) := do
  let sum ← Fallible.okOr (checkedAdd start.addr size) (.err "Size overflow")
  Fallible.require (¬ alignUp sum ≤ alignDown start.addr) (.err "Invalid region size")
  pure (alignDown start.addr, alignUp sum)

/-- Regions that overlap are not rejected here. -/
def registerRegion (start : VirtAddr) (size : BitVec 64) (flags : PageTableFlags) (backing : BackingKind) :
    Op Unit := do
  let (startAddr, endAddr) ← pageRange start size
  onRegions (Regions.store ⟨startAddr, endAddr, flags, backing⟩ "No free region slots")

def requireFileOffset (file : FileBacking) : Op Unit :=
  Fallible.require (file.fileOffset % 4096#64 = 0) (.err "File offset must be page-aligned")

def registerFileRegion (start : VirtAddr) (size : BitVec 64) (flags : PageTableFlags) (file : FileBacking) :
    Op Unit := do
  requireFileOffset file
  registerRegion start size flags (.fileBacked file)

def requireBacking : BackingKind → Op Unit
  | .zeroFill => pure ()
  | .fileBacked file => requireFileOffset file

def mmap (start : VirtAddr) (size : BitVec 64) (flags : PageTableFlags) (backing : BackingKind) :
    Op VirtAddr := do
  Fallible.require (size ≠ 0) (.err "Invalid region size")
  requireBacking backing
  let (startAddr, endAddr) ← pageRange start size
  let s ← Fallible.get
  Fallible.require (¬ s.regions.overlaps startAddr endAddr) (.err "Region overlaps existing mapping")
  onRegions (Regions.store ⟨startAddr, endAddr, flags, backing⟩ "No free region slots")
  pure ⟨startAddr⟩

def mmapFile (start : VirtAddr) (size : BitVec 64) (flags : PageTableFlags) (file : FileBacking) :
    Op VirtAddr := do
  requireFileOffset file
  mmap start size flags (.fileBacked file)

/-- `if let Ok(a) = x`. -/
def tryOk {α : Type} (x : Op α) : Op (Option α) := fun s => match x s with
  | (.ok a, t) => (.ok (some a), t)
  | (.error (.err _), t) => (.ok none, t)
  | (.error .crash, t) => (.error .crash, t)

theorem tryOk_ok {α : Type} {x : Op α} {s t : Machine} {a : α} (h : x s = (.ok a, t)) :
    tryOk x s = (.ok (some a), t) := by
  rw [tryOk, h]

/-- A call that fails is skipped, or was a crash. -/
theorem tryOk_error {α : Type} {x : Op α} {s t : Machine} {e : Stop} (h : x s = (.error e, t)) :
    tryOk x s = (.ok none, t) ∨ tryOk x s = (.error .crash, t) := by
  rw [tryOk, h]
  cases e
  · exact .inl rfl
  · exact .inr rfl

/-- Unmap a page and free its frame, if it has one. -/
def releasePage (v : VirtAddr) : Op Unit := do
  match ← tryOk (translateAddress v) with
  | none => pure ()
  | some phys =>
    unmapPage v
    Fallible.mapError (fun _ => .err "Failed to free frame") (freeFrame phys.alignDown.addr.toNat)

/-- The loop over the pages from `unmapStart` to `unmapEnd`, both aligned. -/
def releasePages (unmapStart unmapEnd : BitVec 64) : Op Unit :=
  Fallible.forRange (fun page => releasePage ⟨BitVec.ofNat 64 (4096*page)⟩) (unmapStart.toNat/4096)
    (unmapEnd.toNat/4096 - unmapStart.toNat/4096)

def munmap (start : VirtAddr) (size : BitVec 64) : Op Unit := do
  Fallible.require (size ≠ 0) (.err "Invalid region size")
  let (unmapStart, unmapEnd) ← pageRange start size
  let s ← Fallible.get
  Fallible.require (s.regions.overlaps unmapStart unmapEnd) (.err "Address not in demand region")
  releasePages unmapStart unmapEnd
  onRegions (Regions.cut unmapStart unmapEnd)

/-! ### The page fault -/

/-- `phys_to_virt` of this module is null from 128 MiB on, and at 0, where it is the identity. -/
def identityFrame (phys : BitVec 64) : Op Nat :=
  if phys.toNat ≥ 0x8000000 ∨ phys = 0 then fail "No identity mapping for frame" else pure (phys.toNat/4096)

/-- Words from bytes, the low byte first; bytes past the end are zero. -/
def pageOfBytes (bytes : List Byte) (i : Fin 512) : BitVec 64 :=
  (List.range 8).foldr (fun k word => word <<< 8 ||| (bytes.getD (8*i + k) 0).setWidth 64) 0

end Machine

/-- The file offset a fault on a page of a region reads at. -/
def VmRegion.faultOffset (region : VmRegion) (file : FileBacking) (pageBase : BitVec 64) : Except Stop (BitVec 64) :=
  match checkedSub pageBase region.start with
  | none => .error (.err "Fault outside region")
  | some pageOffset => match checkedAdd file.fileOffset pageOffset with
    | none => .error (.err "File offset overflow")
    | some fileOffset => .ok fileOffset

/-- The bytes read for a page of a file; none at or past the end of the file. -/
def FileBacking.pageBytes (file : FileBacking) (fileOffset : BitVec 64) : List Byte :=
  if fileOffset < file.fileSize then
    let toRead := min 4096 (file.fileSize - fileOffset).toNat
    (file.readAt file.ctx fileOffset toRead).take toRead
  else []

namespace Machine

/-- Fill a new frame for a page of a region. -/
def fillFrame (region : VmRegion) (pageBase phys : BitVec 64) : Op Unit := match region.backing with
  | .zeroFill => do
    let frame ← identityFrame phys
    Fallible.modify (·.setFrame frame fun _ => 0)
  | .fileBacked file => do
    let frame ← identityFrame phys
    Fallible.modify (·.setFrame frame fun _ => 0)
    let fileOffset ← Fallible.lift (region.faultOffset file pageBase)
    Fallible.modify (·.setFrame frame (pageOfBytes (file.pageBytes fileOffset)))

/-- The new frame is not given back where a later step fails. -/
def handleDemandPageFault (faultAddr : VirtAddr) (errorCode : BitVec 64) : Op Unit := do
  Fallible.require (errorCode &&& 1#64 = 0) (.err "Page was present")
  let s ← Fallible.get
  let region ← Fallible.okOr (s.regions.findRegion faultAddr.addr) (.err "Address not in demand region")
  let pageBase := alignDown faultAddr.addr
  let frame ← Fallible.mapError (fun _ => .err "Failed to allocate frame") allocFrame
  fillFrame region pageBase (BitVec.ofNat 64 frame)
  mapPage ⟨pageBase⟩ ⟨BitVec.ofNat 64 frame⟩ (region.flags.set PageTableFlags.PRESENT)

end Machine
end Nafuraito.Memory
