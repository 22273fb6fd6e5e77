import Nafuraito.Memory.Machine

/-! Mapping, unmapping, remapping and translating pages. The walks of both modes are written
out as in the source; `PageWalk` shows that one recursion over the levels gives them all. -/
namespace Nafuraito.Memory.Machine
open Nafuraito.Library

def requireCanonical (mode : PagingMode) (v : VirtAddr) : Op Unit := match mode with
  | .fourLevel => Fallible.require v.isCanonicalLa48 (.err "Virtual address not canonical for LA48")
  | .fiveLevel => Fallible.require v.isCanonicalLa57 (.err "Virtual address not canonical for LA57")

/-- The entry of a table, which must be present. -/
def presentEntry (table : Nat) (index : Fin 512) (message : String) : Op PageTableEntry := do
  let entry ← readEntry table index
  Fallible.require entry.isPresent (.err message)
  pure entry

/-! ### `map_page` -/

/-- Present, writable, and user if the page is. -/
def tableFlags (flags : PageTableFlags) : PageTableFlags :=
  let t := (PageTableFlags.new.set PageTableFlags.PRESENT).set PageTableFlags.WRITABLE
  if flags.contains PageTableFlags.USER then t.set PageTableFlags.USER else t

def linkNewTable (table : Nat) (index : Fin 512) (flags : PageTableFlags) : Op (BitVec 64) := do
  let newTable ← allocPageTable
  writeEntry table index (.of newTable (tableFlags flags))
  pure newTable

def getOrCreateNextLevel (table : Nat) (index : Fin 512) (flags : PageTableFlags) : Op (BitVec 64) := do
  let entry ← readEntry table index
  if entry.isPresent then pure entry.address else linkNewTable table index flags

def mapLevels (manager : PagingManager) (v : VirtAddr) (p : PhysAddr) (flags : PageTableFlags) : Op Unit :=
  match manager.mode with
  | .fiveLevel => do
    let pml5 ← tableAt manager.rootTablePhys
    let pml4Phys ← getOrCreateNextLevel pml5 v.pml5Index flags
    let pml4 ← tableAt pml4Phys
    let pdptPhys ← getOrCreateNextLevel pml4 v.pml4Index flags
    let pdpt ← tableAt pdptPhys
    let pdPhys ← getOrCreateNextLevel pdpt v.pdptIndex flags
    let pd ← tableAt pdPhys
    let ptPhys ← getOrCreateNextLevel pd v.pdIndex flags
    let pt ← tableAt ptPhys
    writeEntry pt v.ptIndex (.of p.addr flags)
  | .fourLevel => do
    let pml4 ← tableAt manager.rootTablePhys
    let pdptPhys ← getOrCreateNextLevel pml4 v.pml4Index flags
    let pdpt ← tableAt pdptPhys
    let pdPhys ← getOrCreateNextLevel pdpt v.pdptIndex flags
    let pd ← tableAt pdPhys
    let ptPhys ← getOrCreateNextLevel pd v.pdIndex flags
    let pt ← tableAt ptPhys
    writeEntry pt v.ptIndex (.of p.addr flags)

def mapPage (v : VirtAddr) (p : PhysAddr) (flags : PageTableFlags) : Op Unit := do
  let manager ← getPagingManager
  Fallible.require p.isAligned (.err "Physical address not page-aligned")
  requireCanonical manager.mode v
  mapLevels manager v p flags
  invlpg v

/-! ### `unmap_page` -/

def onlyIf (c : Bool) (action : Op Unit) : Op Unit := if c then action else pure ()

def ifEmpty (table : Nat) (action : Op Unit) : Op Unit := fun s =>
  if s.isPageTableEmpty table then action s else (.ok (), s)

/-- Clear the entry that links a table and free the table. -/
def unlinkTable (table : Nat) (index : Fin 512) (child : PageTableEntry) : Op Unit := do
  writeEntry table index .new
  freePageTable child.address

def unmapLevels (manager : PagingManager) (v : VirtAddr) (freeEmpty : Bool) : Op Unit :=
  match manager.mode with
  | .fiveLevel => do
    let pml5 ← tableAt manager.rootTablePhys
    let pml5Entry ← presentEntry pml5 v.pml5Index "Page not mapped (PML5)"
    let pml4 ← tableAt pml5Entry.address
    let pml4Entry ← presentEntry pml4 v.pml4Index "Page not mapped (PML4)"
    let pdpt ← tableAt pml4Entry.address
    let pdptEntry ← presentEntry pdpt v.pdptIndex "Page not mapped (PDPT)"
    let pd ← tableAt pdptEntry.address
    let pdEntry ← presentEntry pd v.pdIndex "Page not mapped (PD)"
    let pt ← tableAt pdEntry.address
    let _ ← presentEntry pt v.ptIndex "Page not mapped (PT)"
    writeEntry pt v.ptIndex .new
    onlyIf freeEmpty <| ifEmpty pt do
      unlinkTable pd v.pdIndex pdEntry
      ifEmpty pd do
        unlinkTable pdpt v.pdptIndex pdptEntry
        ifEmpty pdpt do
          unlinkTable pml4 v.pml4Index pml4Entry
          ifEmpty pml4 (unlinkTable pml5 v.pml5Index pml5Entry)
  | .fourLevel => do
    let pml4 ← tableAt manager.rootTablePhys
    let pml4Entry ← presentEntry pml4 v.pml4Index "Page not mapped (PML4)"
    let pdpt ← tableAt pml4Entry.address
    let pdptEntry ← presentEntry pdpt v.pdptIndex "Page not mapped (PDPT)"
    let pd ← tableAt pdptEntry.address
    let pdEntry ← presentEntry pd v.pdIndex "Page not mapped (PD)"
    let pt ← tableAt pdEntry.address
    let _ ← presentEntry pt v.ptIndex "Page not mapped (PT)"
    writeEntry pt v.ptIndex .new
    onlyIf freeEmpty <| ifEmpty pt do
      unlinkTable pd v.pdIndex pdEntry
      ifEmpty pd do
        unlinkTable pdpt v.pdptIndex pdptEntry
        ifEmpty pdpt (unlinkTable pml4 v.pml4Index pml4Entry)

def unmapPageInternal (v : VirtAddr) (freeEmpty : Bool) : Op Unit := do
  let manager ← getPagingManager
  requireCanonical manager.mode v
  unmapLevels manager v freeEmpty
  invlpg v

def unmapPage (v : VirtAddr) : Op Unit := unmapPageInternal v true

/-! ### `translate_address` and `get_page_flags` -/

/-- The address a leaf of a level gives: 4 KiB, 2 MiB or 1 GiB pages. -/
def leafAddress (v : VirtAddr) (level : Nat) (e : PageTableEntry) : PhysAddr := match level with
  | 0 => ⟨e.address ||| v.pageOffset⟩
  | 1 => ⟨(e.address &&& ~~~0x1FFFFF#64) ||| (v.addr &&& 0x1FFFFF#64)⟩
  | _ => ⟨(e.address &&& ~~~0x3FFFFFFF#64) ||| (v.addr &&& 0x3FFFFFFF#64)⟩

/-- The walk the two readers share: `out` is what they return for a leaf of a level. -/
def readLevels {α : Type} (manager : PagingManager) (v : VirtAddr) (out : Nat → PageTableEntry → α) : Op α :=
  match manager.mode with
  | .fiveLevel => do
    let pml5 ← tableAt manager.rootTablePhys
    let pml5Entry ← presentEntry pml5 v.pml5Index "Page not mapped (PML5)"
    let pml4 ← tableAt pml5Entry.address
    let pml4Entry ← presentEntry pml4 v.pml4Index "Page not mapped (PML4)"
    let pdpt ← tableAt pml4Entry.address
    let pdptEntry ← presentEntry pdpt v.pdptIndex "Page not mapped (PDPT)"
    if pdptEntry.isHuge then pure (out 2 pdptEntry) else
      let pd ← tableAt pdptEntry.address
      let pdEntry ← presentEntry pd v.pdIndex "Page not mapped (PD)"
      if pdEntry.isHuge then pure (out 1 pdEntry) else
        let pt ← tableAt pdEntry.address
        let ptEntry ← presentEntry pt v.ptIndex "Page not mapped (PT)"
        pure (out 0 ptEntry)
  | .fourLevel => do
    let pml4 ← tableAt manager.rootTablePhys
    let pml4Entry ← presentEntry pml4 v.pml4Index "Page not mapped (PML4)"
    let pdpt ← tableAt pml4Entry.address
    let pdptEntry ← presentEntry pdpt v.pdptIndex "Page not mapped (PDPT)"
    if pdptEntry.isHuge then pure (out 2 pdptEntry) else
      let pd ← tableAt pdptEntry.address
      let pdEntry ← presentEntry pd v.pdIndex "Page not mapped (PD)"
      if pdEntry.isHuge then pure (out 1 pdEntry) else
        let pt ← tableAt pdEntry.address
        let ptEntry ← presentEntry pt v.ptIndex "Page not mapped (PT)"
        pure (out 0 ptEntry)

def translateAddress (v : VirtAddr) : Op PhysAddr := do
  let manager ← getPagingManager
  requireCanonical manager.mode v
  readLevels manager v (leafAddress v)

def getPageFlags (v : VirtAddr) : Op PageTableFlags := do
  let manager ← getPagingManager
  requireCanonical manager.mode v
  readLevels manager v (fun _ e => e.flags)

/-! ### `remap_page` -/

/-- No huge leaf stops this walk. -/
def remapLevels (manager : PagingManager) (v : VirtAddr) (p : PhysAddr) (flags : PageTableFlags) : Op Unit :=
  match manager.mode with
  | .fiveLevel => do
    let pml5 ← tableAt manager.rootTablePhys
    let pml5Entry ← presentEntry pml5 v.pml5Index "Page not mapped (PML5)"
    let pml4 ← tableAt pml5Entry.address
    let pml4Entry ← presentEntry pml4 v.pml4Index "Page not mapped (PML4)"
    let pdpt ← tableAt pml4Entry.address
    let pdptEntry ← presentEntry pdpt v.pdptIndex "Page not mapped (PDPT)"
    let pd ← tableAt pdptEntry.address
    let pdEntry ← presentEntry pd v.pdIndex "Page not mapped (PD)"
    let pt ← tableAt pdEntry.address
    let _ ← presentEntry pt v.ptIndex "Page not mapped (PT)"
    writeEntry pt v.ptIndex (.of p.addr flags)
  | .fourLevel => do
    let pml4 ← tableAt manager.rootTablePhys
    let pml4Entry ← presentEntry pml4 v.pml4Index "Page not mapped (PML4)"
    let pdpt ← tableAt pml4Entry.address
    let pdptEntry ← presentEntry pdpt v.pdptIndex "Page not mapped (PDPT)"
    let pd ← tableAt pdptEntry.address
    let pdEntry ← presentEntry pd v.pdIndex "Page not mapped (PD)"
    let pt ← tableAt pdEntry.address
    let _ ← presentEntry pt v.ptIndex "Page not mapped (PT)"
    writeEntry pt v.ptIndex (.of p.addr flags)

/-- The address is not checked to be canonical. -/
def remapPage (v : VirtAddr) (p : PhysAddr) (flags : PageTableFlags) : Op Unit := do
  let manager ← getPagingManager
  Fallible.require p.isAligned (.err "Physical address not page-aligned")
  remapLevels manager v p flags
  invlpg v

/-! ### Ranges -/

/-- `(size + PAGE_SIZE - 1) / PAGE_SIZE`; the sum wraps. -/
def pageCount (size : BitVec 64) : Nat := ((size + 4096#64 - 1#64) / 4096#64).toNat

def mapRange (virtStart : VirtAddr) (physStart : PhysAddr) (size : BitVec 64) (flags : PageTableFlags) : Op Unit :=
  Fallible.forRange (fun i => mapPage (virtStart.plus (i*4096)) (physStart.plus (i*4096)) flags) 0 (pageCount size)

def unmapRange (virtStart : VirtAddr) (size : BitVec 64) : Op Unit :=
  Fallible.forRange (fun i => unmapPage (virtStart.plus (i*4096))) 0 (pageCount size)

end Nafuraito.Memory.Machine
