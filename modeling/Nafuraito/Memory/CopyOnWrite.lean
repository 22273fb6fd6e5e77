import Nafuraito.Memory.DemandPaging

/-! Copy-on-write sharing of pages, with a reference count a frame. -/
namespace Nafuraito.Memory
open Nafuraito.Library

/-- Frames at and above 4 GiB have no count. -/
def MAX_FRAMES : Nat := 1024*1024

/-- A software bit of a page-table entry. -/
def COW_BIT : BitVec 64 := 1#64 <<< 9

def isCowPage (flags : PageTableFlags) : Bool := flags.raw &&& COW_BIT != 0

/-- Read-only, with the CoW bit. -/
def cowFlags (flags : PageTableFlags) : PageTableFlags := ⟨(flags.clear PageTableFlags.WRITABLE).raw ||| COW_BIT⟩

/-- Writable, without it. -/
def ownedFlags (flags : PageTableFlags) : PageTableFlags := ⟨(flags.set PageTableFlags.WRITABLE).raw &&& ~~~COW_BIT⟩

namespace Machine

def physToFrameIndex (phys : PhysAddr) : Nat := phys.addr.toNat / 4096

def getRefcount (phys : PhysAddr) (s : Machine) : BitVec 32 :=
  if physToFrameIndex phys ≥ MAX_FRAMES then 0 else s.refcounts (physToFrameIndex phys)

def setRefcount (phys : PhysAddr) (count : BitVec 32) (s : Machine) : Machine :=
  if physToFrameIndex phys ≥ MAX_FRAMES then s
  else { s with refcounts := Function.update s.refcounts (physToFrameIndex phys) count }

/-- The count wraps. -/
def incRefcount (phys : PhysAddr) : Op (BitVec 32) := fun s =>
  if physToFrameIndex phys ≥ MAX_FRAMES then (.ok 0, s)
  else (.ok (getRefcount phys s + 1), setRefcount phys (getRefcount phys s + 1) s)

/-- A count of 0 is returned as 0, but the stored count wraps. -/
def decRefcount (phys : PhysAddr) : Op (BitVec 32) := fun s =>
  if physToFrameIndex phys ≥ MAX_FRAMES then (.ok 0, s)
  else (.ok (if getRefcount phys s > 0 then getRefcount phys s - 1 else 0),
    setRefcount phys (getRefcount phys s - 1) s)

/-- The count grows although the mapping is the old one. -/
def markCow (v : VirtAddr) : Op Unit := do
  let currentFlags ← getPageFlags v
  let phys ← translateAddress v
  let _ ← incRefcount phys
  remapPage v phys (cowFlags currentFlags)

/-- `phys_to_virt` of this module is the identity. -/
def copyPage (src dst : PhysAddr) : Op Unit := do
  Fallible.require (src.isAligned ∧ dst.isAligned) (.err "Physical addresses must be page-aligned")
  Fallible.modify fun s => s.setFrame (physToFrameIndex dst) (s.mem (physToFrameIndex src))

/-- `alloc_frame`, where failing and returning address 0 are one. -/
def allocCowFrame (message : String) : Op PhysAddr := fun s => match allocFrame s with
  | (.ok addr, t) => if addr = 0 then (.error (.err message), t) else (.ok ⟨BitVec.ofNat 64 addr⟩, t)
  | (.error _, t) => (.error (.err message), t)

/-- A call whose result is not looked at. -/
def ignore (x : Fallible Machine MemoryError Unit) : Op Unit := fun s => (.ok (), (x s).2)

/-- What a fault and an unshare do once the page is known to be CoW: make it writable where it
is if its frame is counted at most once, else move it to a copy. -/
def breakSharing (v : VirtAddr) (currentFlags : PageTableFlags) (message : String) : Op Unit := do
  let oldPhys ← translateAddress v
  let s ← Fallible.get
  if getRefcount oldPhys s ≤ 1 then
    let _ ← decRefcount oldPhys
    remapPage v oldPhys (ownedFlags currentFlags)
  else
    let newPhys ← allocCowFrame message
    copyPage oldPhys newPhys
    remapPage v newPhys (ownedFlags currentFlags)
    let newRefcount ← decRefcount oldPhys
    if newRefcount = 0 then
      ignore (freeFrame oldPhys.addr.toNat)
    Fallible.modify (setRefcount newPhys 1)

def handleCowFault (v : VirtAddr) : Op Unit := do
  let currentFlags ← getPageFlags v
  Fallible.require (isCowPage currentFlags) (.err "Not a CoW page")
  breakSharing v currentFlags "Failed to allocate frame for CoW"

def unshareCowPage (v : VirtAddr) : Op Unit := do
  let currentFlags ← getPageFlags v
  if !isCowPage currentFlags then pure () else breakSharing v currentFlags "Failed to allocate frame"

/-- The comment in the source has it that the source's count is at least 1 already. -/
def sharePageCow (src dst : VirtAddr) : Op Unit := do
  let phys ← translateAddress src
  let srcFlags ← getPageFlags src
  remapPage src phys (cowFlags srcFlags)
  mapPage dst phys (cowFlags srcFlags)
  let _ ← incRefcount phys

/-- One round of the loop below. -/
def clonePageCow (srcStart dstStart : VirtAddr) (i : Nat) : Op Unit := do
  let src := srcStart.plus (i*4096)
  let dst := dstStart.plus (i*4096)
  match ← tryOk (translateAddress src) with
  | none => pure ()
  | some _ => sharePageCow src dst

/-- Pages of the range that are not mapped are skipped. -/
def cloneRangeCow (srcStart dstStart : VirtAddr) (size : BitVec 64) : Op Unit :=
  Fallible.forRange (clonePageCow srcStart dstStart) 0 ((size + 4095#64).toNat/4096)

/-! ### The processor -/

/-- What is read through an address: the words of its frame. -/
def loadPage (v : VirtAddr) : Op (Fin 512 → BitVec 64) := do
  let phys ← translateAddress v
  let s ← Fallible.get
  pure (s.mem (physToFrameIndex phys))

/-- A store to the frame of a writable page. -/
def storePage (v : VirtAddr) (change : (Fin 512 → BitVec 64) → Fin 512 → BitVec 64) : Op Unit := do
  let flags ← getPageFlags v
  Fallible.require (flags.contains PageTableFlags.WRITABLE) (.err "Page fault")
  let phys ← translateAddress v
  Fallible.modify fun s => s.setFrame (physToFrameIndex phys) (change (s.mem (physToFrameIndex phys)))

/-- A write, which goes through the fault handler first where the page is not writable. -/
def writePage (v : VirtAddr) (change : (Fin 512 → BitVec 64) → Fin 512 → BitVec 64) : Op Unit := do
  let flags ← getPageFlags v
  if flags.contains PageTableFlags.WRITABLE then storePage v change
  else do
    handleCowFault v
    storePage v change

end Machine
end Nafuraito.Memory
