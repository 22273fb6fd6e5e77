import Nafuraito.Memory.DemandPaging

/-! The guard-page registry and the kernel stacks it guards. -/
namespace Nafuraito.Memory
open Nafuraito.Library

namespace PageTableFlags

def kernel : PageTableFlags := ⟨PRESENT ||| WRITABLE ||| GLOBAL⟩

end PageTableFlags

def MAX_GUARD_PAGES : Nat := 64

def DEFAULT_STACK_PAGES : BitVec 64 := 4

def KERNEL_STACK_AREA_BASE : BitVec 64 := 0x02000000

/-- `GUARD_REGISTRY` and how many of its entries are filled. -/
structure GuardRegistry where
  pages : Fin MAX_GUARD_PAGES → BitVec 64
  count : Nat
  count_le : count ≤ MAX_GUARD_PAGES

namespace GuardRegistry

def empty : GuardRegistry := ⟨fun _ => 0, 0, by decide⟩

/-- A full registry is left as it is, and the caller told so. -/
def registerGuardPage (virtAddr : BitVec 64) (r : GuardRegistry) : Bool × GuardRegistry :=
  if h : r.count < MAX_GUARD_PAGES then
    (true, ⟨Function.update r.pages ⟨r.count, h⟩ (virtAddr &&& ~~~offsetMask), r.count+1, h⟩)
  else (false, r)

def isGuardPage (r : GuardRegistry) (addr : BitVec 64) : Bool :=
  (List.finRange MAX_GUARD_PAGES).any fun i => i.val < r.count && r.pages i == addr &&& ~~~offsetMask

end GuardRegistry

/-- The machine with the statics of the guard-page module. -/
structure Kernel where
  machine : Machine
  guards : GuardRegistry
  nextStackOffset : BitVec 64

namespace Kernel
open PhysicalMemoryManager (takeTableFrame)

def onMachine {ε α : Type} (x : Fallible Machine ε α) : Fallible Kernel ε α :=
  Fallible.zoom (fun k => k.machine) (fun machine k => { k with machine := machine }) x

/-- 0 when the allocator has no frame. -/
def allocStackFrame : Machine.Op Nat := fun s =>
  (.ok (takeTableFrame s.pmm).1, { s with pmm := (takeTableFrame s.pmm).2 })

def stackFlags : PageTableFlags := PageTableFlags.kernel.set PageTableFlags.NO_EXECUTE

/-- One round of the loop; `false` where the function returns 0. -/
def mapStackPage (virt : BitVec 64) : Machine.Op Bool := do
  let phys ← allocStackFrame
  if phys = 0 then pure false else do
    let mapped ← Machine.tryOk (Machine.mapPage ⟨virt⟩ ⟨BitVec.ofNat 64 phys⟩ stackFlags)
    pure mapped.isSome

/-- `n` more pages from page `i` of the stack on. -/
def mapStackPages (baseVirt : BitVec 64) : Nat → Nat → Machine.Op Bool
  | _, 0 => pure true
  | i, n+1 => do
    if ← mapStackPage (baseVirt + 4096 + BitVec.ofNat 64 (4096*i)) then mapStackPages baseVirt (i+1) n
    else pure false

/-- The slot's size and the addresses wrap; a full registry does not stop the call. -/
def allocateKernelStack (stackPages : BitVec 64) : Fallible Kernel Stop (BitVec 64) := fun k =>
  let slotSize := (stackPages + 1) * 4096
  let baseVirt := KERNEL_STACK_AREA_BASE + k.nextStackOffset
  let k := { k with
    guards := (k.guards.registerGuardPage baseVirt).2
    nextStackOffset := k.nextStackOffset + slotSize }
  match onMachine (mapStackPages baseVirt 0 stackPages.toNat) k with
  | (.ok true, k) => (.ok (baseVirt + (stackPages + 1) * 4096), k)
  | (.ok false, k) => (.ok 0, k)
  | (.error e, k) => (.error e, k)

end Kernel
end Nafuraito.Memory
