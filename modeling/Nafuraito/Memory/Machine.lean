import Nafuraito.Memory.FrameEffects
import Nafuraito.Memory.PageTable

/-! The memory manager's static state, physical memory, and the primitives that touch them. -/
namespace Nafuraito.Memory
open Nafuraito.Library

/-- `read_at(ctx, offset, dst, len)`, as the bytes it stores at `dst`. -/
abbrev MmapReadAtFn := BitVec 64 → BitVec 64 → Nat → List Byte

structure FileBacking where
  ctx : BitVec 64
  readAt : MmapReadAtFn
  fileOffset : BitVec 64
  fileSize : BitVec 64

inductive BackingKind where
  | zeroFill
  | fileBacked (file : FileBacking)

/-- The addresses from `start` up to `endAddr`, the source's `end`. -/
structure VmRegion where
  start : BitVec 64
  endAddr : BitVec 64
  flags : PageTableFlags
  backing : BackingKind

/-- The registry of demand-paged regions. -/
abbrev Regions := Fin 64 → Option VmRegion

/-- What leaves no trace in memory but is seen from outside. -/
inductive Event where
  | invlpg (addr : BitVec 64)
  | freeFrame (addr : Nat)
  deriving DecidableEq

/-- Physical memory as 512 words a frame. -/
abbrev Frames := Nat → Fin 512 → BitVec 64

/-- The statics of the paging, frame, demand and copy-on-write modules, and physical memory.
The newest event comes first. -/
structure Machine where
  paging : Option PagingManager
  pmm : Option PhysicalMemoryManager
  regions : Regions
  refcounts : Nat → BitVec 32
  mem : Frames
  log : List Event

/-- How a call ends without a value: with `Err(message)`, or not at all because it went
through a null pointer. -/
inductive Stop where
  | err (message : String)
  | crash
  deriving DecidableEq, Repr

abbrev Machine.Op (α : Type) := Fallible Machine Stop α

namespace PhysicalMemoryManager

/-- The C wrappers return 0 for every failure. -/
def unwrapOrZero (op : Op Nat) : Option PhysicalMemoryManager → Nat × Option PhysicalMemoryManager
  | none => (0, none)
  | some p => match op p with
    | (.ok addr, p') => (addr, some p')
    | (.error _, p') => (0, some p')

def pmmAllocFrame : Option PhysicalMemoryManager → Nat × Option PhysicalMemoryManager :=
  unwrapOrZero allocFrame

def pmmAllocDma32Frame : Option PhysicalMemoryManager → Nat × Option PhysicalMemoryManager :=
  unwrapOrZero allocDma32Frame

/-- The frame `alloc_page_table` takes: below 4 GiB if there is one, else any; 0 if none. -/
def takeTableFrame (p : Option PhysicalMemoryManager) : Nat × Option PhysicalMemoryManager :=
  if (pmmAllocDma32Frame p).1 = 0 then pmmAllocFrame (pmmAllocDma32Frame p).2 else pmmAllocDma32Frame p

end PhysicalMemoryManager

namespace Machine
open PhysicalMemoryManager (takeTableFrame)

def fail {α : Type} (message : String) : Op α := Fallible.throw (.err message)

/-- A table access through `phys_to_virt`, which is null at and above 4 GiB. -/
def tableAt (phys : BitVec 64) : Op Nat :=
  if phys.toNat ≥ 0x100000000 then Fallible.throw .crash else pure (phys.toNat/4096)

def readEntry (table : Nat) (index : Fin 512) : Op PageTableEntry := fun s => (.ok ⟨s.mem table index⟩, s)

def setWord (s : Machine) (frame : Nat) (index : Fin 512) (word : BitVec 64) : Machine :=
  { s with mem := Function.update s.mem frame (Function.update (s.mem frame) index word) }

def setFrame (s : Machine) (frame : Nat) (words : Fin 512 → BitVec 64) : Machine :=
  { s with mem := Function.update s.mem frame words }

def writeEntry (table : Nat) (index : Fin 512) (e : PageTableEntry) : Op Unit :=
  Fallible.modify (·.setWord table index e.raw)

def addLog (s : Machine) (e : Event) : Machine := { s with log := e :: s.log }

def emit (e : Event) : Op Unit := Fallible.modify (·.addLog e)

def invlpg (v : VirtAddr) : Op Unit := emit (.invlpg v.addr)

def getPagingManager : Op PagingManager := fun s => match s.paging with
  | some manager => (.ok manager, s)
  | none => (.error (.err "Paging not initialized"), s)

/-- The global `alloc_frame`. -/
def allocFrame : Fallible Machine MemoryError Nat := fun s => match s.pmm with
  | some p => ((PhysicalMemoryManager.allocFrame p).1, { s with pmm := some (PhysicalMemoryManager.allocFrame p).2 })
  | none => (.error ⟨8, "PMM not initialized!", true⟩, s)

/-- The global `free_frame`; the call is logged whether it succeeds or not. -/
def freeFrame (addr : Nat) : Fallible Machine MemoryError Unit := fun s =>
  let s := s.addLog (.freeFrame addr)
  match s.pmm with
  | some p => ((PhysicalMemoryManager.freeFrame addr p).1,
      { s with pmm := some (PhysicalMemoryManager.freeFrame addr p).2 })
  | none => (.error ⟨8, "PMM not initialized!", true⟩, s)

def allocPageTable : Op (BitVec 64) := fun s =>
  let (addr, pmm) := takeTableFrame s.pmm
  let s := { s with pmm := pmm }
  if addr = 0 then (.error (.err "Failed to allocate page table frame"), s)
  else if addr ≥ 0x100000000 then
    (.error (.err "Page table frame not identity-mapped (<4 GiB required)"), s)
  else (.ok (BitVec.ofNat 64 addr), s.setFrame (addr/4096) (fun _ => 0))

def freePageTable (addr : BitVec 64) : Op Unit :=
  Fallible.mapError (fun _ => .err "Failed to free page table frame") (freeFrame addr.toNat)

/-- Every word of the table is zero. -/
def isPageTableEmpty (s : Machine) (table : Nat) : Bool := decide (∀ i, s.mem table i = 0)

variable {s : Machine}

theorem readEntry_run (table : Nat) (index : Fin 512) : readEntry table index s = (.ok ⟨s.mem table index⟩, s) := rfl

theorem writeEntry_run (table : Nat) (index : Fin 512) (e : PageTableEntry) :
    writeEntry table index e s = (.ok (), s.setWord table index e.raw) := rfl

theorem tableAt_run {phys : BitVec 64} (h : phys.toNat < 2^32) : tableAt phys s = (.ok (phys.toNat/4096), s) := by
  rw [tableAt, if_neg (by omega)]
  rfl

theorem tableAt_crash {phys : BitVec 64} (h : ¬ phys.toNat < 2^32) : tableAt phys s = (.error .crash, s) := by
  rw [tableAt, if_pos (by omega)]
  rfl

theorem getPagingManager_run {m : PagingManager} (h : s.paging = some m) :
    getPagingManager s = (.ok m, s) := by
  rw [getPagingManager, h]

/-! ### What is freed -/

/-- From `s` to `t` `free_frame` was called on addresses with `P` only. -/
def FreesOnly (P : Nat → Prop) (s t : Machine) : Prop :=
  ∃ new, t.log = new ++ s.log ∧ ∀ addr, Event.freeFrame addr ∈ new → P addr

section FreesOnly
variable {P Q : Nat → Prop} {t u : Machine}

theorem FreesOnly.of_log (h : t.log = s.log) : FreesOnly P s t := ⟨[], h, by simp⟩

theorem FreesOnly.trans (h : FreesOnly P s t) (h' : FreesOnly P t u) : FreesOnly P s u := by
  obtain ⟨new, hn, hP⟩ := h
  obtain ⟨new', hn', hP'⟩ := h'
  refine ⟨new' ++ new, by rw [hn', hn, List.append_assoc], fun addr ha => ?_⟩
  exact (List.mem_append.mp ha).elim (hP' addr) (hP addr)

theorem FreesOnly.mono (h : FreesOnly P s t) (hPQ : ∀ addr, P addr → Q addr) : FreesOnly Q s t := by
  obtain ⟨new, hn, hP⟩ := h
  exact ⟨new, hn, fun addr ha => hPQ addr (hP addr ha)⟩

theorem FreesOnly.invlpg (h : t.log = s.log) (a : BitVec 64) : FreesOnly P s (t.addLog (.invlpg a)) :=
  ⟨[.invlpg a], congrArg (List.cons _) h, by simp⟩

theorem FreesOnly.freeFrame {addr : Nat} (h : P addr) : FreesOnly P s (s.addLog (.freeFrame addr)) := by
  refine ⟨[.freeFrame addr], rfl, fun a ha => ?_⟩
  obtain rfl := Event.freeFrame.inj (List.mem_singleton.mp ha)
  exact h

end FreesOnly

/-! ### Memory after a write -/

variable {f g : Nat} {i j : Fin 512} {word : BitVec 64} {words : Fin 512 → BitVec 64}

theorem setWord_mem : (s.setWord f i word).mem g j = if (g, j) = (f, i) then word else s.mem g j := by
  change Function.update s.mem f _ g j = _
  rw [Function.update_apply]
  by_cases hg : g = f
  · subst hg
    rw [if_pos rfl, Function.update_apply]
    by_cases hj : j = i <;> simp [hj]
  · rw [if_neg hg, if_neg (fun h => hg (Prod.mk.inj h).1)]

theorem setFrame_mem : (s.setFrame f words).mem g j = if g = f then words j else s.mem g j := by
  change Function.update s.mem f words g j = _
  rw [Function.update_apply]
  split <;> rfl

@[simp] theorem addLog_mem (e : Event) : (s.addLog e).mem = s.mem := rfl
@[simp] theorem addLog_pmm (e : Event) : (s.addLog e).pmm = s.pmm := rfl
@[simp] theorem addLog_paging (e : Event) : (s.addLog e).paging = s.paging := rfl

@[simp] theorem setWord_pmm : (s.setWord f i word).pmm = s.pmm := rfl
@[simp] theorem setWord_paging : (s.setWord f i word).paging = s.paging := rfl
@[simp] theorem setWord_log : (s.setWord f i word).log = s.log := rfl
@[simp] theorem setWord_regions : (s.setWord f i word).regions = s.regions := rfl
@[simp] theorem setWord_refcounts : (s.setWord f i word).refcounts = s.refcounts := rfl

theorem isPageTableEmpty_iff : s.isPageTableEmpty f = true ↔ ∀ i, s.mem f i = 0 := decide_eq_true_iff

end Machine
end Nafuraito.Memory
