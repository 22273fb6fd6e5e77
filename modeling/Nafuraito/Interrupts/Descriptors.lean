import Mathlib.Logic.Function.Basic
import Mathlib.Tactic.Common

/-! The segment and interrupt descriptors the kernel builds, and what the processor reads in them. -/
namespace Nafuraito.Interrupts

/-! ### The global descriptor table -/

structure GdtEntry where
  limitLow : BitVec 16
  baseLow : BitVec 16
  baseMiddle : BitVec 8
  access : BitVec 8
  flagsLimitHigh : BitVec 8
  baseHigh : BitVec 8
  deriving DecidableEq, Repr

namespace GdtEntry

def null : GdtEntry := ⟨0, 0, 0, 0, 0, 0⟩

def new (base limit : BitVec 32) (access flags : BitVec 8) : GdtEntry where
  limitLow := (limit &&& 0xFFFF).setWidth 16
  baseLow := (base &&& 0xFFFF).setWidth 16
  baseMiddle := ((base >>> 16) &&& 0xFF).setWidth 8
  access := access
  flagsLimitHigh := ((limit >>> 16) &&& 0x0F).setWidth 8 ||| ((flags &&& 0x0F) <<< 4)
  baseHigh := ((base >>> 24) &&& 0xFF).setWidth 8

def kernelCodeSegment : GdtEntry := new 0 0 0x9A 0x02
def kernelDataSegment : GdtEntry := new 0 0 0x92 0x00
def userCodeSegment : GdtEntry := new 0 0 0xFA 0x02
def userDataSegment : GdtEntry := new 0 0 0xF2 0x00

/-- The eight bytes of the packed structure, the first field lowest. -/
def bits (e : GdtEntry) : BitVec 64 :=
  e.baseHigh ++ e.flagsLimitHigh ++ e.access ++ e.baseMiddle ++ e.baseLow ++ e.limitLow

end GdtEntry

structure TssEntry where
  low : GdtEntry
  baseUpper : BitVec 32
  reserved : BitVec 32

namespace TssEntry

def null : TssEntry := ⟨.null, 0, 0⟩

def new (tssAddr : BitVec 64) (tssSize : BitVec 32) : TssEntry :=
  let limit := tssSize - 1
  let flags : BitVec 8 := 0x00
  { low := {
      limitLow := (limit &&& 0xFFFF).setWidth 16
      baseLow := (tssAddr &&& 0xFFFF).setWidth 16
      baseMiddle := ((tssAddr >>> 16) &&& 0xFF).setWidth 8
      access := 0x89
      flagsLimitHigh := ((limit >>> 16) &&& 0x0F).setWidth 8 ||| ((flags &&& 0x0F) <<< 4)
      baseHigh := ((tssAddr >>> 24) &&& 0xFF).setWidth 8 }
    baseUpper := ((tssAddr >>> 32) &&& 0xFFFFFFFF).setWidth 32
    reserved := 0 }

end TssEntry

structure Gdt where
  null : GdtEntry
  kernelCode : GdtEntry
  kernelData : GdtEntry
  userData : GdtEntry
  userCode : GdtEntry
  tss : TssEntry

/-- `size_of::<TaskStateSegment>()`. -/
def tssSize : Nat := 104

namespace Gdt

def new : Gdt :=
  ⟨.null, .kernelCodeSegment, .kernelDataSegment, .userDataSegment, .userCodeSegment, .null⟩

def setTss (gdt : Gdt) (tssAddr : BitVec 64) : Gdt := { gdt with tss := .new tssAddr (BitVec.ofNat 32 tssSize) }

/-- The table as the processor finds it, eight bytes each; its limit is that of `pointer`. -/
def table (gdt : Gdt) : List (BitVec 64) :=
  [gdt.null.bits, gdt.kernelCode.bits, gdt.kernelData.bits, gdt.userData.bits, gdt.userCode.bits, gdt.tss.low.bits,
    gdt.tss.reserved ++ gdt.tss.baseUpper]

end Gdt

def kernelCodeSelector : BitVec 16 := 0x08
def kernelDataSelector : BitVec 16 := 0x10
def userDataSelector : BitVec 16 := 0x18 ||| 3
def userCodeSelector : BitVec 16 := 0x20 ||| 3
def tssSelector : BitVec 16 := 0x28

/-! ### The task state segment -/

structure TaskStateSegment where
  rsp0 : BitVec 64
  rsp1 : BitVec 64
  rsp2 : BitVec 64
  ist1 : BitVec 64
  ist2 : BitVec 64
  ist3 : BitVec 64
  ist4 : BitVec 64
  ist5 : BitVec 64
  ist6 : BitVec 64
  ist7 : BitVec 64
  iopbOffset : BitVec 16

namespace TaskStateSegment

def new : TaskStateSegment := ⟨0, 0, 0, 0, 0, 0, 0, 0, 0, 0, BitVec.ofNat 16 tssSize⟩

/-- An index that is none leaves the segment alone. -/
def setIst (tss : TaskStateSegment) (index : Nat) (stackPtr : BitVec 64) : TaskStateSegment := match index with
  | 1 => { tss with ist1 := stackPtr }
  | 2 => { tss with ist2 := stackPtr }
  | 3 => { tss with ist3 := stackPtr }
  | 4 => { tss with ist4 := stackPtr }
  | 5 => { tss with ist5 := stackPtr }
  | 6 => { tss with ist6 := stackPtr }
  | 7 => { tss with ist7 := stackPtr }
  | _ => tss

def getIst (tss : TaskStateSegment) (index : Nat) : BitVec 64 := match index with
  | 1 => tss.ist1
  | 2 => tss.ist2
  | 3 => tss.ist3
  | 4 => tss.ist4
  | 5 => tss.ist5
  | 6 => tss.ist6
  | 7 => tss.ist7
  | _ => 0

end TaskStateSegment

/-- The statics `GDT` and `TSS` as `gdt_init` leaves them; the segment is at `tssAddr`. -/
def gdtInit (tssAddr : BitVec 64) : Gdt × TaskStateSegment :=
  (Gdt.new.setTss tssAddr, { TaskStateSegment.new with
    rsp0 := 0x900000, ist1 := 0x8F0000, ist2 := 0x8E0000, ist3 := 0x8D0000, ist5 := 0x8B0000,
    iopbOffset := BitVec.ofNat 16 tssSize })

/-! ### The interrupt descriptor table -/

structure IdtEntry where
  offsetLow : BitVec 16
  selector : BitVec 16
  ist : BitVec 8
  typeAttr : BitVec 8
  offsetMid : BitVec 16
  offsetHigh : BitVec 32
  reserved : BitVec 32

namespace IdtEntry

def new : IdtEntry := ⟨0, 0, 0, 0, 0, 0, 0⟩

def setHandler (handler : BitVec 64) (selector : BitVec 16) (ist gateType dpl : BitVec 8) : IdtEntry where
  offsetLow := (handler &&& 0xFFFF).setWidth 16
  offsetMid := ((handler >>> 16) &&& 0xFFFF).setWidth 16
  offsetHigh := ((handler >>> 32) &&& 0xFFFFFFFF).setWidth 32
  selector := selector
  ist := ist &&& 0x7
  typeAttr := ((1 : BitVec 8) <<< 7) ||| ((dpl &&& 0x3) <<< 5) ||| (gateType &&& 0xF)
  reserved := 0

def setInterruptGate (handler : BitVec 64) (selector : BitVec 16) (ist dpl : BitVec 8) : IdtEntry :=
  setHandler handler selector ist 0xE dpl

def setTrapGate (handler : BitVec 64) (selector : BitVec 16) (ist dpl : BitVec 8) : IdtEntry :=
  setHandler handler selector ist 0xF dpl

/-- The sixteen bytes of the packed structure, the first field lowest. -/
def bits (e : IdtEntry) : BitVec 128 :=
  e.reserved ++ e.offsetHigh ++ e.offsetMid ++ e.typeAttr ++ e.ist ++ e.selector ++ e.offsetLow

end IdtEntry

/-- The 256 entries, by their vectors. -/
structure Idt where
  entries : Nat → IdtEntry

namespace Idt

def new : Idt := ⟨fun _ => .new⟩

def setInterruptGate (idt : Idt) (vector : Nat) (handler : BitVec 64) (selector : BitVec 16) (ist : BitVec 8) : Idt :=
  if vector < 256 then ⟨Function.update idt.entries vector (.setInterruptGate handler selector ist 0)⟩ else idt

def setTrapGate (idt : Idt) (vector : Nat) (handler : BitVec 64) (selector : BitVec 16) (ist : BitVec 8) : Idt :=
  if vector < 256 then ⟨Function.update idt.entries vector (.setTrapGate handler selector ist 0)⟩ else idt

end Idt

/-- The stack an exception's gate asks for: double fault, NMI, machine check and page fault have one of their own. -/
def istOf : Nat → BitVec 8
  | 8 => 1
  | 2 => 2
  | 18 => 3
  | 14 => 5
  | _ => 0

/-- Debug, breakpoint and overflow leave interrupts enabled. -/
def isTrap (vector : Nat) : Bool := vector = 1 || vector = 3 || vector = 4

/-- The line of `idt_init` for an exception. -/
def setException (isr : Nat → BitVec 64) (idt : Idt) (vector : Nat) : Idt :=
  if isTrap vector then idt.setTrapGate vector (isr vector) kernelCodeSelector (istOf vector)
  else idt.setInterruptGate vector (isr vector) kernelCodeSelector (istOf vector)

/-- The line of `idt_init` for a hardware interrupt. -/
def setIrq (irq : Nat → BitVec 64) (idt : Idt) (line : Nat) : Idt :=
  idt.setInterruptGate (32+line) (irq line) kernelCodeSelector 0

/-- `isr` and `irq` are the addresses of the stubs `isr0` to `isr31` and `irq0` to `irq15`. -/
def idtInit (isr irq : Nat → BitVec 64) : Idt :=
  (List.range 16).foldl (setIrq irq) ((List.range 32).foldl (setException isr) .new)

/-! ### What the processor reads -/

/-- A descriptor of a selector: no local table, not the null descriptor, inside the limit. -/
def descriptor (table : List (BitVec 64)) (selector : BitVec 16) : Option (BitVec 64) :=
  let index := (selector >>> 3).toNat
  if selector.getLsbD 2 ∨ index = 0 then none else table[index]?

/-- Requested privilege level. -/
def rpl (selector : BitVec 16) : BitVec 2 := selector.setWidth 2

/-- Descriptor privilege level. -/
def dpl (d : BitVec 64) : BitVec 2 := d.extractLsb' 45 2

/-- A present segment of 64-bit code. -/
def isCode64 (d : BitVec 64) : Bool :=
  d.getLsbD 47 && d.getLsbD 44 && d.getLsbD 43 && d.getLsbD 53 && !d.getLsbD 54

/-- A present segment of data that may be written. -/
def isWritableData (d : BitVec 64) : Bool := d.getLsbD 47 && d.getLsbD 44 && !d.getLsbD 43 && d.getLsbD 41

def segmentBase (d : BitVec 64) : BitVec 32 := d.extractLsb' 56 8 ++ d.extractLsb' 16 24

def segmentLimit (d : BitVec 64) : BitVec 20 := d.extractLsb' 48 4 ++ d.extractLsb' 0 16

/-- The base in the sixteen bytes of a system descriptor. -/
def systemBase (low high : BitVec 64) : BitVec 64 := high.setWidth 32 ++ segmentBase low

/-- A gate of a 64-bit interrupt descriptor table. -/
structure Gate where
  offset : BitVec 64
  selector : BitVec 16
  ist : Nat
  trap : Bool
  deriving DecidableEq, Repr

/-- A present interrupt or trap gate. -/
def decodeGate (raw : BitVec 128) : Option Gate :=
  let gateType := raw.extractLsb' 40 4
  if raw.getLsbD 47 = false ∨ raw.getLsbD 44 ∨ (gateType ≠ 0xE ∧ gateType ≠ 0xF) then none
  else some {
    offset := raw.extractLsb' 64 32 ++ raw.extractLsb' 48 16 ++ raw.extractLsb' 0 16
    selector := raw.extractLsb' 16 16
    ist := (raw.extractLsb' 32 3).toNat
    trap := gateType = 0xF }

end Nafuraito.Interrupts
