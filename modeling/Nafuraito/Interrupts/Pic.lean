import Mathlib.Data.Fin.Tuple.Basic
import Mathlib.Logic.Function.Basic
import Mathlib.Tactic.Common

/-! The driver of the two 8259 interrupt controllers, and the controllers as its port accesses, the devices and the
processor find them: edge-triggered lines, the slave on line 2 of the master. -/
namespace Nafuraito.Interrupts

/-! ### One controller -/

/-- What a byte written to the data port is. -/
inductive Awaited where
  | ocw1 | icw2 | icw3 | icw4
  deriving DecidableEq, Repr

structure Controller where
  /-- Requests that were latched and not yet acknowledged. -/
  irr : Fin 8 → Bool
  isr : Fin 8 → Bool
  imr : BitVec 8
  base : BitVec 8
  /-- The third initialization word: the lines of a master that have a slave, or the line a slave is on. -/
  cascade : BitVec 8
  awaited : Awaited
  icw4Follows : Bool
  single : Bool
  mode8086 : Bool
  autoEoi : Bool
  specialMask : Bool
  /-- The line of the highest priority. -/
  highest : Fin 8

/-- The lines are numbered modulo 8. -/
def lineNumber (n : Nat) : Fin 8 := Fin.ofNat 8 n

namespace Controller

/-- A controller in 8086 mode with nothing in service. -/
def waiting (irr : Fin 8 → Bool) (imr base cascade : BitVec 8) : Controller where
  irr := irr
  isr := fun _ => false
  imr := imr
  base := base
  cascade := cascade
  awaited := .ocw1
  icw4Follows := true
  single := false
  mode8086 := true
  autoEoi := false
  specialMask := false
  highest := lineNumber 0

variable (c : Controller)

def masked (i : Fin 8) : Bool := c.imr.getLsbD i

/-- The first line of `p` by priority. -/
def first (p : Fin 8 → Bool) : Option (Fin 8) := (Fin.find? fun r => p (c.highest + r)).map (c.highest + ·)

/-- A line in service that holds back lower ones. -/
def blocks (i : Fin 8) : Bool := c.isr i && !(c.specialMask && c.masked i)

def wants (i : Fin 8) : Bool := c.irr i && !c.masked i

/-- The line for which the interrupt output is asserted. -/
def request : Option (Fin 8) := (c.first fun i => c.wants i || c.blocks i).filter fun i => !c.blocks i

/-- The processor's acknowledge cycle for a line. -/
def acknowledge (i : Fin 8) : Controller :=
  { c with irr := Function.update c.irr i false, isr := if c.autoEoi then c.isr else Function.update c.isr i true }

def clearService (i : Fin 8) : Controller := { c with isr := Function.update c.isr i false }

/-- Operation command word 2: the upper three bits are the command, the lower a line. -/
def ocw2 (val : BitVec 8) : Controller :=
  let line := lineNumber val.toNat
  let served := c.first c.blocks
  match (val >>> 5).toNat with
  | 1 => served.elim c c.clearService
  | 3 => c.clearService line
  | 5 => served.elim c fun i => { c.clearService i with highest := i+1 }
  | 6 => { c with highest := line+1 }
  | 7 => { c.clearService line with highest := line+1 }
  | _ => c

def ocw3 (val : BitVec 8) : Controller := if val.getLsbD 6 then { c with specialMask := val.getLsbD 5 } else c

/-- The in-service register is not among what the first initialization word resets. -/
def icw1 (val : BitVec 8) : Controller :=
  { c with
    irr := fun _ => false
    imr := 0
    awaited := .icw2
    icw4Follows := val.getLsbD 0
    single := val.getLsbD 1
    mode8086 := c.mode8086 && val.getLsbD 0
    autoEoi := c.autoEoi && val.getLsbD 0
    specialMask := false
    highest := lineNumber 0 }

def command (val : BitVec 8) : Controller :=
  if val.getLsbD 4 then c.icw1 val else if val.getLsbD 3 then c.ocw3 val else c.ocw2 val

def data (val : BitVec 8) : Controller :=
  let last : Awaited := if c.icw4Follows then .icw4 else .ocw1
  match c.awaited with
  | .ocw1 => { c with imr := val }
  | .icw2 => { c with base := val &&& 0xF8, awaited := if c.single then last else .icw3 }
  | .icw3 => { c with cascade := val, awaited := last }
  | .icw4 => { c with mode8086 := val.getLsbD 0, autoEoi := val.getLsbD 1, awaited := .ocw1 }

end Controller

/-! ### The pair -/

inductive Line where
  | master (i : Fin 8)
  | slave (i : Fin 8)
  deriving DecidableEq, Repr

def Line.irq : Line → Nat
  | master i => i
  | slave i => 8+i

def cascadeLine : Fin 8 := 2

structure Controllers where
  master : Controller
  slave : Controller

def PIC1_COMMAND : BitVec 16 := 0x20
def PIC1_DATA : BitVec 16 := 0x21
def PIC2_COMMAND : BitVec 16 := 0xA0
def PIC2_DATA : BitVec 16 := 0xA1

/-- A port and the byte for it. -/
abbrev Write := BitVec 16 × BitVec 8

namespace Controllers
variable (p : Controllers)

def pending : Line → Bool
  | .master i => p.master.irr i
  | .slave i => p.slave.irr i

def masked : Line → Bool
  | .master i => p.master.masked i
  | .slave i => p.slave.masked i

/-- Line 2 of the master is latched when the output of the slave rises. -/
def settle (before after : Controllers) : Controllers :=
  if before.slave.request.isNone && after.slave.request.isSome then
    { after with master := { after.master with irr := Function.update after.master.irr cascadeLine true } }
  else after

def outb (w : Write) : Controllers :=
  p.settle (if w.1 = PIC1_COMMAND then { p with master := p.master.command w.2 }
    else if w.1 = PIC1_DATA then { p with master := p.master.data w.2 }
    else if w.1 = PIC2_COMMAND then { p with slave := p.slave.command w.2 }
    else if w.1 = PIC2_DATA then { p with slave := p.slave.data w.2 }
    else p)

/-- The data ports, which are all the driver reads. -/
def inb (port : BitVec 16) : BitVec 8 :=
  if port = PIC1_DATA then p.master.imr else if port = PIC2_DATA then p.slave.imr else 0xFF

/-- A device's line rises, or falls before it was acknowledged. -/
def drive (line : Line) (level : Bool) : Controllers :=
  p.settle (match line with
    | .master i => { p with master := { p.master with irr := Function.update p.master.irr i level } }
    | .slave i => { p with slave := { p.slave with irr := Function.update p.slave.irr i level } })

/-- The vector the processor is given, the line it is for, and the controllers after it; a request that is gone by
then gives the vector of line 7, for no line. -/
def acknowledge : Nat × Option Line × Controllers :=
  match p.master.request with
  | none => (p.master.base.toNat + 7, none, p)
  | some i =>
    if p.master.cascade.getLsbD i then
      match p.slave.request with
      | none => (p.slave.base.toNat + 7, none, p.settle { p with master := p.master.acknowledge i })
      | some j => (p.slave.base.toNat + j, some (.slave j),
          p.settle { master := p.master.acknowledge i, slave := p.slave.acknowledge j })
    else (p.master.base.toNat + i, some (.master i), p.settle { p with master := p.master.acknowledge i })

end Controllers

/-! ### The driver -/

def ICW1_ICW4 : BitVec 8 := 0x01
def ICW1_INIT : BitVec 8 := 0x10
def ICW4_8086 : BitVec 8 := 0x01
def CASCADE_IRQ : BitVec 8 := 2
def PIC_EOI : BitVec 8 := 0x20

def ioWait : Write := (0x80, 0)

/-- The writes of `remap`, in their order. -/
def remap (offset1 offset2 : BitVec 8) : List Write := [
  (PIC1_COMMAND, ICW1_INIT ||| ICW1_ICW4), ioWait,
  (PIC2_COMMAND, ICW1_INIT ||| ICW1_ICW4), ioWait,
  (PIC1_DATA, offset1), ioWait,
  (PIC2_DATA, offset2), ioWait,
  (PIC1_DATA, (1 : BitVec 8) <<< CASCADE_IRQ), ioWait,
  (PIC2_DATA, CASCADE_IRQ), ioWait,
  (PIC1_DATA, ICW4_8086), ioWait,
  (PIC2_DATA, ICW4_8086), ioWait,
  (PIC1_DATA, 0),
  (PIC2_DATA, 0)]

def picInit : List Write := remap 0x20 0x28

def sendEoi (irq : BitVec 8) : List Write :=
  (if 8 ≤ irq then [(PIC2_COMMAND, PIC_EOI)] else []) ++ [(PIC1_COMMAND, PIC_EOI)]

def disable : List Write := [(PIC1_DATA, 0xFF), (PIC2_DATA, 0xFF)]

def dataPort (irqLine : BitVec 8) : BitVec 16 := if irqLine < 8 then PIC1_DATA else PIC2_DATA

/-- What `set_mask` writes to the data port it has read `value` from. -/
def setMaskValue (irqLine value : BitVec 8) : BitVec 8 := value ||| ((1 : BitVec 8) <<< (irqLine % 8))

/-- What `clear_mask` writes. -/
def clearMaskValue (irqLine value : BitVec 8) : BitVec 8 := value &&& ~~~((1 : BitVec 8) <<< (irqLine % 8))

/-- How `irq_handler` ends, for the vector its stub was pushed with. -/
def irqHandlerEoi (irq : BitVec 64) : List Write := sendEoi ((irq - 32).setWidth 8)

/-- `send_eoi` of the interrupt table's own handlers. -/
def handlersSendEoi (irq : BitVec 64) : List Write :=
  (if 40 ≤ irq then [(PIC2_COMMAND, PIC_EOI)] else []) ++ [(PIC1_COMMAND, PIC_EOI)]

/-- Both handlers end alike, so that what follows holds of either. -/
theorem handlersSendEoi_eq {irq : BitVec 64} (h : 32 ≤ irq.toNat) (h' : irq.toNat < 48) :
    handlersSendEoi irq = irqHandlerEoi irq := by
  have hslave : 40 ≤ irq ↔ (8 : BitVec 8) ≤ (irq - 32).setWidth 8 := by bv_omega
  rw [handlersSendEoi, irqHandlerEoi, sendEoi]
  simp only [hslave]

end Nafuraito.Interrupts
