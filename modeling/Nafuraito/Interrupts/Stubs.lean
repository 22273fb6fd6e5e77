import Nafuraito.Library.DownStack
import Nafuraito.Library.Nesting
import Nafuraito.Interrupts.Descriptors

/-! The stubs of `idt.asm` on the part of the processor they use: how an interrupt is delivered, what the stubs save
and restore around the handler, and how `iretq` returns. Memory is in quadwords, which is how all of this uses it. -/
namespace Nafuraito.Interrupts
open Nafuraito.Library

/-! ### The processor -/

/-- The general registers but for the stack pointer. -/
inductive Reg where
  | rax | rbx | rcx | rdx | rsi | rdi | rbp | r8 | r9 | r10 | r11 | r12 | r13 | r14 | r15
  deriving DecidableEq, Repr

structure Cpu where
  regs : Reg → BitVec 64
  rsp : BitVec 64
  rip : BitVec 64
  rflags : BitVec 64
  cs : BitVec 16
  ss : BitVec 16
  mem : BitVec 64 → BitVec 64

namespace Cpu

def push (s : Cpu) (value : BitVec 64) : Cpu :=
  { s with rsp := s.rsp - 8, mem := Function.update s.mem (s.rsp - 8) value }

def setReg (s : Cpu) (r : Reg) (value : BitVec 64) : Cpu := { s with regs := Function.update s.regs r value }

/-- What is `k` quadwords above the stack pointer. -/
def above (s : Cpu) (k : Nat) : BitVec 64 := s.mem (s.rsp + BitVec.ofNat 64 (8*k))

def drop (s : Cpu) (k : Nat) : Cpu := { s with rsp := s.rsp + BitVec.ofNat 64 (8*k) }

end Cpu

/-- The exceptions with an error code. -/
def pushesErrorCode (vector : Nat) : Bool :=
  vector = 8 || (10 ≤ vector && vector ≤ 14) || vector = 17 || vector = 21

/-- What `iretq` demands of the segments it returns to: 64-bit code of the level asked for, and a stack that may be
written at this level, or outside ring 3 none. -/
def Returnable (gdt : List (BitVec 64)) (cs ss : BitVec 16) : Prop :=
  (∃ d ∈ descriptor gdt cs, isCode64 d = true ∧ dpl d = rpl cs) ∧
    ((ss.toNat ≤ 3 ∧ rpl ss = rpl cs ∧ rpl cs ≠ 3) ∨
      ∃ d ∈ descriptor gdt ss, isWritableData d = true ∧ dpl d = rpl cs ∧ rpl ss = rpl cs)

instance (gdt : List (BitVec 64)) (cs ss : BitVec 16) : Decidable (Returnable gdt cs ss) :=
  inferInstanceAs (Decidable (_ ∧ _))

def Cpu.iretq (s : Cpu) (gdt : List (BitVec 64)) : Option Cpu :=
  let cs : BitVec 16 := (s.above 1).setWidth 16
  let ss : BitVec 16 := (s.above 4).setWidth 16
  if Returnable gdt cs ss then
    some { s with rip := s.above 0, cs := cs, rflags := s.above 2, rsp := s.above 3, ss := ss }
  else none

/-! ### The stubs -/

inductive Callee where
  | exceptionHandler
  | irqHandler

inductive Instr where
  | push (r : Reg)
  | pushImm (value : BitVec 64)
  /-- `mov r, [rsp + k*8]`. -/
  | load (r : Reg) (k : Nat)
  | call (f : Callee)
  | pop (r : Reg)
  /-- `add rsp, k*8`. -/
  | addRsp (k : Nat)
  | iretq

/-- In the order in which they are pushed. -/
def savedRegs : List Reg :=
  [.rax, .rbx, .rcx, .rdx, .rsi, .rdi, .rbp, .r8, .r9, .r10, .r11, .r12, .r13, .r14, .r15]

def saveAll : List Instr := savedRegs.map .push

def restoreAll : List Instr := savedRegs.reverse.map .pop

/-- Vector, error code, and the interrupted `RIP`, `CS` and `RFLAGS`. -/
def loadArguments : List Instr := [.load .rdi 15, .load .rsi 16, .load .rdx 17, .load .rcx 18, .load .r8 19]

def isrCommon : List Instr :=
  saveAll ++ (loadArguments ++ (.call .exceptionHandler :: (restoreAll ++ [.addRsp 2, .iretq])))

def irqCommon : List Instr := saveAll ++ (.load .rdi 15 :: .call .irqHandler :: (restoreAll ++ [.addRsp 1, .iretq]))

/-- The exceptions whose stub is an `ISR_ERRCODE`. -/
def isrErrcode : List Nat := [8, 10, 11, 12, 13, 14, 17, 21]

/-- What a stub pushes before it jumps to `isr_common`; the others push a dummy error code. -/
def isrPrologue (vector : Nat) : List Instr :=
  if vector ∈ isrErrcode then [.pushImm (BitVec.ofNat 64 vector)] else [.pushImm 0, .pushImm (BitVec.ofNat 64 vector)]

def isrStub (vector : Nat) : List Instr := isrPrologue vector ++ isrCommon

def irqStub (line : Nat) : List Instr := .pushImm (BitVec.ofNat 64 (32+line)) :: irqCommon

/-! ### The kernel's tables -/

/-- The kernel as it runs: the stubs are at their addresses, whatever the task state segment holds. -/
structure Kernel where
  tssAddr : BitVec 64
  tss : TaskStateSegment
  isr : Nat → BitVec 64
  irq : Nat → BitVec 64
  code : BitVec 64 → Option (List Instr)
  code_isr : ∀ n < 32, code (isr n) = some (isrStub n)
  code_irq : ∀ n < 16, code (irq n) = some (irqStub n)

namespace Kernel
variable (k : Kernel)

def gdt : List (BitVec 64) := (gdtInit k.tssAddr).1.table

def idt : Idt := idtInit k.isr k.irq

/-! ### Delivery -/

/-- The gate of a vector and the privilege level it leads to. -/
def gateOf (vector : Nat) : Option (Gate × BitVec 2) := do
  let gate ← decodeGate (k.idt.entries vector).bits
  let d ← descriptor k.gdt gate.selector
  if isCode64 d then some (gate, dpl d) else none

/-- The stack an interrupt is taken on: one of its own, that of the more privileged level, or the present one; its
top is aligned. -/
def frameTop (gate : Gate) (level : BitVec 2) (s : Cpu) : BitVec 64 :=
  (if gate.ist ≠ 0 then k.tss.getIst gate.ist else if rpl s.cs = level then s.rsp else k.tss.rsp0) &&& ~~~15

/-- Trap and nested-task flags, resume and virtual-8086 flags are cleared, by an interrupt gate `IF` as well. -/
def clearedFlags (gate : Gate) : BitVec 64 := if gate.trap then 0x34100 else 0x34300

/-- What the processor pushes, the first at the top. -/
def frame (vector : Nat) (errorCode : BitVec 64) (s : Cpu) : List (BitVec 64) :=
  [s.ss.setWidth 64, s.rsp, s.rflags, s.cs.setWidth 64, s.rip] ++ if pushesErrorCode vector then [errorCode] else []

def deliver (vector : Nat) (errorCode : BitVec 64) (gate : Gate) (level : BitVec 2) (s : Cpu) : Cpu :=
  { (frame vector errorCode s).foldl Cpu.push { s with rsp := k.frameTop gate level s } with
    rip := gate.offset
    rflags := s.rflags &&& ~~~(clearedFlags gate)
    cs := gate.selector
    ss := if rpl s.cs = level then s.ss else 0 }

/-! ### Running a stub -/

/-- Memory of `P` is the same. -/
def Kept (P : Set (BitVec 64)) (s t : Cpu) : Prop := ∀ a ∈ P, t.mem a = s.mem a

/-- The part of the stack that is in use. -/
def inUse (top : BitVec 64) (s : Cpu) : Set (BitVec 64) := slots top ((top - s.rsp).toNat/8)

section Run
variable (R : Set (BitVec 64) → Cpu → Cpu → Prop) (P : Set (BitVec 64)) (top : BitVec 64)

/-- Any number of interrupts `R`, which have to leave `P` alone. -/
def Interrupted : Cpu → Cpu → Prop := Relation.ReflTransGen (R P)

/-- What a handler does until it returns: it is free to do anything but to change memory of `P`, and may be
interrupted anywhere. -/
def Handled : Cpu → Cpu → Prop := Relation.ReflTransGen fun s t => Kept P s t ∨ R P s t

/-- One instruction. A handler returns with the stack pointer it was called with. -/
def Step : Instr → Cpu → Cpu → Prop
  | .push r, s, t => t = s.push (s.regs r)
  | .pushImm value, s, t => t = s.push value
  | .load r i, s, t => t = s.setReg r (s.above i)
  | .call _, s, t => Handled R (P ∪ inUse top s) s t ∧ t.rsp = s.rsp
  | .pop r, s, t => t = (s.setReg r (s.above 0)).drop 1
  | .addRsp n, s, t => t = s.drop n
  | .iretq, s, t => s.iretq k.gdt = some t

/-- The instructions left, with interrupts between any two of them. The list stands for `rip`, which an interrupt
returns to. -/
def Run : List Instr → Cpu → Cpu → Prop
  | [], s, t => t = s
  | i :: is, s, t => ∃ s₁ s₂, Interrupted R (P ∪ inUse top s) s s₁ ∧ k.Step R P top i s₁ s₂ ∧ Run is s₂ t

end Run

/-- The most that a stub, with the call of its handler, has on the stack. -/
def frameSlots : Nat := 22

/-- An interrupt from its delivery to its return, on a stack with room: the memory `P` that has to stay is not where
the frame comes to lie. -/
def Service (R : Set (BitVec 64) → Cpu → Cpu → Prop) (P : Set (BitVec 64)) (s t : Cpu) : Prop :=
  ∃ vector errorCode gate level code, k.gateOf vector = some (gate, level) ∧
    Disjoint P (slots (k.frameTop gate level s) frameSlots) ∧ k.code gate.offset = some code ∧
    k.Run R P (k.frameTop gate level s) code (k.deliver vector errorCode gate level s) t

end Kernel

end Nafuraito.Interrupts
