import Mathlib.Data.List.Induction
import Mathlib.Data.Set.Disjoint
import Nafuraito.Interrupts.Decoding
import Nafuraito.Interrupts.Stubs

/-! An interrupted context goes on as it was, however deep interrupts nest. -/
namespace Nafuraito.Interrupts
open Nafuraito.Library

/-! ### Holding words on the stack -/

namespace Cpu
variable (s : Cpu)

@[simp] theorem push_regs (v : BitVec 64) : (s.push v).regs = s.regs := rfl
@[simp] theorem push_rsp (v : BitVec 64) : (s.push v).rsp = s.rsp - 8 := rfl
@[simp] theorem push_mem (v : BitVec 64) : (s.push v).mem = Function.update s.mem (s.rsp - 8) v := rfl
@[simp] theorem setReg_regs (r : Reg) (v : BitVec 64) : (s.setReg r v).regs = Function.update s.regs r v := rfl
@[simp] theorem setReg_rsp (r : Reg) (v : BitVec 64) : (s.setReg r v).rsp = s.rsp := rfl
@[simp] theorem setReg_mem (r : Reg) (v : BitVec 64) : (s.setReg r v).mem = s.mem := rfl
@[simp] theorem drop_regs (k : Nat) : (s.drop k).regs = s.regs := rfl
@[simp] theorem drop_rsp (k : Nat) : (s.drop k).rsp = s.rsp + BitVec.ofNat 64 (8*k) := rfl
@[simp] theorem drop_mem (k : Nat) : (s.drop k).mem = s.mem := rfl

end Cpu

namespace Kernel
variable {R : Set (BitVec 64) → Cpu → Cpu → Prop} {P : Set (BitVec 64)} {top : BitVec 64} {s t s₀ : Cpu}

/-- A context that goes on with its registers, and with its memory of `P`. -/
def Resumed (P : Set (BitVec 64)) (s t : Cpu) : Prop := t = { s with mem := t.mem } ∧ Kept P s t

theorem Kept.trans {u : Cpu} (h₁ : Kept P s t) (h₂ : Kept P t u) : Kept P s u :=
  fun a ha => (h₂ a ha).trans (h₁ a ha)

theorem Resumed.trans {u : Cpu} (h₁ : Resumed P s t) (h₂ : Resumed P t u) : Resumed P s u := by
  refine ⟨?_, h₁.2.trans h₂.2⟩
  rw [h₂.1, h₁.1]

section Frames
variable (hR : ∀ Q s t, R Q s t → Resumed Q s t)
include hR

theorem Interrupted.resumed (h : Interrupted R P s t) : Resumed P s t :=
  reflTransGen_sound (Q := Resumed P) (fun _ => ⟨rfl, fun _ _ => rfl⟩) (fun _ _ _ => Resumed.trans) (hR P) h

theorem Handled.kept (h : Handled R P s t) : Kept P s t := by
  refine reflTransGen_sound (Q := Kept P) (fun _ _ _ => rfl) (fun _ _ _ => Kept.trans) (fun s t hst => ?_) h
  rcases hst with hown | hserved
  · exact hown
  · exact (hR P s t hserved).2

end Frames

/-- The stack below `top` holds these words, and `P` is as it was in `s₀`. -/
structure Holds (P : Set (BitVec 64)) (top : BitVec 64) (s₀ : Cpu) (ws : List (BitVec 64)) (s : Cpu) : Prop where
  rsp : s.rsp = stackPointer top ws.length
  stack : Stacked s.mem top ws
  kept : Kept P s₀ s

namespace Holds
variable {ws vs : List (BitVec 64)} {v : BitVec 64}

theorem inUse_eq (h : Holds P top s₀ ws s) (hlen : ws.length < 2^60) : inUse top s = slots top ws.length := by
  have : (top - s.rsp).toNat/8 = ws.length := by
    rw [h.rsp, stackPointer]
    have : (top - (top - BitVec.ofNat 64 (8*ws.length))) = BitVec.ofNat 64 (8*ws.length) := by bv_omega
    rw [this, BitVec.toNat_ofNat, Nat.mod_eq_of_lt (by omega)]
    omega
  rw [inUse, this]

/-- Memory of `P` and of the stack in use is all that counts. -/
theorem of_kept (h : Holds P top s₀ ws s) (hlen : ws.length < 2^60) (hk : Kept (P ∪ inUse top s) s t)
    (hrsp : t.rsp = s.rsp) : Holds P top s₀ ws t where
  rsp := hrsp.trans h.rsp
  stack := h.stack.congr fun a ha => hk a (.inr (by rwa [h.inUse_eq hlen]))
  kept a ha := (hk a (.inl ha)).trans (h.kept a ha)

theorem push (h : Holds P top s₀ ws s) (hlen : ws.length < frameSlots)
    (hroom : Disjoint P (slots top frameSlots)) (v : BitVec 64) : Holds P top s₀ (ws ++ [v]) (s.push v) := by
  have hslot : s.rsp - 8 = slot top ws.length := by rw [h.rsp, stackPointer_sub]
  have hsmall : ws.length < 2^60 := hlen.trans (by decide)
  refine ⟨?_, ?_, fun a ha => ?_⟩
  · rw [Cpu.push_rsp, hslot, List.length_append, List.length_singleton, stackPointer_succ]
  · rw [Cpu.push_mem, hslot]
    exact h.stack.push hsmall v
  · have hne : a ≠ slot top ws.length := fun heq =>
      Set.disjoint_left.mp hroom ha (heq ▸ slot_mem_slots hlen)
    rw [Cpu.push_mem, hslot, Function.update_of_ne hne]
    exact h.kept a ha

/-- The word `i` below the last one. -/
theorem above (h : Holds P top s₀ ws s) {i : Nat} (hi : i < ws.length) : s.above i = ws[ws.length-1-i] := by
  rw [Cpu.above, h.rsp, stackPointer_add top hi]
  exact h.stack _ _

theorem last (h : Holds P top s₀ (ws ++ [v]) s) : s.above 0 = v := by
  have hlen : (ws ++ [v]).length = ws.length + 1 := by simp
  rw [Cpu.above, h.rsp, hlen, stackPointer_succ, ← h.stack.last]
  simp

theorem drop (h : Holds P top s₀ (ws ++ vs) s) : Holds P top s₀ ws (s.drop vs.length) where
  rsp := by
    rw [Cpu.drop_rsp, h.rsp, stackPointer, stackPointer, List.length_append, Nat.mul_add, BitVec.ofNat_add]
    bv_omega
  stack := h.stack.left
  kept := h.kept

theorem setReg (h : Holds P top s₀ ws s) (r : Reg) (v : BitVec 64) : Holds P top s₀ ws (s.setReg r v) :=
  ⟨h.rsp, h.stack, h.kept⟩

end Holds

/-! ### Parts of a stub -/

variable {k : Kernel} {ws : List (BitVec 64)}

theorem run_append (is js : List Instr) :
    k.Run R P top (is ++ js) s t ↔ ∃ m, k.Run R P top is s m ∧ k.Run R P top js m t := by
  induction is generalizing s with
  | nil => simp [Run]
  | cons i is ih =>
    simp only [List.cons_append, Run, ih]
    constructor
    · rintro ⟨s₁, s₂, hint, hstep, m, his, hjs⟩
      exact ⟨m, ⟨s₁, s₂, hint, hstep, his⟩, hjs⟩
    · rintro ⟨m, ⟨s₁, s₂, hint, hstep, his⟩, hjs⟩
      exact ⟨s₁, s₂, hint, hstep, m, his, hjs⟩

section Parts
variable (hR : ∀ Q s t, R Q s t → Resumed Q s t)
include hR

/-- Interrupts before an instruction change nothing it sees. -/
theorem Holds.interrupted (h : Holds P top s₀ ws s) (hlen : ws.length < 2^60)
    (hint : Interrupted R (P ∪ inUse top s) s t) : Holds P top s₀ ws t ∧ t.regs = s.regs := by
  obtain ⟨hctx, hk⟩ := hint.resumed hR
  refine ⟨h.of_kept hlen hk ?_, ?_⟩ <;> rw [hctx]

theorem run_saves (hroom : Disjoint P (slots top frameSlots)) {regs : List Reg}
    (hlen : ws.length + regs.length ≤ frameSlots) (h : Holds P top s₀ ws s)
    (hrun : k.Run R P top (regs.map .push) s t) :
    Holds P top s₀ (ws ++ regs.map s.regs) t ∧ t.regs = s.regs := by
  induction regs generalizing ws s with
  | nil =>
    cases hrun
    simpa using h
  | cons r regs ih =>
    obtain ⟨s₁, s₂, hint, hstep, hrest⟩ := hrun
    rw [List.length_cons] at hlen
    have hsmall : ws.length < frameSlots := by omega
    obtain ⟨h₁, hregs⟩ := h.interrupted hR (hsmall.trans (by decide)) hint
    cases hstep
    have h₂ := h₁.push hsmall hroom (s₁.regs r)
    obtain ⟨ht, htregs⟩ := ih (by simp; omega) h₂ hrest
    rw [Cpu.push_regs, hregs] at htregs ht
    exact ⟨by simpa using ht, htregs⟩

theorem run_pushImms (hroom : Disjoint P (slots top frameSlots)) {vs : List (BitVec 64)}
    (hlen : ws.length + vs.length ≤ frameSlots) (h : Holds P top s₀ ws s)
    (hrun : k.Run R P top (vs.map .pushImm) s t) : Holds P top s₀ (ws ++ vs) t ∧ t.regs = s.regs := by
  induction vs generalizing ws s with
  | nil =>
    cases hrun
    simpa using h
  | cons v vs ih =>
    obtain ⟨s₁, s₂, hint, hstep, hrest⟩ := hrun
    rw [List.length_cons] at hlen
    have hsmall : ws.length < frameSlots := by omega
    obtain ⟨h₁, hregs⟩ := h.interrupted hR (hsmall.trans (by decide)) hint
    cases hstep
    obtain ⟨ht, htregs⟩ := ih (by simp; omega) (h₁.push hsmall hroom v) hrest
    exact ⟨by simpa using ht, htregs.trans hregs⟩

/-- Loads read words of the stack by their places from its end. -/
theorem run_loads {loads : List (Reg × Nat)} (hlen : ws.length < 2^60) (hin : ∀ p ∈ loads, p.2 < ws.length)
    (h : Holds P top s₀ ws s) (hrun : k.Run R P top (loads.map fun p => .load p.1 p.2) s t) :
    Holds P top s₀ ws t ∧
      t.regs = loads.foldl (fun f p => Function.update f p.1 (ws.getD (ws.length-1-p.2) 0)) s.regs := by
  induction loads generalizing s with
  | nil =>
    cases hrun
    exact ⟨h, rfl⟩
  | cons p loads ih =>
    obtain ⟨s₁, s₂, hint, hstep, hrest⟩ := hrun
    obtain ⟨h₁, hregs⟩ := h.interrupted hR hlen hint
    cases hstep
    have hp : p.2 < ws.length := hin p List.mem_cons_self
    have hval : s₁.above p.2 = ws.getD (ws.length-1-p.2) 0 := by
      rw [h₁.above hp, List.getD_eq_getElem?_getD, List.getElem?_eq_getElem (by omega), Option.getD_some]
    obtain ⟨ht, htregs⟩ := ih (fun q hq => hin q (List.mem_cons_of_mem p hq)) (h₁.setReg p.1 _) hrest
    rw [Cpu.setReg_regs, hval, hregs] at htregs
    exact ⟨ht, htregs⟩

/-- The registers are popped in reverse: the induction takes them from the end of the list. -/
theorem run_restores {regs : List Reg} {f : Reg → BitVec 64} (hlen : (ws ++ regs.map f).length < 2^60)
    (h : Holds P top s₀ (ws ++ regs.map f) s) (hrun : k.Run R P top (regs.reverse.map .pop) s t) :
    Holds P top s₀ ws t ∧ (∀ r ∈ regs, t.regs r = f r) ∧ ∀ r ∉ regs, t.regs r = s.regs r := by
  induction regs using List.reverseRecOn generalizing s with
  | nil =>
    cases hrun
    simpa using h
  | append_singleton regs r ih =>
    rw [List.reverse_append, List.reverse_singleton, List.singleton_append, List.map_cons] at hrun
    obtain ⟨s₁, s₂, hint, hstep, hrest⟩ := hrun
    obtain ⟨h₁, hregs⟩ := h.interrupted hR hlen hint
    rw [List.map_append, ← List.append_assoc, List.map_singleton] at h₁ hlen
    cases hstep
    have hval : s₁.above 0 = f r := h₁.last
    have h₂ := (h₁.setReg r (s₁.above 0)).drop
    obtain ⟨ht, hin, hout⟩ := ih (by simp at hlen ⊢; omega) h₂ hrest
    refine ⟨ht, fun q hq => ?_, fun q hq => ?_⟩
    · by_cases hmem : q ∈ regs
      · exact hin q hmem
      · have hqr : q = r := by simpa [hmem] using hq
        rw [hout q hmem, hqr, Cpu.drop_regs, Cpu.setReg_regs, Function.update_self, hval]
    · simp only [List.mem_append, List.mem_singleton, not_or] at hq
      rw [hout q hq.1, Cpu.drop_regs, Cpu.setReg_regs, Function.update_of_ne hq.2, hregs]

end Parts

/-! ### Delivery -/

theorem foldl_push (hroom : Disjoint P (slots top frameSlots)) {vs : List (BitVec 64)}
    (hlen : ws.length + vs.length ≤ frameSlots) (h : Holds P top s₀ ws s) :
    Holds P top s₀ (ws ++ vs) (vs.foldl Cpu.push s) ∧ (vs.foldl Cpu.push s).regs = s.regs := by
  induction vs generalizing ws s with
  | nil => simpa using h
  | cons v vs ih =>
    rw [List.length_cons] at hlen
    obtain ⟨ht, hregs⟩ := ih (by simp; omega) (h.push (by omega) hroom v)
    exact ⟨by simpa using ht, hregs⟩

theorem frame_length_le (vector : Nat) (errorCode : BitVec 64) (s : Cpu) : (frame vector errorCode s).length ≤ 6 := by
  rw [frame]
  split <;> simp

theorem deliver_holds (vector : Nat) (errorCode : BitVec 64) (gate : Gate) (level : BitVec 2) (s : Cpu)
    (hroom : Disjoint P (slots (k.frameTop gate level s) frameSlots)) :
    Holds P (k.frameTop gate level s) s (frame vector errorCode s) (k.deliver vector errorCode gate level s) ∧
      (k.deliver vector errorCode gate level s).regs = s.regs := by
  have hempty : Holds P (k.frameTop gate level s) s [] { s with rsp := k.frameTop gate level s } :=
    ⟨(stackPointer_zero _).symm, .nil _ _, fun _ _ => rfl⟩
  have hlen : ([] : List (BitVec 64)).length + (frame vector errorCode s).length ≤ frameSlots := by
    have := frame_length_le vector errorCode s
    rw [List.length_nil, frameSlots]
    omega
  obtain ⟨h, hregs⟩ := foldl_push hroom hlen hempty
  exact ⟨⟨h.rsp, h.stack, h.kept⟩, hregs⟩

/-! ### A whole stub -/

/-- What a stub pushes before the registers. -/
def pushedFirst (vector : Nat) : List (BitVec 64) :=
  if vector < 32 ∧ vector ∉ isrErrcode then [0, BitVec.ofNat 64 vector] else [BitVec.ofNat 64 vector]

/-- The arguments a stub loads, with their places on the stack. -/
def argumentPlaces (vector : Nat) : List (Reg × Nat) :=
  if vector < 32 then [(.rdi, 15), (.rsi, 16), (.rdx, 17), (.rcx, 18), (.r8, 19)] else [(.rdi, 15)]

def callee (vector : Nat) : Callee := if vector < 32 then .exceptionHandler else .irqHandler

/-- The words over the interrupted context: error code or dummy, and the vector. -/
def overContext (vector : Nat) (errorCode : BitVec 64) : List (BitVec 64) :=
  if vector < 32 then [if vector ∈ isrErrcode then errorCode else 0, BitVec.ofNat 64 vector]
  else [BitVec.ofNat 64 vector]

/-- All stubs have one shape. -/
def stub (vector : Nat) : List Instr :=
  (pushedFirst vector).map .pushImm ++ (saveAll ++ ((argumentPlaces vector).map (fun p => .load p.1 p.2) ++
    (.call (callee vector) :: (restoreAll ++ [.addRsp (if vector < 32 then 2 else 1), .iretq]))))

theorem isrStub_eq {vector : Nat} (h : vector < 32) : isrStub vector = stub vector := by
  simp only [isrStub, isrCommon, isrPrologue, stub, pushedFirst, argumentPlaces, callee, h, true_and, if_true]
  by_cases herr : vector ∈ isrErrcode
  · simp [herr, loadArguments]
  · simp [herr, loadArguments]

theorem irqStub_eq (line : Nat) : irqStub line = stub (32+line) := by
  have h : ¬ 32+line < 32 := by omega
  simp [irqStub, irqCommon, stub, pushedFirst, argumentPlaces, callee, h]

/-- A stub up to the call of its handler. -/
def beforeCall (vector : Nat) : List Instr :=
  (pushedFirst vector).map .pushImm ++ (saveAll ++ (argumentPlaces vector).map fun p => .load p.1 p.2)

/-- The rest, up to its `iretq`. -/
def afterCall (vector : Nat) : List Instr :=
  .call (callee vector) :: (restoreAll ++ [.addRsp (if vector < 32 then 2 else 1)])

theorem stub_eq (vector : Nat) : stub vector = beforeCall vector ++ (afterCall vector ++ [.iretq]) := by
  simp [stub, beforeCall, afterCall]

/-- The first 48 vectors have a gate, to their stub in ring 0. -/
theorem gateOf_eq (k : Kernel) (vector : Nat) : k.gateOf vector =
    if vector < 32 then some (⟨k.isr vector, kernelCodeSelector, (istOf vector).toNat, isTrap vector⟩, 0)
    else if vector < 48 then some (⟨k.irq (vector-32), kernelCodeSelector, 0, false⟩, 0) else none := by
  have hcode : descriptor k.gdt kernelCodeSelector = some GdtEntry.kernelCodeSegment.bits := rfl
  have hlong : isCode64 GdtEntry.kernelCodeSegment.bits = true := by decide
  have hlevel : dpl GdtEntry.kernelCodeSegment.bits = 0 := by decide
  rw [gateOf, idt, idtInit_gate]
  split
  · simp [hcode, hlong, hlevel]
  · split <;> simp [hcode, hlong, hlevel]

theorem gateOf_stub {vector : Nat} {gate : Gate} {level : BitVec 2} {code : List Instr}
    (hgate : k.gateOf vector = some (gate, level)) (hcode : k.code gate.offset = some code) :
    vector < 48 ∧ code = stub vector := by
  rw [gateOf_eq] at hgate
  split at hgate
  · rename_i h32
    cases hgate
    rw [k.code_isr vector h32, isrStub_eq h32] at hcode
    exact ⟨by omega, (Option.some.inj hcode).symm⟩
  · split at hgate
    · rename_i h32 h48
      cases hgate
      rw [k.code_irq (vector-32) (by omega), irqStub_eq, show 32 + (vector-32) = vector by omega] at hcode
      exact ⟨h48, (Option.some.inj hcode).symm⟩
    · cases hgate

theorem code_of_gate {vector : Nat} {gate : Gate} {level : BitVec 2} (hgate : k.gateOf vector = some (gate, level)) :
    ∃ code, k.code gate.offset = some code := by
  rw [gateOf_eq] at hgate
  split at hgate
  · rename_i h32
    cases hgate
    exact ⟨_, k.code_isr vector h32⟩
  · split at hgate
    · cases hgate
      exact ⟨_, k.code_irq (vector-32) (by omega)⟩
    · cases hgate

/-- The processor pushes an error code where the stub expects one. -/
theorem frame_append {vector : Nat} (h : vector < 48) (errorCode : BitVec 64) (s : Cpu) :
    frame vector errorCode s ++ pushedFirst vector =
      [s.ss.setWidth 64, s.rsp, s.rflags, s.cs.setWidth 64, s.rip] ++ overContext vector errorCode := by
  have hcode : ∀ v < 48, pushesErrorCode v = decide (v < 32 ∧ v ∈ isrErrcode) := by decide
  rw [frame, hcode vector h, pushedFirst, overContext]
  by_cases h32 : vector < 32
  · by_cases herr : vector ∈ isrErrcode <;> simp [h32, herr]
  · simp [h32]

/-- The words on the stack when the handler is called. -/
def calledWith (vector : Nat) (errorCode : BitVec 64) (s : Cpu) : List (BitVec 64) :=
  [s.ss.setWidth 64, s.rsp, s.rflags, s.cs.setWidth 64, s.rip] ++ overContext vector errorCode ++ savedRegs.map s.regs

theorem calledWith_length (vector : Nat) (errorCode : BitVec 64) (s : Cpu) :
    (calledWith vector errorCode s).length = if vector < 32 then 22 else 21 := by
  rw [calledWith, overContext]
  split <;> rfl

/-- `iretq` on the frame of a context returns to it, if its segments allow this. -/
theorem Holds.iretq (h : Holds P top s₀ [s.ss.setWidth 64, s.rsp, s.rflags, s.cs.setWidth 64, s.rip] t)
    (gdt : List (BitVec 64)) : t.iretq gdt = if Returnable gdt s.cs s.ss then
      some { s with regs := t.regs, mem := t.mem } else none := by
  have hrip : t.above 0 = s.rip := h.above (by simp)
  have hcs : (t.above 1).setWidth 16 = s.cs := by
    rw [h.above (by simp)]
    exact BitVec.setWidth_setWidth_of_le s.cs (by decide)
  have hflags : t.above 2 = s.rflags := h.above (by simp)
  have hrsp : t.above 3 = s.rsp := h.above (by simp)
  have hss : (t.above 4).setWidth 16 = s.ss := by
    rw [h.above (by simp)]
    exact BitVec.setWidth_setWidth_of_le s.ss (by decide)
  rw [Cpu.iretq, hcs, hss, hrip, hflags, hrsp]

section Service
variable (hR : ∀ Q s t, R Q s t → Resumed Q s t)
include hR

/-- A stub up to the call of its handler. -/
theorem run_to_call {vector : Nat} (hvector : vector < 48) {errorCode : BitVec 64} {gate : Gate} {level : BitVec 2}
    (hroom : Disjoint P (slots (k.frameTop gate level s) frameSlots))
    (hrun : k.Run R P (k.frameTop gate level s) (beforeCall vector) (k.deliver vector errorCode gate level s) t) :
    Holds P (k.frameTop gate level s) s (calledWith vector errorCode s) t ∧
      t.regs = (argumentPlaces vector).foldl (fun f p => Function.update f p.1 ((calledWith vector errorCode s).getD
        ((calledWith vector errorCode s).length-1-p.2) 0)) s.regs := by
  obtain ⟨h₀, hregs₀⟩ := deliver_holds (k := k) vector errorCode gate level s hroom
  obtain ⟨s₁, hpush, hrest⟩ := (run_append _ _).mp hrun
  obtain ⟨s₂, hsave, hload⟩ := (run_append _ _).mp hrest
  have hover : (overContext vector errorCode).length ≤ 2 := by
    rw [overContext]
    split <;> simp
  have hfirst := congrArg List.length (frame_append hvector errorCode s)
  rw [List.length_append, List.length_append] at hfirst
  have hfive : [s.ss.setWidth 64, s.rsp, s.rflags, s.cs.setWidth 64, s.rip].length = 5 := rfl
  obtain ⟨h₁, hregs₁⟩ := run_pushImms hR hroom (by rw [hfirst, hfive, frameSlots]; omega) h₀ hpush
  rw [frame_append hvector] at h₁
  have hsaved : savedRegs.length = 15 := rfl
  obtain ⟨h₂, hregs₂⟩ := run_saves hR hroom
    (by rw [List.length_append, hfive, hsaved, frameSlots]; omega) h₁ hsave
  have hregs : s₁.regs = s.regs := hregs₁.trans hregs₀
  rw [hregs] at h₂ hregs₂
  have hlen := calledWith_length vector errorCode s
  have hplaces : ∀ p ∈ argumentPlaces vector, p.2 < (calledWith vector errorCode s).length := by
    rw [hlen, argumentPlaces]
    split <;> simp
  obtain ⟨h₃, hregs₃⟩ := run_loads hR (by rw [hlen]; split <;> decide) hplaces h₂ hload
  rw [hregs₂] at hregs₃
  exact ⟨h₃, hregs₃⟩

/-- A stub from the call on, up to its `iretq`. -/
theorem run_from_call {vector : Nat} {errorCode : BitVec 64} (h : Holds P top s₀ (calledWith vector errorCode s₀) s)
    (hrun : k.Run R P top (afterCall vector) s t) :
    Holds P top s₀ [s₀.ss.setWidth 64, s₀.rsp, s₀.rflags, s₀.cs.setWidth 64, s₀.rip] t ∧ t.regs = s₀.regs := by
  have hsmall : (calledWith vector errorCode s₀).length < 2^60 := by
    rw [calledWith_length]
    split <;> decide
  obtain ⟨s₁, s₂, hint, ⟨hhandled, hrsp⟩, hrest⟩ := hrun
  obtain ⟨h₁, _⟩ := h.interrupted hR hsmall hint
  have h₂ := h₁.of_kept hsmall (hhandled.kept hR) hrsp
  obtain ⟨s₃, hrestore, s₄, s₅, hint', hdrop, hend⟩ := (run_append _ _).mp hrest
  obtain ⟨h₃, hin, _⟩ := run_restores hR hsmall h₂ hrestore
  have hregs₃ : s₃.regs = s₀.regs := funext fun r => hin r (by cases r <;> decide)
  have hsmall₃ : ([s₀.ss.setWidth 64, s₀.rsp, s₀.rflags, s₀.cs.setWidth 64, s₀.rip] ++
      overContext vector errorCode).length < 2^60 := by
    rw [overContext]
    split <;> simp
  obtain ⟨h₄, hregs₄⟩ := h₃.interrupted hR hsmall₃ hint'
  have hover : (overContext vector errorCode).length = if vector < 32 then 2 else 1 := by
    rw [overContext]
    split <;> rfl
  cases hdrop
  cases hend
  exact ⟨hover ▸ h₄.drop, hregs₄.trans hregs₃⟩

/-- What a service changes is memory outside `P`. -/
theorem Service.resumed (h : k.Service R P s t) : Resumed P s t := by
  obtain ⟨vector, errorCode, gate, level, code, hgate, hroom, hcode, hrun⟩ := h
  obtain ⟨hvector, rfl⟩ := gateOf_stub hgate hcode
  rw [stub_eq] at hrun
  obtain ⟨m, hto, hrest⟩ := (run_append _ _).mp hrun
  obtain ⟨m', hfrom, s₁, s₂, hint, hret, hend⟩ := (run_append _ _).mp hrest
  obtain ⟨hm, _⟩ := run_to_call hR hvector hroom hto
  obtain ⟨hm', hregs⟩ := run_from_call hR hm hfrom
  obtain ⟨h₁, hregs₁⟩ := hm'.interrupted hR (by simp) hint
  have hret : s₁.iretq k.gdt = some s₂ := hret
  rw [h₁.iretq] at hret
  split at hret
  · cases hret
    cases hend
    rw [hregs₁, hregs]
    exact ⟨rfl, h₁.kept⟩
  · cases hret

end Service

/-! ### A stub on its own -/

/-- An instruction that nothing interrupts; a handler that does nothing. -/
def stepAlone (k : Kernel) (s : Cpu) : Instr → Option Cpu
  | .push r => some (s.push (s.regs r))
  | .pushImm value => some (s.push value)
  | .load r i => some (s.setReg r (s.above i))
  | .call _ => some s
  | .pop r => some ((s.setReg r (s.above 0)).drop 1)
  | .addRsp n => some (s.drop n)
  | .iretq => s.iretq k.gdt

theorem step_alone {i : Instr} (h : k.stepAlone s i = some t) : k.Step R P top i s t := by
  cases i <;> simp only [stepAlone, Option.some.injEq] at h
  case call => exact h ▸ ⟨.refl, rfl⟩
  case iretq => exact h
  all_goals exact h.symm

theorem run_alone {is : List Instr} (h : is.foldlM k.stepAlone s = some t) : k.Run R P top is s t := by
  induction is generalizing s with
  | nil => exact (Option.some.inj h).symm
  | cons i is ih =>
    obtain ⟨s₁, hstep, hrest⟩ := Option.bind_eq_some_iff.mp h
    exact ⟨s, s₁, .refl, step_alone hstep, ih hrest⟩

/-- Nothing but `iretq` can fail. -/
theorem alone_isSome {is : List Instr} (h : ∀ i ∈ is, ∀ s, (k.stepAlone s i).isSome) (s : Cpu) :
    (is.foldlM k.stepAlone s).isSome := by
  induction is generalizing s with
  | nil => rfl
  | cons i is ih =>
    obtain ⟨s₁, hs₁⟩ := Option.isSome_iff_exists.mp (h i List.mem_cons_self s)
    rw [List.foldlM_cons, hs₁]
    exact ih (fun j hj => h j (List.mem_cons_of_mem i hj)) s₁

theorem beforeCall_isSome (vector : Nat) (s : Cpu) : ((beforeCall vector).foldlM k.stepAlone s).isSome := by
  refine alone_isSome (fun i hi s => ?_) s
  simp only [beforeCall, saveAll, List.mem_append, List.mem_map] at hi
  obtain ⟨v, _, rfl⟩ | ⟨r, _, rfl⟩ | ⟨p, _, rfl⟩ := hi <;> rfl

theorem afterCall_isSome (vector : Nat) (s : Cpu) : ((afterCall vector).foldlM k.stepAlone s).isSome := by
  refine alone_isSome (fun i hi s => ?_) s
  simp only [afterCall, restoreAll, List.mem_append, List.mem_map, List.mem_cons] at hi
  obtain rfl | ⟨r, _, rfl⟩ | rfl | hi := hi
  · rfl
  · rfl
  · rfl
  · cases hi

/-- A kernel whose stubs are at the addresses of their vectors. -/
def sample : Kernel where
  tssAddr := 0x5000
  tss := (gdtInit 0x5000).2
  isr n := BitVec.ofNat 64 n
  irq n := BitVec.ofNat 64 (32+n)
  code a := if a.toNat < 32 then some (isrStub a.toNat) else some (irqStub (a.toNat-32))
  code_isr n hn := by
    have : (BitVec.ofNat 64 n).toNat = n := by simp; omega
    simp [this, hn]
  code_irq n hn := by
    have : (BitVec.ofNat 64 (32+n)).toNat = 32+n := by simp; omega
    simp [this]

/-- Kernel code with interrupts on. -/
def sampleCpu : Cpu where
  regs _ := 7
  rsp := 0x8F0004
  rip := 0x100000
  rflags := 0x202
  cs := kernelCodeSelector
  ss := kernelDataSelector
  mem _ := 0

/-! ### Nested interrupts -/

theorem nested_resumed (k : Kernel) {n : Nat} (h : Nested k.Service n P s t) : Resumed P s t :=
  Nested.sound (Q := Resumed) (fun _ hR _ _ _ => Service.resumed hR) h

/-- An interrupt of a context that can be returned to can run to its end. -/
theorem exists_service {vector : Nat} {gate : Gate} {level : BitVec 2}
    (hgate : k.gateOf vector = some (gate, level)) (errorCode : BitVec 64)
    (hroom : Disjoint P (slots (k.frameTop gate level s) frameSlots)) (hret : Returnable k.gdt s.cs s.ss) (n : Nat) :
    ∃ t, Nested k.Service (n+1) P s t := by
  have hR : ∀ Q s t, Nested k.Service n Q s t → Resumed Q s t := fun _ _ _ => nested_resumed k
  obtain ⟨code, hcode⟩ := code_of_gate hgate
  obtain ⟨hvector, rfl⟩ := gateOf_stub hgate hcode
  obtain ⟨m, hm⟩ := Option.isSome_iff_exists.mp
    (beforeCall_isSome (k := k) vector (k.deliver vector errorCode gate level s))
  obtain ⟨m', hm'⟩ := Option.isSome_iff_exists.mp (afterCall_isSome (k := k) vector m)
  obtain ⟨hcall, _⟩ := run_to_call hR hvector hroom (run_alone hm)
  obtain ⟨hback, _⟩ := run_from_call hR hcall (run_alone hm')
  have hend := hback.iretq k.gdt
  rw [if_pos hret] at hend
  refine ⟨{ s with regs := m'.regs, mem := m'.mem }, vector, errorCode, gate, level, _, hgate, hroom, hcode, ?_⟩
  rw [stub_eq]
  exact (run_append _ _).mpr ⟨m, run_alone hm, (run_append _ _).mpr ⟨m', run_alone hm', m', _, .refl, hend, rfl⟩⟩

/-- Whatever vectors are taken, one after the other and at whatever instructions of whichever stubs and handlers, to
whatever depth: an interrupted context goes on with its registers, flags, segments, stack and instruction pointer,
and the memory that no frame comes to lie in. -/
theorem interrupts_resumed (k : Kernel) {n : Nat} (h : Interrupted (Nested k.Service n) P s t) : Resumed P s t :=
  h.resumed fun _ _ _ => nested_resumed k

/-- The keyboard interrupts kernel code. -/
theorem interrupts_resumed_keyboard : ∃ t, Resumed {0x900000} sampleCpu t := by
  have hgate : sample.gateOf 33 = some (⟨33, kernelCodeSelector, 0, false⟩, 0) := by
    rw [gateOf_eq]
    rfl
  have hroom : Disjoint {0x900000} (slots (sample.frameTop ⟨33, kernelCodeSelector, 0, false⟩ 0 sampleCpu)
      frameSlots) := by
    refine Set.disjoint_left.mpr ?_
    rintro _ rfl ⟨i, hi, hslot⟩
    have htop : sample.frameTop ⟨33, kernelCodeSelector, 0, false⟩ 0 sampleCpu = 0x8F0000 := by decide
    rw [frameSlots] at hi
    rw [htop, slot] at hslot
    bv_omega
  have hret : Returnable sample.gdt sampleCpu.cs sampleCpu.ss :=
    ⟨⟨GdtEntry.kernelCodeSegment.bits, rfl, by decide, by decide⟩,
      .inr ⟨GdtEntry.kernelDataSegment.bits, rfl, by decide, by decide, by decide⟩⟩
  obtain ⟨t, ht⟩ := exists_service hgate 0 hroom hret 0
  exact ⟨t, interrupts_resumed sample (.single ht)⟩

end Kernel

end Nafuraito.Interrupts
