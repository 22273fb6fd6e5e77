import Nafuraito.Memory.CopyOnWrite
import Nafuraito.Memory.GuardPages
import Nafuraito.Memory.Footprint
import Nafuraito.Memory.MapPage

/-! The two page-fault dispatchers: the one beside the IDT, and the one the stubs of the linked kernel call. -/
namespace Nafuraito.Memory
open Nafuraito.Library

/-- What a handler prints before it halts. `marks` are the letters in the brackets. -/
inductive Report where
  | stackOverflow (addr rip errorCode : BitVec 64)
  | pageFault (addr errorCode : BitVec 64) (marks : List String) (rip : Option (BitVec 64))
  | exception (name : String) (vector errorCode rip cs rflags : BitVec 64)
  deriving DecidableEq

/-- How a handler ends without returning to the code that faulted. -/
inductive Fate where
  | halted (report : Report)
  | crash
  deriving DecidableEq

/-- What the stub pushes for the handler. -/
structure ExceptionFrame where
  vector : BitVec 64
  errorCode : BitVec 64
  rip : BitVec 64
  cs : BitVec 64
  rflags : BitVec 64

namespace Kernel

abbrev Handler := Fallible Kernel Fate Unit

/-- `if let Ok(a) = x`, on the memory manager's state. -/
def attempt {α : Type} (x : Machine.Op α) : Fallible Kernel Fate (Option α) :=
  onMachine fun s => match x s with
    | (.ok a, t) => (.ok (some a), t)
    | (.error (.err _), t) => (.ok none, t)
    | (.error .crash, t) => (.error .crash, t)

def halt (report : Report) : Handler := Fallible.throw (.halted report)

/-! ### The dispatcher in `handlers.rs` -/

def marks (errorCode : BitVec 64) : List String :=
  [if errorCode &&& 0x1#64 != 0 then "P" else "-", if errorCode &&& 0x2#64 != 0 then "W" else "R",
    if errorCode &&& 0x4#64 != 0 then "U" else "K"] ++
  (if errorCode &&& 0x8#64 != 0 then ["RSVD"] else []) ++ (if errorCode &&& 0x10#64 != 0 then ["IF"] else [])

/-- The demand-paging half; `true` where it returns. -/
def resolveDemand (faultingAddr errorCode : BitVec 64) : Fallible Kernel Fate Bool :=
  if !(errorCode &&& 0x1#64 != 0) && !(errorCode &&& 0x8#64 != 0) then do
    let handled ← attempt (Machine.handleDemandPageFault ⟨faultingAddr⟩ errorCode)
    pure handled.isSome
  else pure false

/-- The copy-on-write half; `true` where it returns. -/
def resolveCow (faultingAddr errorCode : BitVec 64) : Fallible Kernel Fate Bool :=
  if errorCode &&& 0x1#64 != 0 && errorCode &&& 0x2#64 != 0 && !(errorCode &&& 0x8#64 != 0) then do
    let flags ← attempt (Machine.getPageFlags ⟨faultingAddr⟩)
    if flags.any isCowPage then do
      let handled ← attempt (Machine.handleCowFault ⟨faultingAddr⟩)
      pure handled.isSome
    else pure false
  else pure false

def handlePageFault (faultingAddr errorCode : BitVec 64) : Handler := do
  if ← resolveDemand faultingAddr errorCode then pure ()
  else if ← resolveCow faultingAddr errorCode then pure ()
  else halt (.pageFault faultingAddr errorCode (marks errorCode) none)

/-! ### The dispatcher in `main.rs` -/

def exceptionName (vector : BitVec 64) : String := match vector.toNat with
  | 0 => "Divide Error"
  | 1 => "Debug"
  | 2 => "NMI"
  | 3 => "Breakpoint"
  | 4 => "Overflow"
  | 5 => "Bound Range"
  | 6 => "Invalid Opcode"
  | 7 => "Device Not Available"
  | 8 => "Double Fault"
  | 10 => "Invalid TSS"
  | 11 => "Segment Not Present"
  | 12 => "Stack Fault"
  | 13 => "General Protection Fault"
  | 14 => "Page Fault"
  | 16 => "FPU Error"
  | 17 => "Alignment Check"
  | 18 => "Machine Check"
  | 19 => "SIMD Exception"
  | 20 => "Virtualization"
  | 21 => "Control Protection"
  | _ => "Unknown"

/-- This dispatcher prints a letter only for a bit that is set. -/
def setMarks (errorCode : BitVec 64) : List String :=
  (if errorCode &&& 0x1#64 != 0 then ["P"] else []) ++ (if errorCode &&& 0x2#64 != 0 then ["W"] else []) ++
  (if errorCode &&& 0x4#64 != 0 then ["U"] else []) ++ (if errorCode &&& 0x8#64 != 0 then ["RSVD"] else []) ++
  (if errorCode &&& 0x10#64 != 0 then ["IF"] else [])

/-- `cr2` is the address the processor stored there. -/
def exceptionHandler (frame : ExceptionFrame) (cr2 : BitVec 64) : Handler := do
  let k ← Fallible.get
  if frame.vector = 14 then
    if frame.errorCode &&& 0x1#64 == 0 && k.guards.isGuardPage cr2 then
      halt (.stackOverflow cr2 frame.rip frame.errorCode)
    else halt (.pageFault cr2 frame.errorCode (setMarks frame.errorCode) (some frame.rip))
  else halt (.exception (exceptionName frame.vector) frame.vector frame.errorCode frame.rip frame.cs frame.rflags)

/-! ### What each resolves -/

/-- A fault that demand paging or copy-on-write can resolve in a state of the memory manager. -/
inductive Resolvable (s : Machine) (addr errorCode : BitVec 64) : Prop
  | demand (t : Machine) (notPresent : errorCode &&& 0x1#64 = 0) (notReserved : errorCode &&& 0x8#64 = 0)
      (mapped : Machine.handleDemandPageFault ⟨addr⟩ errorCode s = (.ok (), t)) : Resolvable s addr errorCode
  | cow (flags : PageTableFlags) (t : Machine) (present : errorCode &&& 0x1#64 ≠ 0) (write : errorCode &&& 0x2#64 ≠ 0)
      (notReserved : errorCode &&& 0x8#64 = 0) (marked : Machine.getPageFlags ⟨addr⟩ s = (.ok flags, s))
      (shared : isCowPage flags = true) (owned : Machine.handleCowFault ⟨addr⟩ s = (.ok (), t)) :
      Resolvable s addr errorCode

section Attempt
variable {α : Type} {x : Machine.Op α} {k : Kernel} {t : Machine}

private theorem attempt_ok {a : α} (h : x k.machine = (.ok a, t)) :
    attempt x k = (.ok (some a), { k with machine := t }) := by
  simp only [attempt, onMachine, Fallible.zoom, h]

private theorem attempt_err {message : String} (h : x k.machine = (.error (.err message), t)) :
    attempt x k = (.ok none, { k with machine := t }) := by
  simp only [attempt, onMachine, Fallible.zoom, h]

private theorem attempt_crash (h : x k.machine = (.error .crash, t)) :
    attempt x k = (.error .crash, { k with machine := t }) := by
  simp only [attempt, onMachine, Fallible.zoom, h]

end Attempt

variable {k : Kernel} {addr errorCode : BitVec 64}

private theorem getPageFlags_keeps (v : VirtAddr) (s : Machine) : (Machine.getPageFlags v s).2 = s :=
  (Machine.getPageFlags_relates (R := fun s t => t = s) (fun _ => rfl) (fun _ _ _ h h' => h'.trans h) v) s

private theorem resolveDemand_skip (h : ¬ (errorCode &&& 0x1#64 = 0 ∧ errorCode &&& 0x8#64 = 0)) :
    resolveDemand addr errorCode k = (.ok false, k) := by
  unfold resolveDemand
  rw [if_neg (by simpa using h)]
  rfl

private theorem resolveCow_skip
    (h : ¬ (errorCode &&& 0x1#64 ≠ 0 ∧ errorCode &&& 0x2#64 ≠ 0 ∧ errorCode &&& 0x8#64 = 0)) :
    resolveCow addr errorCode k = (.ok false, k) := by
  unfold resolveCow
  rw [if_neg (by simpa [and_assoc] using h)]
  rfl

/-- Once the demand half has not returned, a fault on an absent page halts. -/
private theorem handlePageFault_demand (hp : errorCode &&& 0x1#64 = 0) (hr : errorCode &&& 0x8#64 = 0) :
    (∃ k', handlePageFault addr errorCode k = (.ok (), k')) ↔
      ∃ t, Machine.handleDemandPageFault ⟨addr⟩ errorCode k.machine = (.ok (), t) := by
  have htake : resolveDemand addr errorCode = (do
      let handled ← attempt (Machine.handleDemandPageFault ⟨addr⟩ errorCode)
      pure handled.isSome) := by
    unfold resolveDemand
    exact if_pos (by simp [hp, hr])
  rcases hrun : Machine.handleDemandPageFault ⟨addr⟩ errorCode k.machine with ⟨e | ⟨⟩, t⟩
  · refine ⟨fun ⟨k', h⟩ => ?_, fun ⟨t', h⟩ => by cases h⟩
    exfalso
    cases e with
    | err message =>
      have h₁ : resolveDemand addr errorCode k = (.ok false, { k with machine := t }) := by
        rw [htake, Fallible.bind_of_ok (attempt_err hrun)]
        rfl
      rw [handlePageFault, Fallible.bind_of_ok h₁, if_neg (by decide),
        Fallible.bind_of_ok (resolveCow_skip fun hc => hc.1 hp)] at h
      cases h
    | crash =>
      have h₁ : resolveDemand addr errorCode k = (.error .crash, { k with machine := t }) := by
        rw [htake, Fallible.bind_of_error (attempt_crash hrun)]
      rw [handlePageFault, Fallible.bind_of_error h₁] at h
      cases h
  · refine ⟨fun _ => ⟨t, rfl⟩, fun _ => ⟨{ k with machine := t }, ?_⟩⟩
    have h₁ : resolveDemand addr errorCode k = (.ok true, { k with machine := t }) := by
      rw [htake, Fallible.bind_of_ok (attempt_ok hrun)]
      rfl
    rw [handlePageFault, Fallible.bind_of_ok h₁, if_pos rfl]
    rfl

section Cow
variable (hp : errorCode &&& 0x1#64 ≠ 0) (hw : errorCode &&& 0x2#64 ≠ 0) (hr : errorCode &&& 0x8#64 = 0)
include hp hw hr

private theorem resolveCow_taken : resolveCow addr errorCode = (do
    let flags ← attempt (Machine.getPageFlags ⟨addr⟩)
    if flags.any isCowPage then do
      let handled ← attempt (Machine.handleCowFault ⟨addr⟩)
      pure handled.isSome
    else pure false) := by
  unfold resolveCow
  exact if_pos (by simpa [hr] using And.intro hp hw)

private theorem resolveCow_flags {flags : PageTableFlags}
    (hflags : Machine.getPageFlags ⟨addr⟩ k.machine = (.ok flags, k.machine)) : resolveCow addr errorCode k =
      if isCowPage flags then (do
        let handled ← attempt (Machine.handleCowFault ⟨addr⟩)
        pure handled.isSome : Fallible Kernel Fate Bool) k
      else (.ok false, k) := by
  rw [resolveCow_taken hp hw hr, Fallible.bind_of_ok (attempt_ok hflags)]
  cases h : isCowPage flags <;> simp [h]

omit hw hr in
private theorem handlePageFault_of_cow {r : Except Fate Bool} {k' : Kernel}
    (h : resolveCow addr errorCode k = (r, k')) :
    (∃ k', handlePageFault addr errorCode k = (.ok (), k')) ↔ r = .ok true := by
  rw [handlePageFault, Fallible.bind_of_ok (resolveDemand_skip fun hc => hp hc.1), if_neg (by decide),
    Fallible.bind_run, h]
  rcases r with e | b
  · exact iff_of_false (fun ⟨_, h⟩ => by cases h) (fun h => by cases h)
  · cases b
    · exact iff_of_false (fun ⟨_, h⟩ => by cases h) (fun h => by cases h)
    · exact iff_of_true ⟨k', rfl⟩ rfl

/-- A write fault on a present page is resolved where it is a copy-on-write page whose fault can be handled. -/
private theorem handlePageFault_cow : (∃ k', handlePageFault addr errorCode k = (.ok (), k')) ↔
    ∃ flags t, Machine.getPageFlags ⟨addr⟩ k.machine = (.ok flags, k.machine) ∧ isCowPage flags = true ∧
      Machine.handleCowFault ⟨addr⟩ k.machine = (.ok (), t) := by
  have hkeeps := getPageFlags_keeps ⟨addr⟩ k.machine
  rcases hflags : Machine.getPageFlags ⟨addr⟩ k.machine with ⟨e | flags, s⟩
  · rw [hflags] at hkeeps
    obtain rfl : s = k.machine := hkeeps
    refine iff_of_false ?_ fun ⟨_, _, h, _⟩ => by cases h
    cases e with
    | err message =>
      have hcow : resolveCow addr errorCode k = (.ok false, k) := by
        rw [resolveCow_taken hp hw hr, Fallible.bind_of_ok (attempt_err hflags)]
        rfl
      rw [handlePageFault_of_cow hp hcow]
      intro h
      cases h
    | crash =>
      have hcow : resolveCow addr errorCode k = (.error .crash, k) := by
        rw [resolveCow_taken hp hw hr, Fallible.bind_of_error (attempt_crash hflags)]
      rw [handlePageFault_of_cow hp hcow]
      intro h
      cases h
  · rw [hflags] at hkeeps
    obtain rfl : s = k.machine := hkeeps
    have hcow := resolveCow_flags hp hw hr hflags
    by_cases hmark : isCowPage flags = true
    · rw [if_pos hmark] at hcow
      rcases hrun : Machine.handleCowFault ⟨addr⟩ k.machine with ⟨e | ⟨⟩, t⟩
      · refine iff_of_false ?_ fun ⟨_, _, _, _, h⟩ => by cases h
        cases e with
        | err message =>
          rw [handlePageFault_of_cow hp (hcow.trans (Fallible.bind_of_ok (attempt_err hrun)))]
          intro h
          cases h
        | crash =>
          rw [handlePageFault_of_cow hp (hcow.trans (Fallible.bind_of_error (attempt_crash hrun)))]
          intro h
          cases h
      · rw [handlePageFault_of_cow hp (hcow.trans (Fallible.bind_of_ok (attempt_ok hrun)))]
        exact iff_of_true rfl ⟨flags, t, rfl, hmark, rfl⟩
    · rw [if_neg hmark] at hcow
      rw [handlePageFault_of_cow hp hcow]
      refine iff_of_false (fun h => by cases h) fun ⟨_, _, h, hmark', _⟩ => ?_
      obtain rfl := Except.ok.inj (Prod.mk.inj h).1
      exact hmark hmark'

end Cow

/-- Neither half takes up any other fault. -/
private theorem handlePageFault_other (hd : ¬ (errorCode &&& 0x1#64 = 0 ∧ errorCode &&& 0x8#64 = 0))
    (hc : ¬ (errorCode &&& 0x1#64 ≠ 0 ∧ errorCode &&& 0x2#64 ≠ 0 ∧ errorCode &&& 0x8#64 = 0)) :
    ¬ ∃ k', handlePageFault addr errorCode k = (.ok (), k') := by
  rintro ⟨k', h⟩
  rw [handlePageFault, Fallible.bind_of_ok (resolveDemand_skip hd), if_neg (by decide),
    Fallible.bind_of_ok (resolveCow_skip hc)] at h
  cases h

/-- `handle_page_fault` returns for the faults that can be resolved. -/
theorem handlePageFault_resolves :
    (∃ k', handlePageFault addr errorCode k = (.ok (), k')) ↔ Resolvable k.machine addr errorCode := by
  by_cases hd : errorCode &&& 0x1#64 = 0 ∧ errorCode &&& 0x8#64 = 0
  · rw [handlePageFault_demand hd.1 hd.2]
    constructor
    · rintro ⟨t, h⟩
      exact .demand t hd.1 hd.2 h
    · rintro (⟨t, _, _, h⟩ | ⟨_, _, hp, _⟩)
      · exact ⟨t, h⟩
      · exact absurd hd.1 hp
  · by_cases hc : errorCode &&& 0x1#64 ≠ 0 ∧ errorCode &&& 0x2#64 ≠ 0 ∧ errorCode &&& 0x8#64 = 0
    · rw [handlePageFault_cow hc.1 hc.2.1 hc.2.2]
      constructor
      · rintro ⟨flags, t, hf, hmark, h⟩
        exact .cow flags t hc.1 hc.2.1 hc.2.2 hf hmark h
      · rintro (⟨_, hp, _⟩ | ⟨flags, t, _, _, _, hf, hmark, h⟩)
        · exact absurd hp hc.1
        · exact ⟨flags, t, hf, hmark, h⟩
    · refine iff_of_false (handlePageFault_other hd hc) ?_
      rintro (⟨_, hp, hr, _⟩ | ⟨_, _, hp, hw, hr, _⟩)
      · exact hd ⟨hp, hr⟩
      · exact hc ⟨hp, hw, hr⟩

/-- The linked kernel's dispatcher halts on every exception, and changes nothing. -/
theorem exceptionHandler_halts (frame : ExceptionFrame) (cr2 : BitVec 64) (k : Kernel) :
    ∃ report, exceptionHandler frame cr2 k = (.error (.halted report), k) := by
  simp only [exceptionHandler, Fallible.get_bind_run]
  split_ifs <;> exact ⟨_, rfl⟩

def pageFaultFrame (errorCode rip cs rflags : BitVec 64) : ExceptionFrame := ⟨14, errorCode, rip, cs, rflags⟩

/-- Outside the guard pages the fault of this frame is resolved by the linked kernel, and in the same way,
where `handle_page_fault` resolves it. -/
def ResolvedAlike (k : Kernel) (frame : ExceptionFrame) (cr2 : BitVec 64) : Prop :=
  ∀ k', handlePageFault cr2 frame.errorCode k = (.ok (), k') → k.guards.isGuardPage cr2 = false →
    exceptionHandler frame cr2 k = (.ok (), k')

/-- No fault that can be resolved is: the linked kernel halts on it. -/
theorem resolvedAlike_iff (k : Kernel) (cr2 errorCode rip cs rflags : BitVec 64) :
    ResolvedAlike k (pageFaultFrame errorCode rip cs rflags) cr2 ↔
      k.guards.isGuardPage cr2 = true ∨ ¬ Resolvable k.machine cr2 errorCode := by
  obtain ⟨report, hhalts⟩ := exceptionHandler_halts (pageFaultFrame errorCode rip cs rflags) cr2 k
  rw [← handlePageFault_resolves]
  constructor
  · intro h
    by_cases hg : k.guards.isGuardPage cr2 = true
    · exact .inl hg
    · refine .inr fun ⟨k', hk⟩ => ?_
      have := h k' hk (Bool.eq_false_iff.mpr hg)
      rw [hhalts] at this
      cases this
  · rintro (hg | hn) k' hk hg'
    · rw [hg] at hg'
      cases hg'
    · exact absurd ⟨k', hk⟩ hn

/-- Two pages from 4 MiB on are mapped on demand, and none is populated. -/
def demandKernel : Kernel where
  machine := (Machine.mmap ⟨0x400000#64⟩ 0x2000#64 ⟨3#64⟩ .zeroFill PagingManager.smallMachine).2
  guards := .empty
  nextStackOffset := 0

/-- The first access to one of them halts the kernel, where `handle_page_fault` returns. -/
theorem demand_fault_halts :
    ¬ ResolvedAlike demandKernel (pageFaultFrame 0 0x100000#64 8 2) 0x400123#64 ∧
      (handlePageFault 0x400123#64 0 demandKernel).1 = .ok () ∧
      (exceptionHandler (pageFaultFrame 0 0x100000#64 8 2) 0x400123#64 demandKernel).1 =
        .error (.halted (.pageFault 0x400123#64 0 [] (some 0x100000#64))) := by
  have hok : (handlePageFault 0x400123#64 0 demandKernel).1 = .ok () := by decide +kernel
  have hhalt : (exceptionHandler (pageFaultFrame 0 0x100000#64 8 2) 0x400123#64 demandKernel).1 =
    .error (.halted (.pageFault 0x400123#64 0 [] (some 0x100000#64))) := by decide +kernel
  refine ⟨fun h => ?_, hok, hhalt⟩
  have := h _ (Fallible.run_of_fst hok) (by decide +kernel)
  rw [this] at hhalt
  cases hhalt

end Kernel
end Nafuraito.Memory
