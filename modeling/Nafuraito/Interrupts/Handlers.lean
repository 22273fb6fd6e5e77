import Mathlib.Tactic.IntervalCases
import Nafuraito.Interrupts.Context

/-! What the handlers are called with, which contexts can be returned to, and what an interrupt overwrites. -/
namespace Nafuraito.Interrupts
open Nafuraito.Library
namespace Kernel
variable {k : Kernel} {n vector : Nat} {P : Set (BitVec 64)} {s m t : Cpu} {errorCode : BitVec 64} {gate : Gate}
  {level : BitVec 2} {code : List Instr}

theorem gateOf_lt (h : k.gateOf vector = some (gate, level)) : vector < 48 := by
  rw [gateOf_eq] at h
  by_contra hlt
  rw [if_neg (by omega), if_neg hlt] at h
  cases h

/-! ### Arguments -/

private theorem aligned_mod (x : BitVec 64) : (x &&& ~~~15).toNat % 16 = 0 := by
  have hmask : (~~~15 : BitVec 64).toNat % 2^4 = 0 := by decide
  rw [BitVec.toNat_and, show 16 = 2^4 from rfl, Nat.and_mod_two_pow, hmask, Nat.and_zero]

private theorem stackPointer_mod {top : BitVec 64} (htop : top.toNat % 16 = 0) {i : Nat} (hi : i ≤ 22) :
    (stackPointer top i).toNat % 16 = 8*(i%2) := by
  rw [stackPointer, BitVec.toNat_sub, BitVec.toNat_ofNat, Nat.mod_eq_of_lt (show 8*i < 2^64 by omega)]
  omega

/-- The handler of an exception is called with its vector, its error code or zero, and where it happened, on an
aligned stack; the handler of a hardware interrupt with its vector, on a stack that is eight bytes off. -/
theorem handler_called (hgate : k.gateOf vector = some (gate, level))
    (hroom : Disjoint P (slots (k.frameTop gate level s) frameSlots))
    (hrun : k.Run (Nested k.Service n) P (k.frameTop gate level s) (beforeCall vector)
      (k.deliver vector errorCode gate level s) m) :
    m.regs .rdi = BitVec.ofNat 64 vector ∧ if vector < 32 then
      m.regs .rsi = (if pushesErrorCode vector then errorCode else 0) ∧ m.regs .rdx = s.rip ∧
        m.regs .rcx = s.cs.setWidth 64 ∧ m.regs .r8 = s.rflags ∧ m.rsp.toNat % 16 = 0
    else m.rsp.toNat % 16 = 8 := by
  obtain ⟨hm, hregs⟩ := run_to_call (fun _ _ _ => nested_resumed k) (gateOf_lt hgate) hroom hrun
  have htop : (k.frameTop gate level s).toNat % 16 = 0 := aligned_mod _
  have hrsp := hm.rsp
  rw [calledWith_length] at hrsp
  have hcode : ∀ v < 32, pushesErrorCode v = decide (v ∈ isrErrcode) := by decide
  by_cases h32 : vector < 32
  · rw [if_pos h32] at hrsp ⊢
    have hwords : calledWith vector errorCode s = [s.ss.setWidth 64, s.rsp, s.rflags, s.cs.setWidth 64, s.rip] ++
        [if vector ∈ isrErrcode then errorCode else 0, BitVec.ofNat 64 vector] ++ savedRegs.map s.regs := by
      rw [calledWith, overContext, if_pos h32]
    rw [hwords, argumentPlaces, if_pos h32] at hregs
    rw [hregs, hrsp, stackPointer_mod htop (Nat.le_refl 22), hcode vector h32]
    simp only [decide_eq_true_eq]
    exact ⟨rfl, rfl, rfl, rfl, rfl, trivial⟩
  · rw [if_neg h32] at hrsp ⊢
    have hwords : calledWith vector errorCode s = [s.ss.setWidth 64, s.rsp, s.rflags, s.cs.setWidth 64, s.rip] ++
        [BitVec.ofNat 64 vector] ++ savedRegs.map s.regs := by
      rw [calledWith, overContext, if_neg h32]
    rw [hwords, argumentPlaces, if_neg h32] at hregs
    rw [hregs, hrsp, stackPointer_mod htop (by decide)]
    exact ⟨rfl, rfl⟩

/-- A page fault in kernel code. -/
theorem handler_called_page_fault : ∃ m : Cpu, m.regs .rdi = 14 ∧ m.regs .rsi = 2 ∧ m.rsp.toNat % 16 = 0 := by
  obtain ⟨m, hm⟩ := Option.isSome_iff_exists.mp (beforeCall_isSome (k := sample) 14
    (sample.deliver 14 2 ⟨14, kernelCodeSelector, 5, false⟩ 0 sampleCpu))
  have hgate : sample.gateOf 14 = some (⟨14, kernelCodeSelector, 5, false⟩, 0) := by
    rw [gateOf_eq]
    rfl
  have hrun : sample.Run (Nested sample.Service 0) ∅ (sample.frameTop ⟨14, kernelCodeSelector, 5, false⟩ 0 sampleCpu)
      (beforeCall 14) (sample.deliver 14 2 ⟨14, kernelCodeSelector, 5, false⟩ 0 sampleCpu) m := run_alone hm
  obtain ⟨hrdi, hargs⟩ := handler_called hgate (by simp) hrun
  rw [if_pos (by decide)] at hargs
  exact ⟨m, hrdi, hargs.1, hargs.2.2.2.2⟩

/-! ### Returning -/

/-- A selector of the global table is its index and its level. -/
private theorem selector_eq {sel : BitVec 16} (hti : sel.getLsbD 2 = false) :
    sel = (sel >>> 3) <<< 3 ||| (rpl sel).setWidth 16 := by
  apply BitVec.eq_of_getLsbD_eq
  intro i hi
  rcases Nat.lt_or_ge i 3 with h3 | h3
  · rcases Nat.lt_or_ge i 2 with h2 | h2
    · simp [rpl, h3, h2, hi]
    · obtain rfl : i = 2 := by omega
      simpa [rpl] using hti
  · have : ¬ i < 2 := by omega
    simp [rpl, this, Nat.not_lt.mpr h3, Nat.add_sub_cancel' h3, hi]

/-- The descriptors of the kernel's table, by index. -/
private theorem descriptor_gdt {sel : BitVec 16} {d : BitVec 64} (h : descriptor k.gdt sel = some d) :
    sel.getLsbD 2 = false ∧ (((sel >>> 3).toNat = 1 ∧ d = GdtEntry.kernelCodeSegment.bits) ∨
      ((sel >>> 3).toNat = 2 ∧ d = GdtEntry.kernelDataSegment.bits) ∨
      ((sel >>> 3).toNat = 3 ∧ d = GdtEntry.userDataSegment.bits) ∨
      ((sel >>> 3).toNat = 4 ∧ d = GdtEntry.userCodeSegment.bits) ∨
      ((sel >>> 3).toNat = 5 ∧ d = (gdtInit k.tssAddr).1.tss.low.bits) ∨
      ((sel >>> 3).toNat = 6 ∧ d = (gdtInit k.tssAddr).1.tss.reserved ++ (gdtInit k.tssAddr).1.tss.baseUpper)) := by
  rw [descriptor] at h
  split at h
  · cases h
  · rename_i hsel
    rw [not_or] at hsel
    refine ⟨by simpa using hsel.1, ?_⟩
    have hlen : (sel >>> 3).toNat < 7 := (List.getElem?_eq_some_iff.mp h).1
    have hpos : (sel >>> 3).toNat ≠ 0 := hsel.2
    generalize (sel >>> 3).toNat = i at h hlen hpos ⊢
    interval_cases i
    · exact absurd rfl hpos
    · exact .inl ⟨rfl, (Option.some.inj h).symm⟩
    · exact .inr (.inl ⟨rfl, (Option.some.inj h).symm⟩)
    · exact .inr (.inr (.inl ⟨rfl, (Option.some.inj h).symm⟩))
    · exact .inr (.inr (.inr (.inl ⟨rfl, (Option.some.inj h).symm⟩)))
    · exact .inr (.inr (.inr (.inr (.inl ⟨rfl, (Option.some.inj h).symm⟩))))
    · exact .inr (.inr (.inr (.inr (.inr ⟨rfl, (Option.some.inj h).symm⟩))))

private theorem tss_low (k : Kernel) : (gdtInit k.tssAddr).1.tss.low.bits.getLsbD 44 = false := by
  have := congrArg (BitVec.getLsbD · 4) (GdtEntry.bits_access (gdtInit k.tssAddr).1.tss.low)
  rw [BitVec.getLsbD_extractLsb'] at this
  simpa using this.trans (show (0x89 : BitVec 8).getLsbD 4 = false by decide)

private theorem tss_high (k : Kernel) :
    ((gdtInit k.tssAddr).1.tss.reserved ++ (gdtInit k.tssAddr).1.tss.baseUpper).getLsbD 47 = false := by
  rw [BitVec.getLsbD_append, if_neg (by decide), show (gdtInit k.tssAddr).1.tss.reserved = 0 from rfl]
  decide

/-- The selector with an index that asks for a level. -/
private theorem selector_of {sel : BitVec 16} (hti : sel.getLsbD 2 = false) {i : Nat} (hi : (sel >>> 3).toNat = i)
    {l : BitVec 2} (hl : l = rpl sel) : sel = BitVec.ofNat 16 i <<< 3 ||| l.setWidth 16 := by
  rw [hl, ← hi, BitVec.ofNat_toNat, BitVec.setWidth_eq]
  exact selector_eq hti

/-- Code of the kernel's table. -/
theorem codeSelector_iff (cs : BitVec 16) :
    (∃ d ∈ descriptor k.gdt cs, isCode64 d = true ∧ dpl d = rpl cs) ↔
      cs = kernelCodeSelector ∨ cs = userCodeSelector := by
  constructor
  · rintro ⟨d, hd, hcode, hlevel⟩
    obtain ⟨hti, ⟨hi, rfl⟩ | ⟨hi, rfl⟩ | ⟨hi, rfl⟩ | ⟨hi, rfl⟩ | ⟨hi, rfl⟩ | ⟨hi, rfl⟩⟩ := descriptor_gdt hd
    · exact .inl (selector_of hti hi hlevel)
    · exact absurd hcode (by decide)
    · exact absurd hcode (by decide)
    · exact .inr (selector_of hti hi hlevel)
    · simp only [isCode64, tss_low k, Bool.and_false, Bool.false_and, Bool.false_eq_true] at hcode
    · simp only [isCode64, tss_high k, Bool.false_and, Bool.false_eq_true] at hcode
  · rintro (rfl | rfl)
    · exact ⟨GdtEntry.kernelCodeSegment.bits, rfl, by decide, by decide⟩
    · exact ⟨GdtEntry.userCodeSegment.bits, rfl, by decide, by decide⟩

/-- Data of the kernel's table that may be written. -/
theorem dataSelector_iff (ss : BitVec 16) :
    (∃ d ∈ descriptor k.gdt ss, isWritableData d = true ∧ dpl d = rpl ss) ↔
      ss = kernelDataSelector ∨ ss = userDataSelector := by
  constructor
  · rintro ⟨d, hd, hdata, hlevel⟩
    obtain ⟨hti, ⟨hi, rfl⟩ | ⟨hi, rfl⟩ | ⟨hi, rfl⟩ | ⟨hi, rfl⟩ | ⟨hi, rfl⟩ | ⟨hi, rfl⟩⟩ := descriptor_gdt hd
    · exact absurd hdata (by decide)
    · exact .inl (selector_of hti hi hlevel)
    · exact .inr (selector_of hti hi hlevel)
    · exact absurd hdata (by decide)
    · simp only [isWritableData, tss_low k, Bool.and_false, Bool.false_and, Bool.false_eq_true] at hdata
    · simp only [isWritableData, tss_high k, Bool.false_and, Bool.false_eq_true] at hdata
  · rintro (rfl | rfl)
    · exact ⟨GdtEntry.kernelDataSegment.bits, rfl, by decide, by decide⟩
    · exact ⟨GdtEntry.userDataSegment.bits, rfl, by decide, by decide⟩

/-- The contexts `iretq` can return to: the kernel, with its stack segment or none, and user code. -/
theorem returnable_iff (cs ss : BitVec 16) : Returnable k.gdt cs ss ↔
    (cs = kernelCodeSelector ∧ (ss = 0 ∨ ss = kernelDataSelector)) ∨
      (cs = userCodeSelector ∧ ss = userDataSelector) := by
  have hdata : (∃ d ∈ descriptor k.gdt ss, isWritableData d = true ∧ dpl d = rpl cs ∧ rpl ss = rpl cs) ↔
      (ss = kernelDataSelector ∨ ss = userDataSelector) ∧ rpl ss = rpl cs := by
    rw [← dataSelector_iff (k := k)]
    constructor
    · rintro ⟨d, hd, hw, hl, hr⟩
      exact ⟨⟨d, hd, hw, hl.trans hr.symm⟩, hr⟩
    · rintro ⟨⟨d, hd, hw, hl⟩, hr⟩
      exact ⟨d, hd, hw, hl.trans hr, hr⟩
  rw [Returnable, codeSelector_iff, hdata]
  constructor
  · rintro ⟨rfl | rfl, ⟨hnull, hl, hne⟩ | ⟨rfl | rfl, hl⟩⟩
    · have : ∀ x : BitVec 16, x.toNat ≤ 3 → rpl x = rpl kernelCodeSelector → x = 0 := by
        intro x hx
        obtain h | h | h | h : x.toNat = 0 ∨ x.toNat = 1 ∨ x.toNat = 2 ∨ x.toNat = 3 := by omega
        all_goals rw [show x = BitVec.ofNat 16 x.toNat by simp, h]; decide
      exact .inl ⟨rfl, .inl (this ss hnull hl)⟩
    · exact .inl ⟨rfl, .inr rfl⟩
    · exact absurd hl (by decide)
    · exact absurd rfl hne
    · exact absurd hl (by decide)
    · exact .inr ⟨rfl, rfl⟩
  · rintro (⟨rfl, rfl | rfl⟩ | ⟨rfl, rfl⟩) <;> decide

/-- A stub that has got to its `iretq` returns exactly to contexts whose segments are in the kernel's table; one that
still has a segment of the firmware faults there. -/
theorem returns_iff (hgate : k.gateOf vector = some (gate, level))
    (hroom : Disjoint P (slots (k.frameTop gate level s) frameSlots))
    (hrun : k.Run (Nested k.Service n) P (k.frameTop gate level s) (beforeCall vector ++ afterCall vector)
      (k.deliver vector errorCode gate level s) m) :
    (m.iretq k.gdt).isSome ↔ (s.cs = kernelCodeSelector ∧ (s.ss = 0 ∨ s.ss = kernelDataSelector)) ∨
      (s.cs = userCodeSelector ∧ s.ss = userDataSelector) := by
  have hR : ∀ Q s t, Nested k.Service n Q s t → Resumed Q s t := fun _ _ _ => nested_resumed k
  obtain ⟨m', hto, hfrom⟩ := (run_append _ _).mp hrun
  obtain ⟨hm', _⟩ := run_to_call hR (gateOf_lt hgate) hroom hto
  obtain ⟨hm, _⟩ := run_from_call hR hm' hfrom
  rw [← returnable_iff (k := k), hm.iretq]
  split <;> simp_all

/-- A context with the code segment of the firmware. -/
theorem returns_iff_firmware : ∃ m : Cpu, ¬ (m.iretq sample.gdt).isSome := by
  obtain ⟨m, hm⟩ := Option.isSome_iff_exists.mp (beforeCall_isSome (k := sample) 33
    (sample.deliver 33 0 ⟨33, kernelCodeSelector, 0, false⟩ 0 { sampleCpu with cs := 0x38 }))
  obtain ⟨m', hm'⟩ := Option.isSome_iff_exists.mp (afterCall_isSome (k := sample) 33 m)
  have hgate : sample.gateOf 33 = some (⟨33, kernelCodeSelector, 0, false⟩, 0) := by
    rw [gateOf_eq]
    rfl
  have hrun : sample.Run (Nested sample.Service 0) ∅
      (sample.frameTop ⟨33, kernelCodeSelector, 0, false⟩ 0 { sampleCpu with cs := 0x38 })
      (beforeCall 33 ++ afterCall 33)
      (sample.deliver 33 0 ⟨33, kernelCodeSelector, 0, false⟩ 0 { sampleCpu with cs := 0x38 }) m' :=
    (run_append _ _).mpr ⟨m, run_alone hm, run_alone hm'⟩
  refine ⟨m', fun h => ?_⟩
  obtain ⟨hcs, _⟩ | ⟨hcs, _⟩ := (returns_iff hgate (by simp) hrun).mp h
  · exact absurd hcs (by decide)
  · exact absurd hcs (by decide)

end Kernel

end Nafuraito.Interrupts
