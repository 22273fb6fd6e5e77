import Nafuraito.Interrupts.Descriptors

/-! The descriptors decode to what they were built from, and the tables of `gdt_init` and `idt_init` to what the
processor has to find in them. -/
namespace Nafuraito.Interrupts

/-! ### Fields -/

/-- A mask of at least `k` bits before a cast to `k` bits is no more than the cast. -/
theorem setWidth_and {w : Nat} (x : BitVec w) {m : BitVec w} {k : Nat} (hm : ∀ i < k, m.getLsbD i = true) :
    (x &&& m).setWidth k = x.extractLsb' 0 k := by
  ext i hi
  simp [hm i hi]

theorem setWidth_ushiftRight_and {w : Nat} (x : BitVec w) (n : Nat) {m : BitVec w} {k : Nat}
    (hm : ∀ i < k, m.getLsbD i = true) : (x >>> n &&& m).setWidth k = x.extractLsb' n k := by
  ext i hi
  simp [hm i hi]

private theorem low_field {m n : Nat} (x : BitVec n) (y : BitVec m) : (x ++ y).extractLsb' 0 m = y := by
  rw [BitVec.extractLsb'_append_eq_of_add_le (Nat.le_of_eq (Nat.zero_add m)), BitVec.extractLsb'_eq_self]

/-- The lowest field left out. -/
private theorem field_above {m n : Nat} (x : BitVec n) (y : BitVec m) (start len : Nat) :
    (x ++ y).extractLsb' (start+m) len = x.extractLsb' start len := by
  rw [BitVec.extractLsb'_append_eq_of_le (Nat.le_add_left m start), Nat.add_sub_cancel]

private theorem gate_fields (r h : BitVec 32) (m : BitVec 16) (t i : BitVec 8) (s o : BitVec 16) :
    (r ++ h ++ m ++ t ++ i ++ s ++ o).extractLsb' 0 16 = o ∧ (r ++ h ++ m ++ t ++ i ++ s ++ o).extractLsb' 16 16 = s ∧
    (r ++ h ++ m ++ t ++ i ++ s ++ o).extractLsb' 32 8 = i ∧ (r ++ h ++ m ++ t ++ i ++ s ++ o).extractLsb' 40 8 = t ∧
    (r ++ h ++ m ++ t ++ i ++ s ++ o).extractLsb' 48 16 = m ∧
    (r ++ h ++ m ++ t ++ i ++ s ++ o).extractLsb' 64 32 = h := by
  refine ⟨low_field _ o, ?_, ?_, ?_, ?_, ?_⟩
  · exact (field_above _ o 0 16).trans (low_field _ s)
  · exact (field_above _ o 16 8).trans ((field_above _ s 0 8).trans (low_field _ i))
  · exact (field_above _ o 24 8).trans ((field_above _ s 8 8).trans ((field_above _ i 0 8).trans (low_field _ t)))
  · exact (field_above _ o 32 16).trans ((field_above _ s 16 16).trans ((field_above _ i 8 16).trans
      ((field_above _ t 0 16).trans (low_field _ m))))
  · exact (field_above _ o 48 32).trans ((field_above _ s 32 32).trans ((field_above _ i 24 32).trans
      ((field_above _ t 16 32).trans ((field_above _ m 0 32).trans (low_field r h)))))

/-! ### Gates -/

/-- The three parts of a handler's address. -/
private theorem offset_parts (handler : BitVec 64) :
    ((handler >>> 32) &&& 0xFFFFFFFF).setWidth 32 ++ ((handler >>> 16) &&& 0xFFFF).setWidth 16 ++
      (handler &&& 0xFFFF).setWidth 16 = handler := by
  rw [setWidth_and handler (by decide), setWidth_ushiftRight_and handler 16 (by decide),
    setWidth_ushiftRight_and handler 32 (by decide),
    BitVec.extractLsb'_append_extractLsb'_eq_extractLsb' (show 32 = 16+16 from rfl),
    BitVec.extractLsb'_append_extractLsb'_eq_extractLsb' (show 16 = 0+16 from rfl)]
  exact BitVec.extractLsb'_eq_self

theorem decodeGate_setHandler (handler : BitVec 64) (selector : BitVec 16) {ist gateType : BitVec 8}
    (hist : ist < 8) (htype : gateType = 0xE ∨ gateType = 0xF) :
    decodeGate (IdtEntry.setHandler handler selector ist gateType 0).bits =
      some ⟨handler, selector, ist.toNat, gateType = 0xF⟩ := by
  set e := IdtEntry.setHandler handler selector ist gateType 0 with he
  obtain ⟨ho, hs, hi, ht, hm, hh⟩ := gate_fields e.reserved e.offsetHigh e.offsetMid e.typeAttr e.ist e.selector
    e.offsetLow
  change e.bits.extractLsb' 0 16 = _ at ho
  change e.bits.extractLsb' 16 16 = _ at hs
  change e.bits.extractLsb' 32 8 = _ at hi
  change e.bits.extractLsb' 40 8 = _ at ht
  change e.bits.extractLsb' 48 16 = _ at hm
  change e.bits.extractLsb' 64 32 = _ at hh
  have hoffset : e.bits.extractLsb' 64 32 ++ e.bits.extractLsb' 48 16 ++ e.bits.extractLsb' 0 16 = handler := by
    rw [ho, hm, hh]
    exact offset_parts handler
  have htypeBits (j : Nat) (hj : j < 8) : e.bits.getLsbD (40+j) = e.typeAttr.getLsbD j := by
    rw [← ht, BitVec.getLsbD_extractLsb', decide_eq_true hj, Bool.true_and]
  have hgate : e.bits.extractLsb' 40 4 = e.typeAttr.extractLsb' 0 4 := by
    rw [← ht]
    ext j hj
    simp [Nat.lt_trans hj (show 4 < 8 by decide)]
  have hist' : e.bits.extractLsb' 32 3 = e.ist.extractLsb' 0 3 := by
    rw [← hi]
    ext j hj
    simp [Nat.lt_trans hj (show 3 < 8 by decide)]
  have hkeep : ∀ i : BitVec 8, i < 8 → ((i &&& 0x7).extractLsb' 0 3).toNat = i.toNat := by decide
  have hattr : e.typeAttr = 0x80 ||| gateType := by rcases htype with rfl | rfl <;> rfl
  have hpresent : e.bits.getLsbD 47 = true := by
    rw [htypeBits 7 (by decide), hattr]
    rcases htype with rfl | rfl <;> rfl
  have hsystem : e.bits.getLsbD 44 = false := by
    rw [htypeBits 4 (by decide), hattr]
    rcases htype with rfl | rfl <;> rfl
  have hkind : e.bits.extractLsb' 40 4 = gateType.extractLsb' 0 4 := by
    rw [hgate, hattr]
    rcases htype with rfl | rfl <;> rfl
  rw [decodeGate, hpresent, hsystem, hkind, hoffset, hs, hist']
  rw [show e.ist = ist &&& 0x7 from rfl, hkeep ist hist, show e.selector = selector from rfl]
  rcases htype with rfl | rfl <;> rfl

/-! ### Segments -/

private theorem segment_fields (h f a m : BitVec 8) (b l : BitVec 16) :
    (h ++ f ++ a ++ m ++ b ++ l).extractLsb' 0 16 = l ∧ (h ++ f ++ a ++ m ++ b ++ l).extractLsb' 16 24 = m ++ b ∧
    (h ++ f ++ a ++ m ++ b ++ l).extractLsb' 40 8 = a ∧ (h ++ f ++ a ++ m ++ b ++ l).extractLsb' 48 8 = f ∧
    (h ++ f ++ a ++ m ++ b ++ l).extractLsb' 56 8 = h := by
  refine ⟨low_field _ l, ?_, ?_, ?_, ?_⟩
  · refine (field_above _ l 0 24).trans ?_
    rw [← BitVec.extractLsb'_append_extractLsb'_eq_extractLsb' (show 16 = 0+16 from rfl)]
    rw [low_field _ b]
    exact congrArg (· ++ b) ((field_above _ b 0 8).trans (low_field _ m))
  · exact (field_above _ l 24 8).trans ((field_above _ b 8 8).trans ((field_above _ m 0 8).trans (low_field _ a)))
  · exact (field_above _ l 32 8).trans ((field_above _ b 16 8).trans ((field_above _ m 8 8).trans
      ((field_above _ a 0 8).trans (low_field _ f))))
  · exact (field_above _ l 40 8).trans ((field_above _ b 24 8).trans ((field_above _ m 16 8).trans
      ((field_above _ a 8 8).trans ((field_above _ f 0 8).trans BitVec.extractLsb'_eq_self))))

namespace GdtEntry

theorem bits_limitLow (e : GdtEntry) : e.bits.extractLsb' 0 16 = e.limitLow := (segment_fields _ _ _ _ _ _).1

theorem bits_base (e : GdtEntry) : segmentBase e.bits = e.baseHigh ++ (e.baseMiddle ++ e.baseLow) := by
  obtain ⟨_, hb, _, _, hh⟩ := segment_fields e.baseHigh e.flagsLimitHigh e.access e.baseMiddle e.baseLow e.limitLow
  exact congrArg₂ (· ++ ·) hh hb

theorem bits_access (e : GdtEntry) : e.bits.extractLsb' 40 8 = e.access := (segment_fields _ _ _ _ _ _).2.2.1

theorem bits_flags (e : GdtEntry) : e.bits.extractLsb' 48 8 = e.flagsLimitHigh := (segment_fields _ _ _ _ _ _).2.2.2.1

theorem bits_limit (e : GdtEntry) : segmentLimit e.bits = e.flagsLimitHigh.extractLsb' 0 4 ++ e.limitLow := by
  rw [segmentLimit, bits_limitLow, ← bits_flags]
  congr 1
  ext i hi
  simp [Nat.lt_trans hi (show 4 < 8 by decide)]

/-- The nibble of the limit beside that of the flags. -/
private theorem limit_nibble (limit : BitVec 32) (flags : BitVec 8) :
    (((limit >>> 16) &&& 0x0F).setWidth 8 ||| ((flags &&& 0x0F) <<< 4)).extractLsb' 0 4 = limit.extractLsb' 16 4 := by
  have hlow : ∀ i < 4, (0x0F : BitVec 8).getLsbD i = true := by decide
  ext i hi
  have hi8 : i < 8 := Nat.lt_trans hi (by decide)
  have hbit : (15#8)[i] = true := hlow i hi
  simp [hi, hi8, hbit]

/-- A descriptor built from a base, a limit of twenty bits and an access byte decodes to them. -/
theorem new_decoded (base limit : BitVec 32) (access flags : BitVec 8) :
    segmentBase (new base limit access flags).bits = base ∧
      segmentLimit (new base limit access flags).bits = limit.extractLsb' 0 20 ∧
      (new base limit access flags).bits.extractLsb' 40 8 = access := by
  refine ⟨?_, ?_, bits_access _⟩
  · rw [bits_base, new]
    dsimp only
    rw [setWidth_and base (by decide), setWidth_ushiftRight_and base 16 (by decide),
      setWidth_ushiftRight_and base 24 (by decide),
      BitVec.extractLsb'_append_extractLsb'_eq_extractLsb' (show 16 = 0+16 from rfl),
      BitVec.extractLsb'_append_extractLsb'_eq_extractLsb' (show 24 = 0+24 from rfl)]
    exact BitVec.extractLsb'_eq_self
  · rw [bits_limit, new]
    dsimp only
    rw [limit_nibble, setWidth_and limit (by decide)]
    exact BitVec.extractLsb'_append_extractLsb'_eq_extractLsb' (show 16 = 0+16 from rfl)

end GdtEntry

/-- So does the descriptor of a task state segment, anywhere in memory. -/
theorem TssEntry.new_decoded (tssAddr : BitVec 64) (size : BitVec 32) :
    systemBase (new tssAddr size).low.bits ((new tssAddr size).reserved ++ (new tssAddr size).baseUpper) = tssAddr ∧
      segmentLimit (new tssAddr size).low.bits = (size - 1).extractLsb' 0 20 := by
  have hupper : ((new tssAddr size).reserved ++ (new tssAddr size).baseUpper).setWidth 32 =
      tssAddr.extractLsb' 32 32 := by
    rw [BitVec.setWidth_append, dif_pos (Nat.le_refl 32), BitVec.setWidth_eq]
    exact setWidth_ushiftRight_and tssAddr 32 (by decide)
  constructor
  · rw [systemBase, hupper, GdtEntry.bits_base, new]
    dsimp only
    rw [setWidth_and tssAddr (by decide), setWidth_ushiftRight_and tssAddr 16 (by decide),
      setWidth_ushiftRight_and tssAddr 24 (by decide),
      BitVec.extractLsb'_append_extractLsb'_eq_extractLsb' (show 16 = 0+16 from rfl),
      BitVec.extractLsb'_append_extractLsb'_eq_extractLsb' (show 24 = 0+24 from rfl),
      BitVec.extractLsb'_append_extractLsb'_eq_extractLsb' (show 32 = 0+32 from rfl)]
    exact BitVec.extractLsb'_eq_self
  · rw [GdtEntry.bits_limit, new]
    dsimp only
    rw [GdtEntry.limit_nibble, setWidth_and (size - 1) (by decide)]
    exact BitVec.extractLsb'_append_extractLsb'_eq_extractLsb' (show 16 = 0+16 from rfl)

/-! ### The tables -/

section Entries
variable {f : Idt → Nat → Idt} {entry : Nat → IdtEntry} {k m : Nat}

/-- Setting a range of entries one after the other. -/
private theorem foldl_entries (hf : ∀ n < m, ∀ idt, (f idt n).entries = Function.update idt.entries (k+n) (entry n))
    (idt : Idt) (v : Nat) :
    ((List.range m).foldl f idt).entries v = if k ≤ v ∧ v < k+m then entry (v-k) else idt.entries v := by
  induction m with
  | zero => simp [show ¬(k ≤ v ∧ v < k) by omega]
  | succ m ih =>
    rw [List.range_succ, List.foldl_append, List.foldl_cons, List.foldl_nil, hf m m.lt_succ_self]
    by_cases hv : v = k+m
    · subst hv
      simp
    · rw [Function.update_of_ne hv, ih fun n hn => hf n (Nat.lt_succ_of_lt hn)]
      have : k ≤ v ∧ v < k+(m+1) ↔ k ≤ v ∧ v < k+m := by omega
      simp only [this]

end Entries

variable (isr irq : Nat → BitVec 64)

/-- What the processor finds for a vector: the stub of that vector in the kernel's code segment, for the first 48
vectors and no other. -/
theorem idtInit_gate (v : Nat) : decodeGate ((idtInit isr irq).entries v).bits =
    if v < 32 then some ⟨isr v, kernelCodeSelector, (istOf v).toNat, isTrap v⟩
    else if v < 48 then some ⟨irq (v-32), kernelCodeSelector, 0, false⟩ else none := by
  have hirq : ∀ n < 16, ∀ idt : Idt, (setIrq irq idt n).entries =
      Function.update idt.entries (32+n) (.setInterruptGate (irq n) kernelCodeSelector 0 0) := by
    intro n hn idt
    rw [setIrq, Idt.setInterruptGate, if_pos (by omega)]
  have hisr : ∀ n < 32, ∀ idt : Idt, (setException isr idt n).entries = Function.update idt.entries (0+n)
      (.setHandler (isr n) kernelCodeSelector (istOf n) (if isTrap n then 0xF else 0xE) 0) := by
    intro n hn idt
    rw [setException, Nat.zero_add]
    split
    · rw [Idt.setTrapGate, if_pos (by omega)]
      rfl
    · rw [Idt.setInterruptGate, if_pos (by omega)]
      rfl
  rw [idtInit, foldl_entries hirq, foldl_entries hisr]
  by_cases h32 : v < 32
  · rw [if_neg (by omega), if_pos (by omega), if_pos h32, Nat.sub_zero]
    have hist : istOf v < 8 := by
      unfold istOf
      split <;> decide
    rw [decodeGate_setHandler (isr v) kernelCodeSelector hist (by split <;> simp)]
    cases isTrap v <;> rfl
  · rw [if_neg h32]
    by_cases h48 : v < 48
    · rw [if_pos (by omega), if_pos h48]
      exact decodeGate_setHandler (irq (v-32)) kernelCodeSelector (by decide) (.inl rfl)
    · rw [if_neg (by omega), if_neg (by omega), if_neg h48]
      change decodeGate IdtEntry.new.bits = none
      decide

end Nafuraito.Interrupts
