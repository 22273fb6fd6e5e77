import Nafuraito.Memory.FrameEffects

/-! The accounting invariant of the frame allocator, over runs of all its mutators. -/
namespace Nafuraito.Memory.PhysicalMemoryManager
open Nafuraito.Library
variable {s t : PhysicalMemoryManager}

/-- The counter counts the clear bits of tracked frames, the phantom bits of the last byte
are set, and the hint indexes a byte of the bitmap. -/
structure Accounting (s : PhysicalMemoryManager) : Prop where
  counted : s.freeFrames = (Bitmap.clearBits s.bitmap 0 s.totalFrames).card
  phantom : ∀ n, s.totalFrames ≤ n → n < 8*s.bitmapSize → Bitmap.test s.bitmap n = true
  hint : s.lastAllocIndex < s.bitmapSize

/-- The mutators of the allocator, with arbitrary arguments. -/
inductive Call where
  | allocFrame
  | allocFrameInZone (zone : MemoryZone)
  | allocFramesContiguous (count : Nat) (zone : Option MemoryZone)
  | freeFrame (addr : Nat)
  | freeFramesContiguous (baseAddr count : Nat)
  | markRegionUsed (base length : Nat)
  | markRegionFree (base length : Nat)

/-- The state after a call, whether it succeeded or not. -/
def Call.apply (s : PhysicalMemoryManager) : Call → PhysicalMemoryManager
  | .allocFrame => (PhysicalMemoryManager.allocFrame s).2
  | .allocFrameInZone z => (PhysicalMemoryManager.allocFrameInZone z s).2
  | .allocFramesContiguous n z => (PhysicalMemoryManager.allocFramesContiguous n z s).2
  | .freeFrame a => (PhysicalMemoryManager.freeFrame a s).2
  | .freeFramesContiguous b n => (PhysicalMemoryManager.freeFramesContiguous b n s).2
  | .markRegionUsed b l => PhysicalMemoryManager.markRegionUsed b l s
  | .markRegionFree b l => PhysicalMemoryManager.markRegionFree b l s

/-- The state after a sequence of calls. -/
def run (s : PhysicalMemoryManager) (calls : List Call) : PhysicalMemoryManager := calls.foldl Call.apply s

theorem Accounting.free_le (h : Accounting s) : s.freeFrames ≤ s.totalFrames := by
  rw [h.counted]
  simpa using Bitmap.clearBits_card_le s.bitmap 0 s.totalFrames

theorem Accounting.free_pos (h : Accounting s) {f : Nat} (hf : s.Free f) : 0 < s.freeFrames := by
  rw [h.counted]
  exact Finset.card_pos.mpr ⟨f, Bitmap.mem_clearBits.mpr ⟨⟨by omega, hf.1⟩, hf.2⟩⟩

/-- A state that differs in one set bit, the counter and a valid hint. -/
private theorem Accounting.set (h : Accounting s) {f : Nat} (hf : s.Free f)
    (hb : ∀ k, Bitmap.test t.bitmap k = (decide (k = f) || Bitmap.test s.bitmap k))
    (ht : t.totalFrames = s.totalFrames) (hz : t.bitmapSize = s.bitmapSize)
    (hc : t.freeFrames = s.freeFrames - 1) (hi : t.lastAllocIndex < t.bitmapSize) : Accounting t where
  counted := by
    have := Bitmap.clearBits_card_set hf.2 hb (show 0 ≤ f ∧ f < s.totalFrames from ⟨by omega, hf.1⟩)
    have := h.counted
    rw [ht, hc]
    omega
  phantom n h₁ h₂ := by
    rw [hb, h.phantom n (ht ▸ h₁) (hz ▸ h₂), Bool.or_true]
  hint := hi

private theorem Accounting.clear (h : Accounting s) {f : Nat} (hlt : f < s.totalFrames)
    (hf : Bitmap.test s.bitmap f = true)
    (hb : ∀ k, Bitmap.test t.bitmap k = (!decide (k = f) && Bitmap.test s.bitmap k))
    (ht : t.totalFrames = s.totalFrames) (hz : t.bitmapSize = s.bitmapSize)
    (hc : t.freeFrames = u64 (s.freeFrames+1)) (hi : t.lastAllocIndex < t.bitmapSize) : Accounting t where
  counted := by
    have h₁ := Bitmap.clearBits_card_clear hf hb (show 0 ≤ f ∧ f < s.totalFrames from ⟨by omega, hlt⟩)
    have h₂ := h.free_le
    have h₃ := s.total_le
    rw [ht, hc, u64_of_lt (by omega), h.counted, h₁]
  phantom n h₁ h₂ := by
    rw [ht] at h₁
    have : n ≠ f := by omega
    rw [hb, h.phantom n h₁ (hz ▸ h₂)]
    simp [this]
  hint := hi

theorem Accounting.taking (h : Accounting s) {f : Nat} (hf : s.Free f) (zones : Fin 4 → ZoneStats) :
    Accounting (s.taking f zones) := by
  refine h.set hf (test_taking f · zones) rfl rfl ?_ (index_lt_size hf.1)
  have h₁ := h.free_pos hf
  have h₂ := h.free_le
  have h₃ := s.total_le
  exact u64Sub_of_le h₁ (by omega)

theorem Accounting.giving (h : Accounting s) {f : Nat} (hlt : f < s.totalFrames)
    (hf : Bitmap.test s.bitmap f = true) : Accounting (s.giving f) := by
  refine h.clear hlt hf (test_giving f) rfl rfl rfl ?_
  have h₁ := index_lt_size hlt
  have h₂ := h.hint
  change (if f/8 < s.lastAllocIndex then f/8 else s.lastAllocIndex) < s.bitmapSize
  split <;> assumption

theorem Accounting.takingRun (h : Accounting s) {first count : Nat}
    (hf : ∀ k < count, s.Free (first+k)) (hc : 0 < count) :
    Accounting { PhysicalMemoryManager.takeRun first count s with freeFrames := u64Sub s.freeFrames count } := by
  have hlast := (hf (count-1) (by omega)).1
  have hle := s.total_le
  have hbits (k : Nat) := test_takeRun (s := s) (show first+count ≤ 2^64-1 by omega) k
  have hclear (k : Nat) (hk : k < count) : first+k ∈ Bitmap.clearBits s.bitmap 0 s.totalFrames :=
    Bitmap.mem_clearBits.mpr ⟨⟨by omega, (hf k hk).1⟩, (hf k hk).2⟩
  have hcard := Bitmap.clearBits_card_setRun hclear hbits
  have hcount := h.counted
  have hfree := h.free_le
  refine ⟨?_, ?_, ?_⟩
  · simp only [takeRun_total]
    rw [u64Sub_of_le (by omega) (by omega)]
    omega
  · simp only [takeRun_total, takeRun_size]
    intro n h₁ h₂
    rw [hbits, h.phantom n h₁ h₂, Bool.or_true]
  · simpa using h.hint

/-! ### One lemma a mutator -/

theorem allocFrame_accounting : Fallible.Keeps Accounting allocFrame := by
  intro s h
  cases hr : allocFrame s with
  | mk r t =>
    cases r with
    | ok a =>
      obtain ⟨f, _, hf, _, rfl⟩ := allocFrame_ok hr
      exact h.taking hf _
    | error e => rwa [allocFrame_error hr]

theorem allocFrameInZone_accounting (z : MemoryZone) : Fallible.Keeps Accounting (allocFrameInZone z) := by
  intro s h
  cases hr : allocFrameInZone z s with
  | mk r t =>
    cases r with
    | ok a =>
      obtain ⟨f, _, hf, _, _, rfl⟩ := allocFrameInZone_ok hr
      exact h.taking hf _
    | error e => rwa [(allocFrameInZone_error hr).1]

theorem allocFramesContiguous_accounting (count : Nat) (zone : Option MemoryZone) :
    Fallible.Keeps Accounting (allocFramesContiguous count zone) := by
  by_cases hc : count = 1
  · subst hc
    rw [allocFramesContiguous_one]
    cases zone with
    | some z => exact allocFrameInZone_accounting z
    | none => exact allocFrame_accounting
  · intro s h
    cases hr : allocFramesContiguous count zone s with
    | mk r t =>
      cases r with
      | ok a =>
        obtain ⟨hcount, first, _, hf, rfl⟩ := allocFramesContiguous_ok hc hr
        exact h.takingRun hf (by omega)
      | error e => rwa [allocFramesContiguous_error hr]

theorem freeFrame_accounting (addr : Nat) : Fallible.Keeps Accounting (freeFrame addr) := by
  intro s h
  rcases freeFrame_run addr s with ⟨_, hlt, hb, he⟩ | ⟨_, e, he⟩
  · rw [he]
    exact h.giving hlt hb
  · rwa [he]

/-- The loop may stop at an error halfway; every frame it did free is accounted for. -/
theorem freeFramesContiguous_accounting (baseAddr count : Nat) :
    Fallible.Keeps Accounting (freeFramesContiguous baseAddr count) := by
  intro s h
  rw [freeFramesContiguous]
  split_ifs
  · exact h
  · exact h
  · exact Fallible.Keeps.forRange (fun _ => freeFrame_accounting _) 0 count s h

theorem setBit_accounting (h : Accounting s) (frame : Nat) : Accounting (s.setBit frame) := by
  rw [setBit]
  split_ifs with h₁ h₂
  · exact h
  · exact h
  · have hf : s.Free frame := ⟨by omega, by simpa [Bitmap.test] using h₂⟩
    exact h.set hf (Bitmap.test_set s.bitmap frame) rfl rfl rfl h.hint

theorem clearBit_accounting (h : Accounting s) (frame : Nat) : Accounting (s.clearBit frame) := by
  rw [clearBit]
  split_ifs with h₁ h₂
  · exact h
  · exact h.clear (by omega) h₂ (Bitmap.test_clear s.bitmap frame) rfl rfl rfl h.hint
  · exact h

private theorem foldl_accounting {f : PhysicalMemoryManager → Nat → PhysicalMemoryManager}
    (hf : ∀ s frame, Accounting s → Accounting (f s frame)) (frames : List Nat) (h : Accounting s) :
    Accounting (frames.foldl f s) := by
  induction frames generalizing s with
  | nil => exact h
  | cons frame frames ih => exact ih (hf s frame h)

theorem Call.apply_accounting (h : Accounting s) (c : Call) : Accounting (c.apply s) := by
  cases c with
  | allocFrame => exact allocFrame_accounting s h
  | allocFrameInZone z => exact allocFrameInZone_accounting z s h
  | allocFramesContiguous n z => exact allocFramesContiguous_accounting n z s h
  | freeFrame a => exact freeFrame_accounting a s h
  | freeFramesContiguous b n => exact freeFramesContiguous_accounting b n s h
  | markRegionUsed b l => exact foldl_accounting (fun _ f h => setBit_accounting h f) _ h
  | markRegionFree b l => exact foldl_accounting (fun _ f h => clearBit_accounting h f) _ h

/-- Every call with every argument keeps the accounting, so every run does. -/
theorem run_accounting (h : Accounting s) (calls : List Call) : Accounting (s.run calls) := by
  induction calls generalizing s with
  | nil => exact h
  | cons c calls ih => exact ih (c.apply_accounting h)

/-- Ten frames in two bytes; the six phantom bits of the second byte are set. -/
def tenFrames : PhysicalMemoryManager where
  bitmap i := if i = 0 then 0#8 else 0xFC#8
  bitmapSize := 2
  totalFrames := 10
  freeFrames := 10
  lastAllocIndex := 0
  highestAddress := 40960
  zones _ := ⟨0, 0⟩
  highest_lt := by decide
  total_eq := by decide
  size_eq := by decide

theorem tenFrames_accounting : Accounting tenFrames where
  counted := by decide
  phantom n h₁ h₂ := by
    have : ∀ n < 16, 10 ≤ n → Bitmap.test tenFrames.bitmap n = true := by decide
    exact this n h₂ h₁
  hint := by decide

theorem run_accounting_tenFrames :
    Accounting (tenFrames.run [.allocFrame, .allocFramesContiguous 4 none, .freeFrame 0, .freeFrame 7,
      .markRegionFree 4096 4096, .allocFramesContiguous (2^64-1) (some .dma32)]) :=
  run_accounting tenFrames_accounting _

end Nafuraito.Memory.PhysicalMemoryManager
