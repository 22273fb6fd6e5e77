import Nafuraito.Memory.FrameEffects
import Mathlib.Data.Fin.VecNotation

/-! Building the frame allocator from the boot memory map, and which frames are free afterwards. -/
namespace Nafuraito.Memory
open Nafuraito.Library

namespace MemoryMap

/-- `KERNEL_END`, the end of the 1..10 MiB kernel area. -/
def kernelEnd : Nat := 0x100000 + 9*1024*1024

/-- Step 3 of `init`: the first usable entry with room for the bitmap after the kernel. -/
def findBitmapRegion (entries : List E820Entry) (bitmapSizeAligned : Nat) : Option Nat :=
  entries.findSome? fun e =>
    if e.isUsable then
      let regionStart := if e.base < kernelEnd then kernelEnd else e.base
      let regionEnd := u64 (e.base + e.length)
      if regionEnd ≤ regionStart then none
      else if regionEnd - regionStart < bitmapSizeAligned then none
      else some regionStart
    else none

def totalFrames (m : MemoryMap) : Nat := m.highestUsableAddress / 4096

def bitmapSize (m : MemoryMap) : Nat := (m.totalFrames + 7) / 8

/-- Steps 3 and 4: where the bitmap goes, rounded up to a page. -/
def bitmapBase (m : MemoryMap) : Option Nat :=
  (findBitmapRegion m.entries ((m.bitmapSize + 4096 - 1) / 4096 * 4096)).map fun base =>
    if base % 4096 ≠ 0 then u64 ((base/4096 + 1) * 4096) else base

/-- The frame ranges re-marked as used in step 7, in order: first MiB, kernel, kernel stack,
the bitmap, the memory map itself. -/
def reservations (m : MemoryMap) (bitmapBase : Nat) : List (Nat × Nat) :=
  [(0, 0x100000/4096),
    (0x100000/4096, (0x100000 + 9*1024*1024)/4096),
    ((0x2000000 - 0x100000)/4096, 0x2000000/4096),
    (bitmapBase/4096, u64 (bitmapBase + m.bitmapSize + 4096 - 1)/4096),
    (m.entriesPtr/4096, u64 (m.entriesPtr + m.entries.length*24 + 4096 - 1)/4096)]

/-- The whole frames of an entry, rounded inward; its sums wrap. -/
def entryFrames (e : E820Entry) : Nat × Nat :=
  (u64 (e.base + 4096 - 1)/4096, u64 (e.base + e.length)/4096)

end MemoryMap

namespace PhysicalMemoryManager

/-- One round of step 6. The counter goes up whether or not the bit was set. -/
def freeOne (st : Bytes × Nat) (frame : Nat) : Bytes × Nat :=
  (Bitmap.clearAt st.1 (frame/8) (frame%8), u64 (st.2+1))

/-- Step 6 for one entry. -/
def freeEntry (total : Nat) (st : Bytes × Nat) (e : E820Entry) : Bytes × Nat :=
  if e.isUsable then
    let frames := MemoryMap.entryFrames e
    if frames.1 ≥ total then st
    else
      let endFrame := if frames.2 > total then total else frames.2
      (List.range' frames.1 (endFrame - frames.1)).foldl freeOne st
  else st

/-- One round of `mark_region_used_static`; the frame is not checked against `total_frames`. -/
def useOne (st : Bytes × Nat) (frame : Nat) : Bytes × Nat :=
  if Bitmap.bitOn (st.1 (frame/8)) (frame%8) then st
  else (Bitmap.setAt st.1 (frame/8) (frame%8), st.2 - 1)

def markRegionUsedStatic (st : Bytes × Nat) (frames : Nat × Nat) : Bytes × Nat :=
  (List.range' frames.1 (frames.2 - frames.1)).foldl useOne st

/-- Step 8: set the bits at and above `total_frames` in the last byte. -/
def setPhantoms (total : Nat) (b : Bytes) : Bytes :=
  if total % 8 ≠ 0 then
    (List.range' (total%8) (8 - total%8)).foldl (fun b bit => Bitmap.setAt b (total/8) bit) b
  else b

/-- Step 9: only the totals of the zones are filled in. -/
def initZones (total : Nat) : Fin 4 → ZoneStats :=
  let dmaEndFrame := dmaZoneEnd / 4096
  let dma32EndFrame := dma32ZoneEnd / 4096
  ![⟨if total < dmaEndFrame then total else dmaEndFrame, 0⟩,
    ⟨if total > dmaEndFrame then
      if total < dma32EndFrame then total - dmaEndFrame else dma32EndFrame - dmaEndFrame
    else 0, 0⟩,
    ⟨if total > dma32EndFrame then total - dma32EndFrame else 0, 0⟩,
    ⟨0, 0⟩]

/-- Steps 5 to 7 on the bytes the bitmap pointer reads. -/
def initBitmap (m : MemoryMap) (base : Nat) (mem : Bytes) : Bytes × Nat :=
  (m.reservations base).foldl markRegionUsedStatic
    (m.entries.foldl (freeEntry m.totalFrames) (Bitmap.fill mem m.bitmapSize 0xFF#8, 0))

/-- `mem` is what the bytes at the bitmap pointer hold before. -/
def init (m : MemoryMap) (mem : Bytes) : Except MemoryError PhysicalMemoryManager :=
  if m.highestUsableAddress = 0 then .error ⟨1, "No memory detected!", true⟩
  else match m.bitmapBase with
    | none => .error ⟨2, "No suitable region for bitmap!", true⟩
    | some base => .ok
      { bitmap := setPhantoms m.totalFrames (initBitmap m base mem).1
        bitmapSize := m.bitmapSize
        totalFrames := m.totalFrames
        freeFrames := (initBitmap m base mem).2
        lastAllocIndex := 0
        highestAddress := m.highestUsableAddress
        zones := initZones m.totalFrames
        highest_lt := m.highestUsableAddress_lt
        total_eq := rfl
        size_eq := rfl }

/-! ### The bits `init` leaves -/

/-- Frame `f` is a whole frame of a usable entry. -/
def Offered (m : MemoryMap) (f : Nat) : Prop :=
  ∃ e ∈ m.entries, e.isUsable ∧ (MemoryMap.entryFrames e).1 ≤ f ∧ f < (MemoryMap.entryFrames e).2

def Reserved (m : MemoryMap) (base f : Nat) : Prop := ∃ r ∈ m.reservations base, r.1 ≤ f ∧ f < r.2

theorem init_ok {m : MemoryMap} {mem : Bytes} {s : PhysicalMemoryManager} (h : init m mem = .ok s) :
    ∃ base, m.bitmapBase = some base ∧ s.totalFrames = m.totalFrames ∧ s.bitmapSize = m.bitmapSize ∧
      s.lastAllocIndex = 0 ∧ s.zones = initZones m.totalFrames ∧
      s.freeFrames = (initBitmap m base mem).2 ∧
      s.bitmap = setPhantoms m.totalFrames (initBitmap m base mem).1 := by
  rw [init] at h
  split at h
  · cases h
  · split at h
    · cases h
    · rename_i base hb
      cases h
      exact ⟨base, hb, rfl, rfl, rfl, rfl, rfl, rfl⟩

theorem test_freeFold (frames : List Nat) (st : Bytes × Nat) (k : Nat) :
    Bitmap.test (frames.foldl freeOne st).1 k = (!decide (k ∈ frames) && Bitmap.test st.1 k) := by
  induction frames generalizing st with
  | nil => simp
  | cons f frames ih =>
    rw [List.foldl_cons, ih]
    simp only [freeOne, Bitmap.test_clear, List.mem_cons]
    grind

theorem test_useFold (frames : List Nat) (st : Bytes × Nat) (k : Nat) :
    Bitmap.test (frames.foldl useOne st).1 k = (decide (k ∈ frames) || Bitmap.test st.1 k) := by
  induction frames generalizing st with
  | nil => simp
  | cons f frames ih =>
    rw [List.foldl_cons, ih, useOne]
    split
    · rename_i hb
      have : Bitmap.test st.1 f = true := hb
      simp only [List.mem_cons]
      grind
    · simp only [Bitmap.test_set, List.mem_cons]
      grind

theorem test_freeEntry (total : Nat) (st : Bytes × Nat) (e : E820Entry) {k : Nat} (hk : k < total) :
    Bitmap.test (freeEntry total st e).1 k = (Bitmap.test st.1 k &&
      !decide (e.isUsable ∧ (MemoryMap.entryFrames e).1 ≤ k ∧ k < (MemoryMap.entryFrames e).2)) := by
  rw [freeEntry]
  split
  · rename_i hu
    dsimp only
    split
    · have : ¬ (MemoryMap.entryFrames e).1 ≤ k := by omega
      simp [this]
    · rw [test_freeFold, Bool.and_comm]
      congr 2
      rw [decide_eq_decide, List.mem_range'_1]
      split <;> simp [hu] <;> omega
  · rename_i hu
    simp [hu]

theorem test_freeEntries (m : MemoryMap) (entries : List E820Entry) (st : Bytes × Nat) {k : Nat}
    (hk : k < m.totalFrames) :
    Bitmap.test (entries.foldl (freeEntry m.totalFrames) st).1 k = true ↔ Bitmap.test st.1 k = true ∧
      ¬ ∃ e ∈ entries, e.isUsable ∧ (MemoryMap.entryFrames e).1 ≤ k ∧ k < (MemoryMap.entryFrames e).2 := by
  induction entries generalizing st with
  | nil => simp
  | cons e entries ih =>
    rw [List.foldl_cons, ih, test_freeEntry _ _ _ hk]
    simp only [Bool.and_eq_true, Bool.not_eq_true', decide_eq_false_iff_not, List.exists_mem_cons_iff,
      not_or, and_assoc]

theorem test_reservations (rs : List (Nat × Nat)) (st : Bytes × Nat) (k : Nat) :
    Bitmap.test (rs.foldl markRegionUsedStatic st).1 k = true ↔
      (∃ r ∈ rs, r.1 ≤ k ∧ k < r.2) ∨ Bitmap.test st.1 k = true := by
  induction rs generalizing st with
  | nil => simp
  | cons r rs ih =>
    have hm : k ∈ List.range' r.1 (r.2 - r.1) ↔ r.1 ≤ k ∧ k < r.2 := by
      rw [List.mem_range'_1]
      omega
    rw [List.foldl_cons, ih, markRegionUsedStatic, test_useFold]
    simp only [Bool.or_eq_true, decide_eq_true_eq, hm, List.exists_mem_cons_iff]
    rw [or_assoc, or_left_comm]

/-- The reservations as one run over their frames. -/
theorem markRegions_rounds (rs : List (Nat × Nat)) (st : Bytes × Nat) :
    rs.foldl markRegionUsedStatic st = (rs.flatMap fun r => List.range' r.1 (r.2 - r.1)).foldl useOne st := by
  induction rs generalizing st with
  | nil => rfl
  | cons r rs ih =>
    rw [List.foldl_cons, ih, List.flatMap_cons, List.foldl_append]
    rfl

private theorem test_phantomFold (bits : List Nat) (hb : ∀ bit ∈ bits, bit < 8) (index : Nat) (b : Bytes)
    (k : Nat) : Bitmap.test (bits.foldl (fun b bit => Bitmap.setAt b index bit) b) k = true ↔
      (∃ bit ∈ bits, k = 8*index+bit) ∨ Bitmap.test b k = true := by
  induction bits generalizing b with
  | nil => simp
  | cons bit bits ih =>
    rw [List.foldl_cons, ih (fun x hx => hb x (List.mem_cons_of_mem _ hx)),
      Bitmap.test_setAt _ _ (hb bit List.mem_cons_self)]
    simp only [Bool.or_eq_true, decide_eq_true_eq, List.exists_mem_cons_iff]
    rw [or_assoc, or_left_comm]

/-- The phantom loop sets the bits from `total` to the end of its byte. -/
theorem test_setPhantoms (total : Nat) (b : Bytes) (k : Nat) :
    Bitmap.test (setPhantoms total b) k = true ↔
      (total ≤ k ∧ k < 8*((total+7)/8)) ∨ Bitmap.test b k = true := by
  rw [setPhantoms]
  split
  · rw [test_phantomFold _ (fun bit hb => by rw [List.mem_range'_1] at hb; omega)]
    have : (∃ bit ∈ List.range' (total%8) (8 - total%8), k = 8*(total/8)+bit) ↔
        total ≤ k ∧ k < 8*((total+7)/8) := by
      simp only [List.mem_range'_1]
      constructor
      · rintro ⟨bit, hb, rfl⟩
        omega
      · intro hk
        exact ⟨k - 8*(total/8), by omega, by omega⟩
    rw [this]
  · have : ¬ (total ≤ k ∧ k < 8*((total+7)/8)) := by omega
    simp [this]

/-- A tracked frame is free after `init` exactly if a usable entry offers it whole and no
reservation covers it. -/
theorem init_free_iff {m : MemoryMap} {mem : Bytes} {s : PhysicalMemoryManager} (h : init m mem = .ok s)
    {base : Nat} (hb : m.bitmapBase = some base) (f : Nat) :
    s.Free f ↔ f < m.totalFrames ∧ Offered m f ∧ ¬ Reserved m base f := by
  obtain ⟨base', hb', ht, _, _, _, _, hbits⟩ := init_ok h
  obtain rfl : base' = base := Option.some.inj (hb'.symm.trans hb)
  rw [Free, ht]
  refine and_congr_right fun hf => ?_
  have hlt : f < 8*m.bitmapSize := by
    unfold MemoryMap.bitmapSize
    omega
  rw [← Bool.not_eq_true, hbits, test_setPhantoms, initBitmap, test_reservations,
    test_freeEntries m _ _ hf, Bitmap.test_fill]
  have : ¬ (m.totalFrames ≤ f ∧ f < 8*((m.totalFrames+7)/8)) := by omega
  simp only [this, hlt, decide_true, Bool.true_or, true_and, false_or, not_or, not_not]
  exact and_comm

/-- `init` leaves the phantom bits set, whatever the memory held. -/
theorem init_phantom {m : MemoryMap} {mem : Bytes} {s : PhysicalMemoryManager} (h : init m mem = .ok s)
    {n : Nat} (h₁ : s.totalFrames ≤ n) (h₂ : n < 8*s.bitmapSize) : Bitmap.test s.bitmap n = true := by
  obtain ⟨_, _, ht, hz, _, _, _, hbits⟩ := init_ok h
  rw [ht] at h₁
  rw [hz] at h₂
  rw [hbits, test_setPhantoms]
  exact .inl ⟨h₁, h₂⟩

/-- Frame 0 is reserved, so it is never free after `init`. -/
theorem init_zero_used {m : MemoryMap} {mem : Bytes} {s : PhysicalMemoryManager} (h : init m mem = .ok s) :
    ¬ s.Free 0 := by
  obtain ⟨base, hb, _⟩ := init_ok h
  rw [init_free_iff h hb]
  rintro ⟨_, _, hr⟩
  exact hr ⟨_, List.mem_cons_self, by decide, by decide⟩

/-- A range of used frames is passed over without touching the counter. -/
theorem markRegionUsedStatic_used {st : Bytes × Nat} {r : Nat × Nat}
    (h : ∀ f, r.1 ≤ f → f < r.2 → Bitmap.test st.1 f = true) : markRegionUsedStatic st r = st := by
  have hall : ∀ frames : List Nat, (∀ f ∈ frames, Bitmap.test st.1 f = true) → frames.foldl useOne st = st := by
    intro frames
    induction frames with
    | nil => exact fun _ => rfl
    | cons f frames ih =>
      intro hf
      have hone : useOne st f = st := if_pos (hf f List.mem_cons_self)
      rw [List.foldl_cons, hone, ih fun g hg => hf g (List.mem_cons_of_mem f hg)]
  apply hall
  intro f hf
  rw [List.mem_range'_1] at hf
  exact h f (by omega) (by omega)

/-- Sixteen usable frames from 11 MiB on; the bitmap takes the first. -/
def oneBank : MemoryMap := ⟨0x7000, [⟨11*1024*1024, 16*4096, 1, 0⟩]⟩

/-- Memory that reads as ones, so that the reservations past the bitmap's end change nothing. -/
def onesMemory : Bytes := fun _ => 0xFF#8

/-- `init` fails only for want of usable memory or of room for the bitmap. -/
theorem init_of_base {m : MemoryMap} {base : Nat} (hm : m.highestUsableAddress ≠ 0)
    (hb : m.bitmapBase = some base) (mem : Bytes) : ∃ s, init m mem = .ok s := by
  rw [init, if_neg hm, hb]
  exact ⟨_, rfl⟩

theorem oneBank_base : oneBank.bitmapBase = some (11*1024*1024) := by decide

theorem oneBank_total : oneBank.totalFrames = 2832 := by decide

/-- The bitmap of `oneBank` after step 6. -/
private def oneBankFreed : Bytes × Nat :=
  (List.range' 2816 16).foldl freeOne (Bitmap.fill onesMemory 354 0xFF#8, 0)

private theorem oneBank_entries : oneBank.entries.foldl (freeEntry oneBank.totalFrames)
    (Bitmap.fill onesMemory oneBank.bitmapSize 0xFF#8, 0) = oneBankFreed := by
  have hframes : MemoryMap.entryFrames ⟨11*1024*1024, 16*4096, 1, 0⟩ = (2816, 2832) := by decide
  have hsize : (2832+7)/8 = 354 := by decide
  have hcount : (if 2832 > 2832 then 2832 else 2832) - 2816 = 16 := by decide
  rw [MemoryMap.bitmapSize, oneBank_total, oneBank, List.foldl_cons, List.foldl_nil, freeEntry,
    if_pos (by decide), hframes, hsize]
  dsimp only
  rw [if_neg (by decide), hcount, oneBankFreed]

private theorem oneBankFreed_used {f : Nat} (hf : ¬ (2816 ≤ f ∧ f < 2832)) :
    Bitmap.test oneBankFreed.1 f = true := by
  have hones : Bitmap.test onesMemory f = true := Bitmap.bitOn_full (Nat.mod_lt f (by decide))
  have hmem : f ∉ List.range' 2816 16 := by rwa [List.mem_range'_1]
  rw [oneBankFreed, test_freeFold, Bitmap.test_fill, hones, decide_eq_false hmem, Bool.or_true]
  rfl

private theorem oneBank_reservations : oneBank.reservations (11*1024*1024) =
    [(0, 256), (256, 2560), (7936, 8192), (2816, 2817), (7, 8)] := by decide

private theorem oneBank_bits : initBitmap oneBank (11*1024*1024) onesMemory =
    markRegionUsedStatic oneBankFreed (2816, 2817) := by
  have hused (lo hi : Nat) (h : ∀ f, lo ≤ f → f < hi → ¬ (2816 ≤ f ∧ f < 2832)) :
      markRegionUsedStatic oneBankFreed (lo, hi) = oneBankFreed :=
    markRegionUsedStatic_used fun f h₁ h₂ => oneBankFreed_used (h f h₁ h₂)
  have hlast : markRegionUsedStatic (markRegionUsedStatic oneBankFreed (2816, 2817)) (7, 8) =
      markRegionUsedStatic oneBankFreed (2816, 2817) := by
    refine markRegionUsedStatic_used fun f h₁ h₂ => ?_
    dsimp only at h₁ h₂
    rw [markRegionUsedStatic, test_useFold, oneBankFreed_used (by omega), Bool.or_true]
  rw [initBitmap, oneBank_entries, oneBank_reservations, List.foldl_cons, hused _ _ (by omega),
    List.foldl_cons, hused _ _ (by omega), List.foldl_cons, hused _ _ (by omega), List.foldl_cons,
    List.foldl_cons, hlast, List.foldl_nil]

/-- Fifteen of the sixteen frames are left. -/
theorem oneBank_init : ∃ s, init oneBank onesMemory = .ok s ∧ s.freeFrames = 15 := by
  obtain ⟨s, hs⟩ := init_of_base (by decide) oneBank_base onesMemory
  obtain ⟨base, hb, _, _, _, _, hfree, _⟩ := init_ok hs
  obtain rfl : base = 11*1024*1024 := Option.some.inj (hb.symm.trans oneBank_base)
  rw [oneBank_bits] at hfree
  exact ⟨s, hs, hfree.trans (by decide +kernel)⟩

/-- The frame after the bitmap's is free. -/
theorem oneBank_free {s : PhysicalMemoryManager} (h : init oneBank onesMemory = .ok s) : s.Free 2817 := by
  rw [init_free_iff h oneBank_base, oneBank_total]
  refine ⟨by decide, ⟨_, List.mem_cons_self, by decide, by decide, by decide⟩, ?_⟩
  rw [Reserved, oneBank_reservations]
  decide

end PhysicalMemoryManager
end Nafuraito.Memory
