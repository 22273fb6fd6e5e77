import Nafuraito.Memory.FrameInit
import Mathlib.Algebra.Ring.Nat

/-! What the free counter of `init` counts: every frame once for each entry that offers it,
less every clear bit a reservation sets, wherever the bit lies. -/
namespace Nafuraito.Memory.PhysicalMemoryManager
open Nafuraito.Library

/-- The tracked frames that entry `e` offers. -/
def offeredBy (total : Nat) (e : E820Entry) : Finset Nat :=
  if e.isUsable then Finset.Ico (MemoryMap.entryFrames e).1 (min (MemoryMap.entryFrames e).2 total) else ∅

/-- The frames offered, counted once for each entry. -/
def offers (m : MemoryMap) : Nat := (m.entries.map fun e => (offeredBy m.totalFrames e).card).sum

/-- The tracked frames that some entry offers. -/
def offered (m : MemoryMap) : Finset Nat := m.entries.toFinset.biUnion (offeredBy m.totalFrames)

/-- How often a frame is offered again. -/
def repeats (m : MemoryMap) : Nat := offers m - (offered m).card

/-- The frames of all reservations, tracked or not. -/
def reserved (m : MemoryMap) (base : Nat) : Finset Nat :=
  (m.reservations base).toFinset.biUnion fun r => Finset.Ico r.1 r.2

/-- The clear bits past the end of the bitmap that a reservation reaches. -/
def strays (m : MemoryMap) (base : Nat) (mem : Bytes) : Finset Nat :=
  (reserved m base).filter fun f => 8*m.bitmapSize ≤ f ∧ Bitmap.test mem f = false

theorem mem_offeredBy {total f : Nat} {e : E820Entry} : f ∈ offeredBy total e ↔
    f < total ∧ e.isUsable ∧ (MemoryMap.entryFrames e).1 ≤ f ∧ f < (MemoryMap.entryFrames e).2 := by
  rw [offeredBy]
  split
  · rename_i hu
    simp only [Finset.mem_Ico, hu, true_and]
    omega
  · rename_i hu
    simp [hu]

theorem mem_offered {m : MemoryMap} {f : Nat} : f ∈ offered m ↔ f < m.totalFrames ∧ Offered m f := by
  simp only [offered, Finset.mem_biUnion, List.mem_toFinset, mem_offeredBy, Offered]
  constructor
  · rintro ⟨e, he, hf, h⟩
    exact ⟨hf, e, he, h⟩
  · rintro ⟨hf, e, he, h⟩
    exact ⟨e, he, hf, h⟩

theorem mem_reserved {m : MemoryMap} {base f : Nat} : f ∈ reserved m base ↔ Reserved m base f := by
  simp only [reserved, Finset.mem_biUnion, List.mem_toFinset, Finset.mem_Ico, Reserved]

private theorem mem_strays {m : MemoryMap} {base f : Nat} {mem : Bytes} : f ∈ strays m base mem ↔
    Reserved m base f ∧ 8*m.bitmapSize ≤ f ∧ Bitmap.test mem f = false := by
  rw [strays, Finset.mem_filter, mem_reserved]

private theorem card_offeredBy_le (total : Nat) (entries : List E820Entry) :
    (entries.toFinset.biUnion (offeredBy total)).card ≤ (entries.map fun e => (offeredBy total e).card).sum := by
  induction entries with
  | nil => simp
  | cons e entries ih =>
    rw [List.toFinset_cons, Finset.biUnion_insert, List.map_cons, List.sum_cons]
    exact (Finset.card_union_le _ _).trans (Nat.add_le_add_left ih _)

theorem offered_le (m : MemoryMap) : (offered m).card ≤ offers m := card_offeredBy_le _ _

/-! ### Step 6 -/

private theorem freeFold_count (frames : List Nat) (st : Bytes × Nat) (h : st.2 + frames.length < 2^64) :
    (frames.foldl freeOne st).2 = st.2 + frames.length := by
  induction frames generalizing st with
  | nil => rfl
  | cons f frames ih =>
    rw [List.length_cons] at h
    have hone : (freeOne st f).2 = st.2 + 1 := u64_of_lt (by omega)
    rw [List.foldl_cons, ih _ (by rw [hone]; omega), hone, List.length_cons]
    omega

private theorem freeEntry_count {total : Nat} {st : Bytes × Nat} {e : E820Entry}
    (h : st.2 + (offeredBy total e).card < 2^64) :
    (freeEntry total st e).2 = st.2 + (offeredBy total e).card := by
  rw [offeredBy] at h ⊢
  rw [freeEntry]
  split
  · rename_i hu
    rw [if_pos hu, Nat.card_Ico] at h
    dsimp only
    rw [Nat.card_Ico]
    split
    · omega
    · rw [freeFold_count] <;> rw [List.length_range'] <;> split <;> omega
  · simp

private theorem freeEntries_count {total : Nat} {entries : List E820Entry} {st : Bytes × Nat}
    (h : st.2 + (entries.map fun e => (offeredBy total e).card).sum < 2^64) :
    (entries.foldl (freeEntry total) st).2 = st.2 + (entries.map fun e => (offeredBy total e).card).sum := by
  induction entries generalizing st with
  | nil => rfl
  | cons e entries ih =>
    rw [List.map_cons, List.sum_cons] at h ⊢
    have hone : (freeEntry total st e).2 = st.2 + (offeredBy total e).card := freeEntry_count (by omega)
    rw [List.foldl_cons, ih (by rw [hone]; omega), hone, Nat.add_assoc]

/-- Step 6 leaves every bit above the tracked frames as it was. -/
private theorem test_freeEntry_above {total k : Nat} (hk : total ≤ k) (st : Bytes × Nat) (e : E820Entry) :
    Bitmap.test (freeEntry total st e).1 k = Bitmap.test st.1 k := by
  rw [freeEntry]
  split
  · dsimp only
    split
    · rfl
    · rw [test_freeFold]
      have hout : k ∉ List.range' (MemoryMap.entryFrames e).1
          ((if (MemoryMap.entryFrames e).2 > total then total else (MemoryMap.entryFrames e).2) -
            (MemoryMap.entryFrames e).1) := by
        rw [List.mem_range'_1]
        split <;> omega
      simp [hout]
  · rfl

private theorem test_freeEntries_above {total k : Nat} (hk : total ≤ k) (entries : List E820Entry)
    (st : Bytes × Nat) : Bitmap.test (entries.foldl (freeEntry total) st).1 k = Bitmap.test st.1 k := by
  induction entries generalizing st with
  | nil => rfl
  | cons e entries ih => rw [List.foldl_cons, ih, test_freeEntry_above hk]

/-! ### Step 7 -/

/-- Each frame whose bit is clear costs one, the first time it is met. -/
private theorem useFold_count (frames : List Nat) (st : Bytes × Nat) :
    (frames.foldl useOne st).2 = st.2 - (frames.toFinset.filter fun f => Bitmap.test st.1 f = false).card := by
  induction frames generalizing st with
  | nil => rfl
  | cons f frames ih =>
    rw [List.foldl_cons, ih, List.toFinset_cons, Finset.filter_insert]
    by_cases hf : Bitmap.test st.1 f = true
    · have hone : useOne st f = st := if_pos hf
      rw [hone, if_neg (by simp [hf])]
    · have hone : useOne st f = (Bitmap.setAt st.1 (f/8) (f%8), st.2 - 1) := if_neg hf
      have hrest : insert f (frames.toFinset.filter fun g => Bitmap.test st.1 g = false) =
          insert f (frames.toFinset.filter fun g => Bitmap.test (useOne st f).1 g = false) := by
        ext g
        simp only [hone, Finset.mem_insert, Finset.mem_filter, Bitmap.test_set]
        grind
      have hnot : f ∉ frames.toFinset.filter fun g => Bitmap.test (useOne st f).1 g = false := by
        simp [hone]
      rw [if_pos (by simpa using hf), hrest, Finset.card_insert_of_notMem hnot, hone]
      dsimp only
      omega

private theorem reserved_eq (m : MemoryMap) (base : Nat) :
    ((m.reservations base).flatMap fun r => List.range' r.1 (r.2 - r.1)).toFinset = reserved m base := by
  ext f
  simp only [List.mem_toFinset, List.mem_flatMap, List.mem_range'_1, mem_reserved, Reserved]
  refine exists_congr fun r => and_congr_right fun _ => ?_
  omega

/-! ### The counter and the bits -/

private theorem offeredBy_card_le (total : Nat) (e : E820Entry) : (offeredBy total e).card ≤ total := by
  rw [offeredBy]
  split
  · rw [Nat.card_Ico]
    omega
  · exact Nat.zero_le _

private theorem offers_le (total : Nat) (entries : List E820Entry) :
    (entries.map fun e => (offeredBy total e).card).sum ≤ entries.length * total := by
  induction entries with
  | nil => simp
  | cons e entries ih =>
    have hone := offeredBy_card_le total e
    rw [List.map_cons, List.sum_cons, List.length_cons, Nat.succ_mul]
    omega

private theorem offers_lt {m : MemoryMap} (hlen : m.entries.length ≤ maxMemoryEntries) : offers m < 2^64 := by
  have htotal : m.totalFrames ≤ 2^52 := by
    have := m.highestUsableAddress_lt
    rw [MemoryMap.totalFrames]
    omega
  calc offers m ≤ m.entries.length * m.totalFrames := offers_le _ _
    _ ≤ maxMemoryEntries * 2^52 := Nat.mul_le_mul hlen htotal
    _ < 2^64 := by decide

/-- The clear bits the reservations come to. -/
private theorem clear_reserved (m : MemoryMap) (base : Nat) (mem : Bytes) :
    (reserved m base).filter (fun f => Bitmap.test (m.entries.foldl (freeEntry m.totalFrames)
      (Bitmap.fill mem m.bitmapSize 0xFF#8, 0)).1 f = false) =
    (offered m ∩ reserved m base) ∪ strays m base mem := by
  ext f
  rw [Finset.mem_filter, Finset.mem_union, Finset.mem_inter, mem_offered, mem_strays, mem_reserved]
  by_cases hf : f < m.totalFrames
  · have hin : f < 8*m.bitmapSize := by
      unfold MemoryMap.bitmapSize
      omega
    have hbit := test_freeEntries m m.entries (Bitmap.fill mem m.bitmapSize 0xFF#8, 0) hf
    rw [Bitmap.test_fill, decide_eq_true hin, Bool.true_or] at hbit
    rw [← Bool.not_eq_true, hbit, Offered]
    have hout : ¬ 8*m.bitmapSize ≤ f := Nat.not_le.mpr hin
    simp only [hf, hout, true_and, not_not, false_and, and_false, or_false]
    exact and_comm
  · rw [test_freeEntries_above (Nat.not_lt.mp hf), Bitmap.test_fill]
    simp [hf]

/-- What the counter and the number of clear bits are. -/
theorem init_counts {m : MemoryMap} {mem : Bytes} {s : PhysicalMemoryManager} (h : init m mem = .ok s)
    {base : Nat} (hb : m.bitmapBase = some base) (hlen : m.entries.length ≤ maxMemoryEntries) :
    s.freeFrames = offers m - ((offered m ∩ reserved m base).card + (strays m base mem).card) ∧
    (Bitmap.clearBits s.bitmap 0 s.totalFrames).card = (offered m).card - (offered m ∩ reserved m base).card := by
  obtain ⟨base', hb', htotal, _, _, _, hfree, _⟩ := init_ok h
  obtain rfl : base' = base := Option.some.inj (hb'.symm.trans hb)
  constructor
  · have hdisj : Disjoint (offered m ∩ reserved m base') (strays m base' mem) := by
      rw [Finset.disjoint_left]
      intro f hf hs
      have h₁ := (mem_offered.mp (Finset.mem_inter.mp hf).1).1
      have h₂ := (mem_strays.mp hs).2.1
      unfold MemoryMap.bitmapSize at h₂
      omega
    have hlt : 0 + offers m < 2^64 := by
      rw [Nat.zero_add]
      exact offers_lt hlen
    have hcount : (m.entries.foldl (freeEntry m.totalFrames) (Bitmap.fill mem m.bitmapSize 0xFF#8, 0)).2 =
        0 + offers m := freeEntries_count hlt
    rw [hfree, initBitmap, markRegions_rounds, useFold_count, reserved_eq, clear_reserved,
      Finset.card_union_of_disjoint hdisj, hcount, Nat.zero_add]
  · have hbits : Bitmap.clearBits s.bitmap 0 s.totalFrames = offered m \ (offered m ∩ reserved m base') := by
      ext f
      have hiff := init_free_iff h hb f
      rw [Free, htotal] at hiff
      rw [Bitmap.mem_clearBits, htotal, Finset.mem_sdiff, Finset.mem_inter, mem_offered, mem_reserved]
      simp only [Nat.zero_le, true_and]
      rw [hiff]
      tauto
    rw [hbits, Finset.card_sdiff_of_subset Finset.inter_subset_left]

/-- The counter agrees with the bitmap exactly if the frames offered again are as many as the stray bits;
where the reservations leave nothing, stray bits beyond that are not seen. -/
theorem init_freeFrames_iff {m : MemoryMap} {mem : Bytes} {s : PhysicalMemoryManager} (h : init m mem = .ok s)
    {base : Nat} (hb : m.bitmapBase = some base) (hlen : m.entries.length ≤ maxMemoryEntries) :
    s.freeFrames = (Bitmap.clearBits s.bitmap 0 s.totalFrames).card ↔
      repeats m = (strays m base mem).card ∨
      (offered m ⊆ reserved m base ∧ repeats m ≤ (strays m base mem).card) := by
  obtain ⟨hfree, hclear⟩ := init_counts h hb hlen
  have hle := offered_le m
  have hinter : (offered m ∩ reserved m base).card ≤ (offered m).card := Finset.card_le_card Finset.inter_subset_left
  have hall : offered m ⊆ reserved m base ↔ (offered m ∩ reserved m base).card = (offered m).card := by
    rw [← Finset.inter_eq_left]
    exact ⟨fun h => by rw [h], Finset.eq_of_subset_of_card_le Finset.inter_subset_left ∘ Eq.ge⟩
  rw [hfree, hclear, hall, repeats]
  omega

theorem init_freeFrames_oneBank : ∃ s, init oneBank onesMemory = .ok s ∧
    (s.freeFrames = (Bitmap.clearBits s.bitmap 0 s.totalFrames).card ↔
      repeats oneBank = (strays oneBank (11*1024*1024) onesMemory).card ∨
      (offered oneBank ⊆ reserved oneBank (11*1024*1024) ∧
        repeats oneBank ≤ (strays oneBank (11*1024*1024) onesMemory).card)) := by
  obtain ⟨s, hs, _⟩ := oneBank_init
  exact ⟨s, hs, init_freeFrames_iff hs oneBank_base (by decide)⟩

/-- The bank of `oneBank`, listed twice. -/
def twiceListed : MemoryMap := ⟨0x7000, [⟨11*1024*1024, 16*4096, 1, 0⟩, ⟨11*1024*1024, 16*4096, 1, 0⟩]⟩

/-- Frames of two usable entries are counted twice. -/
theorem twiceListed_miscounted : ∃ s, init twiceListed onesMemory = .ok s ∧
    s.freeFrames ≠ (Bitmap.clearBits s.bitmap 0 s.totalFrames).card := by
  have hb : twiceListed.bitmapBase = some (11*1024*1024) := by decide
  obtain ⟨s, hs⟩ := init_of_base (m := twiceListed) (by decide) hb onesMemory
  obtain ⟨hfree, hclear⟩ := init_counts hs hb (by decide)
  have hstrays : strays twiceListed (11*1024*1024) onesMemory = ∅ := by
    apply Finset.filter_false_of_mem
    rintro f _ ⟨_, hclear⟩
    have hones : Bitmap.test onesMemory f = true := Bitmap.bitOn_full (Nat.mod_lt f (by decide))
    rw [hones] at hclear
    cases hclear
  have htotal : twiceListed.totalFrames = 2832 := by decide
  have hby : offeredBy 2832 ⟨11*1024*1024, 16*4096, 1, 0⟩ = Finset.Ico 2816 2832 := by decide
  have hoffers : offers twiceListed = 32 := by
    rw [offers, htotal, twiceListed]
    simp [hby]
  have hoffered : (offered twiceListed).card = 16 := by
    rw [offered, htotal, twiceListed]
    simp [hby]
  have hinter : (offered twiceListed ∩ reserved twiceListed (11*1024*1024)).card ≤ 16 :=
    hoffered ▸ Finset.card_le_card Finset.inter_subset_left
  refine ⟨s, hs, ?_⟩
  rw [hfree, hclear, hstrays, hoffers, hoffered, Finset.card_empty]
  omega

end Nafuraito.Memory.PhysicalMemoryManager
