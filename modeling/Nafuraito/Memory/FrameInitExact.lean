import Nafuraito.Memory.FrameInit
import Mathlib.Order.Interval.Set.Basic

/-! The free set `init` leaves, in terms of the bytes of the frames. -/
namespace Nafuraito.Memory
open Nafuraito.Library

/-- The addresses of frame `f`. -/
def frameBytes (f : Nat) : Set Nat := Set.Ico (f*4096) ((f+1)*4096)

/-- Frame `f` has an address in `[lo, hi)`. -/
def Meets (f lo hi : Nat) : Prop := (frameBytes f ∩ Set.Ico lo hi).Nonempty

namespace E820Entry

/-- The addresses of an entry, without wrapping. -/
def bytes (e : E820Entry) : Set Nat := Set.Ico e.base (e.base + e.length)

end E820Entry

theorem meets_iff {f lo hi : Nat} : Meets f lo hi ↔ lo < hi ∧ f*4096 < hi ∧ lo < (f+1)*4096 := by
  constructor
  · rintro ⟨a, ⟨h₁, h₂⟩, h₃, h₄⟩
    omega
  · rintro ⟨h₁, h₂, h₃⟩
    exact ⟨max (f*4096) lo, ⟨by omega, by omega⟩, by omega, by omega⟩

/-- The frames that meet a range are those from the range's start rounded down to its end rounded up. -/
theorem meets_iff_range {f lo hi : Nat} (h : lo < hi) :
    Meets f lo hi ↔ lo/4096 ≤ f ∧ f < (hi + 4096 - 1)/4096 := by
  rw [meets_iff]
  omega

theorem frameBytes_subset {f lo hi : Nat} :
    frameBytes f ⊆ Set.Ico lo hi ↔ lo ≤ f*4096 ∧ (f+1)*4096 ≤ hi := by
  rw [frameBytes, Set.Ico_subset_Ico_iff (by omega)]

namespace PhysicalMemoryManager

/-- `f` lies wholly inside a usable entry. -/
def Covered (m : MemoryMap) (f : Nat) : Prop := ∃ e ∈ m.entries, e.isUsable ∧ frameBytes f ⊆ e.bytes

/-- `f` meets the first 10 MiB, the stack from 31 to 32 MiB, the bitmap or the array of entries. -/
def Excluded (m : MemoryMap) (base f : Nat) : Prop :=
  Meets f 0 (10*1024*1024) ∨ Meets f (31*1024*1024) (32*1024*1024) ∨
    Meets f base (base + m.bitmapSize) ∨ Meets f m.entriesPtr (m.entriesPtr + 24*m.entries.length)

private theorem offered_iff {m : MemoryMap} (hm : ∀ e ∈ m.entries, e.base + e.length ≤ 2^52) (f : Nat) :
    Offered m f ↔ Covered m f := by
  refine exists_congr fun e => and_congr_right fun he => and_congr_right fun _ => ?_
  have hbound := hm e he
  rw [E820Entry.bytes, frameBytes_subset, MemoryMap.entryFrames, u64_of_lt (by omega), u64_of_lt (by omega)]
  omega

private theorem totalFrames_le {m : MemoryMap} (hm : ∀ e ∈ m.entries, e.base + e.length ≤ 2^52) :
    m.totalFrames ≤ 2^40 := by
  have h : m.highestUsableAddress ≤ 2^52 :=
    MemoryMap.highestUsableAddress_le fun e he => (Nat.min_le_left _ _).trans (hm e he)
  rw [MemoryMap.totalFrames]
  omega

/-- The region for the bitmap starts inside a usable entry. -/
private theorem findBitmapRegion_lt {entries : List E820Entry}
    (hm : ∀ e ∈ entries, e.base + e.length ≤ 2^52) {size base : Nat}
    (h : MemoryMap.findBitmapRegion entries size = some base) : base < 2^52 := by
  obtain ⟨e, he, hbase⟩ := List.exists_of_findSome?_eq_some h
  have hbound := hm e he
  rw [u64_of_lt (by omega)] at hbase
  dsimp only at hbase
  split_ifs at hbase <;> (simp only [Option.some.injEq] at hbase; omega)

/-- The bitmap starts at a page boundary not above the entries. -/
theorem bitmapBase_aligned {m : MemoryMap} (hm : ∀ e ∈ m.entries, e.base + e.length ≤ 2^52) {base : Nat}
    (h : m.bitmapBase = some base) : base % 4096 = 0 ∧ base ≤ 2^52 := by
  rw [MemoryMap.bitmapBase, Option.map_eq_some_iff] at h
  obtain ⟨start, hs, rfl⟩ := h
  have hlt := findBitmapRegion_lt hm hs
  split
  · rw [u64_of_lt (by omega)]
    omega
  · omega

private theorem entries_pos {m : MemoryMap} {mem : Bytes} {s : PhysicalMemoryManager}
    (h : init m mem = .ok s) : 0 < m.entries.length := by
  have hne : m.highestUsableAddress ≠ 0 := by
    intro h₀
    rw [init, if_pos h₀] at h
    cases h
  refine List.length_pos_of_ne_nil fun hnil => hne ?_
  rw [MemoryMap.highestUsableAddress, hnil, List.foldl_nil]

private theorem mem_reservations_iff {m : MemoryMap} {base f : Nat} : Reserved m base f ↔
    f < 2560 ∨ (7936 ≤ f ∧ f < 8192) ∨
      (base/4096 ≤ f ∧ f < u64 (base + m.bitmapSize + 4096 - 1)/4096) ∨
      (m.entriesPtr/4096 ≤ f ∧ f < u64 (m.entriesPtr + m.entries.length*24 + 4096 - 1)/4096) := by
  simp only [Reserved, MemoryMap.reservations, List.exists_mem_cons_iff, List.not_mem_nil, false_and,
    exists_false, or_false]
  omega

/-- The reservations are the four regions: no sum of theirs that a tracked frame could see wraps. -/
private theorem reserved_iff {m : MemoryMap} (hm : ∀ e ∈ m.entries, e.base + e.length ≤ 2^52)
    (hsize : 24*m.entries.length < 2^63) (hpos : 0 < m.entries.length) {base : Nat}
    (hb : m.bitmapBase = some base) {f : Nat} (hf : f < m.totalFrames) :
    Reserved m base f ↔ Excluded m base f := by
  have htotal := totalFrames_le hm
  obtain ⟨_, hbase⟩ := bitmapBase_aligned hm hb
  have hbits : m.bitmapSize = (m.totalFrames + 7)/8 := rfl
  have hmap : (m.entriesPtr/4096 ≤ f ∧
      f < u64 (m.entriesPtr + m.entries.length*24 + 4096 - 1)/4096) ↔
        m.entriesPtr/4096 ≤ f ∧ f < (m.entriesPtr + 24*m.entries.length + 4096 - 1)/4096 := by
    by_cases hp : m.entriesPtr < 2^62
    · rw [u64_of_lt (by omega), Nat.mul_comm m.entries.length]
    · omega
  rw [mem_reservations_iff, hmap, Excluded, meets_iff_range (by omega), meets_iff_range (by omega),
    meets_iff_range (by omega), meets_iff_range (by omega), u64_of_lt (by omega)]
  omega

/-- `init` frees a tracked frame exactly if a usable entry covers it and it is none of the
excluded ones. No allocated array spans `2^63` bytes. -/
theorem init_exact {m : MemoryMap} {mem : Bytes} {s : PhysicalMemoryManager} (h : init m mem = .ok s)
    (hm : ∀ e ∈ m.entries, e.base + e.length ≤ 2^52) (hsize : 24*m.entries.length < 2^63) :
    ∃ base, m.bitmapBase = some base ∧ base % 4096 = 0 ∧
      ∀ f < s.totalFrames, (s.Free f ↔ Covered m f ∧ ¬ Excluded m base f) := by
  obtain ⟨base, hb, ht, _⟩ := init_ok h
  refine ⟨base, hb, (bitmapBase_aligned hm hb).1, ?_⟩
  intro f hf
  rw [ht] at hf
  rw [init_free_iff h hb, offered_iff hm, reserved_iff hm hsize (entries_pos h) hb hf]
  exact and_iff_right hf

theorem init_exact_oneBank : ∃ s base, init oneBank onesMemory = .ok s ∧
    oneBank.bitmapBase = some base ∧ base % 4096 = 0 ∧
      ∀ f < s.totalFrames, (s.Free f ↔ Covered oneBank f ∧ ¬ Excluded oneBank base f) := by
  obtain ⟨s, hs, _⟩ := oneBank_init
  obtain ⟨base, h⟩ := init_exact hs (by decide) (by decide)
  exact ⟨s, base, hs, h⟩

end PhysicalMemoryManager
end Nafuraito.Memory
