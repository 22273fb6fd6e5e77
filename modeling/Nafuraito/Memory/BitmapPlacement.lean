import Nafuraito.Memory.FrameInitExact
import Mathlib.Order.Interval.Set.Basic

/-! Where `init` puts the bitmap, and which bytes it reads and writes through the bitmap pointer. -/
namespace Nafuraito.Memory
open Nafuraito.Library

namespace MemoryMap

/-! ### The bytes reached -/

/-- The rounds of step 6 for one entry. -/
def entryRounds (total : Nat) (e : E820Entry) : List Nat :=
  if e.isUsable then
    if (entryFrames e).1 ≥ total then []
    else List.range' (entryFrames e).1
      ((if (entryFrames e).2 > total then total else (entryFrames e).2) - (entryFrames e).1)
  else []

/-- The rounds of step 7. -/
def reservationRounds (m : MemoryMap) (base : Nat) : List Nat :=
  (m.reservations base).flatMap fun r => List.range' r.1 (r.2 - r.1)

/-- The bytes, counted from the bitmap pointer on, that steps 5 to 8 of `init` read or write. -/
def initTouches (m : MemoryMap) (base : Nat) : List Nat :=
  List.range m.bitmapSize ++ (m.entries.flatMap (entryRounds m.totalFrames)).map (· / 8) ++
    (m.reservationRounds base).map (· / 8) ++ (if m.totalFrames % 8 ≠ 0 then [m.totalFrames / 8] else [])

end MemoryMap

namespace PhysicalMemoryManager

/-- What the bytes from the bitmap pointer on hold when `init` is done. -/
def initBytes (m : MemoryMap) (base : Nat) (mem : Bytes) : Bytes :=
  setPhantoms m.totalFrames (initBitmap m base mem).1

private theorem freeEntry_rounds (total : Nat) (st : Bytes × Nat) (e : E820Entry) :
    freeEntry total st e = (MemoryMap.entryRounds total e).foldl freeOne st := by
  rw [freeEntry, MemoryMap.entryRounds]
  split
  · dsimp only
    split <;> rfl
  · rfl

private theorem freeEntries_rounds (total : Nat) (entries : List E820Entry) (st : Bytes × Nat) :
    entries.foldl (freeEntry total) st = (entries.flatMap (MemoryMap.entryRounds total)).foldl freeOne st := by
  induction entries generalizing st with
  | nil => rfl
  | cons e entries ih => rw [List.foldl_cons, ih, List.flatMap_cons, List.foldl_append, freeEntry_rounds]

theorem initBitmap_rounds (m : MemoryMap) (base : Nat) (mem : Bytes) : initBitmap m base mem =
    (m.reservationRounds base).foldl useOne ((m.entries.flatMap (MemoryMap.entryRounds m.totalFrames)).foldl freeOne
      (Bitmap.fill mem m.bitmapSize 0xFF#8, 0)) := by
  rw [initBitmap, markRegions_rounds, freeEntries_rounds]
  rfl

/-- The two states hold the same counter and the same bytes at the indexes of `touched`. -/
def AgreeOn (touched : List Nat) (st st' : Bytes × Nat) : Prop :=
  st.2 = st'.2 ∧ ∀ i ∈ touched, st.1 i = st'.1 i

/-- A round reads and writes the byte of its frame and no other. -/
structure OneByte (f : Bytes × Nat → Nat → Bytes × Nat) : Prop where
  other : ∀ st frame i, i ≠ frame/8 → (f st frame).1 i = st.1 i
  same : ∀ st st' frame, st.2 = st'.2 → st.1 (frame/8) = st'.1 (frame/8) →
    (f st frame).2 = (f st' frame).2 ∧ (f st frame).1 (frame/8) = (f st' frame).1 (frame/8)

theorem freeOne_oneByte : OneByte freeOne where
  other st frame i hi := Function.update_of_ne hi _ _
  same st st' frame hcount hbyte := by
    simp only [freeOne, Bitmap.clearAt, Function.update_self]
    rw [hcount, hbyte]
    exact ⟨rfl, rfl⟩

theorem useOne_oneByte : OneByte useOne where
  other st frame i hi := by
    rw [useOne]
    split
    · rfl
    · exact Function.update_of_ne hi _ _
  same st st' frame hcount hbyte := by
    rw [useOne, useOne, hbyte]
    split
    · exact ⟨hcount, hbyte⟩
    · simp only [Bitmap.setAt, Function.update_self]
      rw [hcount, hbyte]
      exact ⟨rfl, rfl⟩

section Rounds
variable {f : Bytes × Nat → Nat → Bytes × Nat} (hf : OneByte f) {touched : List Nat}
include hf

theorem OneByte.fold_other {i : Nat} (frames : List Nat) (hi : i ∉ frames.map (· / 8)) (st : Bytes × Nat) :
    (frames.foldl f st).1 i = st.1 i := by
  induction frames generalizing st with
  | nil => rfl
  | cons frame frames ih =>
    rw [List.map_cons, List.mem_cons, not_or] at hi
    rw [List.foldl_cons, ih hi.2, hf.other st frame i hi.1]

theorem OneByte.fold_agree (frames : List Nat) (hin : ∀ frame ∈ frames, frame/8 ∈ touched) {st st' : Bytes × Nat}
    (h : AgreeOn touched st st') : AgreeOn touched (frames.foldl f st) (frames.foldl f st') := by
  induction frames generalizing st st' with
  | nil => exact h
  | cons frame frames ih =>
    apply ih fun g hg => hin g (List.mem_cons_of_mem _ hg)
    have hframe := hin frame List.mem_cons_self
    obtain ⟨hcount, hbyte⟩ := hf.same st st' frame h.1 (h.2 _ hframe)
    refine ⟨hcount, fun i hi => ?_⟩
    by_cases he : i = frame/8
    · rw [he, hbyte]
    · rw [hf.other st frame i he, hf.other st' frame i he, h.2 i hi]

end Rounds

private theorem setPhantoms_other {total i : Nat} (hi : total % 8 ≠ 0 → i ≠ total/8) (b : Bytes) :
    setPhantoms total b i = b i := by
  rw [setPhantoms]
  split
  · rename_i hrest
    have hfold (bits : List Nat) : (bits.foldl (fun b bit => Bitmap.setAt b (total/8) bit) b) i = b i := by
      induction bits generalizing b with
      | nil => rfl
      | cons bit bits ih =>
        rw [List.foldl_cons, ih]
        exact Function.update_of_ne (hi hrest) _ _
    exact hfold _
  · rfl

private theorem setPhantoms_same {total : Nat} {b b' : Bytes} (h : b (total/8) = b' (total/8)) :
    setPhantoms total b (total/8) = setPhantoms total b' (total/8) := by
  rw [setPhantoms, setPhantoms]
  split
  · have hfold (bits : List Nat) : (bits.foldl (fun b bit => Bitmap.setAt b (total/8) bit) b) (total/8) =
        (bits.foldl (fun b bit => Bitmap.setAt b (total/8) bit) b') (total/8) := by
      induction bits generalizing b b' with
      | nil => exact h
      | cons bit bits ih =>
        apply ih
        simp only [Bitmap.setAt, Function.update_self]
        rw [h]
    exact hfold _
  · exact h

/-- `init` changes no byte outside the ones it touches. -/
theorem initBytes_other {m : MemoryMap} {base i : Nat} (hi : i ∉ m.initTouches base) (mem : Bytes) :
    initBytes m base mem i = mem i := by
  rw [MemoryMap.initTouches, List.mem_append, List.mem_append, List.mem_append, not_or, not_or, not_or] at hi
  obtain ⟨⟨⟨hfill, hfree⟩, huse⟩, hphantom⟩ := hi
  rw [initBytes, setPhantoms_other, initBitmap_rounds, useOne_oneByte.fold_other _ huse,
    freeOne_oneByte.fold_other _ hfree]
  · exact if_neg fun hlt => hfill (List.mem_range.mpr hlt)
  · intro hrest he
    rw [if_pos hrest] at hphantom
    exact hphantom (List.mem_singleton.mpr he)

/-- What `init` computes depends on no byte outside the ones it touches. -/
theorem initBytes_agree {m : MemoryMap} {base : Nat} {mem mem' : Bytes}
    (h : ∀ i ∈ m.initTouches base, mem i = mem' i) :
    (initBitmap m base mem).2 = (initBitmap m base mem').2 ∧
      ∀ i ∈ m.initTouches base, initBytes m base mem i = initBytes m base mem' i := by
  have hagree : AgreeOn (m.initTouches base) (initBitmap m base mem) (initBitmap m base mem') := by
    rw [initBitmap_rounds, initBitmap_rounds]
    apply useOne_oneByte.fold_agree
    · intro frame hframe
      have := List.mem_map_of_mem (f := (· / 8)) hframe
      simp only [MemoryMap.initTouches, List.mem_append]
      exact .inl (.inr this)
    apply freeOne_oneByte.fold_agree
    · intro frame hframe
      have := List.mem_map_of_mem (f := (· / 8)) hframe
      simp only [MemoryMap.initTouches, List.mem_append]
      exact .inl (.inl (.inr this))
    refine ⟨rfl, fun i hi => ?_⟩
    simp only [Bitmap.fill, h i hi]
  refine ⟨hagree.1, fun i hi => ?_⟩
  rw [initBytes, initBytes]
  by_cases he : i = m.totalFrames/8
  · subst he
    exact setPhantoms_same (hagree.2 _ hi)
  · rw [setPhantoms_other fun _ => he, setPhantoms_other fun _ => he]
    exact hagree.2 i hi

/-! ### The place -/

/-- The first page boundary in entry `e` that is not below the end of the kernel area. -/
def bitmapPlace (e : E820Entry) : Nat := (max e.base MemoryMap.kernelEnd + 4095)/4096*4096

/-- Entry `e` has room for the whole pages of the bitmap, counted from its own start or the kernel's end. -/
def Roomy (m : MemoryMap) (e : E820Entry) : Prop :=
  e.isUsable ∧ max e.base MemoryMap.kernelEnd < e.base + e.length ∧
    max e.base MemoryMap.kernelEnd + (m.bitmapSize + 4095)/4096*4096 ≤ e.base + e.length

instance (m : MemoryMap) (e : E820Entry) : Decidable (Roomy m e) := inferInstanceAs (Decidable (_ ∧ _ ∧ _))

/-- `e` is the first entry with room. -/
def FirstRoomy (m : MemoryMap) (e : E820Entry) : Prop :=
  ∃ before after, m.entries = before ++ e :: after ∧ Roomy m e ∧ ∀ e' ∈ before, ¬ Roomy m e'

private theorem le_highest (es : List E820Entry) (h₀ : Nat) :
    h₀ ≤ es.foldl (fun highest e => if e.isUsable ∧ highest < e.endAddr then e.endAddr else highest) h₀ ∧
    ∀ e ∈ es, e.isUsable → e.endAddr ≤
      es.foldl (fun highest e => if e.isUsable ∧ highest < e.endAddr then e.endAddr else highest) h₀ := by
  induction es generalizing h₀ with
  | nil => simp
  | cons e es ih =>
    rw [List.foldl_cons]
    obtain ⟨hle, hrest⟩ := ih (if e.isUsable ∧ h₀ < e.endAddr then e.endAddr else h₀)
    constructor
    · refine le_trans ?_ hle
      split <;> omega
    · intro e' he' hu
      rcases List.mem_cons.mp he' with rfl | hmem
      · refine le_trans ?_ hle
        split
        · exact le_rfl
        · rename_i hnot
          simp only [hu, true_and] at hnot
          omega
      · exact hrest e' hmem hu

theorem endAddr_le_highest {m : MemoryMap} {e : E820Entry} (he : e ∈ m.entries) (hu : e.isUsable) :
    e.endAddr ≤ m.highestUsableAddress := (le_highest m.entries 0).2 e he hu

private theorem kernelEnd_le (base : Nat) : 10*1024*1024 ≤ max base MemoryMap.kernelEnd := by
  unfold MemoryMap.kernelEnd
  omega

/-- An entry with room is large: what is tracked reaches its end, so the bitmap is not empty. -/
private theorem Roomy.bounds {m : MemoryMap} {e : E820Entry} (h : Roomy m e) (he : e ∈ m.entries)
    (hlt : e.base + e.length < 2^64) : 0 < m.bitmapSize ∧ (max e.base MemoryMap.kernelEnd + 4095)/4096*4096 < 2^64 := by
  obtain ⟨hu, hend, hroom⟩ := h
  have hhigh := endAddr_le_highest he hu
  rw [E820Entry.endAddr, Nat.min_eq_left (by omega)] at hhigh
  have hkernel := kernelEnd_le e.base
  have htotal : m.totalFrames = m.highestUsableAddress/4096 := rfl
  have hsize : m.bitmapSize = (m.totalFrames + 7)/8 := rfl
  omega

private theorem roundUp_eq {base : Nat} (h : (base + 4095)/4096*4096 < 2^64) :
    (if base % 4096 ≠ 0 then u64 ((base/4096 + 1) * 4096) else base) = (base + 4095)/4096*4096 := by
  split
  · have hup : (base + 4095)/4096 = base/4096 + 1 := by omega
    rw [hup] at h ⊢
    exact u64_of_lt h
  · omega

private theorem regionStart_eq {m : MemoryMap} {e : E820Entry} (hlt : e.base + e.length < 2^64) :
    (if e.isUsable then
      let regionStart := if e.base < MemoryMap.kernelEnd then MemoryMap.kernelEnd else e.base
      let regionEnd := u64 (e.base + e.length)
      if regionEnd ≤ regionStart then none
      else if regionEnd - regionStart < (m.bitmapSize + 4096 - 1)/4096*4096 then none
      else some regionStart
    else none) = if Roomy m e then some (max e.base MemoryMap.kernelEnd) else none := by
  have hstart : (if e.base < MemoryMap.kernelEnd then MemoryMap.kernelEnd else e.base) =
      max e.base MemoryMap.kernelEnd := by
    split <;> omega
  dsimp only
  rw [hstart, u64_of_lt hlt]
  by_cases hu : e.isUsable
  · rw [if_pos hu]
    split
    · rw [if_neg fun h => by have := h.2.1; omega]
    · split
      · rw [if_neg fun h => by have := h.2.2; omega]
      · rw [if_pos ⟨hu, by omega, by omega⟩]
  · rw [if_neg hu, if_neg fun h => hu h.1]

/-- The bitmap goes to the first page boundary of the first entry with room. -/
theorem bitmapBase_iff {m : MemoryMap} (hm : ∀ e ∈ m.entries, e.base + e.length < 2^64) {base : Nat} :
    m.bitmapBase = some base ↔ ∃ e, FirstRoomy m e ∧ base = bitmapPlace e := by
  rw [MemoryMap.bitmapBase, Option.map_eq_some_iff]
  constructor
  · rintro ⟨start, hfind, rfl⟩
    obtain ⟨before, e, after, hentries, hsome, hbefore⟩ := List.findSome?_eq_some_iff.mp hfind
    have he : e ∈ m.entries := by simp [hentries]
    rw [regionStart_eq (hm e he)] at hsome
    split at hsome
    · rename_i hroomy
      refine ⟨e, ⟨before, after, hentries, hroomy, ?_⟩, ?_⟩
      · intro e' he'
        have hnone := hbefore e' he'
        rw [regionStart_eq (hm e' (by simp [hentries, he']))] at hnone
        intro hroomy'
        rw [if_pos hroomy'] at hnone
        cases hnone
      · obtain rfl := Option.some.inj hsome
        exact roundUp_eq (hroomy.bounds he (hm e he)).2
    · cases hsome
  · rintro ⟨e, ⟨before, after, hentries, hroomy, hbefore⟩, rfl⟩
    have he : e ∈ m.entries := by simp [hentries]
    refine ⟨max e.base MemoryMap.kernelEnd, ?_, roundUp_eq (hroomy.bounds he (hm e he)).2⟩
    apply List.findSome?_eq_some_iff.mpr
    refine ⟨before, e, after, hentries, ?_, ?_⟩
    · rw [regionStart_eq (hm e he), if_pos hroomy]
    · intro e' he'
      rw [regionStart_eq (hm e' (by simp [hentries, he'])), if_neg (hbefore e' he')]

/-- The bitmap's bytes lie in one usable entry, clear of the first 10 MiB and of the kernel stack, and `init`
touches no byte but these. -/
structure OwnMemory (m : MemoryMap) (base : Nat) : Prop where
  inside : ∃ e ∈ m.entries, e.isUsable ∧ Set.Ico base (base + m.bitmapSize) ⊆ e.bytes
  kernel : ∀ a ∈ Set.Ico base (base + m.bitmapSize), 10*1024*1024 ≤ a
  stack : ∀ a ∈ Set.Ico base (base + m.bitmapSize), ¬ (31*1024*1024 ≤ a ∧ a < 32*1024*1024)
  touches : ∀ i ∈ m.initTouches base, base + i ∈ Set.Ico base (base + m.bitmapSize)

/-- What `init` does not check: that the room is still there behind the page boundary, that the stack is not
in it, and that the bitmap has a bit for every frame it reserves. -/
structure Separate (m : MemoryMap) (place : Nat) : Prop where
  room : ∃ e ∈ m.entries, e.isUsable ∧ e.base ≤ place ∧ place + m.bitmapSize ≤ e.base + e.length
  stack : place + m.bitmapSize ≤ 31*1024*1024 ∨ 32*1024*1024 ≤ place
  reservations : ∀ r ∈ m.reservations place, r.1 < r.2 → r.2 ≤ 8*m.bitmapSize

private theorem entryRounds_lt {total frame : Nat} {e : E820Entry} (h : frame ∈ MemoryMap.entryRounds total e) :
    frame < total := by
  rw [MemoryMap.entryRounds] at h
  split at h
  · split at h
    · cases h
    · rw [List.mem_range'_1] at h
      split at h <;> omega
  · cases h

/-- Steps 5, 6 and 8 stay inside the bitmap; step 7 does as far as the reservations do. -/
private theorem touches_iff (m : MemoryMap) (base : Nat) : (∀ i ∈ m.initTouches base, i < m.bitmapSize) ↔
    ∀ r ∈ m.reservations base, r.1 < r.2 → r.2 ≤ 8*m.bitmapSize := by
  have hsize : m.bitmapSize = (m.totalFrames + 7)/8 := rfl
  constructor
  · intro h r hr hlt
    have hmem : (r.2 - 1)/8 ∈ m.initTouches base := by
      simp only [MemoryMap.initTouches, List.mem_append, MemoryMap.reservationRounds]
      refine .inl (.inr (List.mem_map.mpr ⟨r.2 - 1, ?_, rfl⟩))
      rw [List.mem_flatMap]
      exact ⟨r, hr, List.mem_range'_1.mpr (by omega)⟩
    have := h _ hmem
    omega
  · intro h i hi
    simp only [MemoryMap.initTouches, List.mem_append] at hi
    rcases hi with ((hfill | hfree) | huse) | hphantom
    · exact List.mem_range.mp hfill
    · obtain ⟨frame, hframe, rfl⟩ := List.mem_map.mp hfree
      obtain ⟨e, _, he⟩ := List.mem_flatMap.mp hframe
      have := entryRounds_lt he
      omega
    · obtain ⟨frame, hframe, rfl⟩ := List.mem_map.mp huse
      obtain ⟨r, hr, hrange⟩ := List.mem_flatMap.mp hframe
      rw [List.mem_range'_1] at hrange
      have := h r hr (by omega)
      omega
    · split at hphantom
      · rw [List.mem_singleton.mp hphantom]
        omega
      · cases hphantom

/-- `init` gives the bitmap memory of its own exactly if what it does not check holds of the place it takes. -/
theorem init_ownMemory_iff {m : MemoryMap} {mem : Bytes} {s : PhysicalMemoryManager} (h : init m mem = .ok s)
    (hm : ∀ e ∈ m.entries, e.base + e.length < 2^64) : ∃ base, m.bitmapBase = some base ∧
      (OwnMemory m base ↔ ∃ e, FirstRoomy m e ∧ Separate m (bitmapPlace e)) := by
  obtain ⟨base, hb, _⟩ := init_ok h
  obtain ⟨e, hfirst, hplace⟩ := (bitmapBase_iff hm).mp hb
  obtain ⟨before, after, hentries, hroomy, _⟩ := hfirst
  have he : e ∈ m.entries := by simp [hentries]
  obtain ⟨hpos, _⟩ := hroomy.bounds he (hm e he)
  have hkernel := kernelEnd_le e.base
  have hrange : (∀ i ∈ m.initTouches base, base + i ∈ Set.Ico base (base + m.bitmapSize)) ↔
      ∀ i ∈ m.initTouches base, i < m.bitmapSize := by
    refine forall₂_congr fun i _ => ?_
    rw [Set.mem_Ico]
    omega
  have hcond : OwnMemory m base ↔ Separate m base := by
    constructor
    · rintro ⟨⟨e', he', hu, hsub⟩, _, hstack, htouches⟩
      refine ⟨⟨e', he', hu, ?_⟩, ?_, (touches_iff m base).mp (hrange.mp htouches)⟩
      · exact (Set.Ico_subset_Ico_iff (by omega)).mp hsub
      · by_contra hover
        -- the larger of the two starts lies in both ranges
        exact hstack (max base (31*1024*1024)) ⟨by omega, by omega⟩ ⟨by omega, by omega⟩
    · rintro ⟨⟨e', he', hu, hsub⟩, hstack, hres⟩
      refine ⟨⟨e', he', hu, Set.Ico_subset_Ico hsub.1 hsub.2⟩, ?_, ?_,
        hrange.mpr ((touches_iff m base).mpr hres)⟩
      · rintro a ⟨ha, _⟩
        have hpage : 2560 ≤ (max e.base MemoryMap.kernelEnd + 4095)/4096 := by omega
        rw [hplace, bitmapPlace] at ha
        exact (Nat.mul_le_mul_right 4096 hpage).trans ha
      · rintro a ⟨h₁, h₂⟩ ⟨h₃, h₄⟩
        omega
  refine ⟨base, hb, hcond.trans ⟨fun hsep => ⟨e, ⟨before, after, hentries, hroomy, ‹_›⟩, hplace ▸ hsep⟩, ?_⟩⟩
  rintro ⟨e', hfirst', hsep⟩
  obtain rfl : base = bitmapPlace e' :=
    Option.some.inj (hb.symm.trans ((bitmapBase_iff hm).mpr ⟨e', hfirst', rfl⟩))
  exact hsep

/-- All memory from 32 to 96 MiB. -/
def highBank : MemoryMap := ⟨0x7000, [⟨32*1024*1024, 64*1024*1024, 1, 0⟩]⟩

private theorem highBank_size : highBank.bitmapSize = 3072 := by decide

theorem highBank_ownMemory : ∃ s base, init highBank onesMemory = .ok s ∧ highBank.bitmapBase = some base ∧
    OwnMemory highBank base := by
  have hbase : highBank.bitmapBase = some (32*1024*1024) := by decide
  obtain ⟨s, hs⟩ := init_of_base (by decide) hbase onesMemory
  obtain ⟨base, hb, hiff⟩ := init_ownMemory_iff hs (by decide)
  refine ⟨s, base, hs, hb, hiff.mpr ⟨_, ⟨[], [], rfl, by decide, by simp⟩, ?_⟩⟩
  have hplace : bitmapPlace ⟨32*1024*1024, 64*1024*1024, 1, 0⟩ = 33554432 := by decide
  have hreservations : highBank.reservations 33554432 =
      [(0, 256), (256, 2560), (7936, 8192), (8192, 8193), (7, 8)] := by decide
  rw [hplace]
  refine ⟨⟨_, List.mem_cons_self, by decide, ?_⟩, .inr (by decide), ?_⟩
  · rw [highBank_size]
    decide
  · rw [hreservations, highBank_size]
    decide

/-- With 11 MiB of memory the stack's bits lie past the end of the bitmap. -/
theorem oneBank_not_ownMemory : ∃ s, init oneBank onesMemory = .ok s ∧
    (∀ e ∈ oneBank.entries, e.base + e.length < 2^64) ∧ oneBank.bitmapBase = some (11*1024*1024) ∧
    ¬ OwnMemory oneBank (11*1024*1024) := by
  obtain ⟨s, hs, _⟩ := oneBank_init
  refine ⟨s, hs, by decide, oneBank_base, fun h => ?_⟩
  have hmem : 992 ∈ oneBank.initTouches (11*1024*1024) := by
    simp only [MemoryMap.initTouches, List.mem_append, MemoryMap.reservationRounds]
    refine .inl (.inr (List.mem_map.mpr ⟨7936, List.mem_flatMap.mpr ⟨(7936, 8192), ?_, ?_⟩, by decide⟩))
    · simp [MemoryMap.reservations]
    · rw [List.mem_range'_1]
      decide
  have hsize : oneBank.bitmapSize = 354 := by decide
  have hin := (h.touches 992 hmem).2
  rw [hsize] at hin
  omega

end PhysicalMemoryManager
end Nafuraito.Memory
