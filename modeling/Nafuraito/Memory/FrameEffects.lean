import Nafuraito.Memory.PhysicalMemoryManager
import Mathlib.Tactic.Common

/-! What one call of the frame allocator can do to its state. Every invariant
of the allocator is derived from these lemmas, not from the bodies of the calls. -/
namespace Nafuraito.Memory.PhysicalMemoryManager
open Nafuraito.Library
variable {s t : PhysicalMemoryManager}

/-- Frame `f` is tracked and its bit is clear. -/
def Free (s : PhysicalMemoryManager) (f : Nat) : Prop :=
  f < s.totalFrames ∧ Bitmap.test s.bitmap f = false

instance (s : PhysicalMemoryManager) (f : Nat) : Decidable (s.Free f) := inferInstanceAs (Decidable (_ ∧ _))

/-- The state after one of the single-frame calls took frame `f`. -/
def taking (s : PhysicalMemoryManager) (f : Nat) (zones : Fin 4 → ZoneStats) : PhysicalMemoryManager :=
  { s with
    bitmap := Bitmap.setAt s.bitmap (f/8) (f%8)
    freeFrames := u64Sub s.freeFrames 1
    zones := zones
    lastAllocIndex := f/8 }

/-- The state after `free_frame` gave frame `f` back. -/
def giving (s : PhysicalMemoryManager) (f : Nat) : PhysicalMemoryManager :=
  { s with
    bitmap := Bitmap.clearAt s.bitmap (f/8) (f%8)
    freeFrames := u64 (s.freeFrames+1)
    zones := bumpZone s.zones (.fromAddress (f*4096)) (fun n => u64 (n+1))
    lastAllocIndex := if f/8 < s.lastAllocIndex then f/8 else s.lastAllocIndex }

@[simp] theorem test_taking (f k : Nat) (zones : Fin 4 → ZoneStats) :
    Bitmap.test (s.taking f zones).bitmap k = (decide (k = f) || Bitmap.test s.bitmap k) :=
  Bitmap.test_set s.bitmap f k

@[simp] theorem test_giving (f k : Nat) :
    Bitmap.test (s.giving f).bitmap k = (!decide (k = f) && Bitmap.test s.bitmap k) :=
  Bitmap.test_clear s.bitmap f k

@[simp] theorem taking_total (f : Nat) (zones : Fin 4 → ZoneStats) :
    (s.taking f zones).totalFrames = s.totalFrames := rfl

@[simp] theorem giving_total (f : Nat) : (s.giving f).totalFrames = s.totalFrames := rfl

theorem index_lt_size {f : Nat} (h : f < s.totalFrames) : f/8 < s.bitmapSize := by
  have := s.size_eq
  omega

/-! ### The searches -/

theorem firstClear_some {byte : Byte} {bit : Nat} (h : firstClear byte = some bit) :
    bit < 8 ∧ Bitmap.bitOn byte bit = false := by
  have hm := List.mem_of_find?_eq_some h
  have hp := List.find?_some h
  exact ⟨List.mem_range.mp hm, by simpa using hp⟩

/-- The first clear bit is below every other clear bit. -/
theorem firstClear_le {byte : Byte} {bit k : Nat} (h : firstClear byte = some bit)
    (hk : k < 8) (hc : Bitmap.bitOn byte k = false) : bit ≤ k := by
  by_contra hlt
  obtain ⟨_, pre, post, hs, hpre⟩ := List.find?_eq_some_iff_append.mp h
  have hlen : pre.length = bit := by
    have hg : (List.range 8)[pre.length]? = some bit := by rw [hs]; simp
    rw [List.getElem?_range (by
      have := congrArg List.length hs
      simp at this
      omega)] at hg
    simpa using hg
  have hmem : k ∈ pre := by
    have hg : (List.range 8)[k]? = some k := List.getElem?_range hk
    rw [hs, List.getElem?_append_left (by omega)] at hg
    exact List.mem_of_getElem? hg
  simpa [hc] using hpre k hmem

theorem firstClear_none {byte : Byte} (h : firstClear byte = none) {k : Nat} (hk : k < 8) :
    Bitmap.bitOn byte k = true := by
  have := List.find?_eq_none.mp h k (List.mem_range.mpr hk)
  simpa using this

/-- What the scan of one byte in `allocFrameSearch` skips: no tracked frame of it is free. -/
private theorem scan_skips {i : Nat}
    (h : ∀ bit, (if s.bitmap i ≠ 0xFF#8 then firstClear (s.bitmap i) else none) = some bit →
      s.totalFrames ≤ i*8+bit) {f : Nat} (hf : f/8 = i) : ¬ s.Free f := by
  rintro ⟨hlt, hc⟩
  have hb : Bitmap.bitOn (s.bitmap i) (f%8) = false := by rw [← hf]; exact hc
  have hmod : f%8 < 8 := Nat.mod_lt f (by decide)
  by_cases hfull : s.bitmap i = 255#8
  · rw [hfull, Bitmap.bitOn_full hmod] at hb
    cases hb
  · cases hfc : firstClear (s.bitmap i) with
    | none => rw [firstClear_none hfc hmod] at hb; cases hb
    | some bit =>
      have hge := h bit (by rw [if_pos hfull, hfc])
      have hle := firstClear_le hfc hmod hb
      omega

theorem allocFrameSearch_some {n current index bit : Nat}
    (h : s.allocFrameSearch n current = some (index, bit)) : bit < 8 ∧ s.Free (index*8+bit) := by
  induction n generalizing current with
  | zero => cases h
  | succ n ih =>
    rw [allocFrameSearch] at h
    split at h
    · exact ih h
    · rename_i b hb
      split at h
      · exact ih h
      · rename_i hlt
        obtain ⟨rfl, rfl⟩ : current = index ∧ b = bit := by simpa using h
        split at hb
        · have hc := firstClear_some hb
          refine ⟨hc.1, by omega, ?_⟩
          rw [Nat.mul_comm, Bitmap.test_byte _ _ hc.1]
          exact hc.2
        · cases hb

/-- A failed search has seen that no tracked frame of the bytes it visited is free. -/
theorem allocFrameSearch_none {n current : Nat} (h : s.allocFrameSearch n current = none)
    (hcur : current < s.bitmapSize) {k f : Nat} (hk : k < n) (hf : f/8 = (current+k) % s.bitmapSize) :
    ¬ s.Free f := by
  induction n generalizing current k with
  | zero => omega
  | succ n ih =>
    have hnext : (current+1) % s.bitmapSize < s.bitmapSize := Nat.mod_lt _ (by omega)
    rw [allocFrameSearch] at h
    have hskip : s.allocFrameSearch n ((current+1) % s.bitmapSize) = none ∧
        ∀ bit, (if s.bitmap current ≠ 0xFF#8 then firstClear (s.bitmap current) else none) = some bit →
          s.totalFrames ≤ current*8+bit := by
      split at h
      · rename_i hb
        exact ⟨h, fun bit hbit => by rw [hb] at hbit; cases hbit⟩
      · rename_i b hb
        split at h
        · rename_i hge
          refine ⟨h, fun bit hbit => ?_⟩
          rw [hb] at hbit
          cases hbit
          exact hge
        · cases h
    cases k with
    | zero =>
      rw [Nat.add_zero, Nat.mod_eq_of_lt hcur] at hf
      exact scan_skips hskip.2 hf
    | succ k =>
      refine ih hskip.1 hnext (k := k) (by omega) ?_
      rw [hf, Nat.mod_add_mod]
      congr 1
      omega

/-- The search from a valid hint is complete: it fails only when no frame is free. -/
theorem allocFrameSearch_complete (hhint : s.lastAllocIndex < s.bitmapSize)
    (h : s.allocFrameSearch s.bitmapSize s.lastAllocIndex = none) (f : Nat) : ¬ s.Free f := by
  intro hf
  have hi := index_lt_size hf.1
  refine allocFrameSearch_none h hhint
    (k := (f/8 + s.bitmapSize - s.lastAllocIndex) % s.bitmapSize) (Nat.mod_lt _ (by omega)) ?_ hf
  rw [Nat.add_mod_mod]
  have : s.lastAllocIndex + (f/8 + s.bitmapSize - s.lastAllocIndex) = f/8 + s.bitmapSize := by omega
  rw [this, Nat.add_mod_right, Nat.mod_eq_of_lt hi]

theorem zoneSearch_some {lo hi index bit : Nat} (h : s.zoneSearch lo hi = some (index, bit)) :
    bit < 8 ∧ lo ≤ index*8+bit ∧ index*8+bit < hi ∧ Bitmap.test s.bitmap (index*8+bit) = false := by
  obtain ⟨i, _, hi'⟩ := List.exists_of_findSome?_eq_some h
  split at hi'
  · obtain ⟨b, hb, heq⟩ := Option.map_eq_some_iff.mp hi'
    obtain ⟨rfl, rfl⟩ : i = index ∧ b = bit := by simpa using heq
    have hm := List.mem_range.mp (List.mem_of_find?_eq_some hb)
    have hp := List.find?_some hb
    simp only [Bool.and_eq_true, decide_eq_true_eq, Bool.not_eq_true'] at hp
    refine ⟨hm, hp.1.1, hp.1.2, ?_⟩
    rw [Nat.mul_comm, Bitmap.test_byte _ _ hm]
    exact hp.2
  · cases hi'

/-- The zone search is complete on its range. -/
theorem zoneSearch_complete {lo hi f : Nat} (h : s.zoneSearch lo hi = none) (hlo : lo ≤ f)
    (hhi : f < hi) : Bitmap.test s.bitmap f = true := by
  by_contra hc
  have hc' : Bitmap.bitOn (s.bitmap (f/8)) (f%8) = false := by simpa [Bitmap.test] using hc
  have hmod : f%8 < 8 := Nat.mod_lt f (by decide)
  have hm : f/8 ∈ List.range' (lo/8) ((hi+7)/8 - lo/8) := by
    rw [List.mem_range'_1]
    omega
  have hn := List.findSome?_eq_none_iff.mp h _ hm
  have hfull : s.bitmap (f/8) ≠ 0xFF#8 := by
    intro he
    rw [he] at hc'
    rw [Bitmap.bitOn_full hmod] at hc'
    cases hc'
  rw [if_pos hfull, Option.map_eq_none_iff, List.find?_eq_none] at hn
  have hdiv : f/8*8 + f%8 = f := by omega
  have := hn (f%8) (List.mem_range.mpr hmod)
  simp [hdiv, hlo, hhi, hc'] at this

/-! ### The calls -/

private theorem byte_of_frame (index : Nat) {bit : Nat} (h : bit < 8) :
    (index*8+bit)/8 = index ∧ (index*8+bit)%8 = bit := by omega

theorem allocFrame_ok {addr : Nat} (h : allocFrame s = (.ok addr, t)) :
    ∃ f, addr = f*4096 ∧ s.Free f ∧ s.freeFrames ≠ 0 ∧ t = s.taking f s.zones := by
  rw [allocFrame] at h
  split at h
  · simp at h
  · rename_i hz
    split at h
    · rename_i index bit hs
      obtain ⟨hb, hf⟩ := allocFrameSearch_some hs
      obtain ⟨hi, hm⟩ := byte_of_frame index hb
      obtain ⟨rfl, rfl⟩ : (index*8+bit)*4096 = addr ∧ _ = t := by simpa using h
      refine ⟨index*8+bit, rfl, hf, hz, ?_⟩
      simp only [taking, hi, hm]
    · simp at h

theorem allocFrame_error {e : MemoryError} (h : allocFrame s = (.error e, t)) : t = s := by
  rw [allocFrame] at h
  split at h
  · simp_all
  · split at h <;> simp_all

/-- With a valid hint, `alloc_frame` fails only when its counter is zero or nothing is free. -/
theorem allocFrame_fails {e : MemoryError} (hhint : s.lastAllocIndex < s.bitmapSize)
    (h : allocFrame s = (.error e, t)) : s.freeFrames = 0 ∨ ∀ f, ¬ s.Free f := by
  rw [allocFrame] at h
  split at h
  · exact .inl ‹_›
  · split at h
    · simp at h
    · exact .inr (allocFrameSearch_complete hhint ‹_›)

theorem allocFrameInZone_ok {z : MemoryZone} {addr : Nat} (h : allocFrameInZone z s = (.ok addr, t)) :
    ∃ f, addr = f*4096 ∧ s.Free f ∧ z = .fromAddress (f*4096) ∧ (s.zones z.idx).freeFrames ≠ 0 ∧
      t = s.taking f (bumpZone s.zones z (u64Sub · 1)) := by
  rw [allocFrameInZone] at h
  split at h
  · simp at h
  · rename_i hz
    split at h
    · rename_i index bit hs
      obtain ⟨hb, hlo, hhi, hc⟩ := zoneSearch_some hs
      obtain ⟨hi, hm⟩ := byte_of_frame index hb
      obtain ⟨rfl, rfl⟩ : (index*8+bit)*4096 = addr ∧ _ = t := by simpa using h
      have hlt : index*8+bit < s.totalFrames := by
        unfold MemoryZone.frameEnd at hhi
        omega
      refine ⟨index*8+bit, rfl, ⟨hlt, hc⟩, ?_, hz, ?_⟩
      · exact ((MemoryZone.fromAddress_iff hlt s.total_le z).mpr ⟨hlo, hhi⟩).symm
      · simp only [taking, hi, hm]
    · simp at h

theorem allocFrameInZone_error {z : MemoryZone} {e : MemoryError}
    (h : allocFrameInZone z s = (.error e, t)) :
    t = s ∧ ((s.zones z.idx).freeFrames = 0 ∨
      ∀ f, z.frameStart ≤ f → f < z.frameEnd s.totalFrames → Bitmap.test s.bitmap f = true) := by
  rw [allocFrameInZone] at h
  split at h
  · simp_all
  · split at h
    · simp at h
    · rename_i hn
      exact ⟨by simp_all, .inr fun f hlo hhi => zoneSearch_complete hn hlo hhi⟩

/-- A run without a used frame lies below `total_frames`: the scan never wraps. -/
theorem firstUsed_none {frame n : Nat} (h : s.firstUsed frame n = none) :
    ∀ k < n, s.Free (frame+k) := by
  induction n generalizing frame with
  | zero => omega
  | succ n ih =>
    rw [firstUsed] at h
    split at h
    · cases h
    · rename_i ht
      have hfree : s.Free frame := by
        unfold testBit at ht
        split at ht
        · simp at ht
        · exact ⟨by omega, by simpa using ht⟩
      have hle := s.total_le
      have hwrap : u64 (frame+1) = frame+1 := u64_of_lt (by have := hfree.1; omega)
      rw [hwrap] at h
      intro k hk
      cases k with
      | zero => exact hfree
      | succ k =>
        have := ih h k (by omega)
        rwa [Nat.add_assoc, Nat.add_comm 1 k] at this

theorem runSearch_some {count hi fuel current first : Nat}
    (h : s.runSearch count hi fuel current = some first) : ∀ k < count, s.Free (first+k) := by
  induction fuel generalizing current with
  | zero => cases h
  | succ fuel ih =>
    rw [runSearch] at h
    split at h
    · split at h
      · exact ih h
      · rename_i hn
        cases h
        exact firstUsed_none hn
    · cases h

@[simp] theorem takeRun_total (first n : Nat) (s : PhysicalMemoryManager) :
    (takeRun first n s).totalFrames = s.totalFrames := by
  induction n generalizing first s with
  | zero => rfl
  | succ n ih => exact ih _ _

@[simp] theorem takeRun_size (first n : Nat) (s : PhysicalMemoryManager) :
    (takeRun first n s).bitmapSize = s.bitmapSize := by
  induction n generalizing first s with
  | zero => rfl
  | succ n ih => exact ih _ _

@[simp] theorem takeRun_hint (first n : Nat) (s : PhysicalMemoryManager) :
    (takeRun first n s).lastAllocIndex = s.lastAllocIndex := by
  induction n generalizing first s with
  | zero => rfl
  | succ n ih => exact ih _ _

@[simp] theorem takeRun_free (first n : Nat) (s : PhysicalMemoryManager) :
    (takeRun first n s).freeFrames = s.freeFrames := by
  induction n generalizing first s with
  | zero => rfl
  | succ n ih => exact ih _ _

/-- A run that does not wrap sets exactly its own bits. -/
theorem test_takeRun {first n : Nat} {s : PhysicalMemoryManager} (h : first+n ≤ 2^64-1) (k : Nat) :
    Bitmap.test (takeRun first n s).bitmap k =
      (decide (first ≤ k ∧ k < first+n) || Bitmap.test s.bitmap k) := by
  induction n generalizing first s with
  | zero =>
    have : ¬ (first ≤ k ∧ k < first) := by omega
    simp [takeRun, this]
  | succ n ih =>
    have hw : u64 (first+1) = first+1 := u64_of_lt (by omega)
    rw [takeRun, ih (by rw [hw]; omega), hw]
    simp only [Bitmap.test_set]
    by_cases hk : k = first
    · simp [hk]
    · have hrange : (first+1 ≤ k ∧ k < first+1+n) ↔ (first ≤ k ∧ k < first+(n+1)) := by omega
      rw [decide_eq_false hk, Bool.false_or, decide_eq_decide.mpr hrange]

theorem allocFramesContiguous_one (zone : Option MemoryZone) :
    allocFramesContiguous 1 zone = match zone with
      | some z => allocFrameInZone z
      | none => allocFrame := by
  funext s
  cases zone <;> rfl

theorem allocFramesContiguous_ok {count addr : Nat} {zone : Option MemoryZone} (hc : count ≠ 1)
    (h : allocFramesContiguous count zone s = (.ok addr, t)) :
    2 ≤ count ∧ ∃ first, addr = first*4096 ∧ (∀ k < count, s.Free (first+k)) ∧
      t = { takeRun first count s with freeFrames := u64Sub s.freeFrames count } := by
  unfold allocFramesContiguous at h
  by_cases h0 : count = 0
  · simp [h0] at h
  · rw [if_neg h0, if_neg hc] at h
    split at h
    · rename_i first hs
      have hfree := runSearch_some hs
      have hf := (hfree 0 (by omega)).1
      have hle := s.total_le
      obtain ⟨rfl, rfl⟩ : u64 (first*4096) = addr ∧ _ = t := by simpa using h
      exact ⟨by omega, first, u64_of_lt (by omega), hfree, by simp⟩
    · simp at h

theorem allocFramesContiguous_error {count : Nat} {zone : Option MemoryZone} {e : MemoryError}
    (h : allocFramesContiguous count zone s = (.error e, t)) : t = s := by
  unfold allocFramesContiguous at h
  by_cases h0 : count = 0
  · simp_all
  · rw [if_neg h0] at h
    by_cases h1 : count = 1
    · rw [if_pos h1] at h
      cases zone with
      | some z => exact (allocFrameInZone_error h).1
      | none => exact allocFrame_error h
    · rw [if_neg h1] at h
      split at h <;> simp_all

/-- `free_frame` succeeds exactly on the address of a tracked frame whose bit is set. -/
theorem freeFrame_run (addr : Nat) (s : PhysicalMemoryManager) :
    (addr % 4096 = 0 ∧ addr/4096 < s.totalFrames ∧ Bitmap.test s.bitmap (addr/4096) = true ∧
      freeFrame addr s = (.ok (), s.giving (addr/4096))) ∨
    (¬ (addr % 4096 = 0 ∧ addr/4096 < s.totalFrames ∧ Bitmap.test s.bitmap (addr/4096) = true) ∧
      ∃ e, freeFrame addr s = (.error e, s)) := by
  rw [freeFrame]
  split
  · exact .inr ⟨by tauto, _, rfl⟩
  · split
    · exact .inr ⟨by omega, _, rfl⟩
    · split
      · rename_i hb
        refine .inr ⟨fun hc => ?_, _, rfl⟩
        have := hc.2.2
        simp only [Bitmap.test] at this
        simp [this] at hb
      · rename_i ha hlt hb
        have haddr : addr/4096*4096 = addr := by omega
        refine .inl ⟨by omega, by omega, by simpa [Bitmap.test] using hb, ?_⟩
        simp only [giving, haddr]

theorem freeFrame_ok {addr : Nat} (h : freeFrame addr s = (.ok (), t)) :
    addr % 4096 = 0 ∧ addr/4096 < s.totalFrames ∧ Bitmap.test s.bitmap (addr/4096) = true ∧
      t = s.giving (addr/4096) := by
  rcases freeFrame_run addr s with ⟨h₁, h₂, h₃, he⟩ | ⟨_, e, he⟩
  · rw [he] at h
    exact ⟨h₁, h₂, h₃, by simpa using h.symm⟩
  · rw [he] at h
    simp at h

theorem freeFrame_error {addr : Nat} {e : MemoryError} (h : freeFrame addr s = (.error e, t)) : t = s := by
  rcases freeFrame_run addr s with ⟨_, _, _, he⟩ | ⟨_, e', he⟩
  · rw [he] at h
    simp at h
  · rw [he] at h
    simpa using (congrArg Prod.snd h).symm

end Nafuraito.Memory.PhysicalMemoryManager
