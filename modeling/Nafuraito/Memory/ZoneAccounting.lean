import Nafuraito.Memory.FrameAccounting
import Nafuraito.Memory.FrameInit

/-! The zone counters: what they should count, which calls keep them and which do not. -/
namespace Nafuraito.Memory.PhysicalMemoryManager
open Nafuraito.Library
variable {s t : PhysicalMemoryManager}

/-- The free frames of a zone. -/
def zoneFree (s : PhysicalMemoryManager) (z : MemoryZone) : Finset Nat :=
  Bitmap.clearBits s.bitmap z.frameStart (z.frameEnd s.totalFrames)

theorem mem_zoneFree {z : MemoryZone} {f : Nat} :
    f ∈ s.zoneFree z ↔ s.Free f ∧ MemoryZone.fromAddress (f*4096) = z := by
  rw [zoneFree, Bitmap.mem_clearBits, Free]
  constructor
  · rintro ⟨hz, hb⟩
    have hlt : f < s.totalFrames := by
      have := hz.2
      unfold MemoryZone.frameEnd at this
      omega
    exact ⟨⟨hlt, hb⟩, (MemoryZone.fromAddress_iff hlt s.total_le z).mpr hz⟩
  · rintro ⟨⟨hlt, hb⟩, hz⟩
    exact ⟨(MemoryZone.fromAddress_iff hlt s.total_le z).mp hz, hb⟩

/-- What the zone statistics are for: each counter counts the free frames of its zone, together
they count all free frames, the percentage is one, and the zone search succeeds when it can. -/
structure ZoneAccounting (s : PhysicalMemoryManager) : Prop where
  counted : ∀ z : MemoryZone, (s.zones z.idx).freeFrames = (s.zoneFree z).card
  summed : (s.zones 0).freeFrames + (s.zones 1).freeFrames + (s.zones 2).freeFrames +
    (s.zones 3).freeFrames = (Bitmap.clearBits s.bitmap 0 s.totalFrames).card
  percent : ∀ z, s.zoneUsagePercent z ≤ 100
  allocates : ∀ z : MemoryZone, (∃ addr t, allocFrameInZone z s = (.ok addr, t)) ↔
    ∃ f, s.Free f ∧ MemoryZone.fromAddress (f*4096) = z

/-- The part that is carried from call to call. -/
structure ZoneCounts (s : PhysicalMemoryManager) : Prop where
  counted : ∀ z : MemoryZone, (s.zones z.idx).freeFrames = (s.zoneFree z).card
  sized : ∀ z : MemoryZone, (s.zones z.idx).totalFrames = z.frameEnd s.totalFrames - z.frameStart

theorem ZoneCounts.free_le (h : ZoneCounts s) (z : MemoryZone) :
    (s.zones z.idx).freeFrames ≤ (s.zones z.idx).totalFrames := by
  rw [h.counted, h.sized]
  exact Bitmap.clearBits_card_le _ _ _

private theorem frameEnd_le (z : MemoryZone) (total : Nat) : z.frameEnd total ≤ total := Nat.min_le_right _ _

theorem ZoneCounts.total_le (h : ZoneCounts s) (z : MemoryZone) :
    (s.zones z.idx).totalFrames ≤ 2^52-1 := by
  have h₁ := h.sized z
  have h₂ := frameEnd_le z s.totalFrames
  have h₃ := s.total_le
  omega

private theorem ZoneCounts.percent (h : ZoneCounts s) (z : MemoryZone) : s.zoneUsagePercent z ≤ 100 := by
  rw [zoneUsagePercent]
  split
  · omega
  · rename_i hz
    have h₁ := h.free_le z
    have h₂ := h.total_le z
    rw [u64Sub_of_le h₁ (by omega), u64_of_lt (by omega)]
    have h₃ : ((s.zones z.idx).totalFrames - (s.zones z.idx).freeFrames) * 100
        ≤ (s.zones z.idx).totalFrames * 100 := Nat.mul_le_mul_right _ (Nat.sub_le _ _)
    have h₄ := Nat.div_le_of_le_mul h₃
    exact (Nat.mod_le _ _).trans h₄

/-- The zones cut the tracked frames into adjacent ranges; the fourth is empty. -/
private theorem zoneFree_sum (s : PhysicalMemoryManager) :
    (s.zoneFree .dma).card + (s.zoneFree .dma32).card + (s.zoneFree .normal).card +
      (s.zoneFree .highMem).card = (Bitmap.clearBits s.bitmap 0 s.totalFrames).card := by
  have hdisj : ∀ z z' : MemoryZone, z ≠ z' → Disjoint (s.zoneFree z) (s.zoneFree z') := by
    intro z z' hne
    rw [Finset.disjoint_left]
    intro f h₁ h₂
    rw [mem_zoneFree] at h₁ h₂
    exact hne (h₁.2.symm.trans h₂.2)
  have hunion : Bitmap.clearBits s.bitmap 0 s.totalFrames =
      ((s.zoneFree .dma ∪ s.zoneFree .dma32) ∪ s.zoneFree .normal) ∪ s.zoneFree .highMem := by
    ext f
    simp only [Finset.mem_union, mem_zoneFree, Bitmap.mem_clearBits, Free]
    cases MemoryZone.fromAddress (f*4096) <;> simp
  have h₁ := hdisj .dma .dma32 (by decide)
  have h₂ : Disjoint (s.zoneFree .dma ∪ s.zoneFree .dma32) (s.zoneFree .normal) :=
    Finset.disjoint_union_left.mpr ⟨hdisj _ _ (by decide), hdisj _ _ (by decide)⟩
  have h₃ : Disjoint (s.zoneFree .dma ∪ s.zoneFree .dma32 ∪ s.zoneFree .normal) (s.zoneFree .highMem) :=
    Finset.disjoint_union_left.mpr ⟨Finset.disjoint_union_left.mpr
      ⟨hdisj _ _ (by decide), hdisj _ _ (by decide)⟩, hdisj _ _ (by decide)⟩
  rw [hunion, Finset.card_union_of_disjoint h₃, Finset.card_union_of_disjoint h₂,
    Finset.card_union_of_disjoint h₁]

private theorem ZoneCounts.allocates (h : ZoneCounts s) (z : MemoryZone) :
    (∃ addr t, allocFrameInZone z s = (.ok addr, t)) ↔
      ∃ f, s.Free f ∧ MemoryZone.fromAddress (f*4096) = z := by
  constructor
  · rintro ⟨addr, t, he⟩
    obtain ⟨f, _, hf, hz, _⟩ := allocFrameInZone_ok he
    exact ⟨f, hf, hz.symm⟩
  · rintro ⟨f, hf, hz⟩
    rcases he : allocFrameInZone z s with ⟨_ | addr, t⟩
    · have hmem : f ∈ s.zoneFree z := mem_zoneFree.mpr ⟨hf, hz⟩
      rcases (allocFrameInZone_error he).2 with hzero | hall
      · rw [h.counted, Finset.card_eq_zero] at hzero
        rw [hzero] at hmem
        cases hmem
      · obtain ⟨h₁, h₂⟩ := (MemoryZone.fromAddress_iff hf.1 s.total_le z).mp hz
        have := hall f h₁ h₂
        rw [hf.2] at this
        cases this
    · exact ⟨addr, t, rfl⟩

theorem ZoneCounts.accounting (h : ZoneCounts s) : ZoneAccounting s where
  counted := h.counted
  summed := by
    rw [← zoneFree_sum, ← h.counted .dma, ← h.counted .dma32, ← h.counted .normal, ← h.counted .highMem]
    rfl
  percent := h.percent
  allocates := h.allocates

/-! ### The tracked calls keep the counts -/

private theorem bumpZone_total (zones : Fin 4 → ZoneStats) (z : MemoryZone) (f : Nat → Nat) (i : Fin 4) :
    (bumpZone zones z f i).totalFrames = (zones i).totalFrames := by
  rw [bumpZone, Function.update_apply]
  split
  · rename_i hi
    rw [hi]
  · rfl

private theorem bumpZone_free (zones : Fin 4 → ZoneStats) (z z' : MemoryZone) (f : Nat → Nat) :
    (bumpZone zones z f z'.idx).freeFrames =
      if z' = z then f (zones z.idx).freeFrames else (zones z'.idx).freeFrames := by
  rw [bumpZone, Function.update_apply]
  by_cases hz : z' = z
  · rw [if_pos (congrArg _ hz), if_pos hz]
  · rw [if_neg (fun he => hz (MemoryZone.idx_injective he)), if_neg hz]

/-- One frame taken, its zone debited. -/
private theorem ZoneCounts.take (h : ZoneCounts s) {f : Nat} (hf : s.Free f)
    (ht : t.totalFrames = s.totalFrames)
    (hb : ∀ k, Bitmap.test t.bitmap k = (decide (k = f) || Bitmap.test s.bitmap k))
    (hz : t.zones = bumpZone s.zones (.fromAddress (f*4096)) (u64Sub · 1)) : ZoneCounts t where
  counted z := by
    have hrange := MemoryZone.fromAddress_iff hf.1 s.total_le z
    have hz₁ := h.free_le z
    have hz₂ := h.total_le z
    have hz₃ := h.counted z
    rw [hz, bumpZone_free, zoneFree, ht]
    split
    · rename_i he
      have := Bitmap.clearBits_card_set hf.2 hb (hrange.mp he.symm)
      rw [← zoneFree, ← hz₃] at this
      rw [← he, u64Sub_of_le (by omega) (by omega)]
      omega
    · rename_i hne
      rw [Bitmap.clearBits_card_set_outside hb (fun hin => hne (hrange.mpr hin).symm)]
      exact hz₃
  sized z := by
    rw [hz, bumpZone_total, ht]
    exact h.sized z

/-- One frame given back, its zone credited. -/
theorem ZoneCounts.giving (h : ZoneCounts s) {f : Nat} (hlt : f < s.totalFrames)
    (hf : Bitmap.test s.bitmap f = true) : ZoneCounts (s.giving f) where
  counted z := by
    have hrange := MemoryZone.fromAddress_iff hlt s.total_le z
    have hz₁ := h.free_le z
    have hz₂ := h.total_le z
    have hz₃ := h.counted z
    have hb := test_giving (s := s) f
    change (bumpZone s.zones _ _ z.idx).freeFrames = _
    rw [bumpZone_free, zoneFree, giving_total]
    split
    · rename_i he
      rw [Bitmap.clearBits_card_clear hf hb (hrange.mp he.symm), ← he, u64_of_lt (by omega), hz₃]
      rfl
    · rename_i hne
      rw [Bitmap.clearBits_card_clear_outside hb (fun hin => hne (hrange.mpr hin).symm)]
      exact hz₃
  sized z := by
    change (bumpZone s.zones _ _ z.idx).totalFrames = _
    rw [bumpZone_total]
    exact h.sized z

theorem ZoneCounts.takeRun (h : ZoneCounts s) {first n : Nat} (hf : ∀ k < n, s.Free (first+k)) :
    ZoneCounts (PhysicalMemoryManager.takeRun first n s) := by
  induction n generalizing first s with
  | zero => exact h
  | succ n ih =>
    have hfirst : s.Free first := hf 0 (by omega)
    have hlt := hfirst.1
    have hle := s.total_le
    have haddr : u64 (first*4096) = first*4096 := u64_of_lt (by omega)
    have hnext : u64 (first+1) = first+1 := u64_of_lt (by omega)
    rw [PhysicalMemoryManager.takeRun, hnext, haddr]
    have hone := h.take (t := { s with
      bitmap := Bitmap.setAt s.bitmap (first/8) (first%8)
      zones := bumpZone s.zones (.fromAddress (first*4096)) (u64Sub · 1) })
      hfirst rfl (Bitmap.test_set s.bitmap first) rfl
    refine ih hone fun k hk => ?_
    have hk' := hf (k+1) (by omega)
    have hne : first+1+k ≠ first := by omega
    refine ⟨by simpa [Nat.add_assoc, Nat.add_comm 1 k] using hk'.1, ?_⟩
    rw [Bitmap.test_set, decide_eq_false hne, Bool.false_or]
    simpa [Nat.add_assoc, Nat.add_comm 1 k] using hk'.2

theorem allocFrameInZone_zoneCounts (z : MemoryZone) : Fallible.Keeps ZoneCounts (allocFrameInZone z) := by
  intro s h
  rcases he : allocFrameInZone z s with ⟨_ | addr, t⟩
  · rwa [(allocFrameInZone_error he).1]
  · obtain ⟨f, _, hf, rfl, _, rfl⟩ := allocFrameInZone_ok he
    exact h.take hf rfl (test_taking f · _) rfl

theorem freeFrame_zoneCounts (addr : Nat) : Fallible.Keeps ZoneCounts (freeFrame addr) := by
  intro s h
  rcases freeFrame_run addr s with ⟨_, hlt, hb, he⟩ | ⟨_, e, he⟩
  · rw [he]
    exact h.giving hlt hb
  · rwa [he]

theorem freeFramesContiguous_zoneCounts (baseAddr count : Nat) :
    Fallible.Keeps ZoneCounts (freeFramesContiguous baseAddr count) := by
  intro s h
  rw [freeFramesContiguous]
  split_ifs
  · exact h
  · exact h
  · exact Fallible.Keeps.forRange (fun _ => freeFrame_zoneCounts _) 0 count s h

/-- A run of two or more frames, or of one frame in a named zone. -/
theorem allocFramesContiguous_zoneCounts {count : Nat} {zone : Option MemoryZone}
    (hc : ¬ (count = 1 ∧ zone = none)) : Fallible.Keeps ZoneCounts (allocFramesContiguous count zone) := by
  by_cases h1 : count = 1
  · subst h1
    rw [allocFramesContiguous_one]
    cases zone with
    | some z => exact allocFrameInZone_zoneCounts z
    | none => exact absurd ⟨rfl, rfl⟩ hc
  · intro s h
    rcases he : allocFramesContiguous count zone s with ⟨_ | addr, t⟩
    · rwa [allocFramesContiguous_error he]
    · obtain ⟨_, first, _, hf, rfl⟩ := allocFramesContiguous_ok h1 he
      have := h.takeRun hf
      exact ⟨this.counted, this.sized⟩

/-! ### Runs -/

/-- The calls that change bits without looking at the zones: not part of the zones' accounting. -/
def Call.Marks : Call → Prop
  | .markRegionUsed _ _ => True
  | .markRegionFree _ _ => True
  | _ => False

/-- The calls that take a frame and leave every zone counter as it is. -/
def Call.Untracked : Call → Prop
  | .allocFrame => True
  | .allocFramesContiguous count zone => count = 1 ∧ zone = none
  | _ => False

theorem Call.Untracked.apply_eq {c : Call} (h : c.Untracked) : c.apply s = (PhysicalMemoryManager.allocFrame s).2 := by
  cases c with
  | allocFrame => rfl
  | allocFramesContiguous n z =>
    obtain ⟨rfl, rfl⟩ := h
    rw [Call.apply, allocFramesContiguous_one]
  | _ => exact h.elim

theorem Call.apply_zoneCounts (h : ZoneCounts s) {c : Call} (hm : ¬ c.Marks) (hu : ¬ c.Untracked) :
    ZoneCounts (c.apply s) := by
  cases c with
  | allocFrame => exact absurd trivial hu
  | allocFrameInZone z => exact allocFrameInZone_zoneCounts z s h
  | allocFramesContiguous n z => exact allocFramesContiguous_zoneCounts hu s h
  | freeFrame a => exact freeFrame_zoneCounts a s h
  | freeFramesContiguous b n => exact freeFramesContiguous_zoneCounts b n s h
  | markRegionUsed b l => exact absurd trivial hm
  | markRegionFree b l => exact absurd trivial hm

/-- When `alloc_frame` finds nothing to give, it leaves the state alone. -/
theorem allocFrame_idle (h : s.freeFrames = 0 ∨ ∀ f, ¬ s.Free f) : (allocFrame s).2 = s := by
  rcases he : allocFrame s with ⟨_ | addr, t⟩
  · exact allocFrame_error he
  · obtain ⟨f, _, hf, hz, _⟩ := allocFrame_ok he
    rcases h with h | h
    · exact absurd h hz
    · exact absurd hf (h f)

/-- When it does give a frame, the counter of that frame's zone is one too high. -/
theorem allocFrame_miscounts (h : ∀ z : MemoryZone, (s.zones z.idx).freeFrames = (s.zoneFree z).card)
    (hhint : s.lastAllocIndex < s.bitmapSize) (hc : s.freeFrames ≠ 0) {f : Nat} (hf : s.Free f) :
    ¬ ∀ z : MemoryZone, ((allocFrame s).2.zones z.idx).freeFrames = ((allocFrame s).2.zoneFree z).card := by
  intro h'
  rcases he : allocFrame s with ⟨_ | addr, t⟩
  · rcases allocFrame_fails hhint he with hz | hn
    · exact hc hz
    · exact hn f hf
  · obtain ⟨g, _, hg, _, rfl⟩ := allocFrame_ok he
    rw [he] at h'
    have hin := (MemoryZone.fromAddress_iff hg.1 s.total_le _).mp rfl
    have h₁ := Bitmap.clearBits_card_set hg.2 (test_taking g · s.zones) hin
    have h₂ := h (.fromAddress (g*4096))
    have h₃ := h' (.fromAddress (g*4096))
    rw [zoneFree] at h₂ h₃
    simp only [taking_total] at h₃
    change (s.zones _).freeFrames = _ at h₃
    omega

/-- A bitmap with a byte in it has a valid hint. -/
def HintValid (s : PhysicalMemoryManager) : Prop := 0 < s.bitmapSize → s.lastAllocIndex < s.bitmapSize

private theorem allocFrame_hint : Fallible.Keeps HintValid allocFrame := by
  intro s h
  rcases he : allocFrame s with ⟨_ | addr, t⟩
  · rwa [allocFrame_error he]
  · obtain ⟨f, _, hf, _, rfl⟩ := allocFrame_ok he
    exact fun _ => index_lt_size hf.1

private theorem allocFrameInZone_hint (z : MemoryZone) : Fallible.Keeps HintValid (allocFrameInZone z) := by
  intro s h
  rcases he : allocFrameInZone z s with ⟨_ | addr, t⟩
  · rwa [(allocFrameInZone_error he).1]
  · obtain ⟨f, _, hf, _, _, rfl⟩ := allocFrameInZone_ok he
    exact fun _ => index_lt_size hf.1

private theorem allocFramesContiguous_hint (count : Nat) (zone : Option MemoryZone) :
    Fallible.Keeps HintValid (allocFramesContiguous count zone) := by
  by_cases hc : count = 1
  · subst hc
    rw [allocFramesContiguous_one]
    cases zone with
    | some z => exact allocFrameInZone_hint z
    | none => exact allocFrame_hint
  · intro s h
    rcases he : allocFramesContiguous count zone s with ⟨_ | addr, t⟩
    · rwa [allocFramesContiguous_error he]
    · obtain ⟨_, first, _, _, rfl⟩ := allocFramesContiguous_ok hc he
      simpa [HintValid] using h

private theorem freeFrame_hint (addr : Nat) : Fallible.Keeps HintValid (freeFrame addr) := by
  intro s h
  rcases freeFrame_run addr s with ⟨_, hlt, _, he⟩ | ⟨_, e, he⟩
  · rw [he]
    intro hpos
    have h₁ := index_lt_size hlt
    have h₂ := h hpos
    change (if addr/4096/8 < s.lastAllocIndex then addr/4096/8 else s.lastAllocIndex) < s.bitmapSize
    split <;> assumption
  · rwa [he]

theorem Call.apply_hint (h : HintValid s) {c : Call} (hm : ¬ c.Marks) : HintValid (c.apply s) := by
  cases c with
  | allocFrame => exact allocFrame_hint s h
  | allocFrameInZone z => exact allocFrameInZone_hint z s h
  | allocFramesContiguous n z => exact allocFramesContiguous_hint n z s h
  | freeFrame a => exact freeFrame_hint a s h
  | freeFramesContiguous b n =>
    change HintValid (PhysicalMemoryManager.freeFramesContiguous b n s).2
    rw [PhysicalMemoryManager.freeFramesContiguous]
    split_ifs
    · exact h
    · exact h
    · exact Fallible.Keeps.forRange (fun _ => freeFrame_hint _) 0 n s h
  | markRegionUsed b l => exact absurd trivial hm
  | markRegionFree b l => exact absurd trivial hm

/-- The state before an untracked call that keeps the zone counts: nothing will be handed out. -/
def Exhausted (s : PhysicalMemoryManager) : Prop := s.freeFrames = 0 ∨ ∀ f, ¬ s.Free f

/-- From exact counts, a call leaves exact counts unless it is an untracked allocation that
hands a frame out. -/
theorem Call.apply_zoneCounts_of (h : ZoneCounts s) {c : Call} (hm : ¬ c.Marks)
    (hu : c.Untracked → s.Exhausted) : ZoneCounts (c.apply s) := by
  by_cases hc : c.Untracked
  · rwa [hc.apply_eq, allocFrame_idle (hu hc)]
  · exact c.apply_zoneCounts h hm hc

theorem Call.exhausted_of_counted (h : ZoneCounts s) (hh : HintValid s) {c : Call} (hu : c.Untracked)
    (h' : ZoneAccounting (c.apply s)) : s.Exhausted := by
  by_contra hn
  simp only [Exhausted, not_or, not_forall, not_not] at hn
  obtain ⟨hc, f, hf⟩ := hn
  have hpos : 0 < s.bitmapSize := Nat.zero_lt_of_lt (index_lt_size hf.1)
  have := h'.counted
  rw [hu.apply_eq] at this
  exact allocFrame_miscounts h.counted (hh hpos) hc hf this

/-- From exact counts, the statistics are exact all along a run exactly if every untracked
allocation in it came when there was nothing to give. -/
theorem run_zoneAccounting_iff (h : ZoneCounts s) (hh : HintValid s) {calls : List Call}
    (hm : ∀ c ∈ calls, ¬ c.Marks) : (∀ pre, pre <+: calls → ZoneAccounting (s.run pre)) ↔
      ∀ pre c, pre ++ [c] <+: calls → c.Untracked → (s.run pre).Exhausted := by
  induction calls generalizing s with
  | nil =>
    constructor
    · intro _ pre c hp
      simp at hp
    · intro _ pre hp
      rw [List.prefix_nil.mp hp]
      exact h.accounting
  | cons c calls ih =>
    obtain ⟨hmc, hms⟩ := List.forall_mem_cons.mp hm
    constructor
    · intro hall
      have hone : c.Untracked → s.Exhausted := fun hu =>
        c.exhausted_of_counted h hh hu (hall [c] (by simp))
      have hnext := c.apply_zoneCounts_of h hmc hone
      have hrest := (ih hnext (c.apply_hint hh hmc) hms).mp fun pre hp =>
        hall (c :: pre) (by simpa using hp)
      intro pre d hp hu
      cases pre with
      | nil =>
        obtain ⟨rfl, _⟩ := List.cons_prefix_cons.mp hp
        exact hone hu
      | cons b pre =>
        obtain ⟨rfl, hp'⟩ := List.cons_prefix_cons.mp hp
        exact hrest pre d hp' hu
    · intro hall pre hp
      have hone : c.Untracked → s.Exhausted := hall [] c (by simp)
      have hnext := c.apply_zoneCounts_of h hmc hone
      cases pre with
      | nil => exact h.accounting
      | cons b pre =>
        obtain ⟨rfl, hp'⟩ := List.cons_prefix_cons.mp hp
        refine (ih hnext (b.apply_hint hh hmc) hms).mpr (fun pre d hp => ?_) pre hp'
        exact hall (b :: pre) d (by simpa using hp)

/-! ### After `init` -/

private theorem initZones_sized (total : Nat) (ht : total ≤ 2^52-1) (z : MemoryZone) :
    (initZones total z.idx).totalFrames = z.frameEnd total - z.frameStart := by
  have hd : dmaZoneEnd / 4096 = 4096 := by decide
  have hd32 : dma32ZoneEnd / 4096 = 1048576 := by decide
  have htop : (2^64-1) / 4096 = 2^52-1 := by decide
  unfold MemoryZone.frameEnd MemoryZone.frameStart
  cases z with
  | dma =>
    change (if total < dmaZoneEnd/4096 then total else dmaZoneEnd/4096) = min (dmaZoneEnd/4096) total - 0/4096
    rw [hd]
    split <;> omega
  | dma32 =>
    change (if total > dmaZoneEnd/4096 then
      if total < dma32ZoneEnd/4096 then total - dmaZoneEnd/4096 else dma32ZoneEnd/4096 - dmaZoneEnd/4096
      else 0) = min (dma32ZoneEnd/4096) total - dmaZoneEnd/4096
    rw [hd, hd32]
    split_ifs <;> omega
  | normal =>
    change (if total > dma32ZoneEnd/4096 then total - dma32ZoneEnd/4096 else 0) =
      min ((2^64-1)/4096) total - dma32ZoneEnd/4096
    rw [hd32, htop]
    split <;> omega
  | highMem =>
    change 0 = min ((2^64-1)/4096) total - (2^64-1)/4096
    rw [htop]
    omega

private theorem initZones_free (total : Nat) (z : MemoryZone) : (initZones total z.idx).freeFrames = 0 := by
  cases z <;> rfl

theorem init_hint {m : MemoryMap} {mem : Bytes} (h : init m mem = .ok s) : HintValid s := by
  obtain ⟨_, _, _, _, hlast, _⟩ := init_ok h
  intro hpos
  rwa [hlast]

/-- `init` leaves every zone counter at zero: they are right only if nothing is free. -/
theorem init_counted_iff {m : MemoryMap} {mem : Bytes} (h : init m mem = .ok s) :
    (∀ z : MemoryZone, (s.zones z.idx).freeFrames = (s.zoneFree z).card) ↔ ∀ f, ¬ s.Free f := by
  obtain ⟨_, _, _, _, _, hz, _⟩ := init_ok h
  rw [hz]
  constructor
  · intro hc f hf
    have := hc (.fromAddress (f*4096))
    rw [initZones_free, eq_comm, Finset.card_eq_zero, Finset.eq_empty_iff_forall_notMem] at this
    exact this f (mem_zoneFree.mpr ⟨hf, rfl⟩)
  · intro hn z
    rw [initZones_free, eq_comm, Finset.card_eq_zero, Finset.eq_empty_iff_forall_notMem]
    exact fun f hf => hn f (mem_zoneFree.mp hf).1

theorem init_sized {m : MemoryMap} {mem : Bytes} (h : init m mem = .ok s) (z : MemoryZone) :
    (s.zones z.idx).totalFrames = z.frameEnd s.totalFrames - z.frameStart := by
  obtain ⟨_, _, ht, _, _, hz, _⟩ := init_ok h
  rw [hz, ht]
  exact initZones_sized _ (ht ▸ s.total_le) z

private theorem init_none_free_iff {m : MemoryMap} {mem : Bytes} (h : init m mem = .ok s) :
    (∀ f, ¬ s.Free f) ↔ ∀ base, m.bitmapBase = some base →
      ∀ f < m.totalFrames, Offered m f → Reserved m base f := by
  obtain ⟨base, hb, _⟩ := init_ok h
  simp only [init_free_iff h hb, hb, Option.some.injEq, forall_eq', not_and, not_not]

/-- The statistics are exact all along a run from `init` exactly if the boot map left no frame
free and every `alloc_frame`, or contiguous request for one frame anywhere, found nothing. -/
theorem init_run_zoneAccounting_iff {m : MemoryMap} {mem : Bytes} {s₀ : PhysicalMemoryManager}
    (hi : init m mem = .ok s₀) {calls : List Call} (hm : ∀ c ∈ calls, ¬ c.Marks) :
    (∀ pre, pre <+: calls → ZoneAccounting (s₀.run pre)) ↔
      (∀ base, m.bitmapBase = some base → ∀ f < m.totalFrames, Offered m f → Reserved m base f) ∧
      ∀ pre c, pre ++ [c] <+: calls → c.Untracked → (s₀.run pre).Exhausted := by
  rw [← init_none_free_iff hi, ← init_counted_iff hi]
  constructor
  · intro hall
    have h : ZoneCounts s₀ := ⟨(hall [] List.nil_prefix).counted, init_sized hi⟩
    exact ⟨h.counted, (run_zoneAccounting_iff h (init_hint hi) hm).mp hall⟩
  · rintro ⟨hc, hall⟩
    exact (run_zoneAccounting_iff ⟨hc, init_sized hi⟩ (init_hint hi) hm).mpr hall

/-- One usable frame, which the bitmap takes. -/
def oneFrame : MemoryMap := ⟨0x7000, [⟨11*1024*1024, 4096, 1, 0⟩]⟩

private theorem oneFrame_base : oneFrame.bitmapBase = some (11*1024*1024) := by decide

private theorem oneFrame_offered {f : Nat} (h : Offered oneFrame f) : f = 2816 := by
  obtain ⟨e, he, _, h₁, h₂⟩ := h
  obtain rfl := List.mem_singleton.mp he
  have hframes : MemoryMap.entryFrames ⟨11*1024*1024, 4096, 1, 0⟩ = (2816, 2817) := by decide
  rw [hframes] at h₁ h₂
  dsimp only at h₁ h₂
  omega

theorem init_run_zoneAccounting_oneFrame : ∃ s₀, init oneFrame onesMemory = .ok s₀ ∧
    ∀ pre, pre <+: [.freeFrame (11*1024*1024), .allocFrameInZone .dma] → ZoneAccounting (s₀.run pre) := by
  obtain ⟨s₀, hi⟩ := init_of_base (by decide) oneFrame_base onesMemory
  refine ⟨s₀, hi, (init_run_zoneAccounting_iff hi ?_).mpr ⟨?_, ?_⟩⟩
  · simp [Call.Marks]
  · intro base hb f _ hf
    obtain rfl : base = 11*1024*1024 := Option.some.inj (hb.symm.trans oneFrame_base)
    rw [oneFrame_offered hf]
    exact ⟨(2816, 2817), by decide, by decide, by decide⟩
  · intro pre c hp hu
    have hc : c ∈ [Call.freeFrame (11*1024*1024), .allocFrameInZone .dma] :=
      hp.subset (List.mem_append_right pre List.mem_cons_self)
    simp only [List.mem_cons, List.not_mem_nil, or_false] at hc
    rcases hc with rfl | rfl <;> exact hu.elim

/-- Frame 2817 is free right after `init` of one bank, yet the DMA zone counts nothing and
its search refuses. -/
theorem oneBank_zoneAccounting_fails : ∃ s₀, init oneBank onesMemory = .ok s₀ ∧ s₀.Free 2817 ∧
    MemoryZone.fromAddress (2817*4096) = .dma ∧ (s₀.zones MemoryZone.dma.idx).freeFrames = 0 ∧
    (allocFrameInZone .dma s₀).1 = .error ⟨10, "No free frames in requested zone!", false⟩ ∧
    ¬ ZoneAccounting s₀ := by
  obtain ⟨s₀, hi⟩ := init_of_base (by decide) oneBank_base onesMemory
  have hf := oneBank_free hi
  obtain ⟨_, _, _, _, _, hz, _⟩ := init_ok hi
  have hzero : (s₀.zones MemoryZone.dma.idx).freeFrames = 0 := by
    rw [hz]
    exact initZones_free _ .dma
  refine ⟨s₀, hi, hf, by decide, hzero, by rw [allocFrameInZone, if_pos hzero], fun ha => ?_⟩
  exact (init_counted_iff hi).mp ha.counted _ hf

end Nafuraito.Memory.PhysicalMemoryManager
