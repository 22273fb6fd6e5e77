import Nafuraito.Memory.DemandPages

/-! Runs of demand paging: every populated page has a frame of its own, and `munmap` gives back
exactly the frames of its pages and the tables that became empty. -/
namespace Nafuraito.Memory
open Nafuraito.Library
open PageTableEntry (FlagBits)
open PhysicalMemoryManager (FreeIn Tracks)

inductive DemandAction where
  | mmap (start : VirtAddr) (size : BitVec 64) (flags : PageTableFlags) (backing : BackingKind)
  | mmapFile (start : VirtAddr) (size : BitVec 64) (flags : PageTableFlags) (file : FileBacking)
  | fault (faultAddr : VirtAddr) (errorCode : BitVec 64)
  | munmap (start : VirtAddr) (size : BitVec 64)

/-- The page numbers of a call. -/
def callPages (start : VirtAddr) (size : BitVec 64) : Set Nat :=
  Set.Ico (start.addr.toNat/4096) ((start.addr.toNat + size.toNat + 4095)/4096)

namespace DemandAction

/-- The machine after a call, whatever it returns. -/
def after : DemandAction → Machine → Machine
  | mmap start size flags backing, s => (Machine.mmap start size flags backing s).2
  | mmapFile start size flags file, s => (Machine.mmapFile start size flags file s).2
  | fault faultAddr errorCode, s => (Machine.handleDemandPageFault faultAddr errorCode s).2
  | munmap start size, s => (Machine.munmap start size s).2

/-- The call is about pages of the area, and its flags keep out of the address bits. -/
def Within (area : Set Nat) : DemandAction → Prop
  | mmap start size flags _ | mmapFile start size flags _ => callPages start size ⊆ area ∧ FlagBits flags
  | fault _ _ => True
  | munmap start size => callPages start size ⊆ area

end DemandAction

/-- The frames given back from one state to another. -/
def returned (s t : Machine) : Set Nat := {f | FreeIn t.pmm f ∧ ¬ FreeIn s.pmm f}

namespace PagingManager
open Machine (pageAddr)
variable {m : PagingManager} {area : Set Nat} {s s₀ t : Machine} {start : VirtAddr} {size lo hi : BitVec 64}

/-- The machines reached from `s₀` by calls about pages of the area, each returning anything. -/
inductive DemandRun (area : Set Nat) (s₀ : Machine) : Machine → Prop where
  | start : DemandRun area s₀ s₀
  | step {s : Machine} (a : DemandAction) : DemandRun area s₀ s → a.Within area → DemandRun area s₀ (a.after s)

/-! ### The registry -/

theorem mem_callPages (h : PageRange start size lo hi) (p : Nat) :
    p ∈ callPages start size ↔ lo.toNat/4096 ≤ p ∧ p < hi.toNat/4096 := by
  have h₁ := h.lo_eq
  have h₂ := h.hi_eq
  rw [callPages, Set.mem_Ico]
  omega

theorem Registered.mmap (h : Registered area s.regions) {flags : PageTableFlags} (hbits : FlagBits flags)
    (hin : callPages start size ⊆ area) (backing : BackingKind) :
    Registered area (Machine.mmap start size flags backing s).2.regions := by
  refine ⟨Machine.mmap_keeps h.ok start size flags backing, fun a r hr => ?_⟩
  rcases Machine.mmap_run start size flags backing s with ⟨_, he⟩ | ⟨i, lo, hi, _, hrange, _, he⟩ <;> rw [he] at hr
  · exact h.flags a r hr
  · rcases Slots.at_update.mp hr with ⟨hr, ha⟩ | ⟨j, _, hr, ha⟩
    · obtain rfl := Option.some.inj hr
      have h₁ : lo.toNat ≤ a := ha.1
      have h₂ : a < hi.toNat := ha.2
      have h₃ := hrange.hi_eq
      exact ⟨hbits, hin ((mem_callPages hrange _).mpr (by omega))⟩
    · exact h.flags a r ⟨j, hr, ha⟩

theorem Registered.munmap (h : Registered area s.regions) (start : VirtAddr) (size : BitVec 64) :
    Registered area (Machine.munmap start size s).2.regions := by
  refine ⟨Machine.munmap_keeps h.ok start size, fun a r hr => ?_⟩
  rcases Machine.munmap_run start size s with ⟨_, t, he, hsame, -⟩ | ⟨lo, hi, u, hrange, -, he⟩ <;> rw [he] at hr
  · rw [hsame] at hr
    exact h.flags a r hr
  · have hmod := hrange.lo_eq
    have hmod' := hrange.hi_eq
    obtain ⟨-, hpieces, -⟩ := Regions.cut_spec h.ok (by omega) (by omega) hrange.lt (Prod.eta _).symm
    obtain ⟨q, hq, hc⟩ := hpieces a r hr
    obtain ⟨hbits, hin⟩ := h.flags a q hq
    exact ⟨hc.flags ▸ hbits, hin⟩

/-! ### The run -/

/-- The invariant of a run. -/
structure DemandOk (m : PagingManager) (area : Set Nat) (s : Machine) : Prop where
  pages : m.DemandPages area s
  registry : Registered area s.regions

theorem DemandPages.regions (h : m.DemandPages area s) (regions : Regions) :
    m.DemandPages area { s with regions := regions } :=
  ⟨h.paging, h.wellFormed, h.used, h.small, h.data, h.tracked, h.once⟩

private theorem DemandOk.mmap (h : m.DemandOk area s) {flags : PageTableFlags} (hbits : FlagBits flags)
    (hin : callPages start size ⊆ area) (backing : BackingKind) :
    m.DemandOk area (Machine.mmap start size flags backing s).2 := by
  refine ⟨?_, h.registry.mmap hbits hin backing⟩
  rcases Machine.mmap_run start size flags backing s with ⟨_, he⟩ | ⟨i, lo, hi, _, _, _, he⟩ <;> rw [he]
  · exact h.pages
  · exact h.pages.regions _

private theorem DemandOk.munmap (h : m.DemandOk area s) (ha : m.PageArea area) (hin : callPages start size ⊆ area) :
    m.DemandOk area (Machine.munmap start size s).2 := by
  refine ⟨?_, h.registry.munmap start size⟩
  have hkeeps (lo hi : BitVec 64) (hrange : PageRange start size lo hi) :
      m.DemandPages area (Machine.releasePages lo hi s).2 :=
    releasePages_keeps h.pages ha fun p h₁ h₂ => hin ((mem_callPages hrange p).mpr ⟨h₁, h₂⟩)
  rcases Machine.munmap_run start size s with ⟨_, t, he, -, rfl | ⟨lo, hi, hrange, hr⟩⟩ |
    ⟨lo, hi, u, hrange, hr, he⟩ <;> rw [he]
  · exact h.pages
  · have := hkeeps lo hi hrange
    rwa [hr] at this
  · have := hkeeps lo hi hrange
    rw [hr] at this
    exact this.regions _

theorem DemandOk.after (h : m.DemandOk area s) (ha : m.PageArea area) {a : DemandAction} (hw : a.Within area) :
    m.DemandOk area (a.after s) := by
  cases a with
  | mmap start size flags backing => exact h.mmap hw.2 hw.1 backing
  | mmapFile start size flags file =>
    change m.DemandOk area (Machine.mmapFile start size flags file s).2
    rcases Machine.mmapFile_run start size flags file s with ⟨_, he⟩ | he <;> rw [he]
    · exact h
    · exact h.mmap hw.2 hw.1 _
  | fault faultAddr errorCode =>
    obtain ⟨hpages, hregions⟩ := handleDemandPageFault_keeps h.pages ha h.registry faultAddr errorCode
    exact ⟨hpages, hregions ▸ h.registry⟩
  | munmap start size => exact h.munmap ha hw

theorem DemandRun.ok (hr : DemandRun area s₀ s) (ha : m.PageArea area) (h : m.DemandOk area s₀) :
    m.DemandOk area s := by
  induction hr with
  | start => exact h
  | step a _ hw ih => exact ih.after ha hw

/-- A `munmap` that returns `Ok` gives back the frames of its pages and the emptied tables. -/
theorem munmap_returned (h : m.DemandPages area s) (ha : m.PageArea area) (hin : callPages start size ⊆ area)
    (hok : Machine.munmap start size s = (.ok (), t)) :
    returned s t = {f | ∃ p ∈ callPages start size, m.mappedFrame s p = some f} ∪ {f | m.Emptied s t f} := by
  rcases Machine.munmap_run start size s with ⟨_, u, he, -⟩ | ⟨lo, hi, u, hrange, hr, he⟩ <;> rw [he] at hok
  · cases hok
  obtain ⟨-, rfl⟩ := Prod.mk.inj hok
  have hpages := mem_callPages hrange
  have hreleased := releasePages_released h ha (fun p h₁ h₂ => hin ((hpages p).mpr ⟨h₁, h₂⟩)) hr
  ext f
  change FreeIn u.pmm f ∧ ¬ FreeIn s.pmm f ↔ (∃ p ∈ callPages start size, m.mappedFrame s p = some f) ∨ m.Emptied s u f
  rw [hreleased.free]
  constructor
  · rintro ⟨hfree | hem | ⟨p, h₁, h₂, hf⟩, hused⟩
    · exact absurd hfree hused
    · exact .inr hem
    · exact .inl ⟨p, (hpages p).mpr ⟨h₁, h₂⟩, hf⟩
  · rintro (⟨p, hp, hf⟩ | hem)
    · obtain ⟨h₁, h₂⟩ := (hpages p).mp hp
      exact ⟨.inr (.inr ⟨p, h₁, h₂, hf⟩), (h.data p (hin hp) f hf).2⟩
    · obtain ⟨l, hl⟩ := hem.2.1
      exact ⟨.inr (.inl hem), h.used l f hl⟩

/-- From a hierarchy whose tables are used and in which nothing of the area is mapped: in every
machine reached no two pages of the area are mapped to one frame, each such frame is tracked, used
and no table, and each `munmap` that returns `Ok` gives back exactly the frames of its pages and
the tables, other than the root, that became empty. -/
theorem demandRun_conserves (hm : s₀.paging = some m) (hwf : m.WellFormed s₀.mem) (hu : m.TablesUsed s₀)
    (hregions : ∀ i, s₀.regions i = none) (ha : m.PageArea area)
    (hnone : ∀ p ∈ area, m.leaf s₀.mem (pageAddr p) = none) (hr : DemandRun area s₀ s) :
    (∀ p ∈ area, ∀ q ∈ area, ∀ f, m.mappedFrame s p = some f → m.mappedFrame s q = some f → p = q) ∧
    (∀ p ∈ area, ∀ f, m.mappedFrame s p = some f →
      (∃ pmm, s.pmm = some pmm ∧ f < pmm.totalFrames ∧ pmm.isFrameUsed (f*4096) = true) ∧ ∀ l, ¬ m.Table s.mem l f) ∧
    ∀ start size t, callPages start size ⊆ area → Machine.munmap start size s = (.ok (), t) →
      returned s t = {f | ∃ p ∈ callPages start size, m.mappedFrame s p = some f} ∪ {f | m.Emptied s t f} := by
  have hempty : s₀.regions.Ok := (Machine.RegistryRun.start hregions).ok
  have hstart : m.DemandOk area s₀ := by
    refine ⟨.start hm hwf hu hnone, hempty, fun a r ⟨i, hi, _⟩ => ?_⟩
    rw [hregions] at hi
    cases hi
  have h := (hr.ok ha hstart).pages
  refine ⟨h.once, fun p hp f hf => ?_, fun start size t hin hok => munmap_returned h ha hin hok⟩
  obtain ⟨htable, hused⟩ := h.data p hp f hf
  obtain ⟨pmm, hpmm, hlt⟩ := h.tracked p hp f hf
  rw [hpmm, PhysicalMemoryManager.not_free_iff] at hused
  exact ⟨⟨pmm, hpmm, hlt, hused⟩, htable⟩

/-! ### Two pages -/

/-- Two pages at 4 MiB are mapped with the flags, and a fault populates each. -/
def populatedMachine (flags : PageTableFlags) : Machine :=
  (Machine.handleDemandPageFault ⟨0x401000#64⟩ 0 (Machine.handleDemandPageFault ⟨0x400000#64⟩ 0
    (Machine.mmap ⟨0x400000#64⟩ 0x2000#64 flags .zeroFill smallMachine).2).2).2

theorem twoPages_area : smallPaging.PageArea (callPages ⟨0x400000#64⟩ 0x2000#64) := by
  intro p hp
  have h₁ : 0x400 ≤ p := hp.1
  have h₂ : p < 0x402 := hp.2
  have hlt : p < 2^52 := by omega
  refine ⟨hlt, .inl ?_⟩
  rw [pageAddr_toNat hlt]
  omega

private theorem populatedMachine_run :
    DemandRun (callPages ⟨0x400000#64⟩ 0x2000#64) smallMachine (populatedMachine ⟨3#64⟩) :=
  .step (.fault ⟨0x401000#64⟩ 0) (.step (.fault ⟨0x400000#64⟩ 0)
    (.step (.mmap ⟨0x400000#64⟩ 0x2000#64 ⟨3#64⟩ .zeroFill) .start ⟨Set.Subset.refl _, by decide⟩) trivial) trivial

/-- The first of the two pages is unmapped. -/
theorem demandRun_conserves_first : ∃ t, Machine.munmap ⟨0x400000#64⟩ 0x1000#64 (populatedMachine ⟨3#64⟩) =
    (.ok (), t) ∧
    returned (populatedMachine ⟨3#64⟩) t =
      {f | ∃ p ∈ callPages ⟨0x400000#64⟩ 0x1000#64, smallPaging.mappedFrame (populatedMachine ⟨3#64⟩) p = some f} ∪
        {f | smallPaging.Emptied (populatedMachine ⟨3#64⟩) t f} := by
  have hok : (Machine.munmap ⟨0x400000#64⟩ 0x1000#64 (populatedMachine ⟨3#64⟩)).1 = .ok () := by decide +kernel
  refine ⟨_, Fallible.run_of_fst hok, (demandRun_conserves (m := smallPaging)
    rfl smallMachine_wellFormed smallMachine_used
    (fun _ => rfl) twoPages_area (fun p _ => smallMachine_unmapped _) populatedMachine_run).2.2 _ _ _ ?_
    (Fallible.run_of_fst hok)⟩
  exact Set.Ico_subset_Ico_right (by decide)

/-- When both pages are unmapped the root becomes empty too, and is not given back; and with flags
that have address bits set both pages are mapped to one frame. -/
theorem root_kept_frame_shared : (smallPaging.WellFormed smallMachine.mem ∧ smallPaging.TablesUsed smallMachine ∧
      (∀ i, smallMachine.regions i = none) ∧ smallPaging.PageArea (callPages ⟨0x400000#64⟩ 0x2000#64) ∧
      ∀ p ∈ callPages ⟨0x400000#64⟩ 0x2000#64, smallPaging.leaf smallMachine.mem (pageAddr p) = none) ∧
    (∃ t, Machine.munmap ⟨0x400000#64⟩ 0x2000#64 (populatedMachine ⟨3#64⟩) = (.ok (), t) ∧
      smallPaging.Table (populatedMachine ⟨3#64⟩).mem 3 1 ∧ (∃ i, (populatedMachine ⟨3#64⟩).mem 1 i ≠ 0) ∧
      (∀ i, t.mem 1 i = 0) ∧ 1 ∉ returned (populatedMachine ⟨3#64⟩) t) ∧
    smallPaging.mappedFrame (populatedMachine ⟨0xF003#64⟩) 0x400 = some 15 ∧
    smallPaging.mappedFrame (populatedMachine ⟨0xF003#64⟩) 0x401 = some 15 := by
  have hok : (Machine.munmap ⟨0x400000#64⟩ 0x2000#64 (populatedMachine ⟨3#64⟩)).1 = .ok () := by decide +kernel
  have hzero : ∀ i, (Machine.munmap ⟨0x400000#64⟩ 0x2000#64 (populatedMachine ⟨3#64⟩)).2.mem 1 i = 0 := by
    decide +kernel
  have hused : (Machine.munmap ⟨0x400000#64⟩ 0x2000#64 (populatedMachine ⟨3#64⟩)).2.pmm.map (·.isFrameUsed (1*4096)) =
      some true := by decide +kernel
  refine ⟨⟨smallMachine_wellFormed, smallMachine_used, fun _ => rfl, twoPages_area, fun p _ => smallMachine_unmapped _⟩,
    ⟨_, Fallible.run_of_fst hok, .root, ⟨0, by decide +kernel⟩, hzero, fun h => ?_⟩, by decide +kernel,
      by decide +kernel⟩
  obtain ⟨q, hq, hbit⟩ := Option.map_eq_some_iff.mp hused
  have hfree := h.1
  rw [hq] at hfree
  exact PhysicalMemoryManager.not_free_iff.mpr hbit hfree

end PagingManager
end Nafuraito.Memory
