import Nafuraito.Memory.UnmapPage

/-! Runs of page-table calls: the tables stay a tree whose frames belong to the paging code. -/
namespace Nafuraito.Memory
open Nafuraito.Library
open PhysicalMemoryManager (FreeIn)

namespace PagingManager
variable {m : PagingManager} {s s₀ t : Machine} {v : VirtAddr}

/-- The machines reached from `s₀` by calls on addresses whose walks meet no huge leaf, each
returning anything, with other code in between that neither writes nor frees a table. -/
inductive TableRun (m : PagingManager) (s₀ : Machine) : Machine → Prop where
  | start : TableRun m s₀ s₀
  | mapPage {s : Machine} (v : VirtAddr) (p : PhysAddr) (flags : PageTableFlags) : TableRun m s₀ s →
      m.NoHugeLeaf s.mem v → TableRun m s₀ (Machine.mapPage v p flags s).2
  | unmapPage {s : Machine} (v : VirtAddr) : TableRun m s₀ s → m.NoHugeLeaf s.mem v →
      TableRun m s₀ (Machine.unmapPage v s).2
  | remapPage {s : Machine} (v : VirtAddr) (p : PhysAddr) (flags : PageTableFlags) : TableRun m s₀ s →
      m.NoHugeLeaf s.mem v → TableRun m s₀ (Machine.remapPage v p flags s).2
  | other {s t : Machine} : TableRun m s₀ s → t.paging = s.paging → t.log = s.log →
      (∀ l f, m.Table s.mem l f → t.mem f = s.mem f ∧ ¬ FreeIn t.pmm f) → TableRun m s₀ t

/-- The invariant of such runs. -/
structure Owns (m : PagingManager) (s₀ s : Machine) : Prop where
  paging : s.paging = some m
  wellFormed : m.WellFormed s.mem
  used : m.TablesUsed s
  log : ∃ new, s.log = new ++ s₀.log ∧ Event.freeFrame m.rootTablePhys.toNat ∉ new

theorem Owns.start (hm : s₀.paging = some m) (hwf : m.WellFormed s₀.mem) (hu : m.TablesUsed s₀) :
    m.Owns s₀ s₀ := ⟨hm, hwf, hu, [], rfl, by simp⟩

theorem Owns.pruned (h : m.Owns s₀ s) (hp : m.Pruned v s t) : m.Owns s₀ t where
  paging := hp.paging.trans h.paging
  wellFormed := hp.wellFormed
  used := hp.used h.used
  log := by
    obtain ⟨new, hn, hr⟩ := h.log
    obtain ⟨new', hn', hr'⟩ := hp.log
    refine ⟨new' ++ new, by rw [hn', hn, List.append_assoc], fun ha => ?_⟩
    exact (List.mem_append.mp ha).elim (fun ha => (hr' _ ha).1 rfl) hr

theorem Owns.grown (h : m.Owns s₀ s) (hg : m.Grown s t) : m.Owns s₀ t where
  paging := hg.paging.trans h.paging
  wellFormed := hg.wellFormed
  used := hg.used h.used
  log := by
    rw [hg.log]
    exact h.log

theorem Owns.mapPage (h : m.Owns s₀ s) (hleaf : m.NoHugeLeaf s.mem v) (p : PhysAddr)
    (flags : PageTableFlags) : m.Owns s₀ (Machine.mapPage v p flags s).2 := by
  obtain ⟨u, hg, ⟨f, hw, _, he⟩ | ⟨e, he⟩⟩ :=
    mapPage_run h.paging h.wellFormed hleaf (h.used.fresh _) p flags
  · rw [he]
    exact (h.grown hg).pruned (Pruned.leafWrite hg.wellFormed hw _).invlpg
  · rw [he]
    exact h.grown hg

/-- Other code that keeps its hands off the tables. -/
theorem Owns.other (h : m.Owns s₀ s) (hp : t.paging = s.paging) (hl : t.log = s.log)
    (ht : ∀ l f, m.Table s.mem l f → t.mem f = s.mem f ∧ ¬ FreeIn t.pmm f) : m.Owns s₀ t := by
  obtain ⟨hwf, htables, _⟩ := h.wellFormed.of_same fun l f hf => (ht l f hf).1
  exact ⟨hp.trans h.paging, hwf, fun l f hf => (ht l f ((htables l f).mp hf)).2, by rw [hl]; exact h.log⟩

theorem TableRun.owns (hr : TableRun m s₀ s) (h : m.Owns s₀ s₀) : m.Owns s₀ s := by
  induction hr with
  | start => exact h
  | mapPage v p flags _ hl ih => exact ih.mapPage hl p flags
  | unmapPage v _ hl ih => exact ih.pruned (unmapPage_pruned ih.paging ih.wellFormed hl)
  | remapPage v p flags _ hl ih => exact ih.pruned (remapPage_pruned ih.paging ih.wellFormed hl p flags)
  | other _ hp hl ht ih => exact ih.other hp hl ht

/-- After any such run the links form a tree with every table linked once, every table is
marked used, and the root was never passed to `free_frame`. -/
theorem tableRun_ownership (hm : s₀.paging = some m) (hwf : m.WellFormed s₀.mem) (hu : m.TablesUsed s₀)
    (hr : TableRun m s₀ s) : m.WellFormed s.mem ∧
      (∀ l f, m.Table s.mem l f → ∀ p, s.pmm = some p → p.isFrameUsed (f*4096) = true) ∧
      ∃ new, s.log = new ++ s₀.log ∧ Event.freeFrame m.rootTablePhys.toNat ∉ new := by
  have h := hr.owns (.start hm hwf hu)
  refine ⟨h.wellFormed, fun l f hf p hp => ?_, h.log⟩
  have := h.used l f hf
  rwa [hp, PhysicalMemoryManager.not_free_iff] at this

/-- Mapping a page and unmapping it again. -/
theorem tableRun_ownership_small :
    smallPaging.WellFormed (Machine.unmapPage ⟨0x400000#64⟩
      (Machine.mapPage ⟨0x400000#64⟩ ⟨0x200000#64⟩ ⟨3#64⟩ smallMachine).2).2.mem := by
  refine (tableRun_ownership rfl smallMachine_wellFormed smallMachine_used
    (.unmapPage ⟨0x400000#64⟩ (.mapPage ⟨0x400000#64⟩ ⟨0x200000#64⟩ ⟨3#64⟩ .start ?_) ?_)).1
  · intro l e h
    cases h
  · intro l e h
    have : smallPaging.leaf (Machine.mapPage ⟨0x400000#64⟩ ⟨0x200000#64⟩ ⟨3#64⟩ smallMachine).2.mem ⟨0x400000#64⟩ =
        some (0, 0x200003#64) := by decide +kernel
    rw [this] at h
    exact (Prod.mk.inj (Option.some.inj h)).1.symm

end PagingManager
end Nafuraito.Memory
