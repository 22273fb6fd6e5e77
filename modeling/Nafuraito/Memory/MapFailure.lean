import Nafuraito.Memory.AddressAliases

/-! What a failing `map_page` leaves behind. The tables it linked on the way down stay linked:
they are empty, so no address is read differently, but nothing takes them out again. -/
namespace Nafuraito.Memory
open Nafuraito.Library
open PhysicalMemoryManager (FreeIn Unusable takeTableFrame usedFrames)

/-- From `s` to `t` the frame was taken from the frame allocator. -/
def Machine.Taken (s t : Machine) (f : Nat) : Prop := FreeIn s.pmm f ∧ ¬ FreeIn t.pmm f

/-- From `s` to `t` frames were taken, absent entries came to link some of them, and no other
word outside them changed. -/
structure Machine.LinksOnly (s t : Machine) : Prop where
  words : ∀ f i, t.mem f i ≠ s.mem f i → s.Taken t f ∨ (PageTableEntry.isPresent ⟨s.mem f i⟩ = false ∧
    PageTableEntry.isPresent ⟨t.mem f i⟩ = true ∧ s.Taken t (PageTableEntry.frame ⟨t.mem f i⟩))
  free : ∀ f, FreeIn t.pmm f → FreeIn s.pmm f

namespace Machine
variable {s t u : Machine}

theorem LinksOnly.of_pmm {p : Option PhysicalMemoryManager} (hfree : ∀ f, FreeIn p f → FreeIn s.pmm f) :
    LinksOnly s { s with pmm := p } := ⟨fun _ _ hne => absurd rfl hne, hfree⟩

theorem LinksOnly.refl (s : Machine) : LinksOnly s s := .of_pmm fun _ hf => hf

/-- An entry linked first is present in between, so it is not written again. -/
theorem LinksOnly.trans (h : LinksOnly s t) (h' : LinksOnly t u) : LinksOnly s u where
  words f i hne := by
    have hleft {g : Nat} (hg : s.Taken t g) : s.Taken u g := ⟨hg.1, fun hf => hg.2 (h'.free g hf)⟩
    have hright {g : Nat} (hg : t.Taken u g) : s.Taken u g := ⟨h.free g hg.1, hg.2⟩
    by_cases hu : u.mem f i = t.mem f i
    · rw [hu] at hne ⊢
      exact (h.words f i hne).imp hleft fun ⟨h₁, h₂, h₃⟩ => ⟨h₁, h₂, hleft h₃⟩
    · rcases h'.words f i hu with hf | ⟨habs, hpr, hf⟩
      · exact .inl (hright hf)
      · by_cases ht : t.mem f i = s.mem f i
        · rw [ht] at habs
          exact .inr ⟨habs, hpr, hright hf⟩
        · rcases h.words f i ht with hf' | ⟨_, hpr', _⟩
          · exact .inl (hleft hf')
          · rw [hpr'] at habs
            cases habs
  free f hf := h.free f (h'.free f hf)

end Machine

namespace PagingManager
open Machine (LinksOnly)
variable {m : PagingManager} {s t u : Machine} {v : VirtAddr} {p : PhysAddr} {flags : PageTableFlags}

/-- An absent entry that got a fresh table. -/
private theorem linksOnly_linked {f n : Nat} {i : Fin 512} {addr : BitVec 64}
    (habs : PageTableEntry.isPresent ⟨s.mem f i⟩ = false) (hlt : addr.toNat < 2^32)
    (hmod : addr.toNat % 4096 = 0) (hn : n = addr.toNat/4096) {q : Option PhysicalMemoryManager}
    (hfree : ∀ f, FreeIn q f → FreeIn s.pmm f) (hbefore : FreeIn s.pmm n) (hafter : ¬ FreeIn q n) :
    LinksOnly s (linked s f i (.of addr (Machine.tableFlags flags)) n q) where
  words g j hne := by
    obtain ⟨hpr, _, _, hframe⟩ := PageTableEntry.kind_link.mp (link_entry hmod hlt flags 0)
    rw [linked, Machine.setWord_mem] at hne ⊢
    split at hne
    · rename_i hgj
      obtain ⟨rfl, rfl⟩ := Prod.mk.inj hgj
      rw [if_pos rfl]
      refine .inr ⟨habs, hpr, ?_⟩
      rw [← hframe, ← hn]
      exact ⟨hbefore, hafter⟩
    · rw [Machine.setFrame_mem] at hne
      split at hne
      · rename_i hg
        rw [hg]
        exact .inl ⟨hbefore, hafter⟩
      · exact absurd rfl hne
  free := hfree

/-- One step of the walk links a table it took, or does nothing but take frames. -/
private theorem getOrCreateNextLevel_links (f : Nat) (i : Fin 512) (flags : PageTableFlags) (s : Machine) :
    LinksOnly s (Machine.getOrCreateNextLevel f i flags s).2 := by
  have htakes := PhysicalMemoryManager.takeTableFrame_takes s.pmm
  cases hpr : PageTableEntry.isPresent ⟨s.mem f i⟩ with
  | true =>
    rw [getOrCreateNextLevel_present flags hpr]
    exact .refl s
  | false =>
    rw [getOrCreateNextLevel_absent flags hpr]
    rcases linkNewTable_run f i flags s with ⟨_, message, he⟩ | ⟨hu, addr, ha, hlt, hmod, he⟩
    · rw [he]
      exact .of_pmm htakes.free
    · rw [he]
      have hne : (takeTableFrame s.pmm).1 ≠ 0 := fun h => hu (.inl h)
      obtain ⟨_, hbefore, hafter⟩ := htakes.taken hne
      exact linksOnly_linked hpr hlt hmod rfl htakes.free (by rwa [ha]) (by rwa [ha])

private theorem mapWalk_links {e : Stop} {l : Nat} {phys : BitVec 64}
    (h : Machine.mapWalk v p flags l phys s = (.error e, t)) : LinksOnly s t := by
  induction l generalizing phys s with
  | zero =>
    by_cases hlt : phys.toNat < 2^32
    · rw [Machine.mapWalk, Fallible.bind_of_ok (Machine.tableAt_run hlt)] at h
      cases h
    · rw [mapWalk_crash hlt] at h
      obtain rfl := (Prod.mk.inj h).2
      exact .refl s
  | succ l ih =>
    by_cases hlt : phys.toNat < 2^32
    · rw [Machine.mapWalk, Fallible.bind_of_ok (Machine.tableAt_run hlt)] at h
      have hstep := getOrCreateNextLevel_links (phys.toNat/4096) (v.index (l+1)) flags s
      rcases Fallible.bind_error h with he | ⟨next, u, he, hrest⟩
      · rwa [he] at hstep
      · rw [he] at hstep
        exact hstep.trans (ih hrest)
    · rw [mapWalk_crash hlt] at h
      obtain rfl := (Prod.mk.inj h).2
      exact .refl s

/-- A `map_page` that fails did so in a check, changing nothing, or in its walk. -/
private theorem mapPage_error_walk {e : Stop} (hm : s.paging = some m)
    (h : Machine.mapPage v p flags s = (.error e, t)) :
    t = s ∨ Machine.mapWalk v p flags m.mode.top m.rootTablePhys s = (.error e, t) := by
  rw [Machine.mapPage, Fallible.bind_of_ok (Machine.getPagingManager_run hm)] at h
  by_cases hp : p.isAligned = true
  · rw [Fallible.bind_of_ok (Fallible.require_run_pos _ hp s)] at h
    by_cases hv : v.isCanonical m.mode = true
    · rw [Fallible.bind_of_ok (requireCanonical_run hv s), Machine.mapLevels_eq] at h
      rcases Fallible.bind_error h with he | ⟨_, u, _, hflush⟩
      · exact .inr he
      · cases hflush
    · obtain ⟨message, he⟩ := requireCanonical_fails hv
      rw [Fallible.bind_of_error (he s)] at h
      exact .inl (Prod.mk.inj h).2.symm
  · rw [Fallible.bind_of_error (Fallible.require_run_neg _ hp s)] at h
    exact .inl (Prod.mk.inj h).2.symm

/-- In any state a failing `map_page` has at most linked frames it took. -/
theorem mapPage_links {e : Stop} (h : Machine.mapPage v p flags s = (.error e, t)) : LinksOnly s t := by
  cases hm : s.paging with
  | none =>
    have hrun : Machine.getPagingManager s = (.error (.err "Paging not initialized"), s) := by
      rw [Machine.getPagingManager, hm]
    rw [Machine.mapPage, Fallible.bind_of_error hrun] at h
    obtain rfl := (Prod.mk.inj h).2
    exact .refl s
  | some m =>
    rcases mapPage_error_walk hm h with rfl | hwalk
    · exact .refl t
    · exact mapWalk_links hwalk

/-! ### The frames it took -/

/-- A step of the walk loses a frame it cannot use, or takes the frame of the table it ends in. -/
private theorem getOrCreateNextLevel_taken (f : Nat) (i : Fin 512) (flags : PageTableFlags) {g : Nat}
    (h : s.Taken (Machine.getOrCreateNextLevel f i flags s).2 g) : g = 0 ∨ 2^20 ≤ g ∨
      ∃ next, (Machine.getOrCreateNextLevel f i flags s).1 = .ok next ∧ g = next.toNat/4096 := by
  cases hpr : PageTableEntry.isPresent ⟨s.mem f i⟩ with
  | true =>
    rw [getOrCreateNextLevel_present flags hpr] at h
    exact absurd h.1 h.2
  | false =>
    rw [getOrCreateNextLevel_absent flags hpr] at h ⊢
    rcases linkNewTable_run f i flags s with ⟨hu, message, he⟩ | ⟨_, addr, ha, _, _, he⟩
    · rw [he] at h
      rcases PhysicalMemoryManager.takeTableFrame_lost h.1 h.2 with hg | hg
      · exact .inl hg
      · unfold Unusable at hu
        omega
    · rw [he] at h ⊢
      rcases PhysicalMemoryManager.takeTableFrame_lost h.1 h.2 with hg | hg
      · exact .inl hg
      · exact .inr (.inr ⟨addr, rfl, by omega⟩)

private theorem mapWalk_lost (hwf : m.WellFormed s.mem) {e : Stop} {l g : Nat} {phys : BitVec 64}
    (hw : m.Walk s.mem v l (phys.toNat/4096)) (hlt : phys.toNat < 2^32) (hleaf : m.NoHugeLeaf s.mem v)
    (hfresh : m.FreshTables l s) (h : Machine.mapWalk v p flags l phys s = (.error e, t)) (hg : s.Taken t g) :
    g = 0 ∨ 2^20 ≤ g ∨ ∃ k, m.Table t.mem k g := by
  induction l generalizing phys s with
  | zero =>
    rw [Machine.mapWalk, Fallible.bind_of_ok (Machine.tableAt_run hlt)] at h
    cases h
  | succ l ih =>
    rw [Machine.mapWalk, Fallible.bind_of_ok (Machine.tableAt_run hlt)] at h
    have hstep := getOrCreateNextLevel_taken (s := s) (phys.toNat/4096) (v.index (l+1)) flags (g := g)
    rcases getOrCreateNextLevel_run hwf hw hleaf hfresh flags with
      ⟨next, u, he, hgrow, hfresh', hlt', hw'⟩ | ⟨message, u, he, _⟩
    · rw [he] at hstep
      rw [Fallible.bind_of_ok he] at h
      have hleaf' : m.NoHugeLeaf u.mem v := fun l e hl => hleaf l e ((hgrow.leaf v).symm.trans hl)
      by_cases hfree : FreeIn u.pmm g
      · exact ih hgrow.wellFormed hw' hlt' hleaf' hfresh' h ⟨hfree, hg.2⟩
      · -- the frame taken here is the table the walk goes on in, which stays linked
        rcases hstep ⟨hg.1, hfree⟩ with h₀ | hbig | ⟨_, hnext, rfl⟩
        · exact .inl h₀
        · exact .inr (.inl hbig)
        · cases hnext
          obtain ⟨w, hgrow', ⟨_, _, hok⟩ | ⟨message, herr⟩⟩ :=
            mapWalk_run hgrow.wellFormed hw' hlt' hleaf' hfresh' p flags
          · rw [hok] at h
            cases h
          · rw [herr] at h
            obtain rfl := (Prod.mk.inj h).2
            exact .inr (.inr ⟨_, hgrow'.tables hw'.reach⟩)
    · rw [he] at hstep
      rw [Fallible.bind_of_error he] at h
      obtain rfl := (Prod.mk.inj h).2
      rcases hstep hg with h₀ | hbig | ⟨_, hnext, _⟩
      · exact .inl h₀
      · exact .inr (.inl hbig)
      · cases hnext

/-- A failing `map_page` keeps every present entry and every used frame, and it writes nothing
but links to frames it took. In a hierarchy whose tables are used, the frames it could use are
tables now, and every address is read as before. -/
theorem mapPage_failed {message : String} (h : Machine.mapPage v p flags s = (.error (.err message), t)) :
    LinksOnly s t ∧ ∀ m : PagingManager, s.paging = some m → m.WellFormed s.mem → m.TablesUsed s →
      m.NoHugeLeaf s.mem v → m.WellFormed t.mem ∧ m.TablesUsed t ∧
        (∀ l f, m.Table s.mem l f → m.Table t.mem l f) ∧
        (∀ f, s.Taken t f → f = 0 ∨ 2^20 ≤ f ∨ ∃ l, m.Table t.mem l f) ∧
        ∀ w, Machine.SameOutcome (Machine.translateAddress w) s t ∧
          Machine.SameOutcome (Machine.getPageFlags w) s t := by
  refine ⟨mapPage_links h, fun m hm hwf hu hleaf => ?_⟩
  have hfresh := hu.fresh m.mode.top
  obtain ⟨u, hg, ⟨f, _, _, hok⟩ | ⟨e, herr⟩⟩ := mapPage_run hm hwf hleaf hfresh p flags
  · rw [hok] at h
    cases h
  · obtain rfl := (Prod.mk.inj (herr.symm.trans h)).2
    refine ⟨hg.wellFormed, hg.used hu, fun _ _ => hg.tables, fun f hf => ?_, fun w =>
      readers_same hm (hg.paging.trans hm) hwf hg.wellFormed (hg.leaf w)⟩
    rcases mapPage_error_walk hm h with rfl | hwalk
    · exact absurd hf.1 hf.2
    · by_cases hroot : m.rootTablePhys.toNat < 2^32
      · exact mapWalk_lost hwf .root hroot hleaf hfresh hwalk hf
      · rw [mapWalk_crash hroot] at hwalk
        cases hwalk

/-! ### A machine with one free frame -/

def oneFree : PhysicalMemoryManager := { tenFrames with
  bitmap := fun i => if i = 0 then 0xFB#8 else 0xFF#8
  freeFrames := 1 }

def oneFreeMachine : Machine := { smallMachine with pmm := some oneFree }

private theorem oneFreeMachine_used : smallPaging.TablesUsed oneFreeMachine := by
  intro l f hf
  obtain rfl := (table_of_empty (fun _ _ => PageTableEntry.kind_zero _) hf).2
  exact PhysicalMemoryManager.not_free_iff.mpr (by decide)

private theorem oneFreeMachine_wellFormed : smallPaging.WellFormed oneFreeMachine.mem :=
  smallMachine_wellFormed

private theorem oneFreeMachine_noHuge : smallPaging.NoHugeLeaf oneFreeMachine.mem ⟨0x400000#64⟩ := by
  intro l e h
  cases h

private theorem oneFreeMachine_fails : (Machine.mapPage ⟨0x400000#64⟩ ⟨0x200000#64⟩ ⟨3#64⟩ oneFreeMachine).1 =
    .error (.err "Failed to allocate page table frame") := by rfl

theorem mapPage_failed_small : smallPaging.WellFormed
    (Machine.mapPage ⟨0x400000#64⟩ ⟨0x200000#64⟩ ⟨3#64⟩ oneFreeMachine).2.mem :=
  ((mapPage_failed (Fallible.run_of_fst oneFreeMachine_fails)).2 smallPaging rfl oneFreeMachine_wellFormed
    oneFreeMachine_used oneFreeMachine_noHuge).1

/-- The root links the one frame there was when the second allocation fails. -/
theorem mapPage_leaves_table : smallPaging.WellFormed oneFreeMachine.mem ∧ smallPaging.TablesUsed oneFreeMachine ∧
    oneFreeMachine.paging = some smallPaging ∧ ∃ message t,
      Machine.mapPage ⟨0x400000#64⟩ ⟨0x200000#64⟩ ⟨3#64⟩ oneFreeMachine = (.error (.err message), t) ∧
      (∃ l f i, smallPaging.Table oneFreeMachine.mem l f ∧ t.mem f i ≠ oneFreeMachine.mem f i) ∧
      t.pmm.map usedFrames ≠ oneFreeMachine.pmm.map usedFrames := by
  have hbefore : oneFreeMachine.pmm.map (·.isFrameUsed 0x2000) = some false := by decide
  have hafter : (Machine.mapPage ⟨0x400000#64⟩ ⟨0x200000#64⟩ ⟨3#64⟩ oneFreeMachine).2.pmm.map (·.isFrameUsed 0x2000) =
      some true := by decide +kernel
  refine ⟨oneFreeMachine_wellFormed, oneFreeMachine_used, rfl, _, _, Fallible.run_of_fst oneFreeMachine_fails,
    ⟨3, 1, 0, .root, ?_⟩, PhysicalMemoryManager.usedFrames_ne (f := 2) hbefore hafter⟩
  decide +kernel

end PagingManager
end Nafuraito.Memory
