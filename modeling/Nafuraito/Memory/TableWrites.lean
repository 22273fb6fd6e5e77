import Nafuraito.Memory.TableOwnership

/-! Which memory the walkers write. They follow a huge leaf as if it linked a table, so the
frame they end in need not be one; the conditions below say exactly when it is. -/
namespace Nafuraito.Memory
open Nafuraito.Library
open PageTableEntry (kind)
open PhysicalMemoryManager (FreeIn takeTableFrame)

namespace PagingManager
variable {m : PagingManager} {s t : Machine} {v : VirtAddr}

def IsTable (m : PagingManager) (mem : Frames) (f : Nat) : Prop := ∃ l, m.Table mem l f

/-- Every word changed from `s` to `t` lies in a table of the hierarchy or in a frame newly
taken from the frame allocator. -/
def WritesOnlyTables (m : PagingManager) (s t : Machine) : Prop :=
  ∀ f i, t.mem f i ≠ s.mem f i → m.IsTable s.mem f ∨ (FreeIn s.pmm f ∧ ¬ FreeIn t.pmm f)

/-- Where a walker that takes every present entry for a link ends: at a null pointer, in a
table above the page tables whose entry is absent, or in a page table, reached from `pd`. -/
inductive WalkEnd where
  | null
  | absent (level table : Nat)
  | pageTable (pd pt : Nat)
  deriving DecidableEq, Repr

def walkEnd (mem : Frames) (v : VirtAddr) (above : Nat) : Nat → BitVec 64 → WalkEnd
  | 0, phys => if phys.toNat < 2^32 then .pageTable above (phys.toNat/4096) else .null
  | l+1, phys =>
    if phys.toNat < 2^32 then
      if PageTableEntry.isPresent ⟨mem (phys.toNat/4096) (v.index (l+1))⟩ then
        walkEnd mem v (phys.toNat/4096) l (PageTableEntry.address ⟨mem (phys.toNat/4096) (v.index (l+1))⟩)
      else .absent (l+1) (phys.toNat/4096)
    else .null

def walkEndOf (m : PagingManager) (mem : Frames) (v : VirtAddr) : WalkEnd :=
  walkEnd mem v 0 m.mode.top m.rootTablePhys

end PagingManager

namespace PhysicalMemoryManager

/-- The allocator after up to `n` table allocations, the first unusable one being the last. -/
def grabTables : Nat → Option PhysicalMemoryManager → Option PhysicalMemoryManager
  | 0, p => p
  | n+1, p => if Unusable (takeTableFrame p).1 then (takeTableFrame p).2
    else grabTables n (takeTableFrame p).2

theorem grabTables_free {n : Nat} {p : Option PhysicalMemoryManager} {f : Nat}
    (h : FreeIn (grabTables n p) f) : FreeIn p f := by
  induction n generalizing p with
  | zero => exact h
  | succ n ih =>
    rw [grabTables] at h
    have htakes := takeTableFrame_takes p
    split at h
    · exact htakes.free f h
    · exact htakes.free f (ih h)

end PhysicalMemoryManager

namespace PagingManager
open PhysicalMemoryManager (Unusable grabTables)
variable {m : PagingManager} {s t : Machine} {v : VirtAddr}

/-- When `map_page` writes only tables: it is rejected, faults, ends in a page table of the
hierarchy or writes what is there already; or it ends above in a table of the hierarchy, cannot
take a frame, or ends in a frame it takes itself. -/
def MapConfined (m : PagingManager) (s : Machine) (v : VirtAddr) (p : PhysAddr)
    (flags : PageTableFlags) : Prop :=
  p.isAligned = true → v.isCanonical m.mode = true → match m.walkEndOf s.mem v with
  | .null => True
  | .absent l f => m.IsTable s.mem f ∨ Unusable (takeTableFrame s.pmm).1 ∨
      (FreeIn s.pmm f ∧ ¬ FreeIn (grabTables l s.pmm) f)
  | .pageTable _ pt => m.IsTable s.mem pt ∨
      s.mem pt (v.index 0) = (PageTableEntry.of p.addr flags).raw

/-- When `unmap_page` does: it is rejected or the address is not mapped, or the page table is
one of the hierarchy, and so is the table above it if the page table becomes empty. -/
def UnmapConfined (m : PagingManager) (s : Machine) (v : VirtAddr) : Prop :=
  v.isCanonical m.mode = true → match m.walkEndOf s.mem v with
  | .pageTable pd pt => PageTableEntry.isPresent ⟨s.mem pt (v.index 0)⟩ = true →
      m.IsTable s.mem pt ∧ ((∀ j, j ≠ v.index 0 → s.mem pt j = 0) → m.IsTable s.mem pd)
  | _ => True

/-- When `remap_page` does. -/
def RemapConfined (m : PagingManager) (s : Machine) (v : VirtAddr) (p : PhysAddr)
    (flags : PageTableFlags) : Prop :=
  p.isAligned = true → match m.walkEndOf s.mem v with
  | .pageTable _ pt => PageTableEntry.isPresent ⟨s.mem pt (v.index 0)⟩ = true →
      m.IsTable s.mem pt ∨ s.mem pt (v.index 0) = (PageTableEntry.of p.addr flags).raw
  | _ => True

theorem WritesOnlyTables.of_mem (h : t.mem = s.mem) : m.WritesOnlyTables s t :=
  fun f i hne => absurd (congrFun (congrFun h f) i) hne

/-- One word written, nothing taken. -/
theorem writesOnlyTables_setWord {f : Nat} {i : Fin 512} {word : BitVec 64}
    (hmem : t.mem = (s.setWord f i word).mem) (hp : t.pmm = s.pmm) :
    m.WritesOnlyTables s t ↔ m.IsTable s.mem f ∨ s.mem f i = word := by
  constructor
  · intro h
    by_cases he : s.mem f i = word
    · exact .inr he
    · rcases h f i (by rw [hmem, Machine.setWord_mem, if_pos rfl]; exact Ne.symm he) with ht | ⟨hf, hn⟩
      · exact .inl ht
      · rw [hp] at hn
        exact absurd hf hn
  · rintro h g j hne
    rw [hmem, Machine.setWord_mem] at hne
    split at hne
    · rename_i hgj
      obtain ⟨rfl, rfl⟩ := Prod.mk.inj hgj
      rcases h with h | h
      · exact .inl h
      · exact absurd h.symm hne
    · exact absurd rfl hne

/-! ### `remap_page` -/

/-- A remap walk does at its end all it does. -/
theorem remapWalk_end (p : PhysAddr) (flags : PageTableFlags) (above : Nat) (l : Nat)
    (phys : BitVec 64) : match walkEnd s.mem v above l phys with
    | .null => Machine.remapWalk v p flags l phys s = (.error .crash, s)
    | .absent k _ => Machine.remapWalk v p flags l phys s = (.error (.err (Machine.notMapped k)), s)
    | .pageTable _ pt => Machine.remapWalk v p flags l phys s =
        if PageTableEntry.isPresent ⟨s.mem pt (v.index 0)⟩ then
          (.ok (), s.setWord pt (v.index 0) (PageTableEntry.of p.addr flags).raw)
        else (.error (.err (Machine.notMapped 0)), s) := by
  induction l generalizing above phys with
  | zero =>
    by_cases hlt : phys.toNat < 2^32
    · rw [walkEnd, if_pos hlt, Machine.remapWalk, Fallible.bind_of_ok (Machine.tableAt_run hlt)]
      dsimp only
      split
      · rename_i hpr
        rw [Fallible.bind_of_ok (Machine.presentEntry_run hpr)]
        rfl
      · rename_i hpr
        exact Fallible.bind_of_error (Machine.presentEntry_absent (Bool.eq_false_iff.mpr hpr))
    · rw [walkEnd, if_neg hlt]
      exact Fallible.bind_of_error (Machine.tableAt_crash hlt)
  | succ l ih =>
    by_cases hlt : phys.toNat < 2^32
    · rw [walkEnd, if_pos hlt, Machine.remapWalk, Fallible.bind_of_ok (Machine.tableAt_run hlt)]
      by_cases hpr : PageTableEntry.isPresent ⟨s.mem (phys.toNat/4096) (v.index (l+1))⟩ = true
      · rw [if_pos hpr, Fallible.bind_of_ok (Machine.presentEntry_run hpr)]
        exact ih _ _
      · rw [if_neg hpr]
        exact Fallible.bind_of_error (Machine.presentEntry_absent (Bool.eq_false_iff.mpr hpr))
    · rw [walkEnd, if_neg hlt]
      exact Fallible.bind_of_error (Machine.tableAt_crash hlt)

theorem remapPage_writes_iff (hm : s.paging = some m) (p : PhysAddr) (flags : PageTableFlags) :
    m.WritesOnlyTables s (Machine.remapPage v p flags s).2 ↔ m.RemapConfined s v p flags := by
  rw [Machine.remapPage, Fallible.bind_of_ok (Machine.getPagingManager_run hm), RemapConfined]
  by_cases hp : p.isAligned = true
  · rw [Fallible.bind_of_ok (Fallible.require_run_pos _ hp s), Machine.remapLevels_eq]
    have hend := remapWalk_end (s := s) (v := v) p flags 0 m.mode.top m.rootTablePhys
    simp only [hp, forall_true_left, walkEndOf]
    generalize walkEnd s.mem v 0 m.mode.top m.rootTablePhys = w at hend ⊢
    cases w with
    | null =>
      rw [Fallible.bind_of_error hend]
      exact iff_of_true (.of_mem rfl) trivial
    | absent k f =>
      rw [Fallible.bind_of_error hend]
      exact iff_of_true (.of_mem rfl) trivial
    | pageTable pd pt =>
      dsimp only at hend ⊢
      split at hend
      · rename_i hpr
        rw [Fallible.bind_of_ok hend]
        simp only [hpr, forall_true_left]
        exact writesOnlyTables_setWord rfl rfl
      · rename_i hpr
        rw [Fallible.bind_of_error hend]
        simp only [hpr, Bool.false_eq_true, false_implies, iff_true]
        exact .of_mem rfl
  · rw [Fallible.bind_of_error (Fallible.require_run_neg _ hp s)]
    exact iff_of_true (.of_mem rfl) fun h => absurd h hp

/-! ### `map_page` -/

private theorem linked_mem {f n g : Nat} {i j : Fin 512} {e : PageTableEntry}
    {p : Option PhysicalMemoryManager} : (linked s f i e n p).mem g j =
      if (g, j) = (f, i) then e.raw else if g = n then 0 else s.mem g j := by
  rw [linked, Machine.setWord_mem, Machine.setFrame_mem]

private theorem not_present_zero : PageTableEntry.isPresent ⟨0⟩ = false := rfl

/-- Linking a new table keeps such a set of tables closed. -/
private theorem closed_linked {T : Nat → Prop} (hT : ∀ g, T g → ∀ i,
      PageTableEntry.isPresent ⟨s.mem g i⟩ = true →
      (PageTableEntry.address ⟨s.mem g i⟩).toNat < 2^32 ∧ T (PageTableEntry.frame ⟨s.mem g i⟩))
    (f : Nat) (i : Fin 512) {addr : BitVec 64} (hlt : addr.toNat < 2^32) (hmod : addr.toNat % 4096 = 0)
    (flags : PageTableFlags) (p : Option PhysicalMemoryManager) (g : Nat)
    (hg : T g ∨ g = addr.toNat/4096) (j : Fin 512) :
    let t := linked s f i (.of addr (Machine.tableFlags flags)) (addr.toNat/4096) p
    PageTableEntry.isPresent ⟨t.mem g j⟩ = true → (PageTableEntry.address ⟨t.mem g j⟩).toNat < 2^32 ∧
      (T (PageTableEntry.frame ⟨t.mem g j⟩) ∨ PageTableEntry.frame ⟨t.mem g j⟩ = addr.toNat/4096) := by
  intro t hpr
  simp only [t, linked_mem] at hpr ⊢
  split
  · have hk := link_entry hmod hlt flags 0
    obtain ⟨_, _, _, hfr⟩ := PageTableEntry.kind_link.mp hk
    have hfr : addr.toNat/4096 = (PageTableEntry.of addr (Machine.tableFlags flags)).frame := hfr
    have ha := PageTableEntry.address_eq (.of addr (Machine.tableFlags flags))
    exact ⟨by change (PageTableEntry.of _ _).address.toNat < _; omega, .inr hfr.symm⟩
  · rename_i hne
    rw [if_neg hne] at hpr
    split
    · rename_i hn
      rw [if_pos hn, not_present_zero] at hpr
      cases hpr
    · rename_i hn
      rw [if_neg hn] at hpr
      obtain ⟨h₁, h₂⟩ := hT g (hg.resolve_right hn) j hpr
      exact ⟨h₁, .inl h₂⟩

/-- A walk that starts among tables which link only each other writes into those and into
frames it takes. -/
private theorem mapWalk_closed (p : PhysAddr) (flags : PageTableFlags) {T : Nat → Prop} {l : Nat}
    {phys : BitVec 64} (hlt : phys.toNat < 2^32) (hphys : T (phys.toNat/4096))
    (hT : ∀ g, T g → ∀ i, PageTableEntry.isPresent ⟨s.mem g i⟩ = true →
      (PageTableEntry.address ⟨s.mem g i⟩).toNat < 2^32 ∧ T (PageTableEntry.frame ⟨s.mem g i⟩)) :
    (∀ f, FreeIn (Machine.mapWalk v p flags l phys s).2.pmm f → FreeIn s.pmm f) ∧
      ∀ f i, (Machine.mapWalk v p flags l phys s).2.mem f i ≠ s.mem f i → T f ∨
        (FreeIn s.pmm f ∧ ¬ FreeIn (Machine.mapWalk v p flags l phys s).2.pmm f) := by
  induction l generalizing s phys T with
  | zero =>
    rw [Machine.mapWalk, Fallible.bind_of_ok (Machine.tableAt_run hlt), Machine.writeEntry_run]
    refine ⟨fun _ h => h, fun f i hne => .inl ?_⟩
    rw [Machine.setWord_mem] at hne
    split at hne
    · rename_i he
      rwa [(Prod.mk.inj he).1]
    · exact absurd rfl hne
  | succ l ih =>
    rw [Machine.mapWalk, Fallible.bind_of_ok (Machine.tableAt_run hlt)]
    cases hpr : PageTableEntry.isPresent ⟨s.mem (phys.toNat/4096) (v.index (l+1))⟩ with
    | true =>
      obtain ⟨hlt', hin⟩ := hT _ hphys _ hpr
      rw [Fallible.bind_of_ok (getOrCreateNextLevel_present flags hpr)]
      exact ih hlt' hin hT
    | false =>
      have htakes := PhysicalMemoryManager.takeTableFrame_takes s.pmm
      rw [Fallible.bind_run, getOrCreateNextLevel_absent flags hpr]
      rcases linkNewTable_run (phys.toNat/4096) (v.index (l+1)) flags s with
        ⟨_, message, he⟩ | ⟨hu, addr, ha, hlt', hmod, he⟩
      · rw [he]
        exact ⟨htakes.free, fun f i hne => absurd rfl hne⟩
      · rw [he]
        have htaken := htakes.taken fun h => hu (.inl h)
        rw [← ha] at htaken
        -- the tables the walk can be in now: the old ones and the new one
        have hclosed := closed_linked hT (phys.toNat/4096) (v.index (l+1)) hlt' hmod flags (takeTableFrame s.pmm).2
        obtain ⟨hfree, hmem⟩ := ih hlt' (.inr rfl) hclosed
        refine ⟨fun f hf => htakes.free f (hfree f hf), fun f i hne => ?_⟩
        have hnew : FreeIn s.pmm (addr.toNat/4096) ∧ ¬ FreeIn
            (Machine.mapWalk v p flags l addr (linked s _ _ _ _ (takeTableFrame s.pmm).2)).2.pmm
            (addr.toNat/4096) := ⟨htaken.2.1, fun hf => htaken.2.2 (hfree _ hf)⟩
        by_cases hstep : (linked s (phys.toNat/4096) (v.index (l+1)) (.of addr (Machine.tableFlags flags))
            (addr.toNat/4096) (takeTableFrame s.pmm).2).mem f i = s.mem f i
        · rw [← hstep] at hne
          rcases hmem f i hne with (hf | rfl) | ⟨hf, hn⟩
          · exact .inl hf
          · exact .inr hnew
          · exact .inr ⟨htakes.free f hf, hn⟩
        · rw [linked_mem] at hstep
          split at hstep
          · rename_i hfi
            rw [(Prod.mk.inj hfi).1]
            exact .inl hphys
          · split at hstep
            · rename_i hf
              rw [hf]
              exact .inr hnew
            · exact absurd rfl hstep

/-- A walk in a table just taken, whose entries are absent, takes a table for every level below. -/
private theorem mapWalk_taken (p : PhysAddr) (flags : PageTableFlags) {l : Nat} {phys : BitVec 64}
    (hlt : phys.toNat < 2^32) (hzero : ∀ i, s.mem (phys.toNat/4096) i = 0)
    (hused : ¬ FreeIn s.pmm (phys.toNat/4096)) :
    (Machine.mapWalk v p flags l phys s).2.pmm = grabTables l s.pmm := by
  induction l generalizing s phys with
  | zero =>
    rw [Machine.mapWalk, Fallible.bind_of_ok (Machine.tableAt_run hlt)]
    rfl
  | succ l ih =>
    have hpr : PageTableEntry.isPresent ⟨s.mem (phys.toNat/4096) (v.index (l+1))⟩ = false := by
      rw [hzero, not_present_zero]
    rw [Machine.mapWalk, Fallible.bind_of_ok (Machine.tableAt_run hlt), Fallible.bind_run,
      getOrCreateNextLevel_absent flags hpr, grabTables]
    have htakes := PhysicalMemoryManager.takeTableFrame_takes s.pmm
    rcases linkNewTable_run (phys.toNat/4096) (v.index (l+1)) flags s with
      ⟨hu, message, he⟩ | ⟨hu, addr, ha, hlt', _, he⟩
    · rw [he, if_pos hu]
    · rw [he, if_neg hu]
      have htaken := htakes.taken fun h => hu (.inl h)
      rw [← ha] at htaken
      have hne : addr.toNat/4096 ≠ phys.toNat/4096 := fun h => hused (h ▸ htaken.2.1)
      refine ih hlt' (fun i => ?_) htaken.2.2
      rw [linked_mem, if_neg fun h => hne (Prod.mk.inj h).1, if_pos rfl]

/-- The walk of `map_page`, by where it ends. -/
theorem mapWalk_end (p : PhysAddr) (flags : PageTableFlags) (above : Nat) (l : Nat)
    (phys : BitVec 64) : match walkEnd s.mem v above l phys with
    | .null => ∃ e, Machine.mapWalk v p flags l phys s = (.error e, s)
    | .absent k f => ∃ j, k = j+1 ∧ PageTableEntry.isPresent ⟨s.mem f (v.index (j+1))⟩ = false ∧
        Machine.mapWalk v p flags l phys s =
          (Machine.linkNewTable f (v.index (j+1)) flags >>= Machine.mapWalk v p flags j) s
    | .pageTable _ pt => Machine.mapWalk v p flags l phys s =
        (.ok (), s.setWord pt (v.index 0) (PageTableEntry.of p.addr flags).raw) := by
  induction l generalizing above phys with
  | zero =>
    by_cases hlt : phys.toNat < 2^32
    · rw [walkEnd, if_pos hlt, Machine.mapWalk, Fallible.bind_of_ok (Machine.tableAt_run hlt)]
      rfl
    · rw [walkEnd, if_neg hlt]
      exact ⟨_, Fallible.bind_of_error (Machine.tableAt_crash hlt)⟩
  | succ l ih =>
    by_cases hlt : phys.toNat < 2^32
    · rw [walkEnd, if_pos hlt, Machine.mapWalk, Fallible.bind_of_ok (Machine.tableAt_run hlt)]
      cases hpr : PageTableEntry.isPresent ⟨s.mem (phys.toNat/4096) (v.index (l+1))⟩ with
      | true =>
        rw [if_pos rfl, Fallible.bind_of_ok (getOrCreateNextLevel_present flags hpr)]
        exact ih _ _
      | false =>
        rw [if_neg (by simp)]
        exact ⟨l, rfl, hpr, by rw [Fallible.bind_run, Fallible.bind_run, getOrCreateNextLevel_absent flags hpr]⟩
    · rw [walkEnd, if_neg hlt]
      exact ⟨_, Fallible.bind_of_error (Machine.tableAt_crash hlt)⟩

/-- The case of an absent entry: the table it is in is written, and then frames just taken. -/
private theorem linkNewTable_writes_iff (p : PhysAddr) (flags : PageTableFlags) {f j : Nat}
    (habs : PageTableEntry.isPresent ⟨s.mem f (v.index (j+1))⟩ = false) :
    m.WritesOnlyTables s
      ((Machine.linkNewTable f (v.index (j+1)) flags >>= Machine.mapWalk v p flags j) s).2 ↔
      m.IsTable s.mem f ∨ Unusable (takeTableFrame s.pmm).1 ∨
        (FreeIn s.pmm f ∧ ¬ FreeIn (grabTables (j+1) s.pmm) f) := by
  have htakes := PhysicalMemoryManager.takeTableFrame_takes s.pmm
  rcases linkNewTable_run f (v.index (j+1)) flags s with
    ⟨hu, message, he⟩ | ⟨hu, addr, ha, hlt, hmod, he⟩
  · rw [Fallible.bind_of_error he]
    exact iff_of_true (.of_mem rfl) (.inr (.inl hu))
  · rw [Fallible.bind_of_ok he, grabTables, if_neg hu]
    have htaken := htakes.taken fun h => hu (.inl h)
    rw [← ha] at htaken
    generalize hs₁ : linked s f (v.index (j+1)) (.of addr (Machine.tableFlags flags)) (addr.toNat/4096)
      (takeTableFrame s.pmm).2 = s₁
    have hmem₁ (g : Nat) (i : Fin 512) : s₁.mem g i = if (g, i) = (f, v.index (j+1)) then
        (PageTableEntry.of addr (Machine.tableFlags flags)).raw else
        if g = addr.toNat/4096 then 0 else s.mem g i := by rw [← hs₁, linked_mem]
    have hp₁ : s₁.pmm = (takeTableFrame s.pmm).2 := by rw [← hs₁]; rfl
    have hclosed := closed_linked (s := s) (T := fun _ => False) (fun _ h => h.elim) f (v.index (j+1)) hlt hmod
      flags (takeTableFrame s.pmm).2
    rw [hs₁] at hclosed
    obtain ⟨hfree, hrest⟩ := mapWalk_closed (v := v) p flags (l := j) hlt (.inr rfl) hclosed
    have hpmm := mapWalk_taken (v := v) (s := s₁) p flags (l := j) hlt
    generalize Machine.mapWalk v p flags j addr s₁ = rt at hfree hrest hpmm
    obtain ⟨r, t⟩ := rt
    rw [hp₁] at hfree hrest hpmm
    have hnew : FreeIn s.pmm (addr.toNat/4096) ∧ ¬ FreeIn t.pmm (addr.toNat/4096) :=
      ⟨htaken.2.1, fun hf => htaken.2.2 (hfree _ hf)⟩
    have hchange (g : Nat) (i : Fin 512) (hne : t.mem g i ≠ s.mem g i) :
        g = f ∨ (FreeIn s.pmm g ∧ ¬ FreeIn t.pmm g) := by
      by_cases hstep : s₁.mem g i = s.mem g i
      · rw [← hstep] at hne
        rcases hrest g i hne with (h | rfl) | ⟨h₁, h₂⟩
        · exact h.elim
        · exact .inr hnew
        · exact .inr ⟨htakes.free g h₁, h₂⟩
      · rw [hmem₁] at hstep
        split at hstep
        · rename_i he
          exact .inl (Prod.mk.inj he).1
        · split at hstep
          · rename_i hg
            rw [hg]
            exact .inr hnew
          · exact absurd rfl hstep
    by_cases hself : addr.toNat/4096 = f
    · rw [hself] at hnew htaken
      refine iff_of_true (fun g i hne => ?_) (.inr (.inr ⟨hnew.1, fun hf => ?_⟩))
      · rcases hchange g i hne with rfl | h
        · exact .inr hnew
        · exact .inr h
      · exact htaken.2.2 (PhysicalMemoryManager.grabTables_free hf)
    · have hpt : t.pmm = grabTables j (takeTableFrame s.pmm).2 := by
        refine hpmm (fun i => ?_) htaken.2.2
        rw [hmem₁, if_neg fun h => hself (Prod.mk.inj h).1, if_pos rfl]
      rw [← hpt]
      constructor
      · intro hP
        by_cases hf : FreeIn s.pmm f ∧ ¬ FreeIn t.pmm f
        · exact .inr (.inr hf)
        -- the link stays, and is no word that was there: the entry was absent
        · have hkept : t.mem f (v.index (j+1)) = s₁.mem f (v.index (j+1)) := by
            by_contra hne
            rcases hrest _ _ hne with (h | h) | ⟨h₁, h₂⟩
            · exact h
            · exact hself h.symm
            · exact hf ⟨htakes.free f h₁, h₂⟩
          have hwritten : t.mem f (v.index (j+1)) ≠ s.mem f (v.index (j+1)) := by
            rw [hkept, hmem₁, if_pos rfl]
            intro he
            have := (PageTableEntry.kind_link.mp (link_entry hmod hlt flags j)).1
            rw [he, habs] at this
            cases this
          rcases hP f _ hwritten with h | h
          · exact .inl h
          · exact absurd h hf
      · intro h g i hne
        rcases hchange g i hne with rfl | h'
        · rcases h with h | h | h
          · exact .inl h
          · exact absurd h hu
          · exact .inr h
        · exact .inr h'

theorem mapPage_writes_iff (hm : s.paging = some m) (p : PhysAddr) (flags : PageTableFlags) :
    m.WritesOnlyTables s (Machine.mapPage v p flags s).2 ↔ m.MapConfined s v p flags := by
  rw [Machine.mapPage, Fallible.bind_of_ok (Machine.getPagingManager_run hm), MapConfined]
  by_cases hp : p.isAligned = true
  · by_cases hv : v.isCanonical m.mode = true
    · rw [Fallible.bind_of_ok (Fallible.require_run_pos _ hp s), Fallible.bind_of_ok (requireCanonical_run hv s),
        Machine.mapLevels_eq]
      have hend := mapWalk_end (s := s) (v := v) p flags 0 m.mode.top m.rootTablePhys
      simp only [hp, hv, forall_true_left, walkEndOf]
      split at hend
      · obtain ⟨e, he⟩ := hend
        rw [Fallible.bind_of_error he]
        exact iff_of_true (.of_mem rfl) trivial
      · obtain ⟨j, rfl, habs, he⟩ := hend
        rw [← linkNewTable_writes_iff p flags habs, ← he, Fallible.bind_run]
        rcases Machine.mapWalk v p flags m.mode.top m.rootTablePhys s with ⟨e | _, t⟩ <;> rfl
      · rw [Fallible.bind_of_ok hend]
        exact writesOnlyTables_setWord rfl rfl
    · obtain ⟨message, he⟩ := requireCanonical_fails hv
      rw [Fallible.bind_of_ok (Fallible.require_run_pos _ hp s), Fallible.bind_of_error (he s)]
      exact iff_of_true (.of_mem rfl) fun _ h => absurd h hv
  · rw [Fallible.bind_of_error (Fallible.require_run_neg _ hp s)]
    exact iff_of_true (.of_mem rfl) fun h => absurd h hp

/-! ### `unmap_page` -/

/-- The action clears words of the tables of `mem` and takes no frame. -/
private def ClearsTables (m : PagingManager) (mem : Frames) (action : Machine.Op Unit) : Prop :=
  ∀ u, (∀ f i, (action u).2.mem f i ≠ u.mem f i → m.IsTable mem f ∧ (action u).2.mem f i = 0) ∧
    ∀ f, FreeIn u.pmm f → FreeIn (action u).2.pmm f

private theorem freeFrame_keeps (addr : Nat) (u : Machine) : (Machine.freeFrame addr u).2.mem = u.mem ∧
    ∀ f, FreeIn u.pmm f → FreeIn (Machine.freeFrame addr u).2.pmm f := by
  rw [Machine.freeFrame]
  cases hp : u.pmm with
  | none =>
    rw [show (u.addLog (.freeFrame addr)).pmm = none from hp]
    exact ⟨rfl, fun f hf => absurd hf (PhysicalMemoryManager.not_freeIn_none f)⟩
  | some q =>
    rw [show (u.addLog (.freeFrame addr)).pmm = some q from hp]
    refine ⟨rfl, fun f hf => ?_⟩
    rw [PhysicalMemoryManager.freeIn_some] at hf
    change FreeIn (some (PhysicalMemoryManager.freeFrame addr q).2) f
    rw [PhysicalMemoryManager.freeIn_some]
    rcases PhysicalMemoryManager.freeFrame_run addr q with ⟨_, _, _, he⟩ | ⟨_, _, he⟩
    · rw [he]
      refine ⟨hf.1, ?_⟩
      rw [PhysicalMemoryManager.test_giving, hf.2, Bool.and_false]
    · rwa [he]

private theorem ClearsTables.ifEmpty {mem : Frames} {action : Machine.Op Unit} (f : Nat)
    (h : ClearsTables m mem action) : ClearsTables m mem (Machine.ifEmpty f action) := by
  intro u
  rw [Machine.ifEmpty]
  split
  · exact h u
  · exact ⟨fun _ _ hne => absurd rfl hne, fun _ h => h⟩

private theorem ClearsTables.bind {mem : Frames} {x y : Machine.Op Unit} (hx : ClearsTables m mem x)
    (hy : ClearsTables m mem y) : ClearsTables m mem (x >>= fun _ => y) := by
  intro u
  obtain ⟨h₁, h₂⟩ := hx u
  refine Fallible.bind_snd (P := fun t : Machine => (∀ f i, t.mem f i ≠ u.mem f i → m.IsTable mem f ∧ t.mem f i = 0) ∧
    ∀ f, FreeIn u.pmm f → FreeIn t.pmm f) ⟨h₁, h₂⟩ fun _ t _ ⟨h₁, h₂⟩ => ?_
  obtain ⟨h₃, h₄⟩ := hy t
  refine ⟨fun f i hne => ?_, fun f hf => h₄ f (h₂ f hf)⟩
  by_cases hstep : (y t).2.mem f i = t.mem f i
  · rw [hstep] at hne ⊢
    exact h₁ f i hne
  · exact h₃ f i hstep

private theorem unlinkTable_keeps (f : Nat) (i : Fin 512) (child : PageTableEntry) (u : Machine) :
    (Machine.unlinkTable f i child u).2.mem = (u.setWord f i 0).mem ∧
      ∀ g, FreeIn u.pmm g → FreeIn (Machine.unlinkTable f i child u).2.pmm g := by
  have he : (Machine.unlinkTable f i child u).2 = (Machine.freeFrame child.address.toNat (u.setWord f i 0)).2 := by
    rw [Machine.unlinkTable, Fallible.bind_of_ok (Machine.writeEntry_run _ _ _)]
    rfl
  rw [he]
  exact freeFrame_keeps _ _

private theorem ClearsTables.unlink {mem : Frames} {f : Nat} (hf : m.IsTable mem f) (i : Fin 512)
    (child : PageTableEntry) : ClearsTables m mem (Machine.unlinkTable f i child) := by
  intro u
  obtain ⟨hmem, hfree⟩ := unlinkTable_keeps f i child u
  refine ⟨fun g j hne => ?_, hfree⟩
  rw [hmem, Machine.setWord_mem] at hne ⊢
  split at hne
  · rename_i he
    rw [if_pos he, (Prod.mk.inj he).1]
    exact ⟨hf, rfl⟩
  · exact absurd rfl hne

/-- A walk that comes to a page table clears its entry and, if that empties it, unlinks it
from the directory; all else it does is in tables. -/
private theorem unmapWalk_end {onEmpty : Machine.Op Unit}
    (hk : ClearsTables m s.mem onEmpty) (above l : Nat) (phys : BitVec 64)
    (htab : 2 ≤ l+1 → m.Table s.mem (l+1) (phys.toNat/4096)) :
    match walkEnd s.mem v above (l+1) phys with
    | .pageTable pd pt => if PageTableEntry.isPresent ⟨s.mem pt (v.index 0)⟩ then
        PageTableEntry.isPresent ⟨s.mem pd (v.index 1)⟩ = true ∧ ∃ child rest, ClearsTables m s.mem rest ∧
          Machine.unmapWalk v true (l+1) phys onEmpty s = Machine.ifEmpty pt
            (Machine.unlinkTable pd (v.index 1) child >>= fun _ => rest) (s.setWord pt (v.index 0) 0)
        else ∃ e, Machine.unmapWalk v true (l+1) phys onEmpty s = (.error e, s)
    | _ => ∃ e, Machine.unmapWalk v true (l+1) phys onEmpty s = (.error e, s) := by
  induction l generalizing above phys onEmpty with
  | zero =>
    by_cases hlt : phys.toNat < 2^32
    · rw [walkEnd, if_pos hlt, Machine.unmapWalk, Fallible.bind_of_ok (Machine.tableAt_run hlt)]
      cases hpd : PageTableEntry.isPresent ⟨s.mem (phys.toNat/4096) (v.index (0+1))⟩ with
      | true =>
        rw [if_pos rfl, Fallible.bind_of_ok (Machine.presentEntry_run hpd), walkEnd, Machine.unmapWalk]
        by_cases hlt' : (PageTableEntry.address ⟨s.mem (phys.toNat/4096) (v.index (0+1))⟩).toNat < 2^32
        · rw [if_pos hlt', Fallible.bind_of_ok (Machine.tableAt_run hlt')]
          dsimp only
          split
          · rename_i hpr
            rw [Fallible.bind_of_ok (Machine.presentEntry_run hpr),
              Fallible.bind_of_ok (Machine.writeEntry_run _ _ _), Machine.onlyIf, if_pos rfl]
            exact ⟨hpd, ⟨s.mem _ _⟩, Machine.ifEmpty (phys.toNat/4096) onEmpty, hk.ifEmpty _, rfl⟩
          · rename_i hpr
            exact ⟨_, Fallible.bind_of_error (Machine.presentEntry_absent (Bool.eq_false_iff.mpr hpr))⟩
        · rw [if_neg hlt']
          exact ⟨_, Fallible.bind_of_error (Machine.tableAt_crash hlt')⟩
      | false =>
        rw [if_neg (by simp)]
        exact ⟨_, Fallible.bind_of_error (Machine.presentEntry_absent hpd)⟩
    · rw [walkEnd, if_neg hlt]
      exact ⟨_, Fallible.bind_of_error (Machine.tableAt_crash hlt)⟩
  | succ l ih =>
    have ht := htab (by omega)
    by_cases hlt : phys.toNat < 2^32
    · rw [walkEnd, if_pos hlt, Machine.unmapWalk, Fallible.bind_of_ok (Machine.tableAt_run hlt)]
      cases hpr : PageTableEntry.isPresent ⟨s.mem (phys.toNat/4096) (v.index (l+1+1))⟩ with
      | true =>
        rw [if_pos rfl, Fallible.bind_of_ok (Machine.presentEntry_run hpr)]
        refine ih (ClearsTables.bind (.unlink ⟨_, ht⟩ _ _) (hk.ifEmpty _)) _ _ fun h2 =>
          .link (i := v.index (l+1+1)) ht ?_
        exact PageTableEntry.kind_link.mpr ⟨hpr, by omega, fun h => by omega, rfl⟩
      | false =>
        rw [if_neg (by simp)]
        exact ⟨_, Fallible.bind_of_error (Machine.presentEntry_absent hpr)⟩
    · rw [walkEnd, if_neg hlt]
      exact ⟨_, Fallible.bind_of_error (Machine.tableAt_crash hlt)⟩

private theorem unmapFromRoot_end : match m.walkEndOf s.mem v with
    | .pageTable pd pt => if PageTableEntry.isPresent ⟨s.mem pt (v.index 0)⟩ then
        PageTableEntry.isPresent ⟨s.mem pd (v.index 1)⟩ = true ∧ ∃ child rest, ClearsTables m s.mem rest ∧
          Machine.unmapFromRoot v true (m.mode.top-1) m.rootTablePhys s = Machine.ifEmpty pt
            (Machine.unlinkTable pd (v.index 1) child >>= fun _ => rest) (s.setWord pt (v.index 0) 0)
        else ∃ e, Machine.unmapFromRoot v true (m.mode.top-1) m.rootTablePhys s = (.error e, s)
    | _ => ∃ e, Machine.unmapFromRoot v true (m.mode.top-1) m.rootTablePhys s = (.error e, s) := by
  obtain ⟨l, hl⟩ : ∃ l, m.mode.top = l+3 := by cases m.mode <;> exact ⟨_, rfl⟩
  have hroot : m.Table s.mem (l+2+1) (m.rootTablePhys.toNat/4096) := by
    rw [← hl]
    exact .root
  rw [walkEndOf, hl, show l+3-1 = l+2 from rfl, Machine.unmapFromRoot]
  by_cases hlt : m.rootTablePhys.toNat < 2^32
  · rw [walkEnd, if_pos hlt, Fallible.bind_of_ok (Machine.tableAt_run hlt)]
    cases hpr : PageTableEntry.isPresent ⟨s.mem (m.rootTablePhys.toNat/4096) (v.index (l+2+1))⟩ with
    | true =>
      rw [if_pos rfl, Fallible.bind_of_ok (Machine.presentEntry_run hpr)]
      refine unmapWalk_end (.unlink ⟨_, hroot⟩ _ _) _ (l+1) _ fun _ => .link (i := v.index (l+2+1)) hroot ?_
      exact PageTableEntry.kind_link.mpr ⟨hpr, by omega, fun h => by omega, rfl⟩
    | false =>
      rw [if_neg (by simp)]
      exact ⟨_, Fallible.bind_of_error (Machine.presentEntry_absent hpr)⟩
  · rw [walkEnd, if_neg hlt]
    exact ⟨_, Fallible.bind_of_error (Machine.tableAt_crash hlt)⟩

/-- The clearing of the leaf and of what follows writes only tables exactly under the condition. -/
private theorem unmapTail_writes_iff {pd pt : Nat} (child : PageTableEntry) {rest : Machine.Op Unit}
    (hpr : PageTableEntry.isPresent ⟨s.mem pt (v.index 0)⟩ = true)
    (hpd : PageTableEntry.isPresent ⟨s.mem pd (v.index 1)⟩ = true) (hrest : ClearsTables m s.mem rest) :
    m.WritesOnlyTables s (Machine.ifEmpty pt
      (Machine.unlinkTable pd (v.index 1) child >>= fun _ => rest) (s.setWord pt (v.index 0) 0)).2 ↔
      m.IsTable s.mem pt ∧ ((∀ j, j ≠ v.index 0 → s.mem pt j = 0) → m.IsTable s.mem pd) := by
  have hne : s.mem pt (v.index 0) ≠ 0 := fun h => by
    rw [h, not_present_zero] at hpr
    cases hpr
  have hne' : s.mem pd (v.index 1) ≠ 0 := fun h => by
    rw [h, not_present_zero] at hpd
    cases hpd
  have hempty : (s.setWord pt (v.index 0) 0).isPageTableEmpty pt = true ↔
      ∀ j, j ≠ v.index 0 → s.mem pt j = 0 := by
    rw [Machine.isPageTableEmpty_iff]
    refine forall_congr' fun j => ?_
    rw [Machine.setWord_mem]
    by_cases hj : j = v.index 0
    · simp [hj]
    · rw [if_neg fun h => hj (Prod.mk.inj h).2]
      simp [hj]
  rw [Machine.ifEmpty]
  split
  · rename_i he
    rw [hempty] at he
    have hmem₁ (g : Nat) (j : Fin 512) : ((s.setWord pt (v.index 0) 0).setWord pd (v.index 1) 0).mem g j =
        if (g, j) = (pd, v.index 1) then 0 else if (g, j) = (pt, v.index 0) then 0 else s.mem g j := by
      rw [Machine.setWord_mem, Machine.setWord_mem]
    obtain ⟨hm₁, hf₁⟩ := unlinkTable_keeps pd (v.index 1) child (s.setWord pt (v.index 0) 0)
    have hend := Fallible.bind_snd (P := fun t : Machine => (∀ g j, t.mem g j ≠
        ((s.setWord pt (v.index 0) 0).setWord pd (v.index 1) 0).mem g j → m.IsTable s.mem g ∧ t.mem g j = 0) ∧
        ∀ g, FreeIn s.pmm g → FreeIn t.pmm g) (x := Machine.unlinkTable pd (v.index 1) child)
      (f := fun _ => rest) (s := s.setWord pt (v.index 0) 0)
      ⟨fun g j hne => absurd (by rw [hm₁]) hne, hf₁⟩ fun _ t he _ => by
        obtain ⟨h₁, h₂⟩ := hrest t
        rw [he] at hm₁ hf₁
        rw [← hm₁]
        exact ⟨h₁, fun g hg => h₂ g (hf₁ g hg)⟩
    generalize ((Machine.unlinkTable pd (v.index 1) child >>= fun _ => rest) (s.setWord pt (v.index 0) 0)).2 = t
      at hend
    obtain ⟨hchange, hfree⟩ := hend
    have hcleared (g : Nat) (j : Fin 512)
        (h : ((s.setWord pt (v.index 0) 0).setWord pd (v.index 1) 0).mem g j = 0) : t.mem g j = 0 := by
      by_cases hg : t.mem g j = ((s.setWord pt (v.index 0) 0).setWord pd (v.index 1) 0).mem g j
      · rw [hg, h]
      · exact (hchange g j hg).2
    constructor
    · intro hP
      have htable (g : Nat) (j : Fin 512) (hz : t.mem g j = 0) (hs : s.mem g j ≠ 0) : m.IsTable s.mem g := by
        rcases hP g j (by rw [hz]; exact hs.symm) with h | ⟨h₁, h₂⟩
        · exact h
        · exact absurd (hfree g h₁) h₂
      exact ⟨htable pt _ (hcleared _ _ (by rw [hmem₁, if_pos (c := (pt, v.index 0) = _) rfl, ite_self])) hne,
        fun _ => htable pd _ (hcleared _ _ (by rw [hmem₁, if_pos rfl])) hne'⟩
    · rintro ⟨hpt, hpd⟩ g j hgj
      by_cases hg : t.mem g j = ((s.setWord pt (v.index 0) 0).setWord pd (v.index 1) 0).mem g j
      · rw [hg, hmem₁] at hgj
        split at hgj
        · rename_i h
          rw [(Prod.mk.inj h).1]
          exact .inl (hpd he)
        · split at hgj
          · rename_i h
            rw [(Prod.mk.inj h).1]
            exact .inl hpt
          · exact absurd rfl hgj
      · exact .inl (hchange g j hg).1
  · rename_i he
    rw [hempty] at he
    have hpp : m.WritesOnlyTables s (s.setWord pt (v.index 0) 0) ↔ _ := writesOnlyTables_setWord rfl rfl
    rw [hpp]
    exact ⟨fun h => ⟨h.resolve_right hne, fun h' => absurd h' he⟩, fun h => .inl h.1⟩

theorem unmapPage_writes_iff (hm : s.paging = some m) :
    m.WritesOnlyTables s (Machine.unmapPage v s).2 ↔ m.UnmapConfined s v := by
  rw [Machine.unmapPage, Machine.unmapPageInternal, Fallible.bind_of_ok (Machine.getPagingManager_run hm),
    UnmapConfined]
  by_cases hv : v.isCanonical m.mode = true
  · rw [Fallible.bind_of_ok (requireCanonical_run hv s), Machine.unmapLevels_eq]
    have hend := unmapFromRoot_end (v := v) (s := s) (m := m)
    simp only [hv, forall_true_left]
    split at hend
    · split at hend
      · rename_i hpr
        obtain ⟨hpd, child, rest, hrest, he⟩ := hend
        simp only [hpr, forall_true_left]
        rw [← unmapTail_writes_iff child hpr hpd hrest, ← he, Fallible.bind_run]
        rcases Machine.unmapFromRoot v true (m.mode.top-1) m.rootTablePhys s with ⟨e | _, t⟩ <;> rfl
      · rename_i hpr
        obtain ⟨e, he⟩ := hend
        rw [Fallible.bind_of_error he]
        simp only [hpr, Bool.false_eq_true, false_implies, iff_true]
        exact .of_mem rfl
    · obtain ⟨e, he⟩ := hend
      rw [Fallible.bind_of_error he]
      exact iff_of_true (.of_mem rfl) trivial
  · obtain ⟨message, he⟩ := requireCanonical_fails hv
    rw [Fallible.bind_of_error (he s)]
    exact iff_of_true (.of_mem rfl) fun h => absurd h hv

/-! ### All three -/

/-- Where no huge leaf is met the walk stays among the tables. -/
private theorem walkEnd_tables (hleaf : m.NoHugeLeaf s.mem v) (above : Nat) {l : Nat}
    {phys : BitVec 64} (hp : m.Walk s.mem v l (phys.toNat/4096)) (habove : l = 0 → m.IsTable s.mem above) :
    match walkEnd s.mem v above l phys with
    | .null => True
    | .absent _ f => m.IsTable s.mem f
    | .pageTable pd pt => m.IsTable s.mem pt ∧ m.IsTable s.mem pd := by
  induction l generalizing above phys with
  | zero =>
    by_cases hlt : phys.toNat < 2^32
    · rw [walkEnd, if_pos hlt]
      exact ⟨⟨0, hp.reach⟩, habove rfl⟩
    · rw [walkEnd, if_neg hlt]
      trivial
  | succ l ih =>
    rw [walkEnd]
    by_cases hlt : phys.toNat < 2^32
    · rw [if_pos hlt]
      by_cases hpr : PageTableEntry.isPresent ⟨s.mem (phys.toNat/4096) (v.index (l+1))⟩ = true
      · rw [if_pos hpr]
        refine ih _ (.step hp (PageTableEntry.kind_link.mpr ⟨hpr, by omega, fun h => ?_, rfl⟩)) fun _ => ⟨_, hp.reach⟩
        have hk : kind (l+1) (s.mem (phys.toNat/4096) (v.index (l+1))) = .leaf := by simp [kind, hpr, h]
        exact absurd (hleaf _ _ (TableTree.lookup_of_leaf hp hk)) (by omega)
      · rw [if_neg hpr]
        exact ⟨_, hp.reach⟩
    · rw [if_neg hlt]
      trivial

/-- So the conditions can only fail on a walk that meets a huge leaf. -/
theorem confined_of_noHugeLeaf (hleaf : m.NoHugeLeaf s.mem v) (p : PhysAddr) (flags : PageTableFlags) :
    m.MapConfined s v p flags ∧ m.UnmapConfined s v ∧ m.RemapConfined s v p flags := by
  have hend := walkEnd_tables (l := m.mode.top) hleaf 0 .root
    fun h => absurd h (by cases m.mode <;> decide)
  rw [MapConfined, UnmapConfined, RemapConfined, walkEndOf]
  generalize walkEnd s.mem v 0 m.mode.top m.rootTablePhys = w at hend ⊢
  cases w with
  | null => exact ⟨fun _ _ => trivial, fun _ => trivial, fun _ => trivial⟩
  | absent l f => exact ⟨fun _ _ => .inl hend, fun _ => trivial, fun _ => trivial⟩
  | pageTable pd pt => exact ⟨fun _ _ => .inl hend.1, fun _ _ => ⟨hend.1, fun _ => hend.2⟩, fun _ _ => .inl hend.1⟩

/-- Tables in the shape of the bootloader's: 2 MiB leaves for the first GiB. -/
def bootMachine : Machine := { smallMachine with
  mem := fun f i => if f = 1 ∧ i = 0 then 0x2003#64 else if f = 2 ∧ i = 0 then 0x3003#64
    else if f = 3 then BitVec.ofNat 64 (i*0x200000+0x83) else 0 }

private theorem boot_leaves (i : Fin 512) : kind 1 (bootMachine.mem 3 i) = .leaf := by
  revert i
  decide +kernel

private theorem boot_links {f : Nat} (l : Nat) (hf : f = 1 ∨ f = 2) (i : Fin 512) :
    kind (l+1) (bootMachine.mem f i) = if i = 0 then .link (f+1) else .absent := by
  have h₁ : kind (l+1) 0x2003#64 = .link 2 :=
    PageTableEntry.kind_link.mpr ⟨by decide, by omega, fun h => absurd h.2 (by decide), by decide⟩
  have h₂ : kind (l+1) 0x3003#64 = .link 3 :=
    PageTableEntry.kind_link.mpr ⟨by decide, by omega, fun h => absurd h.2 (by decide), by decide⟩
  have h₀ : kind (l+1) 0#64 = .absent := PageTableEntry.kind_zero _
  rcases hf with rfl | rfl <;> by_cases hi : i = 0 <;> simp [bootMachine, hi, h₀, h₁, h₂]

private theorem boot_tables {l f : Nat} (h : smallPaging.Table bootMachine.mem l f) : l = 4-f ∧ f ∈ [1, 2, 3] := by
  induction h with
  | root => exact ⟨rfl, by decide⟩
  | @link l f i g _ hk ih =>
    obtain ⟨hl, hf⟩ := ih
    simp only [List.mem_cons, List.not_mem_nil, or_false] at hf ⊢
    rcases hf with rfl | rfl | rfl
    · rw [boot_links l (.inl rfl)] at hk
      split at hk <;> simp at hk
      omega
    · rw [boot_links l (.inr rfl)] at hk
      split at hk <;> simp at hk
      omega
    · obtain rfl : l = 0 := by omega
      rw [boot_leaves] at hk
      cases hk

private theorem boot_link {l f g : Nat} {i : Fin 512} (h : smallPaging.Table bootMachine.mem (l+1) f)
    (hk : kind (l+1) (bootMachine.mem f i) = .link g) : (f = 1 ∨ f = 2) ∧ i = 0 ∧ g = f+1 := by
  obtain ⟨hl, hf⟩ := boot_tables h
  simp only [List.mem_cons, List.not_mem_nil, or_false] at hf
  have hf : f = 1 ∨ f = 2 := by
    rcases hf with rfl | rfl | rfl
    · exact .inl rfl
    · exact .inr rfl
    · obtain rfl : l = 0 := by omega
      rw [boot_leaves] at hk
      cases hk
  rw [boot_links l hf] at hk
  split at hk <;> simp at hk
  exact ⟨hf, ‹_›, hk.symm⟩

theorem boot_wellFormed : smallPaging.WellFormed bootMachine.mem where
  tree :=
    { root_unlinked := fun h hk => by
        obtain ⟨hf, _, hg⟩ := boot_link h hk
        have : (1 : Nat) = _ := hg
        omega
      linked_once := fun h hk h' hk' => by
        obtain ⟨_, hi, hg⟩ := boot_link h hk
        obtain ⟨_, hi', hg'⟩ := boot_link h' hk'
        exact ⟨by omega, hi.trans hi'.symm⟩ }
  target h hk := by
    obtain ⟨hf, _, hg⟩ := boot_link h hk
    omega

end PagingManager
end Nafuraito.Memory
