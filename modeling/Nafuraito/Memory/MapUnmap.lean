import Nafuraito.Memory.UnmapPage

/-! `unmap_page` takes back exactly what `map_page` did. -/
namespace Nafuraito.Memory
open Nafuraito.Library
open PageTableEntry (kind)
open PhysicalMemoryManager (FreeIn takeTableFrame usedFrames)

namespace PagingManager
variable {m : PagingManager} {s t u : Machine} {v : VirtAddr}

/-- An entry of a table that is not present is zero. -/
def AbsentZero (m : PagingManager) (mem : Frames) : Prop :=
  ∀ l f i, m.Table mem l f → PageTableEntry.isPresent ⟨mem f i⟩ = false → mem f i = 0

/-- Every table but the root has an entry. -/
def NoEmptyTable (m : PagingManager) (mem : Frames) : Prop :=
  ∀ l f, m.Table mem l f → f ≠ m.rootFrame → ∃ i, mem f i ≠ 0

/-- `t` reads as `s` in every frame that was not free, and has the same free frames. -/
structure Restores (s t : Machine) : Prop where
  paging : t.paging = s.paging
  mem : ∀ f, ¬ FreeIn s.pmm f → t.mem f = s.mem f
  free : ∀ f, FreeIn t.pmm f ↔ FreeIn s.pmm f
  total : t.pmm.map (·.totalFrames) = s.pmm.map (·.totalFrames)

/-! ### One level of the walk -/

/-- Clearing the entry `map_page` wrote. -/
private theorem Restores.leaf {f : Nat} {i : Fin 512} (hold : s.mem f i = 0) (e : BitVec 64) (event : Event) :
    Restores s (((s.setWord f i e).addLog event).setWord f i 0) where
  paging := rfl
  mem g _ := by
    funext j
    rw [Machine.setWord_mem, Machine.addLog_mem, Machine.setWord_mem]
    split
    · rename_i he
      obtain ⟨rfl, rfl⟩ := Prod.mk.inj he
      exact hold.symm
    · rfl
  free _ := Iff.rfl
  total := rfl

/-- `free_page_table` of a used frame clears its bit. -/
private theorem freePageTable_used {n : Nat} {child : BitVec 64} (hc : child.toNat = n*4096)
    {q : PhysicalMemoryManager} (hq : s.pmm = some q) (hn : n < q.totalFrames) (hused : ¬ FreeIn s.pmm n) :
    Machine.freePageTable child s =
      (.ok (), { s.addLog (.freeFrame (n*4096)) with pmm := some (q.giving n) }) := by
  have hdiv : n*4096/4096 = n := Nat.mul_div_cancel n (by decide)
  have hbit : Bitmap.test q.bitmap n = true := by
    rw [hq, PhysicalMemoryManager.freeIn_some, PhysicalMemoryManager.Free, not_and] at hused
    simpa using hused hn
  have hrun : PhysicalMemoryManager.freeFrame (n*4096) q = (.ok (), q.giving n) := by
    rcases PhysicalMemoryManager.freeFrame_run (n*4096) q with ⟨_, _, _, he⟩ | ⟨hne, _⟩
    · rwa [hdiv] at he
    · exact absurd ⟨Nat.mul_mod_left n 4096, by rwa [hdiv], by rwa [hdiv]⟩ hne
  rw [Machine.freePageTable, Fallible.mapError, hc, Machine.freeFrame]
  simp only [Machine.addLog_pmm, hq, hrun]
  rfl

/-- Unlinking the table that was linked and nothing else of which is left. -/
private theorem Restores.unlink {f n : Nat} {i : Fin 512} {e child : PageTableEntry}
    {p : Option PhysicalMemoryManager} (hold : s.mem f i = 0) (hn : FreeIn s.pmm n)
    (hp : PhysicalMemoryManager.TakesOnly s.pmm (n*4096) p) (hr : Restores (linked s f i e n p) t)
    (hc : child.address.toNat = n*4096) :
    ∃ u, Restores s u ∧ Machine.unlinkTable f i child t = (.ok (), u) := by
  obtain ⟨q₀, hq₀, hlt, _⟩ := id hn
  have htotal := hr.total.trans hp.total
  rw [hq₀, Option.map_some, Option.map_eq_some_iff] at htotal
  obtain ⟨q, hq, hsize⟩ := htotal
  have hfree (g : Nat) : FreeIn t.pmm g ↔ FreeIn s.pmm g ∧ g ≠ n :=
    (hr.free g).trans ((hp.free g).trans (and_congr_right fun _ => by omega))
  have hnq : n < q.totalFrames := by rwa [hsize]
  have hrun := freePageTable_used (s := t.setWord f i 0) hc hq hnq fun h => ((hfree n).mp h).2 rfl
  refine ⟨_, ?_, (Fallible.bind_of_ok (Machine.writeEntry_run _ _ _)).trans hrun⟩
  refine ⟨hr.paging, fun g hg => ?_, fun g => ?_, ?_⟩
  · have hgn : g ≠ n := by
      rintro rfl
      exact hg hn
    have hmem : t.mem g = _ := hr.mem g fun h => hg ((hp.free g).mp h).1
    funext j
    change (t.setWord f i 0).mem g j = _
    rw [Machine.setWord_mem, hmem, linked, Machine.setWord_mem]
    split
    · rename_i he
      obtain ⟨rfl, rfl⟩ := Prod.mk.inj he
      exact hold.symm
    · rw [Machine.setFrame_mem, if_neg hgn]
  · change FreeIn (some (q.giving n)) g ↔ _
    rw [PhysicalMemoryManager.giving_free hnq, ← hq, hfree]
    by_cases hg : g = n
    · subst hg
      exact iff_of_true (.inl rfl) hn
    · simp [hg]
  · change some (q.giving n).totalFrames = _
    rw [PhysicalMemoryManager.giving_total, hsize, hq₀, Option.map_some]

/-! ### The whole walk -/

theorem noHugeLeaf_of_unmapped {mem : Frames} (h : m.leaf mem v = none) : m.NoHugeLeaf mem v := fun l e he => by
  rw [h] at he
  cases he

/-- `map_page` keeps the walk it takes. -/
private theorem mapWalk_walk (hwf : m.WellFormed s.mem) (hu : m.TablesUsed s) (hleaf : m.NoHugeLeaf s.mem v)
    {l : Nat} {phys : BitVec 64} (hw : m.Walk s.mem v l (phys.toNat/4096)) (hlt : phys.toNat < 2^32)
    {p : PhysAddr} {flags : PageTableFlags} (he : Machine.mapWalk v p flags l phys s = (.ok (), t))
    {k g : Nat} (hg : m.Walk s.mem v k g) : m.Walk t.mem v k g := by
  obtain ⟨u, hgrown, ⟨f, hf, he'⟩ | ⟨message, he'⟩⟩ := mapWalk_run hwf hw hlt hleaf (hu.fresh l) p flags
  · obtain rfl := (Prod.mk.inj (he'.symm.trans he)).2
    exact walk_leafWrite hgrown.wellFormed hf _ (hgrown.walk hg)
  · rw [he'] at he
    cases he

/-- The walk leads nowhere from an empty table. -/
private theorem no_walk_below {mem : Frames} {l n : Nat} (hn : m.Walk mem v l n) (hempty : ∀ j, mem n j = 0)
    {k g : Nat} (hg : m.Walk mem v k g) : l ≤ k := by
  induction hg with
  | root => exact hn.reach.le_top
  | @step k f g hf hk ih =>
    rcases Nat.lt_or_ge k l with hlt | hge
    · obtain rfl : l = k+1 := by omega
      obtain rfl := hn.functional hf
      rw [hempty, PageTableEntry.kind_zero] at hk
      cases hk
    · exact hge

/-- Linking a new table, and what undoes it. -/
private theorem linkNewTable_undo (hwf : m.WellFormed s.mem) (hu : m.TablesUsed s) (h₀ : ¬ FreeIn s.pmm 0)
    (habs : m.AbsentZero s.mem) {l f : Nat} (hw : m.Walk s.mem v (l+1) f)
    (hpr : PageTableEntry.isPresent ⟨s.mem f (v.index (l+1))⟩ = false) {flags : PageTableFlags} {addr : BitVec 64}
    (hl : Machine.linkNewTable f (v.index (l+1)) flags s = (.ok addr, t)) :
    m.Grown s t ∧ addr.toNat < 2^32 ∧ addr.toNat % 4096 = 0 ∧ m.Walk t.mem v l (addr.toNat/4096) ∧
      (∀ j, t.mem (addr.toNat/4096) j = 0) ∧ m.AbsentZero t.mem ∧
      ∀ {u : Machine} {child : PageTableEntry}, Restores t u → child.address = addr →
        ∃ r, Restores s r ∧ Machine.unlinkTable f (v.index (l+1)) child u = (.ok (), r) := by
  rcases linkNewTable_run f (v.index (l+1)) flags s with ⟨_, message, he⟩ | ⟨husable, _, ha, hlt, hmod, he⟩ <;>
    rw [he] at hl
  · cases hl
  · cases hl
    have hne : (takeTableFrame s.pmm).1 ≠ 0 := fun h => husable (.inl h)
    have hmul : addr.toNat/4096*4096 = (takeTableFrame s.pmm).1 := by omega
    have htakes := PhysicalMemoryManager.takeTableFrame_takes s.pmm
    have honly := PhysicalMemoryManager.takeTableFrame_takesOnly h₀
    rw [← hmul] at htakes honly
    have hfree : FreeIn s.pmm (addr.toNat/4096) := by
      have := (htakes.taken (by omega)).2.1
      rwa [Nat.mul_div_cancel _ (by decide)] at this
    have hnew : ∀ k, ¬ m.Table s.mem k (addr.toNat/4096) := fun k hk => hu k _ hk hfree
    have hlinks := linked_links (takeTableFrame s.pmm).2 hw.reach (PageTableEntry.kind_absent.mpr hpr) hnew
      (link_entry hmod hlt flags l)
    have hzero (j : Fin 512) : (linked s f (v.index (l+1)) (.of addr (Machine.tableFlags flags))
        (addr.toNat/4096) (takeTableFrame s.pmm).2).mem (addr.toNat/4096) j = 0 := by
      have hpn : (addr.toNat/4096, j) ≠ (f, v.index (l+1)) := fun h =>
        hnew (l+1) ((Prod.mk.inj h).1 ▸ hw.reach)
      rw [linked, Machine.setWord_mem, if_neg hpn, Machine.setFrame_mem, if_pos rfl]
    refine ⟨Grown.of_linked hwf htakes (by omega) (by omega) hlinks, hlt, hmod, hlinks.path_new hwf.tree hw rfl,
      hzero, fun k g j hg hj => ?_, fun hr hc => ?_⟩
    · rcases (hlinks.reach_iff hwf.tree).mp hg with hg | ⟨_, rfl⟩
      · by_cases hfi : (g, j) = (f, v.index (l+1))
        · obtain ⟨rfl, rfl⟩ := Prod.mk.inj hfi
          have := hlinks.after
          rw [PageTableEntry.kind_link, hj] at this
          cases this.1
        · rw [hlinks.entry hg hfi] at hj ⊢
          exact habs k g j hg hj
      · exact hzero j
    · exact Restores.unlink (habs _ _ _ hw.reach hpr) hfree honly hr (by rw [hc]; omega)

/-- Undoing the walk of `map_page` from a table: the tables it linked are unlinked and freed, and
what is left to do is what becomes of the table it started from. -/
private theorem unmapWalk_mapWalk (hwf : m.WellFormed s.mem) (hu : m.TablesUsed s) (h₀ : ¬ FreeIn s.pmm 0)
    (habs : m.AbsentZero s.mem) (hnone : m.leaf s.mem v = none) {l : Nat} {phys : BitVec 64}
    (hw : m.Walk s.mem v l (phys.toNat/4096)) (hlt : phys.toNat < 2^32)
    (hentry : ∀ k g, k < l → m.Walk s.mem v k g → ∃ i, s.mem g i ≠ 0) {p : PhysAddr} {flags : PageTableFlags}
    (hpres : flags.raw.getLsbD 0 = true) (he : Machine.mapWalk v p flags l phys s = (.ok (), t))
    (event : Event) (onEmpty : Machine.Op Unit) : ∃ u, Restores s u ∧
      Machine.unmapWalk v true l phys onEmpty (t.addLog event) = Machine.ifEmpty (phys.toNat/4096) onEmpty u := by
  induction l generalizing s phys onEmpty with
  | zero =>
    rw [Machine.mapWalk, Fallible.bind_of_ok (Machine.tableAt_run hlt), Machine.writeEntry_run] at he
    obtain rfl := (Prod.mk.inj he).2
    have habsent : PageTableEntry.isPresent ⟨s.mem (phys.toNat/4096) (v.index 0)⟩ = false := by
      cases hpr : PageTableEntry.isPresent ⟨s.mem (phys.toNat/4096) (v.index 0)⟩ with
      | false => rfl
      | true =>
        have hk : kind 0 (s.mem (phys.toNat/4096) (v.index 0)) = .leaf := by simp [kind, hpr]
        have := (TableTree.lookup_of_leaf hw hk).symm.trans hnone
        cases this
    refine ⟨_, .leaf (habs 0 _ _ hw.reach habsent) (PageTableEntry.of p.addr flags).raw event, ?_⟩
    have hpr : PageTableEntry.isPresent ⟨((s.setWord (phys.toNat/4096) (v.index 0)
        (PageTableEntry.of p.addr flags).raw).addLog event).mem (phys.toNat/4096) (v.index 0)⟩ = true := by
      rw [Machine.addLog_mem, Machine.setWord_mem, if_pos rfl]
      exact PageTableEntry.of_present hpres
    rw [Machine.unmapWalk, Fallible.bind_of_ok (Machine.tableAt_run hlt),
      Fallible.bind_of_ok (Machine.presentEntry_run hpr), Fallible.bind_of_ok (Machine.writeEntry_run _ _ _),
      Machine.onlyIf, if_pos rfl, PageTableEntry.new]
  | succ l ih =>
    have hleaf := noHugeLeaf_of_unmapped hnone
    have hkeep {k g : Nat} : m.Walk s.mem v k g → m.Walk (t.addLog event).mem v k g :=
      mapWalk_walk hwf hu hleaf hw hlt he
    rw [Machine.mapWalk, Fallible.bind_of_ok (Machine.tableAt_run hlt)] at he
    have hlast := hkeep hw
    -- with the table below given, the entry that links it stands in `t`
    have hunmap {next : BitVec 64} (hmod : next.toNat % 4096 = 0)
        (hwn : m.Walk (t.addLog event).mem v l (next.toNat/4096)) :
        ∃ entry : PageTableEntry, entry.address = next ∧
        Machine.unmapWalk v true (l+1) phys onEmpty (t.addLog event) = Machine.unmapWalk v true l next (do
          Machine.unlinkTable (phys.toNat/4096) (v.index (l+1)) entry
          Machine.ifEmpty (phys.toNat/4096) onEmpty) (t.addLog event) := by
      obtain ⟨hpr, _, _, hframe⟩ := PageTableEntry.kind_link.mp (hlast.link hwn)
      have haddr : PageTableEntry.address ⟨(t.addLog event).mem (phys.toNat/4096) (v.index (l+1))⟩ = next := by
        rw [← BitVec.toNat_inj, PageTableEntry.address_eq, ← hframe]
        omega
      refine ⟨_, haddr, ?_⟩
      rw [Machine.unmapWalk, Fallible.bind_of_ok (Machine.tableAt_run hlt),
        Fallible.bind_of_ok (Machine.presentEntry_run hpr), haddr]
    cases hpr : PageTableEntry.isPresent ⟨s.mem (phys.toNat/4096) (v.index (l+1))⟩ with
    | true =>
      have hk := link_of_present hleaf hw hpr
      have hwn : m.Walk s.mem v l _ := .step hw hk
      rw [Fallible.bind_of_ok (getOrCreateNextLevel_present flags hpr)] at he
      obtain ⟨entry, _, hrun⟩ := hunmap (PageTableEntry.address_mod _) (hkeep hwn)
      obtain ⟨u, hu', hrun'⟩ := ih hwf hu h₀ habs hnone hwn (hwf.target_lt hw.reach hk)
        (fun k g hk => hentry k g (by omega)) he _
      obtain ⟨i, hi⟩ := hentry l _ (Nat.lt_succ_self l) hwn
      have hchild : u.mem (PageTableEntry.frame ⟨s.mem (phys.toNat/4096) (v.index (l+1))⟩) i ≠ 0 := by
        rwa [hu'.mem _ (hu l _ hwn.reach)]
      have hself : u.mem (phys.toNat/4096) (v.index (l+1)) ≠ 0 := by
        rw [hu'.mem _ (hu (l+1) _ hw.reach)]
        intro hz
        rw [hz] at hpr
        cases hpr
      refine ⟨u, hu', ?_⟩
      rw [hrun, hrun', Machine.ifEmpty_skip hself]
      exact Machine.ifEmpty_skip hchild
    | false =>
      obtain ⟨addr, u, hl, he'⟩ := Fallible.bind_ok he
      rw [getOrCreateNextLevel_absent flags hpr] at hl
      obtain ⟨hgrown, hlt', hmod, hwn, hzero, habs', hundo⟩ := linkNewTable_undo hwf hu h₀ habs hw hpr hl
      obtain ⟨entry, haddr, hrun⟩ := hunmap hmod
        (mapWalk_walk hgrown.wellFormed (hgrown.used hu) (noHugeLeaf_of_unmapped ((hgrown.leaf v).trans hnone))
          hwn hlt' he' hwn)
      obtain ⟨r, hr, hrun'⟩ := ih hgrown.wellFormed (hgrown.used hu) (fun h => h₀ (hgrown.free 0 h)) habs'
        ((hgrown.leaf v).trans hnone) hwn hlt'
        (fun k g hk hg => absurd (no_walk_below hwn hzero hg) (by omega)) he' _
      obtain ⟨r', hr', hunlink⟩ := hundo hr haddr
      have hempty (j : Fin 512) : r.mem (addr.toNat/4096) j = 0 := by
        rw [hr.mem _ (hgrown.used hu l _ hwn.reach)]
        exact hzero j
      refine ⟨r', hr', ?_⟩
      rw [hrun, hrun', Machine.ifEmpty_run hempty, Fallible.bind_of_ok hunlink]

/-! ### The pair of calls -/

/-- Two memories that agree on the tables of a walk give one answer, message and all. -/
private theorem readWalk_same {α : Type} (out : Nat → PageTableEntry → α) {w : VirtAddr}
    (hsame : ∀ l f, m.Table s.mem l f → t.mem f = s.mem f) {l : Nat} {phys : BitVec 64}
    (hw : m.Walk s.mem w l (phys.toNat/4096)) :
    (Machine.readWalk w out l phys t).1 = (Machine.readWalk w out l phys s).1 := by
  have hentry (i : Fin 512) : t.mem (phys.toNat/4096) i = s.mem (phys.toNat/4096) i := by rw [hsame l _ hw.reach]
  induction l generalizing phys with
  | zero =>
    rw [Machine.readWalk]
    by_cases hlt : phys.toNat < 2^32
    · rw [Fallible.bind_of_ok (Machine.tableAt_run hlt), Fallible.bind_of_ok (Machine.tableAt_run hlt)]
      cases hpr : PageTableEntry.isPresent ⟨s.mem (phys.toNat/4096) (w.index 0)⟩ with
      | false =>
        rw [Fallible.bind_of_error (Machine.presentEntry_absent hpr),
          Fallible.bind_of_error (Machine.presentEntry_absent (by rw [hentry, hpr]))]
      | true =>
        rw [Fallible.bind_of_ok (Machine.presentEntry_run hpr),
          Fallible.bind_of_ok (Machine.presentEntry_run (by rw [hentry, hpr])), hentry]
        rfl
    · rw [Fallible.bind_of_error (Machine.tableAt_crash hlt), Fallible.bind_of_error (Machine.tableAt_crash hlt)]
  | succ l ih =>
    rw [Machine.readWalk_succ]
    by_cases hlt : phys.toNat < 2^32
    · rw [Fallible.bind_of_ok (Machine.tableAt_run hlt), Fallible.bind_of_ok (Machine.tableAt_run hlt)]
      cases hpr : PageTableEntry.isPresent ⟨s.mem (phys.toNat/4096) (w.index (l+1))⟩ with
      | false =>
        rw [Fallible.bind_of_error (Machine.presentEntry_absent hpr),
          Fallible.bind_of_error (Machine.presentEntry_absent (by rw [hentry, hpr]))]
      | true =>
        rw [Fallible.bind_of_ok (Machine.presentEntry_run hpr),
          Fallible.bind_of_ok (Machine.presentEntry_run (by rw [hentry, hpr])), hentry]
        split
        · rfl
        · rename_i hh
          have hk := PageTableEntry.kind_link.mpr ⟨hpr, Nat.succ_ne_zero l, hh, rfl⟩
          have hwn : m.Walk s.mem w l _ := .step hw hk
          exact ih hwn fun i => congrFun (hsame l _ hwn.reach) i
    · rw [Fallible.bind_of_error (Machine.tableAt_crash hlt), Fallible.bind_of_error (Machine.tableAt_crash hlt)]

private theorem translateAddress_same (hm : s.paging = some m) (hp : t.paging = s.paging)
    (hsame : ∀ l f, m.Table s.mem l f → t.mem f = s.mem f) (w : VirtAddr) :
    (Machine.translateAddress w t).1 = (Machine.translateAddress w s).1 := by
  rw [Machine.translateAddress, Fallible.bind_of_ok (Machine.getPagingManager_run hm),
    Fallible.bind_of_ok (Machine.getPagingManager_run (hp.trans hm))]
  by_cases hv : w.isCanonical m.mode = true
  · rw [Fallible.bind_of_ok (requireCanonical_run hv s), Fallible.bind_of_ok (requireCanonical_run hv t),
      Machine.readLevels_eq]
    exact readWalk_same (Machine.leafAddress w) hsame .root
  · obtain ⟨message, he⟩ := requireCanonical_fails hv
    rw [Fallible.bind_of_error (he s), Fallible.bind_of_error (he t)]

theorem Restores.usedFrames_eq (h : Restores s t) : t.pmm.map usedFrames = s.pmm.map usedFrames := by
  have htotal := h.total
  have hfree := h.free
  cases hs : s.pmm with
  | none =>
    rw [hs, Option.map_none, Option.map_eq_none_iff] at htotal
    rw [htotal, Option.map_none]
  | some p =>
    rw [hs, Option.map_some, Option.map_eq_some_iff] at htotal
    obtain ⟨q, hq, _⟩ := htotal
    rw [hs, hq] at hfree
    rw [hq, Option.map_some, Option.map_some, Option.some.injEq]
    ext f
    change PhysicalMemoryManager.isFrameUsed _ _ = true ↔ PhysicalMemoryManager.isFrameUsed _ _ = true
    rw [← PhysicalMemoryManager.not_free_iff, ← PhysicalMemoryManager.not_free_iff, hfree]

/-- An address that is not mapped is mapped by `map_page` and unmapped again: the tables, every
translation and the used frames are those before. -/
theorem unmapPage_mapPage (hm : s.paging = some m) (hwf : m.WellFormed s.mem) (habs : m.AbsentZero s.mem)
    (hentry : m.NoEmptyTable s.mem) (hu : m.TablesUsed s) (h₀ : ¬ FreeIn s.pmm 0)
    (hnone : m.leaf s.mem v = none) {p : PhysAddr} {flags : PageTableFlags} (hpres : flags.raw.getLsbD 0 = true)
    (hok : Machine.mapPage v p flags s = (.ok (), t)) : ∃ u, Machine.unmapPage v t = (.ok (), u) ∧
      (∀ l f, m.Table s.mem l f → u.mem f = s.mem f) ∧
      (∀ w, (Machine.translateAddress w u).1 = (Machine.translateAddress w s).1) ∧
      u.pmm.map usedFrames = s.pmm.map usedFrames := by
  obtain ⟨g, hg, ⟨f, _, hroot, hrun⟩ | ⟨e, hrun⟩⟩ :=
    mapPage_run hm hwf (noHugeLeaf_of_unmapped hnone) (hu.fresh _) p flags
  · have hpaging : t.paging = some m := by
      obtain rfl := (Prod.mk.inj (hrun.symm.trans hok)).2
      exact hg.paging.trans hm
    obtain ⟨_, hv, t', he, rfl⟩ := mapPage_ok hm hok
    have hbelow (k g : Nat) (hk : k < m.mode.top) (hw : m.Walk s.mem v k g) : ∃ i, s.mem g i ≠ 0 := by
      refine hentry k g hw.reach ?_
      rintro rfl
      exact absurd (hwf.tree.level_unique hw.reach .root) (by omega)
    obtain ⟨u, hr, hback⟩ := unmapWalk_mapWalk hwf hu h₀ habs hnone .root hroot hbelow hpres he
      (.invlpg v.addr) (pure ())
    rw [Machine.ifEmpty_pure] at hback
    have hsame (l f : Nat) (hf : m.Table s.mem l f) : u.mem f = s.mem f := hr.mem f (hu l f hf)
    refine ⟨u.addLog (.invlpg v.addr), ?_, hsame, translateAddress_same hm hr.paging hsame, hr.usedFrames_eq⟩
    rw [Machine.unmapPage, Machine.unmapPageInternal, Fallible.bind_of_ok (Machine.getPagingManager_run hpaging),
      Fallible.bind_of_ok (requireCanonical_run hv _), Machine.unmapLevels_eq, Machine.unmapFromRoot_eq,
      m.mode.top_succ, Fallible.bind_of_ok hback]
    rfl
  · rw [hrun] at hok
    cases hok

/-! ### Two small machines -/

theorem absentZero_of_zero {mem : Frames} (h : ∀ f i, mem f i = 0) : m.AbsentZero mem := fun _ f i _ _ => h f i

theorem noEmptyTable_of_zero {mem : Frames} (h : ∀ f i, mem f i = 0) : m.NoEmptyTable mem := fun _ _ hf hne =>
  absurd (table_of_empty (fun l i => by rw [h, PageTableEntry.kind_zero]) hf).2 hne

theorem unmapPage_mapPage_small : ∃ u, Machine.unmapPage ⟨0x400000#64⟩
    (Machine.mapPage ⟨0x400000#64⟩ ⟨0x200000#64⟩ ⟨3#64⟩ smallMachine).2 = (.ok (), u) ∧
      u.pmm.map usedFrames = smallMachine.pmm.map usedFrames := by
  have hok : (Machine.mapPage ⟨0x400000#64⟩ ⟨0x200000#64⟩ ⟨3#64⟩ smallMachine).1 = .ok () := by rfl
  obtain ⟨u, hu, _, _, hused⟩ := unmapPage_mapPage (m := smallPaging) rfl
    (wellFormed_of_empty fun _ _ => PageTableEntry.kind_zero _) (absentZero_of_zero fun _ _ => rfl)
    (noEmptyTable_of_zero fun _ _ => rfl) smallMachine_used
    (PhysicalMemoryManager.not_free_iff.mpr (by decide)) rfl (by decide) (Fallible.run_of_fst hok)
  exact ⟨u, hu, hused⟩

/-- Twelve frames, of which only the second is used. -/
def zeroFree : PhysicalMemoryManager where
  bitmap i := if i = 0 then 0x02#8 else 0xF0#8
  bitmapSize := 2
  totalFrames := 12
  freeFrames := 11
  lastAllocIndex := 0
  highestAddress := 49160
  zones _ := ⟨12, 11⟩
  highest_lt := by decide
  total_eq := by decide
  size_eq := by decide

def zeroFreeMachine : Machine := { smallMachine with pmm := some zeroFree }

/-- The first table allocation takes frame 0 and reads its address as a failure, so the frame is
used afterwards and no call gives it back. -/
theorem frame_zero_lost : smallPaging.WellFormed zeroFreeMachine.mem ∧ smallPaging.AbsentZero zeroFreeMachine.mem ∧
    smallPaging.NoEmptyTable zeroFreeMachine.mem ∧ smallPaging.TablesUsed zeroFreeMachine ∧
    smallPaging.leaf zeroFreeMachine.mem ⟨0x400000#64⟩ = none ∧
    ∃ t u, Machine.mapPage ⟨0x400000#64⟩ ⟨0x200000#64⟩ ⟨3#64⟩ zeroFreeMachine = (.ok (), t) ∧
      Machine.unmapPage ⟨0x400000#64⟩ t = (.ok (), u) ∧
      u.pmm.map usedFrames ≠ zeroFreeMachine.pmm.map usedFrames := by
  have hok : (Machine.mapPage ⟨0x400000#64⟩ ⟨0x200000#64⟩ ⟨3#64⟩ zeroFreeMachine).1 = .ok () := by rfl
  have hok' : (Machine.unmapPage ⟨0x400000#64⟩
      (Machine.mapPage ⟨0x400000#64⟩ ⟨0x200000#64⟩ ⟨3#64⟩ zeroFreeMachine).2).1 = .ok () := by decide +kernel
  have hbefore : zeroFreeMachine.pmm.map (·.isFrameUsed 0) = some false := by decide
  have hafter : (Machine.unmapPage ⟨0x400000#64⟩
      (Machine.mapPage ⟨0x400000#64⟩ ⟨0x200000#64⟩ ⟨3#64⟩ zeroFreeMachine).2).2.pmm.map (·.isFrameUsed 0) =
      some true := by decide +kernel
  refine ⟨wellFormed_of_empty fun _ _ => PageTableEntry.kind_zero _, absentZero_of_zero fun _ _ => rfl,
    noEmptyTable_of_zero fun _ _ => rfl, ?_, rfl, _, _, Fallible.run_of_fst hok, Fallible.run_of_fst hok',
    PhysicalMemoryManager.usedFrames_ne (f := 0) hbefore hafter⟩
  intro l f hf
  obtain rfl := (table_of_empty (fun _ _ => PageTableEntry.kind_zero _) hf).2
  exact PhysicalMemoryManager.not_free_iff.mpr (by decide)

end PagingManager
end Nafuraito.Memory
