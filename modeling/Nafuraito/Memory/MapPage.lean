import Nafuraito.Memory.PageWalk
import Nafuraito.Memory.TableFrames

/-! What `map_page` does to a well-formed hierarchy: it links fresh tables and writes one leaf. -/
namespace Nafuraito.Memory
open Nafuraito.Library
open PageTableEntry (kind)
open PhysicalMemoryManager (FreeIn Unusable takeTableFrame nthTableFrame)

namespace PagingManager
variable {m : PagingManager} {s t u : Machine} {v : VirtAddr}

/-- No table of the hierarchy is free in the frame allocator. -/
def TablesUsed (m : PagingManager) (s : Machine) : Prop := ∀ l f, m.Table s.mem l f → ¬ FreeIn s.pmm f

/-- None of the next `n` frames the allocator gives for tables is a table of the hierarchy. -/
def FreshTables (m : PagingManager) (n : Nat) (s : Machine) : Prop :=
  ∀ k < n, nthTableFrame s.pmm k ≠ 0 → ∀ l, ¬ m.Table s.mem l (nthTableFrame s.pmm k/4096)

theorem TablesUsed.fresh (h : m.TablesUsed s) (n : Nat) : m.FreshTables n s :=
  fun _ _ hk l ht => h l _ ht (PhysicalMemoryManager.nthTableFrame_free hk)

/-- From `s` to `t` empty tables were linked, and nothing else of the hierarchy changed. -/
structure Grown (m : PagingManager) (s t : Machine) : Prop where
  paging : t.paging = s.paging
  log : t.log = s.log
  regions : t.regions = s.regions
  refcounts : t.refcounts = s.refcounts
  wellFormed : m.WellFormed t.mem
  lookup : ∀ idx, m.lookup t.mem idx = m.lookup s.mem idx
  walk : ∀ {w l f}, m.Walk s.mem w l f → m.Walk t.mem w l f
  used : m.TablesUsed s → m.TablesUsed t
  rest : ∀ f, (∀ l, ¬ m.Table t.mem l f) → t.mem f = s.mem f
  tables : ∀ {l f}, m.Table s.mem l f → m.Table t.mem l f
  new : ∀ {l f}, m.Table t.mem l f → m.Table s.mem l f ∨ FreeIn s.pmm f
  free : ∀ f, FreeIn t.pmm f → FreeIn s.pmm f

theorem Grown.leaf (h : m.Grown s t) (w : VirtAddr) : m.leaf t.mem w = m.leaf s.mem w := h.lookup w.index

theorem Grown.trans (h : m.Grown s t) (h' : m.Grown t u) : m.Grown s u where
  paging := h'.paging.trans h.paging
  log := h'.log.trans h.log
  regions := h'.regions.trans h.regions
  refcounts := h'.refcounts.trans h.refcounts
  wellFormed := h'.wellFormed
  lookup idx := (h'.lookup idx).trans (h.lookup idx)
  walk hw := h'.walk (h.walk hw)
  used hu := h'.used (h.used hu)
  rest f hf := (h'.rest f hf).trans (h.rest f fun l hl => hf l (h'.tables hl))
  tables ht := h'.tables (h.tables ht)
  new ht := by
    rcases h'.new ht with ht | hf
    · exact h.new ht
    · exact .inr (h.free _ hf)
  free f hf := h.free f (h'.free f hf)

/-- A step of the allocator alone. -/
theorem Grown.of_pmm (hwf : m.WellFormed s.mem) {p : Option PhysicalMemoryManager} {a : Nat}
    (hp : PhysicalMemoryManager.Takes s.pmm a p) : m.Grown s { s with pmm := p } where
  paging := rfl
  log := rfl
  regions := rfl
  refcounts := rfl
  wellFormed := hwf
  lookup _ := rfl
  walk hw := hw
  used hu l f hf hfree := hu l f hf (hp.free f hfree)
  rest _ _ := rfl
  tables ht := ht
  new ht := .inl ht
  free f hf := hp.free f hf

theorem Grown.refl (hwf : m.WellFormed s.mem) : m.Grown s s := .of_pmm hwf (.refl s.pmm)

/-- The state after an absent entry got a fresh table. -/
def linked (s : Machine) (f : Nat) (i : Fin 512) (e : PageTableEntry) (n : Nat)
    (p : Option PhysicalMemoryManager) : Machine :=
  ({ s with pmm := p }.setFrame n (fun _ => 0)).setWord f i e.raw

/-- `alloc_page_table`, with the frame the allocator gives. -/
theorem allocPageTable_run (s : Machine) :
    (Unusable (takeTableFrame s.pmm).1 ∧ ∃ message, Machine.allocPageTable s =
      (.error (.err message), { s with pmm := (takeTableFrame s.pmm).2 })) ∨
    (¬ Unusable (takeTableFrame s.pmm).1 ∧ ∃ addr : BitVec 64, addr.toNat = (takeTableFrame s.pmm).1 ∧
      addr.toNat < 2^32 ∧ addr.toNat % 4096 = 0 ∧ Machine.allocPageTable s =
        (.ok addr, { s with pmm := (takeTableFrame s.pmm).2 }.setFrame (addr.toNat/4096) (fun _ => 0))) := by
  have htakes := PhysicalMemoryManager.takeTableFrame_takes s.pmm
  rw [Machine.allocPageTable]
  generalize takeTableFrame s.pmm = tp at htakes
  obtain ⟨addr, p⟩ := tp
  by_cases h₀ : addr = 0
  · exact .inl ⟨.inl h₀, _, if_pos h₀⟩
  · by_cases hhigh : addr ≥ 0x100000000
    · exact .inl ⟨.inr hhigh, _, (if_neg h₀).trans (if_pos hhigh)⟩
    · have hnat : (BitVec.ofNat 64 addr).toNat = addr := by
        rw [BitVec.toNat_ofNat]
        omega
      refine .inr ⟨by unfold Unusable; omega, BitVec.ofNat 64 addr, hnat, by omega, ?_, ?_⟩
      · rw [hnat]
        exact (htakes.taken h₀).1
      · rw [hnat]
        exact (if_neg h₀).trans (if_neg hhigh)

/-- `alloc_page_table` and the write of the link. -/
theorem linkNewTable_run (f : Nat) (i : Fin 512) (flags : PageTableFlags) (s : Machine) :
    (Unusable (takeTableFrame s.pmm).1 ∧ ∃ message, Machine.linkNewTable f i flags s =
      (.error (.err message), { s with pmm := (takeTableFrame s.pmm).2 })) ∨
    (¬ Unusable (takeTableFrame s.pmm).1 ∧ ∃ addr : BitVec 64, addr.toNat = (takeTableFrame s.pmm).1 ∧
      addr.toNat < 2^32 ∧ addr.toNat % 4096 = 0 ∧ Machine.linkNewTable f i flags s = (.ok addr,
        linked s f i (.of addr (Machine.tableFlags flags)) (addr.toNat/4096) (takeTableFrame s.pmm).2)) := by
  rw [Machine.linkNewTable]
  rcases allocPageTable_run s with ⟨hu, message, he⟩ | ⟨hu, addr, ha, hlt, hmod, he⟩
  · exact .inl ⟨hu, message, Fallible.bind_of_error he⟩
  · exact .inr ⟨hu, addr, ha, hlt, hmod, Fallible.bind_of_ok he⟩

theorem getOrCreateNextLevel_present {f : Nat} {i : Fin 512} (flags : PageTableFlags)
    (h : PageTableEntry.isPresent ⟨s.mem f i⟩ = true) :
    Machine.getOrCreateNextLevel f i flags s = (.ok (PageTableEntry.address ⟨s.mem f i⟩), s) := by
  rw [Machine.getOrCreateNextLevel, Fallible.bind_of_ok (Machine.readEntry_run _ _), if_pos h]
  rfl

theorem getOrCreateNextLevel_absent {f : Nat} {i : Fin 512} (flags : PageTableFlags)
    (h : PageTableEntry.isPresent ⟨s.mem f i⟩ = false) :
    Machine.getOrCreateNextLevel f i flags s = Machine.linkNewTable f i flags s := by
  rw [Machine.getOrCreateNextLevel, Fallible.bind_of_ok (Machine.readEntry_run _ _), if_neg (by simp [h])]

theorem linked_links {l f n : Nat} {i : Fin 512} {e : PageTableEntry}
    (p : Option PhysicalMemoryManager) (hf : m.Table s.mem (l+1) f)
    (habs : kind (l+1) (s.mem f i) = .absent) (hn : ∀ k, ¬ m.Table s.mem k n)
    (he : kind (l+1) e.raw = .link n) :
    TableTree.Links kind s.mem (linked s f i e n p).mem m.mode.top m.rootFrame l f i n where
  parent := hf
  before := habs
  fresh := hn
  after := by rw [linked, Machine.setWord_mem, if_pos rfl, he]
  empty k j := by
    have hne : (n, j) ≠ (f, i) := fun h => hn (l+1) ((Prod.mk.inj h).1 ▸ hf)
    rw [linked, Machine.setWord_mem, if_neg hne, Machine.setFrame_mem, if_pos rfl, PageTableEntry.kind_zero]
  rest g j hg hne := by
    rw [linked, Machine.setWord_mem, if_neg hne, Machine.setFrame_mem, if_neg hg]

/-- Linking a frame just taken from the allocator grows the hierarchy. -/
theorem Grown.of_linked (hwf : m.WellFormed s.mem) {l f n : Nat} {i : Fin 512} {e : PageTableEntry}
    {p : Option PhysicalMemoryManager} (hp : PhysicalMemoryManager.Takes s.pmm (n*4096) p)
    (hn0 : n ≠ 0) (hnlt : n < 2^20)
    (hs : TableTree.Links kind s.mem (linked s f i e n p).mem m.mode.top m.rootFrame l f i n) :
    m.Grown s (linked s f i e n p) where
  paging := rfl
  log := rfl
  regions := rfl
  refcounts := rfl
  wellFormed := by
    refine ⟨hs.isTree hwf.tree, ?_⟩
    intro l' f' g i' hf' hk
    rcases (hs.reach_iff hwf.tree).mp (.link hf' hk) with hg | ⟨_, rfl⟩
    · cases hg with
      | root => exact absurd hk ((hs.isTree hwf.tree).root_unlinked hf')
      | link hr hk' => exact hwf.target hr hk'
    · exact ⟨hn0, hnlt⟩
  lookup := hs.lookup_eq hwf.tree
  walk hw := hs.path hwf.tree hw
  used hu l' g hg hfree := by
    rcases (hs.reach_iff hwf.tree).mp hg with hg | ⟨_, rfl⟩
    · exact hu l' g hg (hp.free g hfree)
    · have := (hp.taken (by omega)).2.2
      rw [Nat.mul_div_cancel _ (by decide)] at this
      exact this hfree
  rest g hg := by
    funext j
    refine hs.rest g j ?_ ?_
    · rintro rfl
      exact hg l ((hs.reach_iff hwf.tree).mpr (.inr ⟨rfl, rfl⟩))
    · intro he
      exact hg (l+1) ((Prod.mk.inj he).1 ▸ hs.reach hwf.tree hs.parent)
  tables ht := hs.reach hwf.tree ht
  new ht := by
    rcases (hs.reach_iff hwf.tree).mp ht with ht | ⟨_, rfl⟩
    · exact .inl ht
    · have := (hp.taken (by omega)).2.1
      rw [Nat.mul_div_cancel _ (by decide)] at this
      exact .inr this
  free g hg := hp.free g hg

/-- The entry for a new table reads as a link to it. -/
theorem link_entry {addr : BitVec 64} (hmod : addr.toNat % 4096 = 0) (hlt : addr.toNat < 2^32)
    (flags : PageTableFlags) (l : Nat) :
    kind (l+1) (PageTableEntry.of addr (Machine.tableFlags flags)).raw = .link (addr.toNat/4096) := by
  have hbits : ∀ c : Bool, PageTableEntry.FlagBits (if c then ⟨7#64⟩ else ⟨3#64⟩) ∧
      (if c then (⟨7#64⟩ : PageTableFlags) else ⟨3#64⟩).raw.getLsbD 0 = true ∧
      (if c then (⟨7#64⟩ : PageTableFlags) else ⟨3#64⟩).raw.getLsbD 7 = false := by decide
  have hflags : Machine.tableFlags flags = if flags.contains PageTableFlags.USER then ⟨7#64⟩ else ⟨3#64⟩ := rfl
  obtain ⟨h₁, h₂, h₃⟩ := hbits (flags.contains PageTableFlags.USER)
  rw [hflags]
  refine PageTableEntry.kind_link.mpr ⟨PageTableEntry.of_present h₂, Nat.succ_ne_zero l, ?_, ?_⟩
  · rintro ⟨_, hh⟩
    change (PageTableEntry.of _ _).isHuge = true at hh
    rw [PageTableEntry.of_huge, h₃] at hh
    cases hh
  · change _ = (PageTableEntry.of _ _).address.toNat/4096
    rw [PageTableEntry.of_address hmod (by omega) h₁]

/-- One step of the walk: it ends in the linked table, old or new, or with a message. -/
theorem getOrCreateNextLevel_run (hwf : m.WellFormed s.mem) {l f n : Nat} (hw : m.Walk s.mem v (l+1) f)
    (hleaf : m.NoHugeLeaf s.mem v) (hfresh : m.FreshTables (n+1) s) (flags : PageTableFlags) :
    (∃ next t, Machine.getOrCreateNextLevel f (v.index (l+1)) flags s = (.ok next, t) ∧ m.Grown s t ∧
      m.FreshTables n t ∧ next.toNat < 2^32 ∧ m.Walk t.mem v l (next.toNat/4096)) ∨
    ∃ message t, Machine.getOrCreateNextLevel f (v.index (l+1)) flags s = (.error (.err message), t) ∧
      m.Grown s t := by
  cases hpr : PageTableEntry.isPresent ⟨s.mem f (v.index (l+1))⟩ with
  | true =>
    have hhuge : ¬ (l+1 ≤ 2 ∧ PageTableEntry.isHuge ⟨s.mem f (v.index (l+1))⟩ = true) := by
      intro hh
      have hk : kind (l+1) (s.mem f (v.index (l+1))) = .leaf := by simp [kind, hpr, hh]
      exact absurd (hleaf _ _ (TableTree.lookup_of_leaf hw hk)) (Nat.succ_ne_zero l)
    have hk := PageTableEntry.kind_link.mpr ⟨hpr, Nat.succ_ne_zero l, hhuge, rfl⟩
    rw [getOrCreateNextLevel_present flags hpr]
    refine .inl ⟨_, s, rfl, ?_, ?_, hwf.target_lt hw.reach hk, .step hw hk⟩
    · exact .refl hwf
    · exact fun k hlt => hfresh k (by omega)
  | false =>
    have htakes := PhysicalMemoryManager.takeTableFrame_takes s.pmm
    rw [getOrCreateNextLevel_absent flags hpr]
    rcases linkNewTable_run f (v.index (l+1)) flags s with ⟨_, message, he⟩ | ⟨hu, addr, ha, hlt, hmod, he⟩
    · exact .inr ⟨message, _, he, Grown.of_pmm hwf htakes⟩
    · have hne : (takeTableFrame s.pmm).1 ≠ 0 := fun h => hu (.inl h)
      have hmul : addr.toNat/4096*4096 = (takeTableFrame s.pmm).1 := by omega
      have hnew : ∀ k, ¬ m.Table s.mem k (addr.toNat/4096) := by
        rw [ha]
        exact hfresh 0 (by omega) hne
      have hlinks := linked_links (takeTableFrame s.pmm).2 hw.reach (PageTableEntry.kind_absent.mpr hpr) hnew
        (link_entry hmod hlt flags l)
      refine .inl ⟨addr, _, he, ?_, ?_, hlt, hlinks.path_new hwf.tree hw rfl⟩
      · exact Grown.of_linked hwf (by rwa [hmul]) (by omega) (by omega) hlinks
      · intro k hk hnth l' ht
        change nthTableFrame (takeTableFrame s.pmm).2 k ≠ 0 at hnth
        rcases (hlinks.reach_iff hwf.tree).mp ht with ht | ⟨_, hsame⟩
        · exact hfresh (k+1) (by omega) hnth l' ht
        · rw [ha] at hsame
          exact PhysicalMemoryManager.nthTableFrame_ne hne hnth hsame

/-- The walk of `map_page`: the hierarchy grows until the page table is reached, whose entry is
then written, or until an allocation fails. -/
theorem mapWalk_run (hwf : m.WellFormed s.mem) {l : Nat} {phys : BitVec 64}
    (hw : m.Walk s.mem v l (phys.toNat/4096)) (hlt : phys.toNat < 2^32) (hleaf : m.NoHugeLeaf s.mem v)
    (hfresh : m.FreshTables l s) (p : PhysAddr) (flags : PageTableFlags) :
    ∃ u, m.Grown s u ∧
      ((∃ f, m.Walk u.mem v 0 f ∧
        Machine.mapWalk v p flags l phys s = (.ok (), u.setWord f (v.index 0) (PageTableEntry.of p.addr flags).raw)) ∨
      ∃ message, Machine.mapWalk v p flags l phys s = (.error (.err message), u)) := by
  induction l generalizing phys s with
  | zero =>
    rw [Machine.mapWalk, Fallible.bind_of_ok (Machine.tableAt_run hlt)]
    exact ⟨s, .refl hwf, .inl ⟨_, hw, rfl⟩⟩
  | succ l ih =>
    rw [Machine.mapWalk, Fallible.bind_of_ok (Machine.tableAt_run hlt)]
    rcases getOrCreateNextLevel_run hwf hw hleaf hfresh flags with
      ⟨next, t, he, hg, hfresh', hlt', hw'⟩ | ⟨message, t, he, hg⟩
    · have hleaf' : m.NoHugeLeaf t.mem v := fun l e h => hleaf l e ((hg.leaf v).symm.trans h)
      obtain ⟨u, hgu, hu⟩ := ih hg.wellFormed hw' hlt' hleaf' hfresh'
      rw [Fallible.bind_of_ok he]
      exact ⟨u, hg.trans hgu, hu⟩
    · rw [Fallible.bind_of_error he]
      exact ⟨t, hg, .inr ⟨message, rfl⟩⟩

theorem mapWalk_crash {p : PhysAddr} {flags : PageTableFlags} {l : Nat} {phys : BitVec 64} (h : ¬ phys.toNat < 2^32) :
    Machine.mapWalk v p flags l phys s = (.error .crash, s) := by
  cases l <;> exact Fallible.bind_of_error (Machine.tableAt_crash h)

/-- Writing the page-table entry of `v` changes no table and no lookup but that of `v`. -/
theorem WellFormed.leafWrite {mem mem' : Frames} (hwf : m.WellFormed mem) {f : Nat}
    (hw : m.Walk mem v 0 f) (hrest : ∀ g j, (g, j) ≠ (f, v.index 0) → mem' g j = mem g j) :
    m.WellFormed mem' ∧ m.Walk mem' v 0 f ∧ (∀ l g, m.Table mem' l g ↔ m.Table mem l g) ∧
      ∀ idx, (∃ k ≤ m.mode.top, v.index k ≠ idx k) → m.lookup mem' idx = m.lookup mem idx := by
  have hsame {l g : Nat} (j : Fin 512) (hg : m.Table mem (l+1) g) :
      kind (l+1) (mem' g j) = kind (l+1) (mem g j) := hwf.tree.leaf_same hw.reach hrest j hg
  refine ⟨⟨hwf.tree.of_same hsame, ?_⟩, TableTree.path_of_same hsame hw,
    fun l g => TableTree.reach_same_iff hsame, fun idx hne => hwf.tree.lookup_leafWrite hw hrest hne⟩
  intro l g n i hg hk
  have hg := TableTree.reach_to_same hsame hg
  exact hwf.target hg ((hsame i hg).symm.trans hk)

/-- Every outcome of `map_page`: the hierarchy grows, and then either the leaf is written and
flushed or the call fails. -/
theorem mapPage_run (hm : s.paging = some m) (hwf : m.WellFormed s.mem) (hleaf : m.NoHugeLeaf s.mem v)
    (hfresh : m.FreshTables m.mode.top s) (p : PhysAddr) (flags : PageTableFlags) :
    ∃ u, m.Grown s u ∧ ((∃ f, m.Walk u.mem v 0 f ∧ m.rootTablePhys.toNat < 2^32 ∧
      Machine.mapPage v p flags s =
        (.ok (), (u.setWord f (v.index 0) (PageTableEntry.of p.addr flags).raw).addLog (.invlpg v.addr))) ∨
      ∃ e, Machine.mapPage v p flags s = (.error e, u)) := by
  have hrefl := Grown.refl hwf
  rw [Machine.mapPage, Fallible.bind_of_ok (Machine.getPagingManager_run hm)]
  by_cases hp : p.isAligned = true
  · by_cases hv : v.isCanonical m.mode = true
    · rw [Fallible.bind_of_ok (Fallible.require_run_pos _ hp s), Fallible.bind_of_ok (requireCanonical_run hv s),
        Machine.mapLevels_eq]
      by_cases hroot : m.rootTablePhys.toNat < 2^32
      · obtain ⟨u, hg, ⟨f, hw, he⟩ | ⟨message, he⟩⟩ := mapWalk_run hwf .root hroot hleaf hfresh p flags
        · refine ⟨u, hg, .inl ⟨f, hw, hroot, ?_⟩⟩
          rw [Fallible.bind_of_ok he]
          rfl
        · exact ⟨u, hg, .inr ⟨_, Fallible.bind_of_error he⟩⟩
      · refine ⟨s, hrefl, .inr ⟨.crash, ?_⟩⟩
        exact Fallible.bind_of_error (mapWalk_crash hroot)
    · obtain ⟨message, he⟩ := requireCanonical_fails hv
      rw [Fallible.bind_of_ok (Fallible.require_run_pos _ hp s), Fallible.bind_of_error (he s)]
      exact ⟨s, hrefl, .inr ⟨_, rfl⟩⟩
  · rw [Fallible.bind_of_error (Fallible.require_run_neg _ hp s)]
    exact ⟨s, hrefl, .inr ⟨_, rfl⟩⟩

/-- The entry `map_page` writes gives each byte of the page its byte of the frame. -/
theorem leafAddress_of {p : PhysAddr} {flags : PageTableFlags} (hp : p.addr.toNat % 4096 = 0)
    (hlt : p.addr.toNat < 2^52) (hbits : PageTableEntry.FlagBits flags) (v : VirtAddr) {o : Nat}
    (ho : o < 4096) : Machine.leafAddress (v.page.plus o) 0 (.of p.addr flags) = p.plus o := by
  have hoff : (v.page.plus o).pageOffset.toNat = o := by
    rw [VirtAddr.pageOffset, Words.and_low_toNat offsetMask_bits, VirtAddr.page_plus_toNat v ho]
    omega
  have hor := Words.or_toNat (k := 12) (x := p.addr) (y := (v.page.plus o).pageOffset) hp (by omega)
  rw [Machine.leafAddress, PageTableEntry.of_address hp hlt hbits, PhysAddr.plus, PhysAddr.mk.injEq,
    ← BitVec.toNat_inj, hor, hoff, BitVec.toNat_add, BitVec.toNat_ofNat]
  omega

/-- After `map_page` returns `Ok` the page translates to the frame, every address with other
indices translates or fails as before, and the hierarchy is well formed. -/
theorem mapPage_exact (hm : s.paging = some m) (hwf : m.WellFormed s.mem) (hleaf : m.NoHugeLeaf s.mem v)
    (hv : v.isCanonical m.mode = true) {p : PhysAddr} (hp : p.addr.toNat % 4096 = 0)
    (hplt : p.addr.toNat < 2^52) {flags : PageTableFlags} (hpres : flags.raw.getLsbD 0 = true)
    (hbits : PageTableEntry.FlagBits flags) (hfresh : m.FreshTables m.mode.top s)
    (hok : Machine.mapPage v p flags s = (.ok (), t)) :
    (∀ o < 4096, Machine.translateAddress (v.page.plus o) t = (.ok (p.plus o), t)) ∧
      (∀ w : VirtAddr, w.isCanonical m.mode = true → (∃ k ≤ m.mode.top, v.index k ≠ w.index k) →
        (∀ a, (Machine.translateAddress w t).1 = .ok a ↔ (Machine.translateAddress w s).1 = .ok a) ∧
        ((∃ message, (Machine.translateAddress w t).1 = .error (.err message)) ↔
          ∃ message, (Machine.translateAddress w s).1 = .error (.err message))) ∧
      t.paging = some m ∧ m.WellFormed t.mem := by
  obtain ⟨u, hg, ⟨f, hw, hroot, he⟩ | ⟨e, he⟩⟩ := mapPage_run hm hwf hleaf hfresh p flags
  · obtain rfl := (Prod.mk.inj (he.symm.trans hok)).2
    have hpaging : u.paging = some m := hg.paging.trans hm
    let e := PageTableEntry.of p.addr flags
    let t := (u.setWord f (v.index 0) e.raw).addLog (.invlpg v.addr)
    have hmem : ∀ g j, (g, j) ≠ (f, v.index 0) → t.mem g j = u.mem g j :=
      fun g j hne => by rw [Machine.addLog_mem, Machine.setWord_mem, if_neg hne]
    obtain ⟨hwf', hw', _, hother⟩ := hg.wellFormed.leafWrite hw hmem
    refine ⟨fun o ho => ?_, fun w _ hne => ?_, hpaging, hwf'⟩
    · have hdiv := VirtAddr.page_plus_div v ho
      have hcan : (v.page.plus o).isCanonical m.mode = true := by rwa [VirtAddr.isCanonical_eq hdiv]
      have hentry : t.mem f (v.index 0) = e.raw := by rw [Machine.addLog_mem, Machine.setWord_mem, if_pos rfl]
      have hl : m.leaf t.mem (v.page.plus o) = some (0, e.raw) := by
        rw [leaf, lookup, VirtAddr.index_eq hdiv,
          TableTree.lookup_of_leaf hw' (by rw [hentry, PageTableEntry.of_kind_zero hpres]), hentry]
      rcases hwf'.translate_run hpaging hroot hcan with ⟨l, e', h₁, h₂⟩ | ⟨h₁, _⟩ <;> rw [hl] at h₁
      · obtain ⟨rfl, rfl⟩ := Prod.mk.inj (Option.some.inj h₁)
        rw [h₂, leafAddress_of hp hplt hbits v ho]
      · cases h₁
    · exact (readers_same (t := t) hm hpaging hwf hwf' ((hother w.index hne).trans (hg.lookup w.index))).1
  · rw [he] at hok
    cases hok

/-! ### A small machine -/

/-- A hierarchy that is only its root. -/
theorem table_of_empty {mem : Frames} (h : ∀ l i, kind (l+1) (mem m.rootFrame i) = .absent) {l f : Nat}
    (ht : m.Table mem l f) : l = m.mode.top ∧ f = m.rootFrame := by
  induction ht with
  | root => exact ⟨rfl, rfl⟩
  | link _ hk ih =>
    rw [ih.2, h] at hk
    cases hk

theorem wellFormed_of_empty {mem : Frames} (h : ∀ l i, kind (l+1) (mem m.rootFrame i) = .absent) :
    m.WellFormed mem := by
  have hnone {l f g : Nat} {i : Fin 512} (ht : m.Table mem (l+1) f) : kind (l+1) (mem f i) ≠ .link g := by
    rw [(table_of_empty h ht).2, h]
    simp
  exact ⟨⟨fun ht => hnone ht, fun ht hk => absurd hk (hnone ht)⟩, fun ht hk => absurd hk (hnone ht)⟩

/-- Ten frames, of which the first two are used. -/
def tenFrames : PhysicalMemoryManager where
  bitmap i := if i = 0 then 0x03#8 else 0xFC#8
  bitmapSize := 2
  totalFrames := 10
  freeFrames := 8
  lastAllocIndex := 0
  highestAddress := 41000
  zones _ := ⟨0, 0⟩
  highest_lt := by decide
  total_eq := rfl
  size_eq := rfl

/-- Four-level paging with an empty root in frame 1. -/
def smallPaging : PagingManager := ⟨.fourLevel, 0x1000#64, by decide⟩

def smallMachine : Machine where
  paging := some smallPaging
  pmm := some tenFrames
  regions _ := none
  refcounts _ := 0
  mem _ _ := 0
  log := []

theorem smallMachine_unmapped (v : VirtAddr) : smallPaging.leaf smallMachine.mem v = none :=
  TableTree.lookup_of_absent .root (PageTableEntry.kind_zero _)

theorem smallMachine_wellFormed : smallPaging.WellFormed smallMachine.mem :=
  wellFormed_of_empty fun _ _ => PageTableEntry.kind_zero _

theorem smallMachine_used : smallPaging.TablesUsed smallMachine := by
  intro l f hf
  obtain rfl := (table_of_empty (fun _ _ => PageTableEntry.kind_zero _) hf).2
  exact PhysicalMemoryManager.not_free_iff.mpr (by decide)

theorem mapPage_exact_small :
    Machine.translateAddress ((VirtAddr.mk 0x400000#64).page.plus 0x123)
      (Machine.mapPage ⟨0x400000#64⟩ ⟨0x200000#64⟩ ⟨3#64⟩ smallMachine).2 =
        (.ok ((PhysAddr.mk 0x200000#64).plus 0x123),
          (Machine.mapPage ⟨0x400000#64⟩ ⟨0x200000#64⟩ ⟨3#64⟩ smallMachine).2) := by
  have hok : (Machine.mapPage ⟨0x400000#64⟩ ⟨0x200000#64⟩ ⟨3#64⟩ smallMachine).1 = .ok () := by rfl
  have hleaf : smallPaging.NoHugeLeaf smallMachine.mem ⟨0x400000#64⟩ := by
    intro l e h
    cases h
  exact (mapPage_exact (m := smallPaging) rfl smallMachine_wellFormed hleaf (by decide) (by decide)
    (by decide) (by decide) (by decide) (smallMachine_used.fresh 3) (Prod.ext hok rfl)).1 0x123 (by decide)

end PagingManager
end Nafuraito.Memory
