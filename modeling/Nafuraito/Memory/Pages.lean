import Nafuraito.Memory.UnmapPage

/-! The pages of a hierarchy, each with its entry, and what the calls for a page do to them. -/
namespace Nafuraito.Memory
open Nafuraito.Library
open PageTableEntry (kind)
open PhysicalMemoryManager (FreeIn)

namespace PagingManager
variable {m : PagingManager} {mem : Frames} {s t u : Machine} {v : VirtAddr}

/-- A page, by the indices that lead to it. -/
abbrev Page (m : PagingManager) := Fin (m.mode.top+1) → Fin 512

def indices (k : m.Page) (level : Nat) : Fin 512 := if h : level < m.mode.top+1 then k ⟨level, h⟩ else k 0

def pageOf (m : PagingManager) (v : VirtAddr) : m.Page := fun k => v.index k

/-- The entry of a page, with the level it is found at. -/
def entryOf (m : PagingManager) (mem : Frames) (k : m.Page) : Option (Nat × BitVec 64) := m.lookup mem (indices k)

theorem indices_pageOf {l : Nat} (hl : l ≤ m.mode.top) : indices (m.pageOf v) l = v.index l := by
  rw [indices, dif_pos (by omega), pageOf]

theorem leaf_eq_entryOf (mem : Frames) (v : VirtAddr) : m.leaf mem v = m.entryOf mem (m.pageOf v) :=
  (TableTree.lookup_indices (fun _ hl => indices_pageOf hl) _).symm

/-- Every page has an address: its indices are the digits of the page number. -/
theorem pageOf_surjective (m : PagingManager) : Function.Surjective m.pageOf := by
  intro k
  let d (l : Nat) : Nat := (indices k l).val
  have hd (l : Nat) : d l < 512 := (indices k l).isLt
  let w : VirtAddr := ⟨BitVec.ofNat 64 (d 0*2^12+d 1*2^21+d 2*2^30+d 3*2^39+d 4*2^48)⟩
  have hw : w.addr.toNat = d 0*2^12+d 1*2^21+d 2*2^30+d 3*2^39+d 4*2^48 := by
    change (BitVec.ofNat 64 _).toNat = _
    have := hd 0
    have := hd 1
    have := hd 2
    have := hd 3
    have := hd 4
    rw [BitVec.toNat_ofNat]
    omega
  have hdigit {l : Nat} (hl : l ≤ 4) : (w.index l).val = d l := by
    have := hd 0
    have := hd 1
    have := hd 2
    have := hd 3
    have := hd 4
    rw [VirtAddr.index_toNat, hw]
    rcases (by omega : l = 0 ∨ l = 1 ∨ l = 2 ∨ l = 3 ∨ l = 4) with rfl | rfl | rfl | rfl | rfl <;> omega
  refine ⟨w, funext fun l => Fin.ext ?_⟩
  have htop : m.mode.top ≤ 4 := by cases m.mode <;> decide
  have hl : l.val < m.mode.top+1 := l.isLt
  refine (hdigit (by omega)).trans ?_
  change (indices k l).val = _
  rw [indices, dif_pos hl]

theorem index_ne_of_page_ne {k : m.Page} (h : k ≠ m.pageOf v) : ∃ l ≤ m.mode.top, v.index l ≠ indices k l := by
  obtain ⟨l, hl⟩ := Function.ne_iff.mp h
  refine ⟨l, by omega, fun he => hl ?_⟩
  rw [indices, dif_pos l.isLt] at he
  exact he.symm

theorem noHugeLeaf_of_page (h : ∀ l e, m.entryOf mem (m.pageOf v) = some (l, e) → l = 0) : m.NoHugeLeaf mem v :=
  fun l e he => h l e ((leaf_eq_entryOf mem v).symm.trans he)

theorem entryOf_present {k : m.Page} {l : Nat} {e : BitVec 64} (h : m.entryOf mem k = some (l, e)) :
    PageTableEntry.isPresent ⟨e⟩ = true := by
  have := TableTree.lookup_present h
  rw [Ne, PageTableEntry.kind_absent] at this
  simpa using this

/-- The frame a page is mapped to. -/
def frameOf (m : PagingManager) (s : Machine) (k : m.Page) : Option Nat :=
  (m.entryOf s.mem k).map fun e => PageTableEntry.frame ⟨e.2⟩

/-- Neither a table nor free. -/
def IsData (m : PagingManager) (s : Machine) (f : Nat) : Prop := (∀ l, ¬ m.Table s.mem l f) ∧ ¬ FreeIn s.pmm f

theorem frameOf_of_entry {k : m.Page} {l : Nat} {e : BitVec 64} (h : m.entryOf s.mem k = some (l, e)) :
    m.frameOf s k = some (PageTableEntry.frame ⟨e⟩) := by
  rw [frameOf, h]
  rfl

/-- From `s` to `t` the pages got these entries: tables changed, and frames that were free. -/
structure Relinked (m : PagingManager) (s t : Machine) (entries : m.Page → Option (Nat × BitVec 64)) : Prop where
  paging : t.paging = s.paging
  refcounts : t.refcounts = s.refcounts
  wellFormed : m.WellFormed t.mem
  used : m.TablesUsed t
  entries : m.entryOf t.mem = entries
  new : ∀ {l f}, m.Table t.mem l f → m.Table s.mem l f ∨ FreeIn s.pmm f
  rest : ∀ f, (∀ l, ¬ m.Table s.mem l f) → ¬ FreeIn s.pmm f → t.mem f = s.mem f
  free : ∀ f, FreeIn t.pmm f → FreeIn s.pmm f
  quiet : Machine.FreesOnly (fun _ => False) s t

theorem Grown.relinked (h : m.Grown s t) (hu : m.TablesUsed s) : m.Relinked s t (m.entryOf s.mem) where
  paging := h.paging
  refcounts := h.refcounts
  wellFormed := h.wellFormed
  used := h.used hu
  entries := funext fun k => h.lookup (indices k)
  new := h.new
  rest f ht hf := h.rest f fun l hl => (h.new hl).elim (ht l) hf
  free := h.free
  quiet := .of_log h.log

variable {entries : m.Page → Option (Nat × BitVec 64)}

/-- A write to the page-table entry of `v`, and the flush. -/
theorem Relinked.leafWrite (h : m.Relinked s t entries) {f : Nat} (hw : m.Walk t.mem v 0 f) {e : BitVec 64}
    (hpr : PageTableEntry.isPresent ⟨e⟩ = true) (addr : BitVec 64) :
    m.Relinked s ((t.setWord f (v.index 0) e).addLog (.invlpg addr))
      (Function.update entries (m.pageOf v) (some (0, e))) := by
  have hmem : ∀ g j, (g, j) ≠ (f, v.index 0) → (t.setWord f (v.index 0) e).mem g j = t.mem g j :=
    fun g j hne => by rw [Machine.setWord_mem, if_neg hne]
  obtain ⟨hwf, hw', htables, hother⟩ := h.wellFormed.leafWrite hw hmem
  refine ⟨h.paging, h.refcounts, hwf, fun l g hg => h.used l g ((htables l g).mp hg), ?_, fun hg =>
    h.new ((htables _ _).mp hg), fun g hg hfree => ?_, h.free, h.quiet.trans (.invlpg rfl addr)⟩
  · funext k
    by_cases hk : k = m.pageOf v
    · subst hk
      have hentry : (t.setWord f (v.index 0) e).mem f (v.index 0) = e := by rw [Machine.setWord_mem, if_pos rfl]
      have hkind : kind 0 e = .leaf := by simp [kind, hpr]
      rw [Function.update_self, ← leaf_eq_entryOf]
      refine (TableTree.lookup_of_leaf hw' ?_).trans ?_
      · rw [hentry, hkind]
      · rw [hentry]
    · rw [Function.update_of_ne hk, ← h.entries]
      exact hother (indices k) (index_ne_of_page_ne hk)
  · funext j
    rw [← h.rest g hg hfree]
    refine hmem g j fun he => ?_
    obtain ⟨rfl, _⟩ := Prod.mk.inj he
    exact (h.new hw.reach).elim (hg 0) hfree

theorem IsData.relinked {f : Nat} (h : m.IsData s f)
    (hr : m.Relinked s t entries) : m.IsData t f :=
  ⟨fun l hl => (hr.new hl).elim (h.1 l) h.2, fun hf => h.2 (hr.free f hf)⟩

theorem Relinked.frameOf_update {k : m.Page} {e : BitVec 64}
    (hr : m.Relinked s t (Function.update (m.entryOf s.mem) k (some (0, e)))) :
    m.frameOf t = Function.update (m.frameOf s) k (some (PageTableEntry.frame ⟨e⟩)) := by
  funext j
  rw [frameOf, hr.entries]
  by_cases hj : j = k
  · subst hj
    rw [Function.update_self, Function.update_self]
    rfl
  · rw [Function.update_of_ne hj, Function.update_of_ne hj]
    rfl

/-- The allocator gave frames away, and one that was free is filled. -/
theorem fill_relinked (hwf : m.WellFormed s.mem) (hu : m.TablesUsed s) {p : Option PhysicalMemoryManager}
    (hfree : ∀ f, FreeIn p f → FreeIn s.pmm f) {n : Nat} (hn : FreeIn s.pmm n) (words : Fin 512 → BitVec 64) :
    m.Relinked s (({ s with pmm := p } : Machine).setFrame n words) (m.entryOf s.mem) ∧
      ∀ l, ¬ m.Table (({ s with pmm := p } : Machine).setFrame n words).mem l n := by
  have hmem {f : Nat} (hf : f ≠ n) : (({ s with pmm := p } : Machine).setFrame n words).mem f = s.mem f :=
    Function.update_of_ne hf _ _
  obtain ⟨hwf, htables, hlookup⟩ := hwf.of_same fun l f hf =>
    hmem (f := f) fun he => hu l f hf (he ▸ hn)
  exact ⟨⟨rfl, rfl, hwf, fun l f hf hp => hu l f ((htables l f).mp hf) (hfree f hp), funext fun k => hlookup _,
    fun hf => .inl ((htables _ _).mp hf), fun f _ hf => hmem fun he => hf (he ▸ hn), hfree, .of_log rfl⟩,
    fun l hl => hu l n ((htables l n).mp hl) hn⟩

/-! ### The calls -/

theorem leaf_toNat (e : PageTableEntry) (v : VirtAddr) :
    (e.address ||| v.pageOffset).toNat = e.frame*4096 + v.pageOffset.toNat ∧ v.pageOffset.toNat < 4096 := by
  have hoff : v.pageOffset.toNat < 4096 := by
    rw [VirtAddr.pageOffset, Words.and_low_toNat offsetMask_bits]
    exact Nat.mod_lt _ (by decide)
  have hor := Words.or_toNat (k := 12) (x := e.address) (y := v.pageOffset) e.address_mod hoff
  rw [hor, e.address_eq]
  exact ⟨rfl, hoff⟩

section Calls
variable (hm : s.paging = some m) (hwf : m.WellFormed s.mem)
include hm hwf

/-- Reading a page of 4 KiB: both readers see its entry, or both fail. -/
theorem readers_run (hleaf : m.NoHugeLeaf s.mem v) :
    (∃ e, m.entryOf s.mem (m.pageOf v) = some (0, e) ∧ m.rootTablePhys.toNat < 2^32 ∧ v.isCanonical m.mode = true ∧
      Machine.translateAddress v s = (.ok ⟨PageTableEntry.address ⟨e⟩ ||| v.pageOffset⟩, s) ∧
      Machine.getPageFlags v s = (.ok (PageTableEntry.flags ⟨e⟩), s)) ∨
    ((m.rootTablePhys.toNat < 2^32 → v.isCanonical m.mode = true → m.entryOf s.mem (m.pageOf v) = none) ∧
      (∃ e, Machine.translateAddress v s = (.error e, s)) ∧ ∃ e, Machine.getPageFlags v s = (.error e, s)) := by
  rw [Machine.translateAddress, Machine.getPageFlags, Fallible.bind_of_ok (Machine.getPagingManager_run hm),
    Fallible.bind_of_ok (Machine.getPagingManager_run hm)]
  by_cases hv : v.isCanonical m.mode = true
  · rw [Fallible.bind_of_ok (requireCanonical_run hv s), Fallible.bind_of_ok (requireCanonical_run hv s),
      Machine.readLevels_eq, Machine.readLevels_eq, ← leaf_eq_entryOf]
    by_cases hroot : m.rootTablePhys.toNat < 2^32
    · rcases hwf.readWalk_run (Machine.leafAddress v) (s := s) rfl .root hroot with ⟨l, e, he, h₁⟩ | ⟨he, msg, h₁⟩ <;>
        rcases hwf.readWalk_run (fun _ e => e.flags) (s := s) rfl .root hroot with ⟨l', e', he', h₂⟩ | ⟨he', msg', h₂⟩
      · rw [he] at he'
        obtain ⟨rfl, rfl⟩ := Prod.mk.inj (Option.some.inj he')
        obtain rfl := hleaf l e he
        exact .inl ⟨e, he, hroot, hv, h₁, h₂⟩
      · rw [he] at he'
        cases he'
      · rw [he] at he'
        cases he'
      · exact .inr ⟨fun _ _ => he, ⟨_, h₁⟩, _, h₂⟩
    · exact .inr ⟨fun h => absurd h hroot, ⟨.crash, Machine.readWalk_crash v _ _ hroot⟩, .crash,
        Machine.readWalk_crash v _ _ hroot⟩
  · obtain ⟨message, he⟩ := requireCanonical_fails hv
    rw [Fallible.bind_of_error (he s), Fallible.bind_of_error (he s)]
    exact .inr ⟨fun _ h => absurd h hv, ⟨_, rfl⟩, _, rfl⟩

variable (hu : m.TablesUsed s) (hleaf : m.NoHugeLeaf s.mem v) {p : PhysAddr} {flags : PageTableFlags}
  (hflags : flags.raw.getLsbD 0 = true)
include hu hleaf hflags

theorem remapPage_pages :
    (∃ t, Machine.remapPage v p flags s = (.ok (), t) ∧ p.isAligned = true ∧
      m.Relinked s t (Function.update (m.entryOf s.mem) (m.pageOf v)
        (some (0, (PageTableEntry.of p.addr flags).raw)))) ∨
    ((p.isAligned = true → m.rootTablePhys.toNat < 2^32 → m.entryOf s.mem (m.pageOf v) = none) ∧
      ∃ e, Machine.remapPage v p flags s = (.error e, s)) := by
  rcases remapPage_run hm hwf hleaf p flags with ⟨f, hw, _, hp, he⟩ | ⟨hnone, e, he⟩
  · exact .inl ⟨_, he, hp, ((Grown.refl hwf).relinked hu).leafWrite hw (PageTableEntry.of_present hflags) _⟩
  · exact .inr ⟨fun h₁ h₂ => (leaf_eq_entryOf _ _).symm.trans (hnone h₁ h₂), e, he⟩

theorem mapPage_pages :
    (∃ t, Machine.mapPage v p flags s = (.ok (), t) ∧
      m.Relinked s t (Function.update (m.entryOf s.mem) (m.pageOf v)
        (some (0, (PageTableEntry.of p.addr flags).raw)))) ∨
    ∃ e t, Machine.mapPage v p flags s = (.error e, t) ∧ m.Relinked s t (m.entryOf s.mem) := by
  obtain ⟨u, hg, ⟨f, hw, _, he⟩ | ⟨e, he⟩⟩ := mapPage_run hm hwf hleaf (hu.fresh _) p flags
  · exact .inl ⟨_, he, (hg.relinked hu).leafWrite hw (PageTableEntry.of_present hflags) _⟩
  · exact .inr ⟨e, u, he, hg.relinked hu⟩

end Calls

/-! ### States by their entries -/

abbrev Entries (m : PagingManager) := m.Page → Option (Nat × BitVec 64)

section Entries
variable {E E' : m.Entries}

/-- A well-formed hierarchy of used tables that gives the pages these entries. -/
structure Shows (m : PagingManager) (s : Machine) (E : m.Entries) : Prop where
  paging : s.paging = some m
  wellFormed : m.WellFormed s.mem
  used : m.TablesUsed s
  entries : m.entryOf s.mem = E

/-- Not in a huge leaf. -/
def Small (E : m.Entries) (k : m.Page) : Prop := ∀ l e, E k = some (l, e) → l = 0

theorem small_update {k j : m.Page} {e : BitVec 64} (h : Small E j) :
    Small (Function.update E k (some (0, e))) j := by
  intro l e' he
  by_cases hj : j = k
  · rw [hj, Function.update_self] at he
    exact (Prod.mk.inj (Option.some.inj he)).1.symm
  · rw [Function.update_of_ne hj] at he
    exact h l e' he

namespace Shows
variable (h : m.Shows s E)
include h

theorem noHugeLeaf (hv : Small E (m.pageOf v)) : m.NoHugeLeaf s.mem v :=
  noHugeLeaf_of_page (h.entries ▸ hv)

theorem relinked (hr : m.Relinked s t E') : m.Shows t E' :=
  ⟨hr.paging.trans h.paging, hr.wellFormed, hr.used, hr.entries⟩

theorem taken {p : Option PhysicalMemoryManager} (hfree : ∀ f, FreeIn p f → FreeIn s.pmm f) :
    m.Shows { s with pmm := p } E := by
  have hg : m.Grown s { s with pmm := p } := .of_pmm h.wellFormed (a := 0) ⟨hfree, fun h => absurd rfl h⟩
  exact h.entries ▸ h.relinked (hg.relinked h.used)

theorem remapPage (hv : Small E (m.pageOf v)) {p : PhysAddr} {flags : PageTableFlags}
    (hflags : flags.raw.getLsbD 0 = true) :
    (∃ t, Machine.remapPage v p flags s = (.ok (), t) ∧ p.isAligned = true ∧ t.refcounts = s.refcounts ∧
      m.Shows t (Function.update E (m.pageOf v) (some (0, (PageTableEntry.of p.addr flags).raw)))) ∨
    ∃ e, Machine.remapPage v p flags s = (.error e, s) := by
  rcases remapPage_pages h.paging h.wellFormed h.used (h.noHugeLeaf hv) (p := p) hflags with
    ⟨t, hrun, hal, hr⟩ | ⟨-, he⟩
  · rw [h.entries] at hr
    exact .inl ⟨t, hrun, hal, hr.refcounts, h.relinked hr⟩
  · exact .inr he

theorem mapPage (hv : Small E (m.pageOf v)) {p : PhysAddr} {flags : PageTableFlags}
    (hflags : flags.raw.getLsbD 0 = true) :
    (∃ t, Machine.mapPage v p flags s = (.ok (), t) ∧ (∀ f, FreeIn t.pmm f → FreeIn s.pmm f) ∧
      m.Shows t (Function.update E (m.pageOf v) (some (0, (PageTableEntry.of p.addr flags).raw)))) ∨
    ∃ e t, Machine.mapPage v p flags s = (.error e, t) ∧ (∀ f, FreeIn t.pmm f → FreeIn s.pmm f) ∧ m.Shows t E := by
  rcases mapPage_pages h.paging h.wellFormed h.used (h.noHugeLeaf hv) (p := p) hflags with
    ⟨t, hrun, hr⟩ | ⟨e, t, hrun, hr⟩
  · rw [h.entries] at hr
    exact .inl ⟨t, hrun, hr.free, h.relinked hr⟩
  · rw [h.entries] at hr
    exact .inr ⟨e, t, hrun, hr.free, h.relinked hr⟩

/-- Reading a page that is mapped by a page table, if at all. -/
theorem readers (hv : Small E (m.pageOf v)) :
    (∃ e, E (m.pageOf v) = some (0, e) ∧ PageTableEntry.isPresent ⟨e⟩ = true ∧ v.isCanonical m.mode = true ∧
      Machine.translateAddress v s = (.ok ⟨PageTableEntry.address ⟨e⟩ ||| v.pageOffset⟩, s) ∧
      Machine.getPageFlags v s = (.ok (PageTableEntry.flags ⟨e⟩), s)) ∨
    (∃ e, Machine.translateAddress v s = (.error e, s)) ∧ ∃ e, Machine.getPageFlags v s = (.error e, s) := by
  rcases readers_run h.paging h.wellFormed (h.noHugeLeaf hv) with ⟨e, he, -, hcan, htr, hfl⟩ | ⟨-, htr, hfl⟩
  · exact .inl ⟨e, by rw [← he, h.entries], entryOf_present he, hcan, htr, hfl⟩
  · exact .inr ⟨htr, hfl⟩

end Shows

end Entries

end PagingManager
end Nafuraito.Memory
