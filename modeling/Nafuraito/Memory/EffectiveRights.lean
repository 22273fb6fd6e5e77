import Nafuraito.Memory.CowSharing

/-! The rights the processor combines along a walk, and what `map_page` makes of them. It keeps
the present entries it walks through, so an entry with fewer rights limits the new page. -/
namespace Nafuraito.Memory
open Nafuraito.Library
open PageTableEntry (kind)
open PhysicalMemoryManager (takeTableFrame)

namespace PagingManager
variable {m : PagingManager} {s t u : Machine} {v w : VirtAddr} {flags : PageTableFlags}

/-- The words on the walk of an address, down to the table the walk ends in. -/
def walkWords (m : PagingManager) (mem : Frames) (v : VirtAddr) : Set (BitVec 64) :=
  {e | ∃ l f, m.Walk mem v l f ∧ mem f (v.index l) = e}

/-- Those that link a table. -/
def linkWords (m : PagingManager) (mem : Frames) (v : VirtAddr) : Set (BitVec 64) :=
  {e | ∃ l f g, m.Walk mem v (l+1) f ∧ mem f (v.index (l+1)) = e ∧ kind (l+1) e = .link g}

/-- The conjunction of a flag over some words. -/
def Grants (words : Set (BitVec 64)) (flag : BitVec 64) : Prop :=
  ∀ e ∈ words, PageTableFlags.contains ⟨e⟩ flag = true

/-! ### What the walk of `map_page` adds -/

/-- From `s` to `t` present entries stayed, and every link on the walk of `v` is an old one or
was made with these table flags. -/
structure Extended (m : PagingManager) (v : VirtAddr) (flags : PageTableFlags) (s t : Machine) : Prop where
  kept : ∀ {l f} (i : Fin 512), m.Table s.mem l f → PageTableEntry.isPresent ⟨s.mem f i⟩ = true →
    t.mem f i = s.mem f i
  links : ∀ e ∈ m.linkWords t.mem v, e ∈ m.linkWords s.mem v ∨
    ∃ addr : BitVec 64, e = (PageTableEntry.of addr (Machine.tableFlags flags)).raw

theorem Extended.refl : m.Extended v flags s s := ⟨fun _ _ _ => rfl, fun _ => .inl⟩

theorem Extended.trans (hg : m.Grown s t) (h : m.Extended v flags s t) (h' : m.Extended v flags t u) :
    m.Extended v flags s u where
  kept i ht hpr := by
    have hst := h.kept i ht hpr
    rw [h'.kept i (hg.tables ht) (hst ▸ hpr), hst]
  links e he := by
    rcases h'.links e he with he | he
    · exact h.links e he
    · exact .inr he

/-- One fresh table, linked with the flags for tables. -/
theorem Extended.of_linked (hwf : m.WellFormed s.mem) {l f n : Nat} {i : Fin 512} {addr : BitVec 64}
    {p : Option PhysicalMemoryManager}
    (hs : TableTree.Links kind s.mem (linked s f i (.of addr (Machine.tableFlags flags)) n p).mem m.mode.top
      m.rootFrame l f i n) :
    m.Extended v flags s (linked s f i (.of addr (Machine.tableFlags flags)) n p) where
  kept {k g} j hg hpr := by
    refine hs.entry hg fun he => ?_
    obtain ⟨rfl, rfl⟩ := Prod.mk.inj he
    rw [PageTableEntry.kind_absent.mp hs.before] at hpr
    cases hpr
  links e he := by
    obtain ⟨k, g, g', hw, rfl, hk⟩ := he
    rcases hs.path_old hwf.tree hw with hw | rfl
    · by_cases hgj : (g, v.index (k+1)) = (f, i)
      · obtain ⟨rfl, rfl⟩ := Prod.mk.inj hgj
        refine .inr ⟨addr, ?_⟩
        rw [linked, Machine.setWord_mem, if_pos rfl]
      · rw [hs.entry hw.reach hgj] at hk ⊢
        exact .inl ⟨k, g, g', hw, rfl, hk⟩
    · rw [hs.empty] at hk
      cases hk

private theorem getOrCreateNextLevel_extended (hwf : m.WellFormed s.mem) {l f n : Nat} (hw : m.Walk s.mem v (l+1) f)
    (hfresh : m.FreshTables (n+1) s) {next : BitVec 64}
    (hrun : Machine.getOrCreateNextLevel f (v.index (l+1)) flags s = (.ok next, t)) : m.Extended v flags s t := by
  cases hpr : PageTableEntry.isPresent ⟨s.mem f (v.index (l+1))⟩ with
  | true =>
    rw [getOrCreateNextLevel_present flags hpr] at hrun
    rw [← (Prod.mk.inj hrun).2]
    exact .refl
  | false =>
    rw [getOrCreateNextLevel_absent flags hpr] at hrun
    rcases linkNewTable_run f (v.index (l+1)) flags s with ⟨_, message, he⟩ | ⟨hu, addr, ha, hlt, hmod, he⟩
    · rw [he] at hrun
      cases hrun
    · have hnew : ∀ k, ¬ m.Table s.mem k (addr.toNat/4096) := by
        rw [ha]
        exact hfresh 0 (by omega) fun h => hu (.inl h)
      rw [he] at hrun
      rw [← (Prod.mk.inj hrun).2]
      exact .of_linked hwf (linked_links _ hw.reach (PageTableEntry.kind_absent.mpr hpr) hnew
        (link_entry hmod hlt flags l))

/-- A walk that returns extended the hierarchy on the path of `v` and wrote its entry. -/
theorem mapWalk_extended (hwf : m.WellFormed s.mem) {l : Nat} {phys : BitVec 64}
    (hw : m.Walk s.mem v l (phys.toNat/4096)) (hlt : phys.toNat < 2^32) (hleaf : m.NoHugeLeaf s.mem v)
    (hfresh : m.FreshTables l s) {p : PhysAddr} (hok : Machine.mapWalk v p flags l phys s = (.ok (), t)) :
    ∃ u f, m.Grown s u ∧ m.Extended v flags s u ∧ m.Walk u.mem v 0 f ∧
      t = u.setWord f (v.index 0) (PageTableEntry.of p.addr flags).raw := by
  induction l generalizing phys s with
  | zero =>
    rw [Machine.mapWalk, Fallible.bind_of_ok (Machine.tableAt_run hlt)] at hok
    exact ⟨s, _, .refl hwf, .refl, hw, (Prod.mk.inj hok).2.symm⟩
  | succ l ih =>
    rw [Machine.mapWalk, Fallible.bind_of_ok (Machine.tableAt_run hlt)] at hok
    rcases getOrCreateNextLevel_run hwf hw hleaf hfresh flags with
      ⟨next, s₁, he, hg, hfresh', hlt', hw'⟩ | ⟨message, s₁, he, -⟩
    · have hleaf' : m.NoHugeLeaf s₁.mem v := fun l e h => hleaf l e ((hg.leaf v).symm.trans h)
      have hext := getOrCreateNextLevel_extended hwf hw hfresh he
      rw [Fallible.bind_of_ok he] at hok
      obtain ⟨u, f, hgu, hextu, hwu, ht⟩ := ih hg.wellFormed hw' hlt' hleaf' hfresh' hok
      exact ⟨u, f, hg.trans hgu, hext.trans hg hextu, hwu, ht⟩
    · rw [Fallible.bind_of_error he] at hok
      cases hok

/-! ### Rights after `map_page` -/

private theorem walkWords_congr {mem mem' : Frames}
    (h : ∀ l f, m.Walk mem w l f → mem' f (w.index l) = mem f (w.index l)) :
    m.walkWords mem' w = m.walkWords mem w := by
  have hwalk {l f : Nat} : m.Walk mem' w l f ↔ m.Walk mem w l f :=
    TableTree.path_congr fun hp => by rw [h _ _ hp]
  ext e
  constructor
  · rintro ⟨l, f, hw, rfl⟩
    exact ⟨l, f, hwalk.mp hw, (h l f (hwalk.mp hw)).symm⟩
  · rintro ⟨l, f, hw, rfl⟩
    exact ⟨l, f, hwalk.mpr hw, h l f hw⟩

/-- The words of the new page: its links, and the entry written. -/
private theorem walkWords_mapped (hwf : m.WellFormed u.mem) {f : Nat} (hw : m.Walk u.mem v 0 f) (e : BitVec 64) :
    m.walkWords (u.setWord f (v.index 0) e).mem v = insert e (m.linkWords u.mem v) := by
  have hup {l g : Nat} (hg : m.Walk u.mem v (l+1) g) :
      (u.setWord f (v.index 0) e).mem g (v.index (l+1)) = u.mem g (v.index (l+1)) := by
    rw [Machine.setWord_mem, if_neg]
    intro he
    obtain ⟨rfl, -⟩ := Prod.mk.inj he
    exact absurd (hwf.tree.level_unique hg.reach hw.reach) (Nat.succ_ne_zero l)
  have hwalk {l g : Nat} : m.Walk (u.setWord f (v.index 0) e).mem v l g ↔ m.Walk u.mem v l g :=
    TableTree.path_congr fun hp => by rw [hup hp]
  ext x
  constructor
  · rintro ⟨l, g, hg, rfl⟩
    have hg := hwalk.mp hg
    cases l with
    | zero =>
      obtain rfl := hg.functional hw
      exact .inl (by rw [Machine.setWord_mem, if_pos rfl])
    | succ l =>
      obtain ⟨n, hn⟩ := hw.exists_above (Nat.zero_le l) (Nat.le_of_succ_le hg.reach.le_top)
      exact .inr ⟨l, g, n, hg, (hup hg).symm, by rw [hup hg]; exact hg.link hn⟩
  · rintro (rfl | ⟨l, g, n, hg, rfl, -⟩)
    · exact ⟨0, f, hwalk.mpr hw, by rw [Machine.setWord_mem, if_pos rfl]⟩
    · exact ⟨l+1, g, hwalk.mpr hg, hup hg⟩

/-- The words of other pages stay. -/
private theorem walkWords_other (hg : m.Grown s u) (hext : m.Extended v flags s u) {f : Nat} (hw : m.Walk u.mem v 0 f)
    (e : BitVec 64) (hne : m.Apart v w) (hmapped : m.leaf s.mem w ≠ none) :
    m.walkWords (u.setWord f (v.index 0) e).mem w = m.walkWords s.mem w := by
  have hwrite : m.walkWords (u.setWord f (v.index 0) e).mem w = m.walkWords u.mem w := by
    apply walkWords_congr
    intro l g hp
    rw [Machine.setWord_mem, if_neg (hg.wellFormed.tree.entry_apart hw hne hp)]
  rw [hwrite]
  apply walkWords_congr
  intro l g hp
  apply hext.kept _ hp.reach
  have hpr := hp.present hmapped
  rw [Ne, PageTableEntry.kind_absent] at hpr
  exact Bool.not_eq_false _ ▸ hpr

/-- The links the walk found are still on it. -/
private theorem linkWords_kept (hg : m.Grown s u) (hext : m.Extended v flags s u) :
    m.linkWords s.mem v ⊆ m.linkWords u.mem v := by
  rintro e ⟨l, f, g, hw, rfl, hk⟩
  have hsame := hext.kept (v.index (l+1)) hw.reach (PageTableEntry.kind_link.mp hk).1
  exact ⟨l, f, g, hg.walk hw, hsame, hk⟩

private theorem contains_bit (e : BitVec 64) {i : Nat} (hi : i < 64) :
    PageTableFlags.contains ⟨e⟩ (1#64 <<< i) = e.getLsbD i := Words.and_bit_ne_zero e hi

/-- The rights the theorem is about, by their bits. -/
private def IsRight (flag : BitVec 64) : Prop := flag = PageTableFlags.USER ∨ flag = PageTableFlags.WRITABLE

/-- A table `map_page` creates has every right that is requested. -/
private theorem tableFlags_contains {flag : BitVec 64} (hflag : IsRight flag) (h : flags.contains flag = true)
    (addr : BitVec 64) :
    PageTableFlags.contains ⟨(PageTableEntry.of addr (Machine.tableFlags flags)).raw⟩ flag = true := by
  have hbits : (⟨7#64⟩ : PageTableFlags).raw.getLsbD 2 = true ∧ ∀ c : Bool,
      (if c then (⟨7#64⟩ : PageTableFlags) else ⟨3#64⟩).raw.getLsbD 1 = true := by decide
  have htable : Machine.tableFlags flags = if flags.contains PageTableFlags.USER then ⟨7#64⟩ else ⟨3#64⟩ := rfl
  rcases hflag with rfl | rfl
  · rw [PageTableFlags.USER, contains_bit _ (by decide), PageTableEntry.of_getLsbD (by decide), htable, if_pos h]
    exact hbits.1
  · rw [PageTableFlags.WRITABLE, contains_bit _ (by decide), PageTableEntry.of_getLsbD (by decide), htable]
    exact hbits.2 _

private theorem of_contains (flags : PageTableFlags) {flag : BitVec 64} (hflag : IsRight flag) (addr : BitVec 64) :
    PageTableFlags.contains ⟨(PageTableEntry.of addr flags).raw⟩ flag = flags.contains flag := by
  rcases hflag with rfl | rfl
  · rw [PageTableFlags.USER, contains_bit _ (by decide), PageTableEntry.of_getLsbD (by decide)]
    exact (contains_bit _ (by decide)).symm
  · rw [PageTableFlags.WRITABLE, contains_bit _ (by decide), PageTableEntry.of_getLsbD (by decide)]
    exact (contains_bit _ (by decide)).symm

/-- One right of the new page: the entry has what was requested, so the links decide. -/
private theorem grants_mapped_iff (hg : m.Grown s u) (hext : m.Extended v flags s u) {flag : BitVec 64}
    (hflag : IsRight flag) (addr : BitVec 64) :
    (Grants (insert (PageTableEntry.of addr flags).raw (m.linkWords u.mem v)) flag ↔ flags.contains flag = true) ↔
      (flags.contains flag = true → Grants (m.linkWords s.mem v) flag) := by
  have hentry := of_contains flags hflag addr
  constructor
  · intro h hc e he
    exact h.mpr hc e (.inr (linkWords_kept hg hext he))
  · intro h
    constructor
    · intro hall
      rw [← hentry]
      exact hall _ (.inl rfl)
    · rintro hc e (rfl | he)
      · rwa [hentry]
      · rcases hext.links e he with he | ⟨a, rfl⟩
        · exact h hc e he
        · exact tableFlags_contains hflag hc a

/-- After `map_page` returns `Ok` the rights along the page's walk are those requested, and the
words other mapped pages are walked through are the old ones, exactly when every link the walk
found carried the rights requested. -/
theorem mapPage_rights_iff (hm : s.paging = some m) (hwf : m.WellFormed s.mem) (hleaf : m.NoHugeLeaf s.mem v)
    (hfresh : m.FreshTables m.mode.top s) {p : PhysAddr} (hok : Machine.mapPage v p flags s = (.ok (), t)) :
    ((Grants (m.walkWords t.mem v) PageTableFlags.USER ↔ flags.contains PageTableFlags.USER = true) ∧
      (Grants (m.walkWords t.mem v) PageTableFlags.WRITABLE ↔ flags.contains PageTableFlags.WRITABLE = true) ∧
      ∀ w, m.Apart v w → m.leaf s.mem w ≠ none → m.walkWords t.mem w = m.walkWords s.mem w) ↔
    (flags.contains PageTableFlags.USER = true → Grants (m.linkWords s.mem v) PageTableFlags.USER) ∧
      (flags.contains PageTableFlags.WRITABLE = true → Grants (m.linkWords s.mem v) PageTableFlags.WRITABLE) := by
  obtain ⟨-, -, t', hwalk, rfl⟩ := mapPage_ok hm hok
  have hroot : m.rootTablePhys.toNat < 2^32 := by
    by_contra hroot
    rw [mapWalk_crash hroot] at hwalk
    cases hwalk
  obtain ⟨u, f, hg, hext, hw, rfl⟩ := mapWalk_extended hwf .root hroot hleaf hfresh hwalk
  rw [Machine.addLog_mem, walkWords_mapped hg.wellFormed hw, grants_mapped_iff hg hext (.inl rfl),
    grants_mapped_iff hg hext (.inr rfl)]
  constructor
  · rintro ⟨huser, hwritable, -⟩
    exact ⟨huser, hwritable⟩
  · rintro ⟨huser, hwritable⟩
    exact ⟨huser, hwritable, fun w hne hmapped => walkWords_other hg hext hw _ hne hmapped⟩

/-! ### A small machine -/

private theorem small_grants (flag : BitVec 64) : Grants (smallPaging.linkWords smallMachine.mem v) flag := by
  rintro e ⟨l, f, g, -, rfl, hk⟩
  cases (PageTableEntry.kind_zero (l+1)).symm.trans hk

/-- A user page in an empty hierarchy. -/
theorem mapPage_rights_small : Grants (smallPaging.walkWords
    (Machine.mapPage ⟨0x400000#64⟩ ⟨0x9000#64⟩ ⟨7#64⟩ smallMachine).2.mem ⟨0x400000#64⟩) PageTableFlags.USER := by
  have hok : (Machine.mapPage ⟨0x400000#64⟩ ⟨0x9000#64⟩ ⟨7#64⟩ smallMachine).1 = .ok () := by rfl
  have hleaf : smallPaging.NoHugeLeaf smallMachine.mem ⟨0x400000#64⟩ := by
    intro l e h
    cases h
  have hrights := mapPage_rights_iff (m := smallPaging) rfl smallMachine_wellFormed
    hleaf (smallMachine_used.fresh 3) (Prod.ext hok rfl)
  exact (hrights.mpr ⟨fun _ => small_grants _, fun _ => small_grants _⟩).1.mpr (by decide)

/-- Its tables were made for a kernel page. -/
def kernelPage : Machine := (Machine.mapPage ⟨0x400000#64⟩ ⟨0x9000#64⟩ ⟨3#64⟩ smallMachine).2

theorem kernelPage_wellFormed : smallPaging.WellFormed kernelPage.mem ∧ smallPaging.TablesUsed kernelPage := by
  have hok : (Machine.mapPage ⟨0x400000#64⟩ ⟨0x9000#64⟩ ⟨3#64⟩ smallMachine).1 = .ok () := by rfl
  have hwf : smallPaging.WellFormed smallMachine.mem := smallMachine_wellFormed
  have hleaf : smallPaging.NoHugeLeaf smallMachine.mem ⟨0x400000#64⟩ := by
    intro l e h
    cases h
  rcases mapPage_pages (m := smallPaging) rfl hwf smallMachine_used hleaf
    (show (⟨3#64⟩ : PageTableFlags).raw.getLsbD 0 = true by decide)
    with ⟨t, hrun, hr⟩ | ⟨e, t, hrun, -⟩
  · rw [kernelPage, hrun]
    exact ⟨hr.wellFormed, hr.used⟩
  · rw [hrun] at hok
    cases hok

/-- A user page beside it is mapped behind tables without the user right. -/
theorem kernelPage_limits : smallPaging.WellFormed kernelPage.mem ∧ smallPaging.TablesUsed kernelPage ∧
    smallPaging.leaf kernelPage.mem ⟨0x401000#64⟩ = none ∧
    ∃ t, Machine.mapPage ⟨0x401000#64⟩ ⟨0x8000#64⟩ ⟨7#64⟩ kernelPage = (.ok (), t) ∧
      PageTableFlags.contains ⟨7#64⟩ PageTableFlags.USER = true ∧
      ¬ Grants (smallPaging.walkWords t.mem ⟨0x401000#64⟩) PageTableFlags.USER := by
  have hok : (Machine.mapPage ⟨0x401000#64⟩ ⟨0x8000#64⟩ ⟨7#64⟩ kernelPage).1 = .ok () := by rfl
  refine ⟨kernelPage_wellFormed.1, kernelPage_wellFormed.2, by rfl, _, Fallible.run_of_fst hok, by decide, fun h => ?_⟩
  have hroot := h _ ⟨3, 1, .root, rfl⟩
  revert hroot
  decide +kernel

end PagingManager
end Nafuraito.Memory
