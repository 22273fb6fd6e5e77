import Nafuraito.Memory.UnmapPage
import Nafuraito.Memory.Tlb

/-! No TLB holds a stale translation between the page-table calls: each call that changes the
entry of a page flushes that page, and nothing it does on the way changes another translation. -/
namespace Nafuraito.Memory
open Nafuraito.Library
open Fallible (Sees)
open Machine (Watched watch)
open PageTableEntry (kind)
open PhysicalMemoryManager (takeTableFrame nthTableFrame)

namespace PagingManager
variable {m : PagingManager} {s t : Machine} {seen : List Moment} {v w : VirtAddr} {A B : Set VirtAddr}
variable {mem mem' : Frames}

/-! ### Translations that stay -/

/-- The addresses in `A` translate in `mem'` as in `mem`. -/
def Like (m : PagingManager) (A : Set VirtAddr) (mem mem' : Frames) : Prop :=
  ∀ w ∈ A, m.translation mem' w = m.translation mem w

theorem Like.refl : m.Like A mem mem := fun _ _ => rfl

theorem Like.trans {mem'' : Frames} (h : m.Like A mem mem') (h' : m.Like A mem' mem'') : m.Like A mem mem'' :=
  fun w hw => (h' w hw).trans (h w hw)

/-- Tables in which the addresses in `A` translate as in `mem`, and no flush. -/
def Steady (m : PagingManager) (A : Set VirtAddr) (mem : Frames) : Moment → Prop
  | .tables mem' => m.Like A mem mem'
  | .invlpg _ => False

/-- From `s` the addresses in `A` translate as in `mem` at every moment. -/
abbrev Stays {α : Type} (m : PagingManager) (A : Set VirtAddr) (mem : Frames) (y : Watched α)
    (s : Machine × List Moment) : Prop :=
  Sees (m.Steady A mem) (fun t => m.Like A mem t.mem) y s

theorem Stays.watch {α : Type} {x : Machine.Op α} (h : m.Like A mem (x s).2.mem) :
    m.Stays A mem (Machine.watch x) (s, seen) := by
  refine .observed h fun y hy => ?_
  obtain rfl := List.mem_singleton.mp hy
  exact h

/-- A watched access, and what follows it. -/
theorem Stays.step {α β : Type} {x : Machine.Op α} {g : α → Watched β} (h : m.Like A mem (x s).2.mem)
    (hg : ∀ a t, x s = (.ok a, t) → ∀ seen, m.Stays A mem (g a) (t, seen)) :
    m.Stays A mem (Machine.watch x >>= g) (s, seen) := by
  refine Sees.bind (Stays.watch h) fun a t hrun _ => ?_
  obtain ⟨hr, ht⟩ := Prod.mk.inj hrun
  obtain ⟨t, seen'⟩ := t
  exact hg a t (Prod.ext hr (Prod.mk.inj ht).1) seen'

theorem Stays.read {α β : Type} {x : Machine.Op α} {a : α} (hx : x s = (.ok a, s)) (h : m.Like A mem s.mem)
    {g : α → Watched β} (hg : ∀ seen, m.Stays A mem (g a) (s, seen)) :
    m.Stays A mem (Machine.watch x >>= g) (s, seen) := by
  refine Stays.step (by rwa [hx]) fun b t hrun seen => ?_
  rw [hx] at hrun
  cases hrun
  exact hg seen

theorem Stays.fails {α β : Type} {x : Machine.Op α} {e : Stop} (hx : x s = (.error e, s)) (h : m.Like A mem s.mem)
    {g : α → Watched β} : m.Stays A mem (Machine.watch x >>= g) (s, seen) := by
  refine Stays.step (by rwa [hx]) fun b t hrun seen => ?_
  rw [hx] at hrun
  cases hrun

/-! ### What changes no translation -/

/-- Entries outside the tables. -/
theorem like_of_tables (h : ∀ l f, m.Table mem l f → mem' f = mem f) : m.Like A mem mem' := fun _ _ =>
  congrArg (Option.map _) (TableTree.trail_congr fun l f hf => congrFun (h l f hf.reach) _)

/-- A fresh empty table. -/
theorem like_of_links (hwf : m.WellFormed mem) {l f n : Nat} {i : Fin 512}
    (hs : TableTree.Links kind mem mem' m.mode.top m.rootFrame l f i n) : m.Like A mem mem' := fun w _ =>
  congrArg (Option.map _) (hs.trail_eq hwf.tree w.index)

/-- An empty table taken out. -/
theorem like_of_unlinks (hwf : m.WellFormed mem) {l f n : Nat} {i : Fin 512}
    (hs : TableTree.Unlinks kind mem mem' m.mode.top m.rootFrame l f i n) : m.Like A mem mem' := fun w _ =>
  congrArg (Option.map _) (hs.trail_eq hwf.tree w.index)

/-- The leaf of `v`, for the addresses that are apart from `v`. -/
theorem like_of_leafWrite (hwf : m.WellFormed s.mem) {f : Nat} (hw : m.Walk s.mem v 0 f) (hA : ∀ w ∈ A, m.Apart v w)
    (e : BitVec 64) : m.Like A s.mem (s.setWord f (v.index 0) e).mem := by
  intro w hwA
  refine congrArg (Option.map _) (hwf.tree.trail_leafWrite hw (fun g j hne => ?_) (hA w hwA))
  rw [Machine.setWord_mem, if_neg hne]

/-! ### The calls up to their flush -/

private theorem halfway_full (mem mem' : Frames) : Machine.halfway 512 mem mem' = mem' :=
  funext fun _ => funext fun i => if_pos i.isLt

private theorem halfway_same {f : Nat} (h : mem' f = mem f) (n : Nat) : Machine.halfway n mem mem' f = mem f := by
  funext i
  rw [Machine.halfway, h, ite_self]

/-- The frame that is zeroed is no table yet. -/
private theorem allocPageTable_tables (hfresh : m.FreshTables 1 s) {l f : Nat} (hf : m.Table s.mem l f) :
    (Machine.allocPageTable s).2.mem f = s.mem f := by
  rcases allocPageTable_run s with ⟨_, message, he⟩ | ⟨hu, addr, ha, -, -, he⟩
  · rw [he]
  · rw [he]
    funext i
    rw [Machine.setFrame_mem, if_neg]
    rintro rfl
    rw [ha] at hf
    exact hfresh 0 (by decide) (fun h => hu (.inl h)) l hf

private theorem allocPageTable_stays (hfresh : m.FreshTables 1 s) (hmem : m.Like A mem s.mem) :
    m.Stays A mem Watched.allocPageTable (s, seen) := by
  have hlike : ∀ n, m.Like A mem (Machine.halfway n s.mem (Machine.allocPageTable s).2.mem) := fun n =>
    hmem.trans (like_of_tables fun l f hf => halfway_same (allocPageTable_tables hfresh hf) n)
  refine .observed ?_ fun y hy => ?_
  · have hall := hlike 512
    rwa [halfway_full] at hall
  · obtain ⟨n, -, rfl⟩ := List.mem_map.mp (List.mem_reverse.mp hy)
    exact hlike n

private theorem linkNewTable_stays (hwf : m.WellFormed s.mem) {l f : Nat} {i : Fin 512} (hf : m.Table s.mem (l+1) f)
    (hpr : PageTableEntry.isPresent ⟨s.mem f i⟩ = false) (hfresh : m.FreshTables 1 s) (flags : PageTableFlags)
    (hmem : m.Like A mem s.mem) : m.Stays A mem (Watched.linkNewTable f i flags) (s, seen) := by
  refine Sees.bind (allocPageTable_stays hfresh hmem) fun addr t hrun _ => ?_
  obtain ⟨u, seen'⟩ := t
  have halloc : Machine.allocPageTable s = (.ok addr, u) :=
    Prod.ext (Prod.mk.inj hrun).1 (Prod.mk.inj (Prod.mk.inj hrun).2).1
  have hlink : Machine.linkNewTable f i flags s =
      (.ok addr, u.setWord f i (PageTableEntry.of addr (Machine.tableFlags flags)).raw) := by
    rw [Machine.linkNewTable, Fallible.bind_of_ok halloc]
    rfl
  have hlike : m.Like A mem (u.setWord f i (PageTableEntry.of addr (Machine.tableFlags flags)).raw).mem := by
    rcases linkNewTable_run f i flags s with ⟨_, message, he⟩ | ⟨hu, addr', ha, hlt, hmod, he⟩
    · rw [hlink] at he
      cases he
    · rw [hlink] at he
      obtain ⟨hr, hs⟩ := Prod.mk.inj he
      obtain rfl := Except.ok.inj hr
      rw [hs]
      refine hmem.trans (like_of_links hwf (linked_links _ hf (PageTableEntry.kind_absent.mpr hpr) ?_
        (link_entry hmod hlt flags l)))
      rw [ha]
      exact hfresh 0 (by decide) fun h => hu (.inl h)
  exact Stays.step hlike fun _ t' ht' _ => Sees.pure (by rw [← (Prod.mk.inj ht').2]; exact hlike) _

private theorem getOrCreateNextLevel_stays (hwf : m.WellFormed s.mem) {l f n : Nat} {i : Fin 512}
    (hf : m.Table s.mem (l+1) f) (hfresh : m.FreshTables (n+1) s) (flags : PageTableFlags) (hmem : m.Like A mem s.mem) :
    m.Stays A mem (Watched.getOrCreateNextLevel f i flags) (s, seen) := by
  refine Stays.step hmem fun e t ht seen => ?_
  obtain ⟨he, rfl⟩ := Prod.mk.inj ht
  obtain rfl := Except.ok.inj he
  cases hpr : PageTableEntry.isPresent ⟨s.mem f i⟩ with
  | true => exact Sees.pure hmem _
  | false => exact linkNewTable_stays hwf hf hpr (fun k hk => hfresh k (by omega)) flags hmem

private theorem mapWalk_stays (hwf : m.WellFormed s.mem) {l : Nat} {phys : BitVec 64}
    (hw : m.Walk s.mem v l (phys.toNat/4096)) (hlt : phys.toNat < 2^32) (hleaf : m.NoHugeLeaf s.mem v)
    (hfresh : m.FreshTables l s) {p : PhysAddr} {flags : PageTableFlags}
    (hA : (Machine.mapWalk v p flags l phys s).1 = .ok () → ∀ w ∈ A, m.Apart v w) (hmem : m.Like A mem s.mem) :
    m.Stays A mem (Watched.mapWalk v p flags l phys) (s, seen) := by
  induction l generalizing phys s seen with
  | zero =>
    rw [Machine.mapWalk, Fallible.bind_of_ok (Machine.tableAt_run hlt)] at hA
    refine Stays.read (Machine.tableAt_run hlt) hmem fun seen => Stays.watch ?_
    exact hmem.trans (like_of_leafWrite hwf hw (hA rfl) _)
  | succ l ih =>
    rw [Machine.mapWalk, Fallible.bind_of_ok (Machine.tableAt_run hlt)] at hA
    refine Stays.read (Machine.tableAt_run hlt) hmem fun seen => ?_
    refine Sees.bind (getOrCreateNextLevel_stays hwf hw.reach hfresh flags hmem) fun next u hrun hlike => ?_
    obtain ⟨u, seen'⟩ := u
    have hplain : Machine.getOrCreateNextLevel (phys.toNat/4096) (v.index (l+1)) flags s = (.ok next, u) := by
      have := Watched.getOrCreateNextLevel_observes (phys.toNat/4096) (v.index (l+1)) flags (s, seen)
      rw [hrun] at this
      exact this.symm
    rw [Fallible.bind_of_ok hplain] at hA
    rcases getOrCreateNextLevel_run hwf hw hleaf hfresh flags with
      ⟨next', u', he, hg, hfresh', hlt', hw'⟩ | ⟨message, u', he, -⟩ <;> rw [hplain] at he
    · obtain ⟨hr, rfl⟩ := Prod.mk.inj he
      obtain rfl := Except.ok.inj hr
      exact ih hg.wellFormed hw' hlt' (fun l e h => hleaf l e ((hg.leaf v).symm.trans h)) hfresh' hA hlike
    · cases he

private theorem remapWalk_stays (hwf : m.WellFormed s.mem) (hleaf : m.NoHugeLeaf s.mem v) {p : PhysAddr}
    {flags : PageTableFlags} {l : Nat} {phys : BitVec 64} (hw : m.Walk s.mem v l (phys.toNat/4096))
    (hlt : phys.toNat < 2^32) (hA : (Machine.remapWalk v p flags l phys s).1 = .ok () → ∀ w ∈ A, m.Apart v w)
    (hmem : m.Like A mem s.mem) : m.Stays A mem (Watched.remapWalk v p flags l phys) (s, seen) := by
  induction l generalizing phys seen with
  | zero =>
    rw [Machine.remapWalk, Fallible.bind_of_ok (Machine.tableAt_run hlt)] at hA
    refine Stays.read (Machine.tableAt_run hlt) hmem fun seen => ?_
    cases hpr : PageTableEntry.isPresent ⟨s.mem (phys.toNat/4096) (v.index 0)⟩ with
    | false => exact Stays.fails (Machine.presentEntry_absent hpr) hmem
    | true =>
      rw [Fallible.bind_of_ok (Machine.presentEntry_run hpr)] at hA
      exact Stays.read (Machine.presentEntry_run hpr) hmem fun seen =>
        Stays.watch (hmem.trans (like_of_leafWrite hwf hw (hA rfl) _))
  | succ l ih =>
    rw [Machine.remapWalk, Fallible.bind_of_ok (Machine.tableAt_run hlt)] at hA
    refine Stays.read (Machine.tableAt_run hlt) hmem fun seen => ?_
    cases hpr : PageTableEntry.isPresent ⟨s.mem (phys.toNat/4096) (v.index (l+1))⟩ with
    | false => exact Stays.fails (Machine.presentEntry_absent hpr) hmem
    | true =>
      rw [Fallible.bind_of_ok (Machine.presentEntry_run hpr)] at hA
      have hk := link_of_present hleaf hw hpr
      exact Stays.read (Machine.presentEntry_run hpr) hmem fun seen =>
        ih (.step hw hk) (hwf.target_lt hw.reach hk) hA

private theorem freePageTable_mem (addr : BitVec 64) (s : Machine) : (Machine.freePageTable addr s).2.mem = s.mem := by
  obtain ⟨p, hp, -⟩ := freeFrame_free addr.toNat s
  change (Machine.freeFrame addr.toNat s).2.mem = s.mem
  rw [hp]
  rfl

/-- `action` leaves the addresses in `A` alone from every state in which they still translate as
before, the table `g` of the walk has become empty and the tables above it are still linked. -/
private def Settles (m : PagingManager) (v : VirtAddr) (A : Set VirtAddr) (mem : Frames) (s : Machine) (l g : Nat)
    (action : Watched Unit) : Prop :=
  ∀ t seen, m.WellFormed t.mem → m.Like A mem t.mem → (∀ k f, l ≤ k → m.Walk s.mem v k f → m.Walk t.mem v k f) →
    (∀ j, t.mem g j = 0) → m.Stays A mem action (t, seen)

private theorem Settles.ifEmpty {l g : Nat} {action : Watched Unit} (h : Settles m v A mem s l g action)
    (hwf : m.WellFormed t.mem) (hmem : m.Like A mem t.mem)
    (hwalk : ∀ k f, l ≤ k → m.Walk s.mem v k f → m.Walk t.mem v k f) :
    m.Stays A mem (Watched.ifEmpty g action) (t, seen) := by
  by_cases he : t.isPageTableEmpty g = true
  · have hrun : Watched.ifEmpty g action (t, seen) = action (t, seen) := if_pos he
    obtain ⟨hstate, hseen⟩ := h t seen hwf hmem hwalk (Machine.isPageTableEmpty_iff.mp he)
    exact ⟨by rwa [hrun], by rwa [hrun]⟩
  · have hrun : Watched.ifEmpty g action (t, seen) = (.ok (), (t, seen)) := if_neg he
    exact ⟨by rwa [hrun], [], by rw [hrun]; rfl, by simp⟩

/-- Unlinking the walk's empty table, and going on if the table above is empty now. -/
private theorem Settles.unlinkThen {l f g : Nat} (hf : m.Walk s.mem v (l+1) f) (hg : m.Walk s.mem v l g)
    {child : PageTableEntry} (hc : child.address.toNat = g*4096) {next : Watched Unit}
    (hnext : Settles m v A mem s (l+1) f next) :
    Settles m v A mem s l g (Watched.unlinkTable f (v.index (l+1)) child >>= fun _ => Watched.ifEmpty f next) := by
  intro t seen hwf hmem hwalk hempty
  have hf' := hwalk (l+1) f (Nat.le_succ l) hf
  have hg' := hwalk l g le_rfl hg
  obtain ⟨hpruned, hup⟩ := unlinkTable_prunes hwf hf' hg' hempty hc
  have hlike := hmem.trans (like_of_unlinks hwf (setWord_unlinks hf'.reach (hf'.link hg') hempty))
  have hstays : m.Stays A mem (Watched.unlinkTable f (v.index (l+1)) child) (t, seen) := by
    refine Stays.step hlike fun _ u hu _ => Stays.watch ?_
    rw [freePageTable_mem, ← (Prod.mk.inj hu).2]
    exact hlike
  refine Sees.bind hstays fun _ u hrun hu => ?_
  have hend := Watched.unlinkTable_observes f (v.index (l+1)) child (t, seen)
  rw [hrun] at hend
  rw [← hend] at hpruned hup
  exact hnext.ifEmpty hpruned.wellFormed hu fun k g hk hw => hup k g hk (hwalk k g (by omega) hw)

/-- The walk fails on an address with no entry, or goes on to clear the entry. -/
private theorem unmapWalk_stays (hwf : m.WellFormed s.mem) (hleaf : m.NoHugeLeaf s.mem v) {l : Nat} {phys : BitVec 64}
    (hw : m.Walk s.mem v l (phys.toNat/4096)) (hlt : phys.toNat < 2^32)
    (hA : m.leaf s.mem v ≠ none → ∀ w ∈ A, m.Apart v w) (hmem : m.Like A mem s.mem) {onEmpty : Watched Unit}
    (hempty : Settles m v A mem s l (phys.toNat/4096) onEmpty) :
    m.Stays A mem (Watched.unmapWalk v l phys onEmpty) (s, seen) := by
  induction l generalizing phys seen onEmpty with
  | zero =>
    refine Stays.read (Machine.tableAt_run hlt) hmem fun seen => ?_
    cases hpr : PageTableEntry.isPresent ⟨s.mem (phys.toNat/4096) (v.index 0)⟩ with
    | false => exact Stays.fails (Machine.presentEntry_absent hpr) hmem
    | true =>
      refine Stays.read (Machine.presentEntry_run hpr) hmem fun seen => ?_
      have hmapped : m.leaf s.mem v ≠ none := by
        rw [leaf, lookup, TableTree.lookup_of_leaf hw (by simp [kind, hpr])]
        exact Option.some_ne_none _
      have hlike := hmem.trans (like_of_leafWrite hwf hw (hA hmapped) 0)
      refine Stays.step hlike fun _ t ht seen => ?_
      obtain rfl := (Prod.mk.inj ht).2
      exact hempty.ifEmpty (Pruned.leafWrite hwf hw 0).wellFormed hlike fun _ _ _ hg => walk_leafWrite hwf hw 0 hg
  | succ l ih =>
    refine Stays.read (Machine.tableAt_run hlt) hmem fun seen => ?_
    cases hpr : PageTableEntry.isPresent ⟨s.mem (phys.toNat/4096) (v.index (l+1))⟩ with
    | false => exact Stays.fails (Machine.presentEntry_absent hpr) hmem
    | true =>
      have hk := link_of_present hleaf hw hpr
      have hg : m.Walk s.mem v l _ := .step hw hk
      exact Stays.read (Machine.presentEntry_run hpr) hmem fun seen =>
        ih hg (hwf.target_lt hw.reach hk) (.unlinkThen hw hg (PageTableEntry.address_eq _) hempty)

/-! ### What the TLBs hold -/

/-- Every TLB that is possible holds addresses the processor has, those in `A` as they translate in `mem`. -/
def Coherent (m : PagingManager) (A : Set VirtAddr) (mem : Frames) (seen : List Moment) : Prop :=
  ∀ tlb, m.TlbAfter seen tlb → ∀ c ∈ tlb, c.1.SignExtended m.mode ∧ (c.1 ∈ A → m.translation mem c.1 = some c.2)

theorem Coherent.tables (h : m.Coherent A mem seen) (hl : m.Like A mem mem') :
    m.Coherent A mem (.tables mem' :: seen) := by
  rintro tlb ⟨old, hold, hsub⟩ c hc
  rcases hsub hc with hc | ⟨hext, htr⟩
  · exact h old hold c hc
  · exact ⟨hext, fun hA => (hl _ hA).symm.trans htr⟩

theorem Coherent.append (h : m.Coherent A mem seen) {new : List Moment} (hnew : ∀ x ∈ new, m.Steady A mem x) :
    m.Coherent A mem (new ++ seen) := by
  induction new with
  | nil => exact h
  | cons x new ih =>
    have hrest := ih fun y hy => hnew y (List.mem_cons_of_mem x hy)
    have hx := hnew x List.mem_cons_self
    cases x with
    | tables mem' => exact hrest.tables hx
    | invlpg addr => exact hx.elim

theorem Coherent.like (h : m.Coherent B mem seen) (hsub : A ⊆ B) (hl : m.Like A mem mem') : m.Coherent A mem' seen :=
  fun tlb ht c hc => ⟨(h tlb ht c hc).1, fun hA => (hl _ hA).trans ((h tlb ht c hc).2 (hsub hA))⟩

/-- A flush mends the page it is for. -/
theorem Coherent.flush (hv : v.SignExtended m.mode) (h : m.Coherent {w | m.Apart v w} mem seen) :
    m.Coherent Set.univ mem (.invlpg v.addr :: seen) := by
  rintro tlb ⟨old, hold, hsub⟩ c hc
  obtain ⟨hc, hkept⟩ := hsub hc
  obtain ⟨hext, htr⟩ := h old hold c hc
  refine ⟨hext, fun _ => htr ?_⟩
  by_contra hsame
  refine hkept ⟨hv, ?_⟩
  have hpage := hv.page_eq hext fun k hk => by_contra fun hne => hsame ⟨k, hk, hne⟩
  rw [← Nat.div_div_eq_div_mul, ← Nat.div_div_eq_div_mul, hpage]

/-- A watched computation after which every TLB is coherent if every TLB was before. -/
def Safe {α : Type} (m : PagingManager) (y : Watched α) (s : Machine × List Moment) : Prop :=
  m.Coherent Set.univ s.1.mem s.2 → m.Coherent Set.univ (y s).2.1.mem (y s).2.2

private theorem Stays.coherent {α : Type} {y : Watched α} (h : m.Stays A s.mem y (s, seen))
    (hc : m.Coherent Set.univ s.mem seen) : m.Coherent A s.mem (y (s, seen)).2.2 := by
  obtain ⟨-, new, hnew, hall⟩ := h
  rw [hnew]
  exact (hc.like (Set.subset_univ A) .refl).append hall

theorem Safe.of_stays {α : Type} {y : Watched α} (h : m.Stays Set.univ s.mem y (s, seen)) : m.Safe y (s, seen) :=
  fun hc => (h.coherent hc).like subset_rfl h.state

/-- A call that leaves every address alone where it fails, and else all but those of the page it flushes. -/
theorem Safe.flushes (hv : v.SignExtended m.mode) {body : Watched Unit}
    (h : ∀ A, ((body (s, seen)).1 = .ok () → ∀ w ∈ A, m.Apart v w) → m.Stays A s.mem body (s, seen)) :
    m.Safe (body >>= fun _ => Watched.invlpg v) (s, seen) := by
  rcases hrun : body (s, seen) with ⟨e | ⟨⟩, t, seen'⟩
  · refine Safe.of_stays (Sees.bind (h Set.univ fun hok => ?_) fun _ _ hok => ?_)
    · rw [hrun] at hok
      cases hok
    · rw [hrun] at hok
      cases hok
  · intro hc
    have hstays := h {w | m.Apart v w} fun _ w hw => hw
    have hbody := hstays.coherent hc
    have hlike := hstays.state
    rw [hrun] at hbody hlike
    rw [Fallible.bind_of_ok hrun]
    exact ((hbody.like subset_rfl hlike).flush hv).tables .refl

private theorem Safe.read {α β : Type} {x : Machine.Op α} {a : α} (hx : x s = (.ok a, s)) {g : α → Watched β}
    (hg : ∀ seen, m.Safe (g a) (s, seen)) : m.Safe (watch x >>= g) (s, seen) := by
  have hrun : watch x (s, seen) = (.ok a, (s, .tables s.mem :: seen)) := by
    change ((x s).1, ((x s).2, [Moment.tables (x s).2.mem] ++ seen)) = _
    rw [hx]
    rfl
  intro hc
  rw [Fallible.bind_of_ok hrun]
  exact hg _ (hc.tables .refl)

private theorem Safe.fails {α β : Type} {x : Machine.Op α} {e : Stop} (hx : x s = (.error e, s)) {g : α → Watched β} :
    m.Safe (watch x >>= g) (s, seen) := .of_stays (.fails hx .refl)

/-! ### The calls -/

theorem mapPage_safe (hm : s.paging = some m) (hwf : m.WellFormed s.mem) (hused : m.TablesUsed s)
    (hv : v.SignExtended m.mode) (hleaf : m.NoHugeLeaf s.mem v) (p : PhysAddr) (flags : PageTableFlags) :
    m.Safe (Watched.mapPage v p flags) (s, seen) := by
  refine Safe.read (Machine.getPagingManager_run hm) fun seen => ?_
  by_cases hp : p.isAligned = true
  · refine Safe.read (Fallible.require_run_pos _ hp s) fun seen =>
      Safe.read (requireCanonical_run hv.canonical s) fun seen => Safe.flushes hv fun A hA => ?_
    by_cases hroot : m.rootTablePhys.toNat < 2^32
    · refine mapWalk_stays hwf .root hroot hleaf (hused.fresh _) (fun hok => hA ?_) .refl
      exact ((Watched.mapWalk_observes v p flags _ _).result (s, seen)).trans hok
    · cases m.mode.top <;> exact .fails (Machine.tableAt_crash hroot) .refl
  · exact .fails (Fallible.require_run_neg _ hp s)

theorem remapPage_safe (hm : s.paging = some m) (hwf : m.WellFormed s.mem) (hv : v.SignExtended m.mode)
    (hleaf : m.NoHugeLeaf s.mem v) (p : PhysAddr) (flags : PageTableFlags) :
    m.Safe (Watched.remapPage v p flags) (s, seen) := by
  refine Safe.read (Machine.getPagingManager_run hm) fun seen => ?_
  by_cases hp : p.isAligned = true
  · refine Safe.read (Fallible.require_run_pos _ hp s) fun seen => Safe.flushes hv fun A hA => ?_
    by_cases hroot : m.rootTablePhys.toNat < 2^32
    · refine remapWalk_stays hwf hleaf .root hroot (fun hok => hA ?_) .refl
      exact ((Watched.remapWalk_observes v p flags _ _).result (s, seen)).trans hok
    · cases m.mode.top <;> exact .fails (Machine.tableAt_crash hroot) .refl
  · exact .fails (Fallible.require_run_neg _ hp s)

/-- A mapped page is unmapped without an error: its tables can be freed. -/
private theorem unmapWalk_succeeds (hm : s.paging = some m) (hwf : m.WellFormed s.mem) (hmarked : m.TablesMarked s)
    (hroot : m.rootTablePhys.toNat < 2^32) (hv : v.isCanonical m.mode = true) (hleaf : m.NoHugeLeaf s.mem v)
    (hmapped : m.leaf s.mem v ≠ none) :
    (Machine.unmapWalk v true m.mode.top m.rootTablePhys (pure ()) s).1 = .ok () := by
  obtain ⟨⟨l, e⟩, hl⟩ := Option.ne_none_iff_exists'.mp hmapped
  obtain rfl := hleaf l e hl
  obtain ⟨t, hrun, -⟩ := unmapPage_succeeds hm hwf hmarked hroot hv hl
  rw [Machine.unmapPage, Machine.unmapPageInternal, Fallible.bind_of_ok (Machine.getPagingManager_run hm),
    Fallible.bind_of_ok (requireCanonical_run hv s), Machine.unmapLevels_eq, Machine.unmapFromRoot_eq,
    m.mode.top_succ] at hrun
  obtain ⟨_, u, hwalk, -⟩ := Fallible.bind_ok hrun
  rw [hwalk]

theorem unmapPage_safe (hm : s.paging = some m) (hwf : m.WellFormed s.mem) (hmarked : m.TablesMarked s)
    (hv : v.SignExtended m.mode) (hleaf : m.NoHugeLeaf s.mem v) : m.Safe (Watched.unmapPage v) (s, seen) := by
  refine Safe.read (Machine.getPagingManager_run hm) fun seen =>
    Safe.read (requireCanonical_run hv.canonical s) fun seen => Safe.flushes hv fun A hA => ?_
  by_cases hroot : m.rootTablePhys.toNat < 2^32
  · refine unmapWalk_stays hwf hleaf .root hroot (fun hmapped => hA ?_) .refl fun t seen _ hlike _ _ => .pure hlike ()
    exact ((Watched.unmapWalk_observes v _ _ (.pure ())).result (s, seen)).trans
      (unmapWalk_succeeds hm hwf hmarked hroot hv.canonical hleaf hmapped)
  · cases m.mode.top <;> exact .fails (Machine.tableAt_crash hroot) .refl

/-! ### Runs -/

/-- The machines reached from `s₀`, and what was seen on the way, by calls on addresses the processor has whose walks
meet no huge leaf, each returning anything. -/
inductive TlbRun (m : PagingManager) (s₀ : Machine) : Machine × List Moment → Prop where
  | start : TlbRun m s₀ (s₀, [.tables s₀.mem])
  | mapPage {s : Machine × List Moment} (v : VirtAddr) (p : PhysAddr) (flags : PageTableFlags) : TlbRun m s₀ s →
      v.SignExtended m.mode → m.NoHugeLeaf s.1.mem v → TlbRun m s₀ (Watched.mapPage v p flags s).2
  | unmapPage {s : Machine × List Moment} (v : VirtAddr) : TlbRun m s₀ s → v.SignExtended m.mode →
      m.NoHugeLeaf s.1.mem v → TlbRun m s₀ (Watched.unmapPage v s).2
  | remapPage {s : Machine × List Moment} (v : VirtAddr) (p : PhysAddr) (flags : PageTableFlags) : TlbRun m s₀ s →
      v.SignExtended m.mode → m.NoHugeLeaf s.1.mem v → TlbRun m s₀ (Watched.remapPage v p flags s).2

/-- The invariant of such runs. -/
structure Fresh (m : PagingManager) (s : Machine × List Moment) : Prop where
  paging : s.1.paging = some m
  wellFormed : m.WellFormed s.1.mem
  marked : m.TablesMarked s.1
  coherent : m.Coherent Set.univ s.1.mem s.2

theorem Fresh.start (hm : s.paging = some m) (hwf : m.WellFormed s.mem) (hmarked : m.TablesMarked s) :
    m.Fresh (s, [.tables s.mem]) := by
  refine ⟨hm, hwf, hmarked, ?_⟩
  have hempty : m.Coherent Set.univ s.mem [] := by
    rintro _ rfl c hc
    exact hc.elim
  exact hempty.tables .refl

private theorem mapPage_tables (hm : s.paging = some m) (hwf : m.WellFormed s.mem) (hmarked : m.TablesMarked s)
    (hleaf : m.NoHugeLeaf s.mem v) (p : PhysAddr) (flags : PageTableFlags) :
    (Machine.mapPage v p flags s).2.paging = some m ∧ m.WellFormed (Machine.mapPage v p flags s).2.mem ∧
      m.TablesMarked (Machine.mapPage v p flags s).2 := by
  have htotal := Machine.mapPage_total v p flags s
  obtain ⟨u, hg, ⟨f, hw, _, he⟩ | ⟨e, he⟩⟩ := mapPage_run hm hwf hleaf (hmarked.used.fresh _) p flags <;>
    rw [he] at htotal ⊢
  · have hwrite := (Pruned.leafWrite hg.wellFormed hw (PageTableEntry.of p.addr flags).raw).invlpg
    exact ⟨hg.paging.trans hm, hwrite.wellFormed, (hmarked.grown hg htotal).pruned hwrite rfl⟩
  · exact ⟨hg.paging.trans hm, hg.wellFormed, hmarked.grown hg htotal⟩

private theorem Fresh.call {s : Machine × List Moment} (h : m.Fresh s) {x : Machine.Op Unit} {y : Watched Unit}
    (hobs : Fallible.Observes y x) (hsafe : m.Safe y s)
    (hx : (x s.1).2.paging = some m ∧ m.WellFormed (x s.1).2.mem ∧ m.TablesMarked (x s.1).2) : m.Fresh (y s).2 := by
  have hend := hobs.state s
  obtain ⟨hpaging, hwf, hmarked⟩ := hx
  rw [← hend] at hpaging hwf hmarked
  exact ⟨hpaging, hwf, hmarked, hsafe h.coherent⟩

private theorem pruned_tables (hm : s.paging = some m) (hmarked : m.TablesMarked s) (hp : m.Pruned v s t)
    (htotal : Machine.SameTotal s t) : t.paging = some m ∧ m.WellFormed t.mem ∧ m.TablesMarked t :=
  ⟨hp.paging.trans hm, hp.wellFormed, hmarked.pruned hp htotal⟩

theorem TlbRun.fresh {s₀ : Machine} {s : Machine × List Moment} (hr : m.TlbRun s₀ s)
    (h : m.Fresh (s₀, [.tables s₀.mem])) : m.Fresh s := by
  induction hr with
  | start => exact h
  | mapPage v p flags _ hv hleaf ih =>
    exact ih.call (Watched.mapPage_observes v p flags)
      (mapPage_safe ih.paging ih.wellFormed ih.marked.used hv hleaf p flags)
      (mapPage_tables ih.paging ih.wellFormed ih.marked hleaf p flags)
  | unmapPage v _ hv hleaf ih =>
    exact ih.call (Watched.unmapPage_observes v) (unmapPage_safe ih.paging ih.wellFormed ih.marked hv hleaf)
      (pruned_tables ih.paging ih.marked (unmapPage_pruned ih.paging ih.wellFormed hleaf) (Machine.unmapPage_total v _))
  | remapPage v p flags _ hv hleaf ih =>
    exact ih.call (Watched.remapPage_observes v p flags) (remapPage_safe ih.paging ih.wellFormed hv hleaf p flags)
      (pruned_tables ih.paging ih.marked (remapPage_pruned ih.paging ih.wellFormed hleaf p flags)
        (Machine.remapPage_total v p flags _))

/-- After any run of the calls, whatever the TLB picked up at any moment and did not have to drop at
a flush since: it holds no translation that the tables do not give now. -/
theorem tlbRun_coherent {s₀ : Machine} (hm : s₀.paging = some m) (hwf : m.WellFormed s₀.mem)
    (hmarked : m.TablesMarked s₀) (hr : m.TlbRun s₀ (s, seen)) {tlb : Set (VirtAddr × Translation)}
    (ht : m.TlbAfter seen tlb) : ∀ c ∈ tlb, m.translation s.mem c.1 = some c.2 :=
  fun c hc => ((hr.fresh (.start hm hwf hmarked)).coherent tlb ht c hc).2 trivial

/-! ### A run of a small machine -/

private theorem tlbAfter_empty (m : PagingManager) (seen : List Moment) : m.TlbAfter seen ∅ := by
  induction seen with
  | nil => rfl
  | cons x seen ih => cases x <;> exact ⟨∅, ih, Set.empty_subset _⟩

/-- A run goes on with a call that returns `Ok`, and what the tables give then may be in the TLB. -/
private theorem TlbRun.mapped {s₀ : Machine} (hr : m.TlbRun s₀ (s, seen)) (hv : v.SignExtended m.mode)
    (hleaf : m.NoHugeLeaf s.mem v) {p : PhysAddr} {flags : PageTableFlags}
    (h : Machine.mapPage v p flags s = (.ok (), t)) {c : Translation} (hc : m.translation t.mem v = some c) :
    ∃ seen', m.TlbRun s₀ (t, seen') ∧ m.TlbAfter seen' {(v, c)} := by
  have hnext := hr.mapPage v p flags hv hleaf
  have hobs := Watched.mapPage_observes v p flags (s, seen)
  rcases hrun : Watched.mapPage v p flags (s, seen) with ⟨r, u, seen'⟩
  rw [hrun] at hnext
  rw [hrun, h] at hobs
  obtain ⟨rfl, rfl⟩ := Prod.mk.inj hobs
  refine ⟨seen', hnext, ?_⟩
  obtain ⟨_, _, _, hrun⟩ := Fallible.bind_ok hrun
  obtain ⟨_, _, _, hrun⟩ := Fallible.bind_ok hrun
  obtain ⟨_, _, _, hrun⟩ := Fallible.bind_ok hrun
  obtain ⟨_, _, _, hrun⟩ := Fallible.bind_ok hrun
  obtain ⟨rfl, rfl⟩ := Prod.mk.inj (Prod.mk.inj hrun).2
  refine ⟨∅, tlbAfter_empty m _, ?_⟩
  rintro _ rfl
  exact .inr ⟨hv, hc⟩

/-- A page is mapped and then mapped again, to another frame: a TLB that holds the new translation. -/
theorem tlbRun_coherent_small : ∃ (seen : List Moment) (tlb : Set (VirtAddr × Translation)),
    smallPaging.TlbAfter seen tlb ∧ (⟨0x400000#64⟩, ⟨⟨0x300000#64⟩, 0, true, false, false⟩) ∈ tlb ∧
      ∀ c ∈ tlb, smallPaging.translation (Machine.mapPage ⟨0x400000#64⟩ ⟨0x300000#64⟩ ⟨3#64⟩
        (Machine.mapPage ⟨0x400000#64⟩ ⟨0x200000#64⟩ ⟨3#64⟩ smallMachine).2).2.mem c.1 = some c.2 := by
  have hv : VirtAddr.SignExtended ⟨0x400000#64⟩ smallPaging.mode := .inl (by decide)
  have hnone : smallPaging.NoHugeLeaf smallMachine.mem ⟨0x400000#64⟩ := by
    intro l e h
    cases h
  have hsome : smallPaging.NoHugeLeaf (Machine.mapPage ⟨0x400000#64⟩ ⟨0x200000#64⟩ ⟨3#64⟩ smallMachine).2.mem
      ⟨0x400000#64⟩ := by
    intro l e h
    have hleaf :
        smallPaging.leaf (Machine.mapPage ⟨0x400000#64⟩ ⟨0x200000#64⟩ ⟨3#64⟩ smallMachine).2.mem ⟨0x400000#64⟩ =
        some (0, 0x200003#64) := by decide +kernel
    rw [hleaf] at h
    exact (Prod.mk.inj (Option.some.inj h)).1.symm
  have hfirst : (Machine.mapPage ⟨0x400000#64⟩ ⟨0x200000#64⟩ ⟨3#64⟩ smallMachine).1 = .ok () := by rfl
  have hsecond : (Machine.mapPage ⟨0x400000#64⟩ ⟨0x300000#64⟩ ⟨3#64⟩
      (Machine.mapPage ⟨0x400000#64⟩ ⟨0x200000#64⟩ ⟨3#64⟩ smallMachine).2).1 = .ok () := by rfl
  have hbefore : smallPaging.translation (Machine.mapPage ⟨0x400000#64⟩ ⟨0x200000#64⟩ ⟨3#64⟩ smallMachine).2.mem
      ⟨0x400000#64⟩ = some ⟨⟨0x200000#64⟩, 0, true, false, false⟩ := by decide +kernel
  have hafter : smallPaging.translation (Machine.mapPage ⟨0x400000#64⟩ ⟨0x300000#64⟩ ⟨3#64⟩
      (Machine.mapPage ⟨0x400000#64⟩ ⟨0x200000#64⟩ ⟨3#64⟩ smallMachine).2).2.mem ⟨0x400000#64⟩ =
        some ⟨⟨0x300000#64⟩, 0, true, false, false⟩ := by decide +kernel
  obtain ⟨_, hrun, -⟩ := TlbRun.start.mapped hv hnone (Fallible.run_of_fst hfirst) hbefore
  obtain ⟨seen, hrun, htlb⟩ := hrun.mapped hv hsome (Fallible.run_of_fst hsecond) hafter
  exact ⟨seen, _, htlb, rfl, tlbRun_coherent rfl smallMachine_wellFormed smallMachine_marked hrun htlb⟩

end PagingManager
end Nafuraito.Memory
