import Nafuraito.Memory.Footprint
import Nafuraito.Memory.MapPage

/-! What `unmap_page` and `remap_page` do to a well-formed hierarchy: they write one leaf, and
the tables that become empty are unlinked and freed from the bottom up. -/
namespace Nafuraito.Memory
open Nafuraito.Library
open PageTableEntry (kind)
open PhysicalMemoryManager (FreeIn Tracks)

namespace PagingManager
variable {m : PagingManager} {s t : Machine} {v : VirtAddr}

/-- The address differs from `v` in an index a walk uses. -/
def Apart (m : PagingManager) (v w : VirtAddr) : Prop := ∃ k ≤ m.mode.top, v.index k ≠ w.index k

/-- Every table of the hierarchy is a frame the allocator tracks and has marked as used. -/
def TablesMarked (m : PagingManager) (s : Machine) : Prop :=
  ∀ l f, m.Table s.mem l f → Tracks s.pmm f ∧ ¬ FreeIn s.pmm f

/-- From `s` to `t` at most the leaf of `v` was written, and tables were taken out and freed. -/
structure Pruned (m : PagingManager) (v : VirtAddr) (s t : Machine) : Prop where
  paging : t.paging = s.paging
  regions : t.regions = s.regions
  refcounts : t.refcounts = s.refcounts
  wellFormed : m.WellFormed t.mem
  leaf : ∀ w, m.Apart v w → m.leaf t.mem w = m.leaf s.mem w
  tables : ∀ {l f}, m.Table t.mem l f → m.Table s.mem l f
  used : m.TablesUsed s → m.TablesUsed t
  rest : ∀ f, (∀ l, ¬ m.Table s.mem l f) → t.mem f = s.mem f
  free : ∀ f, FreeIn t.pmm f → FreeIn s.pmm f ∨ ((∃ l, m.Table s.mem l f) ∧ ∀ l, ¬ m.Table t.mem l f)
  log : Machine.FreesOnly (fun addr => addr/4096 ≠ m.rootFrame ∧ ∃ l, m.Table s.mem l (addr/4096)) s t

theorem Pruned.refl (h : m.WellFormed s.mem) : m.Pruned v s s :=
  ⟨rfl, rfl, rfl, h, fun _ _ => rfl, fun h => h, fun h => h, fun _ _ => rfl, fun _ h => .inl h, .of_log rfl⟩

theorem Pruned.trans {u : Machine} (h : m.Pruned v s t) (h' : m.Pruned v t u) : m.Pruned v s u where
  paging := h'.paging.trans h.paging
  regions := h'.regions.trans h.regions
  refcounts := h'.refcounts.trans h.refcounts
  wellFormed := h'.wellFormed
  leaf w hw := (h'.leaf w hw).trans (h.leaf w hw)
  tables ht := h.tables (h'.tables ht)
  used hu := h'.used (h.used hu)
  rest f hf := (h'.rest f fun l hl => hf l (h.tables hl)).trans (h.rest f hf)
  free f hf := by
    rcases h'.free f hf with hf | ⟨⟨l, hl⟩, hn⟩
    · rcases h.free f hf with hf | ⟨hl, hn⟩
      · exact .inl hf
      · exact .inr ⟨hl, fun l hl => hn l (h'.tables hl)⟩
    · exact .inr ⟨⟨l, h.tables hl⟩, hn⟩
  log := h.log.trans (h'.log.mono fun _ ⟨hroot, l, hl⟩ => ⟨hroot, l, h.tables hl⟩)

/-- Writing the leaf of `v`. -/
theorem Pruned.leafWrite (hwf : m.WellFormed s.mem) {f : Nat} (hw : m.Walk s.mem v 0 f) (e : BitVec 64) :
    m.Pruned v s (s.setWord f (v.index 0) e) := by
  have hmem : ∀ g j, (g, j) ≠ (f, v.index 0) → (s.setWord f (v.index 0) e).mem g j = s.mem g j :=
    fun g j hne => by rw [Machine.setWord_mem, if_neg hne]
  obtain ⟨hwf', _, htab, hother⟩ := hwf.leafWrite hw hmem
  refine ⟨rfl, rfl, rfl, hwf', fun w => hother w.index, (htab _ _).mp, fun hu l g hg => hu l g ((htab l g).mp hg),
    fun g hg => ?_, fun _ hf => .inl hf, .of_log rfl⟩
  funext j
  exact hmem g j fun he => hg 0 ((Prod.mk.inj he).1 ▸ hw.reach)

/-- The flush at the end of a call. -/
theorem Pruned.invlpg (h : m.Pruned v s t) : m.Pruned v s (Machine.invlpg v t).2 :=
  h.trans ⟨rfl, rfl, rfl, h.wellFormed, fun _ _ => rfl, fun h => h, fun h => h, fun _ _ => rfl,
    fun _ h => .inl h, .invlpg rfl _⟩

/-! ### The tables stay marked -/

theorem TablesMarked.used (h : m.TablesMarked s) : m.TablesUsed s := fun l f hf => (h l f hf).2

theorem TablesMarked.grown (h : m.TablesMarked s) (hg : m.Grown s t) (htotal : Machine.SameTotal s t) :
    m.TablesMarked t := by
  intro l f hf
  refine ⟨Tracks.of_total ?_ htotal, hg.used h.used l f hf⟩
  rcases hg.new hf with hf | hf
  · exact (h l f hf).1
  · exact hf.tracks

theorem TablesMarked.pruned (h : m.TablesMarked s) (hp : m.Pruned v s t) (htotal : Machine.SameTotal s t) :
    m.TablesMarked t := fun l f hf => ⟨(h l f (hp.tables hf)).1.of_total htotal, hp.used h.used l f hf⟩

/-! ### Unlinking an empty table -/

/-- What the global `free_frame` can do: log the call, and clear the bit of the frame, as it does
where it returns `Ok`. -/
theorem freeFrame_free (addr : Nat) (s : Machine) :
    ∃ p, (Machine.freeFrame addr s).2 = { s.addLog (.freeFrame addr) with pmm := p } ∧
      (∀ f, FreeIn p f → FreeIn s.pmm f ∨ f = addr/4096) ∧
      ((Machine.freeFrame addr s).1 = .ok () → ∀ f, FreeIn p f ↔ FreeIn s.pmm f ∨ f = addr/4096) := by
  rw [Machine.freeFrame]
  cases hp : s.pmm with
  | none =>
    simp only [Machine.addLog, hp]
    exact ⟨none, rfl, fun _ hf => .inl hf, fun h => by cases h⟩
  | some q =>
    simp only [Machine.addLog, hp]
    refine ⟨some (PhysicalMemoryManager.freeFrame addr q).2, rfl, ?_⟩
    rcases PhysicalMemoryManager.freeFrame_run addr q with ⟨_, hlt, _, he⟩ | ⟨_, e, he⟩ <;> rw [he]
    · have hiff (f : Nat) : FreeIn (some (q.giving (addr/4096))) f ↔ FreeIn (some q) f ∨ f = addr/4096 :=
        (PhysicalMemoryManager.giving_free hlt f).trans or_comm
      exact ⟨fun f => (hiff f).mp, fun _ => hiff⟩
    · exact ⟨fun _ hf => .inl hf, fun h => by cases h⟩

/-- A frame that is marked as used can be freed. -/
theorem freeFrame_succeeds {g : Nat} (ht : Tracks s.pmm g) (hu : ¬ FreeIn s.pmm g) :
    (Machine.freeFrame (g*4096) s).1 = .ok () := by
  obtain ⟨q, hq, hlt⟩ := ht
  rw [hq, PhysicalMemoryManager.freeIn_some, PhysicalMemoryManager.Free, not_and, Bool.not_eq_false] at hu
  rw [Machine.freeFrame]
  simp only [Machine.addLog_pmm, hq]
  rcases PhysicalMemoryManager.freeFrame_run (g*4096) q with ⟨_, _, _, he⟩ | ⟨hbad, _⟩
  · rw [he]
  · rw [Nat.mul_div_cancel g (by decide)] at hbad
    exact absurd ⟨Nat.mul_mod_left g 4096, hlt, hu hlt⟩ hbad

theorem setWord_unlinks {l f g : Nat} {i : Fin 512} (hf : m.Table s.mem (l+1) f)
    (hk : kind (l+1) (s.mem f i) = .link g) (hempty : ∀ j, s.mem g j = 0) :
    TableTree.Unlinks kind s.mem (s.setWord f i 0).mem m.mode.top m.rootFrame l f i g where
  parent := hf
  before := hk
  empty j := by rw [hempty, PageTableEntry.kind_zero]
  after := by rw [Machine.setWord_mem, if_pos rfl, PageTableEntry.kind_zero]
  rest g' j hne := by rw [Machine.setWord_mem, if_neg hne]

/-- Taking an empty table out of the hierarchy and freeing it, whether the free succeeds or not. -/
theorem Pruned.unlink (hwf : m.WellFormed s.mem) {l f g : Nat} {i : Fin 512} (hf : m.Table s.mem (l+1) f)
    (hk : kind (l+1) (s.mem f i) = .link g) (hempty : ∀ j, s.mem g j = 0) {addr : Nat}
    (haddr : addr = g*4096) : m.Pruned v s (Machine.freeFrame addr (s.setWord f i 0)).2 := by
  obtain ⟨p, hp, hfree, _⟩ := freeFrame_free addr (s.setWord f i 0)
  have hs := setWord_unlinks hf hk hempty
  have hgone (l' : Nat) : ¬ m.Table (s.setWord f i 0).mem l' g :=
    fun h => ((hs.reach_iff hwf.tree).mp h).2 rfl
  have hg : addr/4096 = g := by omega
  rw [hp]
  refine ⟨rfl, rfl, rfl, ⟨hs.isTree hwf.tree, ?_⟩, fun w _ => hs.lookup_eq hwf.tree w.index,
    fun h => hs.reach_old hwf.tree h, ?_, ?_, ?_, .freeFrame ?_⟩
  · intro l' f' g' i' hf' hk'
    have hg' := ((hs.reach_iff hwf.tree).mp (.link hf' hk')).1
    cases hg' with
    | root => exact absurd hk' ((hs.isTree hwf.tree).root_unlinked hf')
    | link hr hk' => exact hwf.target hr hk'
  · intro hu l' f' hf' hfr
    rcases hfree f' hfr with hfr | rfl
    · exact hu l' f' (hs.reach_old hwf.tree hf') hfr
    · rw [hg] at hf'
      exact hgone l' hf'
  · intro f' hf'
    funext j
    exact hs.rest f' j fun he => hf' (l+1) ((Prod.mk.inj he).1 ▸ hf)
  · intro f' hfr
    rcases hfree f' hfr with hfr | rfl
    · exact .inl hfr
    · rw [hg]
      exact .inr ⟨⟨l, .link hf hk⟩, hgone⟩
  · rw [hg]
    refine ⟨?_, l, .link hf hk⟩
    rintro rfl
    exact hwf.tree.root_unlinked hf hk

/-- The paths of `v` survive a write to its leaf. -/
theorem walk_leafWrite (hwf : m.WellFormed s.mem) {f : Nat} (hw : m.Walk s.mem v 0 f) (e : BitVec 64)
    {l g : Nat} (hg : m.Walk s.mem v l g) : m.Walk (s.setWord f (v.index 0) e).mem v l g :=
  TableTree.path_of_same (fun j hg => hwf.tree.leaf_same hw.reach
    (fun g j hne => by rw [Machine.setWord_mem, if_neg hne]) j hg) hg

/-- A walk from an entry that is no huge leaf. -/
theorem link_of_present (hleaf : m.NoHugeLeaf s.mem v) {l f : Nat} (hw : m.Walk s.mem v (l+1) f)
    (hpr : PageTableEntry.isPresent ⟨s.mem f (v.index (l+1))⟩ = true) :
    kind (l+1) (s.mem f (v.index (l+1))) = .link (PageTableEntry.frame ⟨s.mem f (v.index (l+1))⟩) := by
  refine PageTableEntry.kind_link.mpr ⟨hpr, Nat.succ_ne_zero l, fun hh => ?_, rfl⟩
  have hk : kind (l+1) (s.mem f (v.index (l+1))) = .leaf := by simp [kind, hpr, hh]
  exact absurd (hleaf _ _ (TableTree.lookup_of_leaf hw hk)) (Nat.succ_ne_zero l)

/-! ### The walk of `unmap_page` -/

/-- A table other than the root that had an entry and has none any more. -/
def Emptied (m : PagingManager) (s t : Machine) (f : Nat) : Prop :=
  f ≠ m.rootFrame ∧ (∃ l, m.Table s.mem l f) ∧ (∃ i, s.mem f i ≠ 0) ∧ ∀ i, t.mem f i = 0

/-- From `s` to `t` the entry of `v` was cleared, and every table this emptied, but for `g`, was
taken out and freed. -/
structure Cleared (m : PagingManager) (v : VirtAddr) (s t : Machine) (g : Nat) : Prop where
  pruned : m.Pruned v s t
  gone : m.leaf t.mem v = none
  words : ∀ f i, t.mem f i = s.mem f i ∨ t.mem f i = 0
  tables : ∀ l f, m.Table t.mem l f ↔ m.Table s.mem l f ∧ ¬ (m.Emptied s t f ∧ f ≠ g)
  free : ∀ f, FreeIn t.pmm f ↔ FreeIn s.pmm f ∨ (m.Emptied s t f ∧ f ≠ g)

/-- What a call makes of `s` that has cleared the entry of `v` and gone up to the table `g`. -/
structure Unmaps (m : PagingManager) (v : VirtAddr) (s : Machine) (g : Nat) (r : Except Stop Unit × Machine) :
    Prop where
  pruned : m.Pruned v s r.2
  gone : m.leaf r.2.mem v = none
  done : r.1 = .ok () → m.Cleared v s r.2 g

theorem Cleared.unmaps {g : Nat} (h : m.Cleared v s t g) : m.Unmaps v s g (.ok (), t) := ⟨h.pruned, h.gone, fun _ => h⟩

/-- Clearing the entry in the page table. -/
private theorem Cleared.leafWrite (hwf : m.WellFormed s.mem) {f : Nat} (hw : m.Walk s.mem v 0 f) :
    m.Cleared v s (s.setWord f (v.index 0) 0) f := by
  have hother {g : Nat} (hg : g ≠ f) (j : Fin 512) : (s.setWord f (v.index 0) 0).mem g j = s.mem g j := by
    rw [Machine.setWord_mem, if_neg fun he => hg (Prod.mk.inj he).1]
  have hkept (g : Nat) : ¬ (m.Emptied s (s.setWord f (v.index 0) 0) g ∧ g ≠ f) := by
    rintro ⟨⟨_, _, ⟨i, hi⟩, hzero⟩, hg⟩
    exact hi ((hother hg i).symm.trans (hzero i))
  have hrest : ∀ g j, (g, j) ≠ (f, v.index 0) → (s.setWord f (v.index 0) 0).mem g j = s.mem g j :=
    fun g j hne => by rw [Machine.setWord_mem, if_neg hne]
  obtain ⟨_, hw', htables, _⟩ := hwf.leafWrite hw hrest
  refine ⟨.leafWrite hwf hw 0, TableTree.lookup_of_absent hw' ?_, fun g i => ?_, fun l g => ?_, fun g => ?_⟩
  · rw [Machine.setWord_mem, if_pos rfl, PageTableEntry.kind_zero]
  · rw [Machine.setWord_mem]
    split
    · exact .inr rfl
    · exact .inl rfl
  · rw [htables, and_iff_left (hkept g)]
  · exact (or_iff_left (hkept g)).symm

private theorem unlinkTable_state (f : Nat) (i : Fin 512) (child : PageTableEntry) (s : Machine) :
    (Machine.unlinkTable f i child s).2 = (Machine.freeFrame child.address.toNat (s.setWord f i 0)).2 ∧
      ((Machine.unlinkTable f i child s).1 = .ok () →
        (Machine.freeFrame child.address.toNat (s.setWord f i 0)).1 = .ok ()) := by
  rw [Machine.unlinkTable, Fallible.bind_of_ok (Machine.writeEntry_run _ _ _)]
  exact ⟨rfl, Fallible.mapError_ok⟩

private theorem unlinkTable_succeeds {f g : Nat} {i : Fin 512} {child : PageTableEntry}
    (hc : child.address.toNat = g*4096)
    (ht : Tracks s.pmm g) (hu : ¬ FreeIn s.pmm g) : (Machine.unlinkTable f i child s).1 = .ok () := by
  have hfree : (Machine.freeFrame (g*4096) (s.setWord f i 0)).1 = .ok () := freeFrame_succeeds ht hu
  rw [Machine.unlinkTable, Fallible.bind_of_ok (Machine.writeEntry_run _ _ _), Machine.freePageTable, hc]
  change (Machine.freeFrame (g*4096) (s.setWord f i 0)).1.mapError _ = _
  rw [hfree]
  rfl

/-- Unlinking the walk's empty table keeps the walk above it. -/
theorem unlinkTable_prunes {u : Machine} (hwf : m.WellFormed u.mem) {l f g : Nat} (hf : m.Walk u.mem v (l+1) f)
    (hg : m.Walk u.mem v l g) (hempty : ∀ j, u.mem g j = 0) {child : PageTableEntry}
    (hc : child.address.toNat = g*4096) :
    m.Pruned v u (Machine.unlinkTable f (v.index (l+1)) child u).2 ∧
      ∀ k g', l < k → m.Walk u.mem v k g' →
        m.Walk (Machine.unlinkTable f (v.index (l+1)) child u).2.mem v k g' := by
  have hk := hf.link hg
  rw [(unlinkTable_state _ _ _ _).1]
  refine ⟨.unlink hwf hf.reach hk hempty hc, fun k g' hlt hg' => ?_⟩
  obtain ⟨p, hp, _⟩ := freeFrame_free child.address.toNat (u.setWord f (v.index (l+1)) 0)
  rw [hp]
  exact (setWord_unlinks hf.reach hk hempty).path hwf.tree hg' hlt

/-- Unlinking the table that was left to look at, which has become empty, leaves the one above. -/
private theorem Cleared.unlink {l f g : Nat} (h : m.Cleared v s t g) (hf : m.Walk t.mem v (l+1) f)
    (hg : m.Walk t.mem v l g)
    (hfull : ∃ i, s.mem g i ≠ 0) (hempty : ∀ j, t.mem g j = 0) {child : PageTableEntry}
    (hc : child.address.toNat = g*4096) : m.Unmaps v s f (Machine.unlinkTable f (v.index (l+1)) child t) := by
  have hwf := h.pruned.wellFormed
  have hk := hf.link hg
  have hs := setWord_unlinks hf.reach hk hempty
  have hgone : m.leaf (t.setWord f (v.index (l+1)) 0).mem v = none := (hs.lookup_eq hwf.tree v.index).trans h.gone
  obtain ⟨hstate, hok⟩ := unlinkTable_state f (v.index (l+1)) child t
  obtain ⟨p, hp, -, hfree⟩ := freeFrame_free child.address.toNat (t.setWord f (v.index (l+1)) 0)
  have hE : ∀ x, m.Emptied s t x ↔ (m.Emptied s t x ∧ x ≠ g) ∨ x = g := by
    intro x
    by_cases hx : x = g
    · subst hx
      refine iff_of_true ⟨?_, ⟨l, h.pruned.tables hg.reach⟩, hfull, hempty⟩ (.inr rfl)
      rintro rfl
      exact hwf.tree.root_unlinked hf.reach hk
    · simp [hx]
  have hE' : ∀ x, (m.Emptied s (t.setWord f (v.index (l+1)) 0) x ∧ x ≠ f) ↔ m.Emptied s t x := by
    intro x
    by_cases hx : x = f
    · subst hx
      refine iff_of_false (fun h => h.2 rfl) fun ⟨_, _, _, hzero⟩ => ?_
      rw [hzero, PageTableEntry.kind_zero] at hk
      cases hk
    · have hmem (i : Fin 512) : (t.setWord f (v.index (l+1)) 0).mem x i = t.mem x i := by
        rw [Machine.setWord_mem, if_neg fun he => hx (Prod.mk.inj he).1]
      simp only [Emptied, hmem, and_iff_left hx]
  have hdiv : child.address.toNat/4096 = g := by omega
  have hpruned := h.pruned.trans (unlinkTable_prunes hwf hf hg hempty hc).1
  refine ⟨hpruned, by rw [hstate, hp]; exact hgone, fun he =>
    ⟨hpruned, ?_, fun x i => ?_, fun k x => ?_, fun x => ?_⟩⟩ <;>
    rw [hstate, hp]
  · exact hgone
  · change (t.setWord f (v.index (l+1)) 0).mem x i = _ ∨ (t.setWord f (v.index (l+1)) 0).mem x i = 0
    rw [Machine.setWord_mem]
    split
    · exact .inr rfl
    · exact h.words x i
  · change m.Table (t.setWord f (v.index (l+1)) 0).mem k x ↔
      _ ∧ ¬ (m.Emptied s (t.setWord f (v.index (l+1)) 0) x ∧ x ≠ f)
    refine (hs.reach_iff hwf.tree).trans ((and_congr_left' (h.tables k x)).trans ?_)
    rw [hE' x, hE x]
    tauto
  · change FreeIn p x ↔ _ ∨ (m.Emptied s (t.setWord f (v.index (l+1)) 0) x ∧ x ≠ f)
    rw [hfree (hok he), Machine.setWord_pmm, h.free, hdiv, hE' x, hE x]
    tauto

/-- `action` finishes the call from every state in which the entry of `v` is cleared, the table `g`
of the walk, at level `l`, has become empty and the tables above it are still linked. Where the
allocator had all tables marked it cannot fail. -/
private def Finishes (m : PagingManager) (v : VirtAddr) (s : Machine) (l g : Nat) (action : Machine.Op Unit) : Prop :=
  ∀ t, m.Cleared v s t g → (∀ k f, l ≤ k → m.Walk s.mem v k f → m.Walk t.mem v k f) → (∃ i, s.mem g i ≠ 0) →
    (∀ j, t.mem g j = 0) → m.Unmaps v s m.rootFrame (action t) ∧
      (m.TablesMarked s → Machine.SameTotal s t → (action t).1 = .ok ())

private theorem Finishes.ifEmpty {l g : Nat} {action : Machine.Op Unit} (h : Finishes m v s l g action)
    (ht : m.Cleared v s t g) (hwalk : ∀ k f, l ≤ k → m.Walk s.mem v k f → m.Walk t.mem v k f)
    (hfull : ∃ i, s.mem g i ≠ 0) : m.Unmaps v s m.rootFrame (Machine.ifEmpty g action t) ∧
      (m.TablesMarked s → Machine.SameTotal s t → (Machine.ifEmpty g action t).1 = .ok ()) := by
  by_cases he : ∀ j, t.mem g j = 0
  · rw [Machine.ifEmpty_run he]
    exact h t ht hwalk hfull he
  · obtain ⟨i, hi⟩ := not_forall.mp he
    rw [Machine.ifEmpty_skip hi]
    have hsame (f : Nat) : (m.Emptied s t f ∧ f ≠ g) ↔ (m.Emptied s t f ∧ f ≠ m.rootFrame) := by
      refine and_congr_right fun hf => iff_of_true ?_ hf.1
      rintro rfl
      exact he hf.2.2.2
    refine ⟨Cleared.unmaps ⟨ht.pruned, ht.gone, ht.words, fun l f => ?_, fun f => ?_⟩, fun _ _ => rfl⟩
    · rw [ht.tables, hsame]
    · rw [ht.free, hsame]

/-- Unlinking the walk's empty table, and going on if the table above is empty now. -/
private theorem Finishes.unlinkThen {l f g : Nat} (hf : m.Walk s.mem v (l+1) f) (hg : m.Walk s.mem v l g)
    {child : PageTableEntry} (hc : child.address.toNat = g*4096) {next : Machine.Op Unit}
    (hnext : Finishes m v s (l+1) f next) :
    Finishes m v s l g (Machine.unlinkTable f (v.index (l+1)) child >>= fun _ => Machine.ifEmpty f next) := by
  intro t ht hwalk hfull hempty
  have hf' := hwalk (l+1) f (Nat.le_succ l) hf
  have hg' := hwalk l g le_rfl hg
  have hone := ht.unlink hf' hg' hfull hempty hc
  have hup := (unlinkTable_prunes ht.pruned.wellFormed hf' hg' hempty hc).2
  have hlink : s.mem f (v.index (l+1)) ≠ 0 := by
    intro hz
    have hk := hf.link hg
    rw [hz, PageTableEntry.kind_zero] at hk
    cases hk
  have hsucceeds (hmarked : m.TablesMarked s) (htotal : Machine.SameTotal s t) :
      (Machine.unlinkTable f (v.index (l+1)) child t).1 = .ok () := by
    obtain ⟨htracks, hused⟩ := hmarked l g hg.reach
    refine unlinkTable_succeeds hc (htracks.of_total htotal) fun hfree => ?_
    rcases (ht.free g).mp hfree with hfree | ⟨_, hne⟩
    · exact hused hfree
    · exact hne rfl
  have htotal := Machine.sameTotal_rule.unlinkTable Machine.freeFrame_total f (v.index (l+1)) child t
  rcases hrun : Machine.unlinkTable f (v.index (l+1)) child t with ⟨e | x, u⟩
  · rw [hrun] at hone hsucceeds
    rw [Fallible.bind_of_error hrun]
    exact ⟨⟨hone.pruned, hone.gone, fun h => by cases h⟩, fun hmarked hs => by cases hsucceeds hmarked hs⟩
  · rw [hrun] at hone hup htotal
    rw [Fallible.bind_of_ok hrun]
    obtain ⟨hun, hok⟩ := hnext.ifEmpty (hone.done rfl) (fun k f' hk hw => hup k f' hk (hwalk k f' (by omega) hw))
      ⟨_, hlink⟩
    exact ⟨hun, fun hmarked hs => hok hmarked (htotal.trans hs)⟩

/-- The walk fails where it stands, on an address with no entry, or goes on to clear the entry. -/
private theorem unmapWalk_run (hwf : m.WellFormed s.mem) (hleaf : m.NoHugeLeaf s.mem v) {l : Nat} {phys : BitVec 64}
    (hw : m.Walk s.mem v l (phys.toNat/4096)) (hlt : phys.toNat < 2^32) {onEmpty : Machine.Op Unit}
    (hempty : Finishes m v s l (phys.toNat/4096) onEmpty) :
    (m.leaf s.mem v = none ∧ ∃ e, Machine.unmapWalk v true l phys onEmpty s = (.error e, s)) ∨
      m.Unmaps v s m.rootFrame (Machine.unmapWalk v true l phys onEmpty s) ∧
        (m.TablesMarked s → (Machine.unmapWalk v true l phys onEmpty s).1 = .ok ()) := by
  induction l generalizing phys onEmpty with
  | zero =>
    rw [Machine.unmapWalk, Fallible.bind_of_ok (Machine.tableAt_run hlt)]
    cases hpr : PageTableEntry.isPresent ⟨s.mem (phys.toNat/4096) (v.index 0)⟩ with
    | false =>
      exact .inl ⟨TableTree.lookup_of_absent hw (PageTableEntry.kind_absent.mpr hpr), _,
        Fallible.bind_of_error (Machine.presentEntry_absent hpr)⟩
    | true =>
      rw [Fallible.bind_of_ok (Machine.presentEntry_run hpr), Fallible.bind_of_ok (Machine.writeEntry_run _ _ _),
        Machine.onlyIf, if_pos rfl, PageTableEntry.new]
      have hfull : s.mem (phys.toNat/4096) (v.index 0) ≠ 0 := by
        intro hz
        rw [hz] at hpr
        cases hpr
      obtain ⟨hun, hok⟩ := hempty.ifEmpty (.leafWrite hwf hw) (fun _ _ _ hg => walk_leafWrite hwf hw 0 hg) ⟨_, hfull⟩
      exact .inr ⟨hun, fun hmarked => hok hmarked rfl⟩
  | succ l ih =>
    rw [Machine.unmapWalk, Fallible.bind_of_ok (Machine.tableAt_run hlt)]
    cases hpr : PageTableEntry.isPresent ⟨s.mem (phys.toNat/4096) (v.index (l+1))⟩ with
    | false =>
      exact .inl ⟨TableTree.lookup_of_absent hw (PageTableEntry.kind_absent.mpr hpr), _,
        Fallible.bind_of_error (Machine.presentEntry_absent hpr)⟩
    | true =>
      rw [Fallible.bind_of_ok (Machine.presentEntry_run hpr)]
      have hk := link_of_present hleaf hw hpr
      have hg : m.Walk s.mem v l _ := .step hw hk
      exact ih hg (hwf.target_lt hw.reach hk) (.unlinkThen hw hg (PageTableEntry.address_eq _) hempty)

/-- What `unmap_page` does: its checks and the root, the walk, and the flush. -/
private theorem unmapPage_cases (hm : s.paging = some m) (hwf : m.WellFormed s.mem) (hleaf : m.NoHugeLeaf s.mem v) :
    ((v.isCanonical m.mode = true → m.rootTablePhys.toNat < 2^32 → m.leaf s.mem v = none) ∧
      ∃ e, Machine.unmapPage v s = (.error e, s)) ∨
    m.Unmaps v s m.rootFrame (Machine.unmapPage v s) ∧ (m.TablesMarked s → (Machine.unmapPage v s).1 = .ok ()) := by
  rw [Machine.unmapPage, Machine.unmapPageInternal, Fallible.bind_of_ok (Machine.getPagingManager_run hm)]
  by_cases hv : v.isCanonical m.mode = true
  · rw [Fallible.bind_of_ok (requireCanonical_run hv s), Machine.unmapLevels_eq, Machine.unmapFromRoot_eq,
      m.mode.top_succ]
    by_cases hroot : m.rootTablePhys.toNat < 2^32
    · have hend : Finishes m v s m.mode.top m.rootFrame (pure ()) := fun _ ht _ _ _ => ⟨ht.unmaps, fun _ _ => rfl⟩
      rcases unmapWalk_run hwf hleaf .root hroot hend with ⟨hnone, e, he⟩ | ⟨hrun, hok⟩
      · exact .inl ⟨fun _ _ => hnone, e, Fallible.bind_of_error he⟩
      · right
        rcases he : Machine.unmapWalk v true m.mode.top m.rootTablePhys (pure ()) s with ⟨e | x, u⟩
        · rw [he] at hrun hok
          rw [Fallible.bind_of_error he]
          exact ⟨hrun, hok⟩
        · rw [he] at hrun
          rw [Fallible.bind_of_ok he]
          have hdone := hrun.done rfl
          exact ⟨Cleared.unmaps ⟨hrun.pruned.invlpg, hdone.gone, hdone.words, hdone.tables, hdone.free⟩, fun _ => rfl⟩
    · refine .inl ⟨fun _ h => absurd h hroot, .crash, Fallible.bind_of_error ?_⟩
      rw [← m.mode.top_succ]
      exact Fallible.bind_of_error (Machine.tableAt_crash hroot)
  · obtain ⟨message, he⟩ := requireCanonical_fails hv
    exact .inl ⟨fun h _ => absurd h hv, _, Fallible.bind_of_error (he s)⟩

/-- `unmap_page` fails before it changes anything, or clears the entry of the address; where it
returns `Ok`, the tables it took out and freed are those that this emptied. -/
theorem unmapPage_run (hm : s.paging = some m) (hwf : m.WellFormed s.mem) (hleaf : m.NoHugeLeaf s.mem v) :
    (∃ e, Machine.unmapPage v s = (.error e, s)) ∨ m.Unmaps v s m.rootFrame (Machine.unmapPage v s) :=
  (unmapPage_cases hm hwf hleaf).imp And.right And.left

/-- On a mapped page it returns `Ok` where the allocator has the tables marked: no free fails. -/
theorem unmapPage_succeeds (hm : s.paging = some m) (hwf : m.WellFormed s.mem) (hmarked : m.TablesMarked s)
    (hroot : m.rootTablePhys.toNat < 2^32) (hv : v.isCanonical m.mode = true) {e : BitVec 64}
    (hl : m.leaf s.mem v = some (0, e)) : ∃ t, Machine.unmapPage v s = (.ok (), t) ∧ m.Cleared v s t m.rootFrame := by
  have hleaf : m.NoHugeLeaf s.mem v := by
    intro k e' he
    rw [hl] at he
    exact (Prod.mk.inj (Option.some.inj he)).1.symm
  rcases unmapPage_cases hm hwf hleaf with ⟨hnone, -⟩ | ⟨hun, hok⟩
  · rw [hnone hv hroot] at hl
    cases hl
  · exact ⟨_, Fallible.run_of_fst (hok hmarked), hun.done (hok hmarked)⟩

/-- A walk that starts ends with the address unmapped, whatever `unmap_page` returns. -/
theorem unmapPage_gone (hm : s.paging = some m) (hwf : m.WellFormed s.mem) (hleaf : m.NoHugeLeaf s.mem v)
    (hroot : m.rootTablePhys.toNat < 2^32) (hv : v.isCanonical m.mode = true) :
    m.leaf (Machine.unmapPage v s).2.mem v = none := by
  rcases unmapPage_cases hm hwf hleaf with ⟨hnone, e, he⟩ | ⟨hun, -⟩
  · rw [he]
    exact hnone hv hroot
  · exact hun.gone

/-- Whatever `unmap_page` returns, the hierarchy was only pruned. -/
theorem unmapPage_pruned (hm : s.paging = some m) (hwf : m.WellFormed s.mem) (hleaf : m.NoHugeLeaf s.mem v) :
    m.Pruned v s (Machine.unmapPage v s).2 := by
  rcases unmapPage_run hm hwf hleaf with ⟨e, he⟩ | h
  · rw [he]
    exact .refl hwf
  · exact h.pruned

/-! ### `remap_page` -/

private theorem remapWalk_run (hwf : m.WellFormed s.mem) (hleaf : m.NoHugeLeaf s.mem v) (p : PhysAddr)
    (flags : PageTableFlags) {l : Nat} {phys : BitVec 64} (hw : m.Walk s.mem v l (phys.toNat/4096))
    (hlt : phys.toNat < 2^32) :
    (∃ f, m.Walk s.mem v 0 f ∧ PageTableEntry.isPresent ⟨s.mem f (v.index 0)⟩ = true ∧
      Machine.remapWalk v p flags l phys s = (.ok (), s.setWord f (v.index 0) (PageTableEntry.of p.addr flags).raw)) ∨
    (m.leaf s.mem v = none ∧ ∃ e, Machine.remapWalk v p flags l phys s = (.error e, s)) := by
  induction l generalizing phys with
  | zero =>
    rw [Machine.remapWalk, Fallible.bind_of_ok (Machine.tableAt_run hlt)]
    cases hpr : PageTableEntry.isPresent ⟨s.mem (phys.toNat/4096) (v.index 0)⟩ with
    | false =>
      rw [Fallible.bind_of_error (Machine.presentEntry_absent hpr)]
      exact .inr ⟨TableTree.lookup_of_absent hw (PageTableEntry.kind_absent.mpr hpr), _, rfl⟩
    | true =>
      rw [Fallible.bind_of_ok (Machine.presentEntry_run hpr)]
      exact .inl ⟨_, hw, hpr, rfl⟩
  | succ l ih =>
    rw [Machine.remapWalk, Fallible.bind_of_ok (Machine.tableAt_run hlt)]
    cases hpr : PageTableEntry.isPresent ⟨s.mem (phys.toNat/4096) (v.index (l+1))⟩ with
    | false =>
      rw [Fallible.bind_of_error (Machine.presentEntry_absent hpr)]
      exact .inr ⟨TableTree.lookup_of_absent hw (PageTableEntry.kind_absent.mpr hpr), _, rfl⟩
    | true =>
      rw [Fallible.bind_of_ok (Machine.presentEntry_run hpr)]
      have hk := link_of_present hleaf hw hpr
      exact ih (.step hw hk) (hwf.target_lt hw.reach hk)

/-- Every outcome of `remap_page`: the leaf of the address is replaced and flushed, or the
call fails, on a misaligned frame, an unmapped page or a root out of reach. -/
theorem remapPage_run (hm : s.paging = some m) (hwf : m.WellFormed s.mem) (hleaf : m.NoHugeLeaf s.mem v)
    (p : PhysAddr) (flags : PageTableFlags) :
    (∃ f, m.Walk s.mem v 0 f ∧ PageTableEntry.isPresent ⟨s.mem f (v.index 0)⟩ = true ∧ p.isAligned = true ∧
      Machine.remapPage v p flags s =
        (.ok (), (s.setWord f (v.index 0) (PageTableEntry.of p.addr flags).raw).addLog (.invlpg v.addr))) ∨
    ((p.isAligned = true → m.rootTablePhys.toNat < 2^32 → m.leaf s.mem v = none) ∧
      ∃ e, Machine.remapPage v p flags s = (.error e, s)) := by
  rw [Machine.remapPage, Fallible.bind_of_ok (Machine.getPagingManager_run hm)]
  by_cases hp : p.isAligned = true
  · rw [Fallible.bind_of_ok (Fallible.require_run_pos _ hp s), Machine.remapLevels_eq]
    by_cases hroot : m.rootTablePhys.toNat < 2^32
    · rcases remapWalk_run hwf hleaf p flags .root hroot with ⟨f, hw, hpr, he⟩ | ⟨hnone, e, he⟩
      · rw [Fallible.bind_of_ok he]
        exact .inl ⟨f, hw, hpr, hp, rfl⟩
      · exact .inr ⟨fun _ _ => hnone, e, Fallible.bind_of_error he⟩
    · have he : Machine.remapWalk v p flags m.mode.top m.rootTablePhys s = (.error .crash, s) := by
        cases m.mode.top <;> exact Fallible.bind_of_error (Machine.tableAt_crash hroot)
      exact .inr ⟨fun _ h => absurd h hroot, _, Fallible.bind_of_error he⟩
  · rw [Fallible.bind_of_error (Fallible.require_run_neg _ hp s)]
    exact .inr ⟨fun h => absurd h hp, _, rfl⟩

/-- Whatever `remap_page` returns, at most the leaf of the address was written. -/
theorem remapPage_pruned (hm : s.paging = some m) (hwf : m.WellFormed s.mem) (hleaf : m.NoHugeLeaf s.mem v)
    (p : PhysAddr) (flags : PageTableFlags) : m.Pruned v s (Machine.remapPage v p flags s).2 := by
  rcases remapPage_run hm hwf hleaf p flags with ⟨f, hw, _, _, he⟩ | ⟨_, e, he⟩
  · rw [he]
    exact (Pruned.leafWrite hwf hw _).invlpg
  · rw [he]
    exact .refl hwf

theorem smallMachine_marked : smallPaging.TablesMarked smallMachine := by
  intro l f hf
  have hroot := (table_of_empty (fun _ _ => PageTableEntry.kind_zero _) hf).2
  refine ⟨⟨tenFrames, rfl, ?_⟩, smallMachine_used l f hf⟩
  rw [hroot]
  decide

end PagingManager
end Nafuraito.Memory
