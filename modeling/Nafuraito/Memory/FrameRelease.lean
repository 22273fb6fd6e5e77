import Nafuraito.Memory.CowRun
import Nafuraito.Memory.DemandRun

/-! Which calls give frames back while pages may still map them: the copy-on-write calls and the
fault handler give back none, and `munmap` unmaps each page before it frees its frame. -/
namespace Nafuraito.Memory
open Nafuraito.Library
open PhysicalMemoryManager (FreeIn)

namespace PagingManager
open Machine (FreesOnly pageAddr freedAddress freeAddress releasePage frameCount physToFrameIndex getRefcount)
variable {m : PagingManager} {A : Set VirtAddr} {s t u : Machine} {v w : VirtAddr} {e : BitVec 64}

/-- A well-formed hierarchy in used frames. -/
structure Paged (m : PagingManager) (s : Machine) : Prop where
  paging : s.paging = some m
  wellFormed : m.WellFormed s.mem
  used : m.TablesUsed s

/-- In which no walk of an address in `A` meets a huge leaf. -/
structure Walkable (m : PagingManager) (A : Set VirtAddr) (s : Machine) : Prop extends Paged m s where
  small : ∀ v ∈ A, m.NoHugeLeaf s.mem v

/-- The same hierarchy and allocator. -/
theorem Walkable.same (h : m.Walkable A s) (hp : t.paging = s.paging) (hmem : t.mem = s.mem) (hpmm : t.pmm = s.pmm) :
    m.Walkable A t where
  paging := hp.trans h.paging
  wellFormed := hmem ▸ h.wellFormed
  used l f hf := by
    rw [hmem] at hf
    rw [hpmm]
    exact h.used l f hf
  small := hmem ▸ h.small

/-- From `s` to `t` nothing was freed, and the addresses can be walked still. -/
structure Calm (m : PagingManager) (A : Set VirtAddr) (s t : Machine) : Prop where
  walk : m.Walkable A t
  quiet : FreesOnly (fun _ => False) s t

theorem Calm.refl (h : m.Walkable A s) : m.Calm A s s := ⟨h, .of_log rfl⟩

theorem Calm.trans (h : m.Calm A s t) (h' : m.Calm A t u) : m.Calm A s u := ⟨h'.walk, h.quiet.trans h'.quiet⟩

theorem Calm.same (h : m.Walkable A s) (hp : t.paging = s.paging) (hmem : t.mem = s.mem) (hpmm : t.pmm = s.pmm)
    (hlog : t.log = s.log) : m.Calm A s t := ⟨h.same hp hmem hpmm, .of_log hlog⟩

/-- The same entries, whatever became of tables and free frames. -/
theorem Calm.relinked (h : m.Walkable A s) (hr : m.Relinked s t (m.entryOf s.mem)) : m.Calm A s t where
  walk := ⟨⟨hr.paging.trans h.paging, hr.wellFormed, hr.used⟩, fun w hw l e he => by
    rw [leaf_eq_entryOf, hr.entries, ← leaf_eq_entryOf] at he
    exact h.small w hw l e he⟩
  quiet := hr.quiet

/-- A new 4 KiB entry for one page. -/
theorem Calm.update (h : m.Walkable A s) {k : m.Page}
    (hr : m.Relinked s t (Function.update (m.entryOf s.mem) k (some (0, e)))) : m.Calm A s t where
  walk := ⟨⟨hr.paging.trans h.paging, hr.wellFormed, hr.used⟩, fun w hw l e' he => by
    rw [leaf_eq_entryOf, hr.entries] at he
    by_cases hk : m.pageOf w = k
    · rw [hk, Function.update_self] at he
      exact (Prod.mk.inj (Option.some.inj he)).1.symm
    · rw [Function.update_of_ne hk, ← leaf_eq_entryOf] at he
      exact h.small w hw l e' he⟩
  quiet := hr.quiet

/-! ### Calls that give nothing back -/

section Calls
variable (h : m.Walkable A s)
include h

theorem remapPage_calm (hv : v ∈ A) {flags : PageTableFlags} (hpr : flags.raw.getLsbD 0 = true) (p : PhysAddr) :
    m.Calm A s (Machine.remapPage v p flags s).2 := by
  rcases remapPage_pages h.paging h.wellFormed h.used (h.small v hv) (p := p) hpr with ⟨t, hrun, -, hr⟩ |
    ⟨-, er, hrun⟩ <;>
    rw [hrun]
  · exact .update h hr
  · exact .refl h

theorem mapPage_calm (hv : v ∈ A) {flags : PageTableFlags} (hpr : flags.raw.getLsbD 0 = true) (p : PhysAddr) :
    m.Calm A s (Machine.mapPage v p flags s).2 := by
  rcases mapPage_pages h.paging h.wellFormed h.used (h.small v hv) (p := p) hpr with ⟨t, hrun, hr⟩ |
    ⟨er, t, hrun, hr⟩ <;>
    rw [hrun]
  · exact .update h hr
  · exact .relinked h hr

theorem setRefcount_calm (p : PhysAddr) (count : BitVec 32) : m.Calm A s (Machine.setRefcount p count s) := by
  rw [Machine.setRefcount]
  split
  · exact .refl h
  · exact .same h rfl rfl rfl rfl

theorem incRefcount_calm (p : PhysAddr) : m.Calm A s (Machine.incRefcount p s).2 := by
  rw [Machine.incRefcount]
  split
  · exact .refl h
  · exact setRefcount_calm h p _

theorem decRefcount_calm (p : PhysAddr) : m.Calm A s (Machine.decRefcount p s).2 := by
  rw [Machine.decRefcount]
  split
  · exact .refl h
  · exact setRefcount_calm h p _

/-- What follows the two readers runs on the flags of a present entry. -/
private theorem afterReaders_calm (hv : v ∈ A) {f : PageTableFlags → PhysAddr → Machine.Op Unit}
    (hf : ∀ flags p, flags.raw.getLsbD 0 = true → m.Calm A s (f flags p s).2) :
    m.Calm A s ((Machine.getPageFlags v >>= fun flags => Machine.translateAddress v >>= f flags) s).2 ∧
      m.Calm A s ((Machine.translateAddress v >>= fun p => Machine.getPageFlags v >>= fun flags => f flags p) s).2 := by
  rcases readers_run h.paging h.wellFormed (h.small v hv) with ⟨e, he, -, -, htr, hfl⟩ | ⟨-, ⟨er, htr⟩, er', hfl⟩
  · have := hf _ ⟨PageTableEntry.address ⟨e⟩ ||| v.pageOffset⟩ (PageTableEntry.flags_present (entryOf_present he))
    rw [Fallible.bind_of_ok hfl, Fallible.bind_of_ok htr, Fallible.bind_of_ok htr, Fallible.bind_of_ok hfl]
    exact ⟨this, this⟩
  · rw [Fallible.bind_of_error hfl, Fallible.bind_of_error htr]
    exact ⟨.refl h, .refl h⟩

/-- A fresh frame is filled from another, and then the page of an entry that is counted more
than once moves to it: the count is not 0 after that. -/
private theorem move_calm (hv : v ∈ A) {flags : PageTableFlags} (hpr : flags.raw.getLsbD 0 = true) {p : PhysAddr}
    (q : PhysAddr) (hcount : 2 ≤ s.frameCount (physToFrameIndex p)) :
    m.Calm A s ((do
      Machine.remapPage v q flags
      let newRefcount ← Machine.decRefcount p
      if newRefcount = 0 then
        Machine.ignore (Machine.freeFrame p.addr.toNat)
      Fallible.modify (Machine.setRefcount q 1) : Machine.Op Unit) s).2 := by
  refine Fallible.bind_snd (P := m.Calm A s) (remapPage_calm h hv hpr q) fun _ t hrun ht => ht.trans ?_
  have hsame : t.frameCount (physToFrameIndex p) = s.frameCount (physToFrameIndex p) := by
    have := (Machine.sameStatics_rule.remapPage v q flags s).refcounts
    rw [hrun] at this
    rw [frameCount, frameCount, this]
  obtain ⟨c, t₁, count, hdec, -, hdown⟩ := Machine.decRefcount_counts (s := t) p
  have hcalm := decRefcount_calm ht.walk p
  rw [hdec] at hcalm
  rw [Fallible.bind_of_ok hdec, if_neg (hdown (hsame ▸ hcount)).1]
  exact hcalm.trans (setRefcount_calm hcalm.walk q 1)

/-- Breaking the sharing of a page never comes to its `free_frame`. -/
theorem breakSharing_calm (hv : v ∈ A) {flags : PageTableFlags} (hpr : flags.raw.getLsbD 0 = true) (message : String) :
    m.Calm A s (Machine.breakSharing v flags message s).2 := by
  have howned : (ownedFlags flags).raw.getLsbD 0 = true := by
    rw [ownedFlags, BitVec.getLsbD_and, PageTableFlags.set, BitVec.getLsbD_or, hpr]
    decide
  rw [Machine.breakSharing]
  have htr := Machine.translateAddress_snd v s
  rcases hrun : Machine.translateAddress v s with ⟨er | p, t⟩ <;> rw [hrun] at htr <;> obtain rfl : t = s := htr
  · rw [Fallible.bind_of_error hrun]
    exact .refl h
  rw [Fallible.bind_of_ok hrun, Fallible.get_bind_run]
  by_cases hle : getRefcount p t ≤ 1
  · rw [if_pos hle]
    exact Fallible.bind_snd (P := m.Calm A t) (decRefcount_calm h p) fun _ u _ hu =>
      hu.trans (remapPage_calm hu.walk hv howned p)
  · rw [if_neg hle]
    have hcount : 2 ≤ t.frameCount (physToFrameIndex p) := by
      rw [BitVec.le_def, Machine.getRefcount_toNat, show (1 : BitVec 32).toNat = 1 from rfl] at hle
      omega
    obtain ⟨pmm, hfree, ⟨n, halloc, hn, -⟩ | ⟨er, halloc⟩⟩ := Machine.allocCowFrame_run message t
    · have htaken : m.Calm A t { t with pmm := pmm } :=
        .relinked h ((Grown.of_pmm h.wellFormed (a := 0) ⟨hfree, fun h => absurd rfl h⟩).relinked h.used)
      rw [Fallible.bind_of_ok halloc]
      rcases copyPage_run p ⟨BitVec.ofNat 64 (n*4096)⟩ { t with pmm := pmm } with ⟨-, hcopy⟩ | ⟨er, hcopy⟩
      · have hidx : physToFrameIndex ⟨BitVec.ofNat 64 (n*4096)⟩ = n := by
          have hlt := PhysicalMemoryManager.freeIn_lt hn
          rw [physToFrameIndex, BitVec.toNat_ofNat]
          omega
        rw [Fallible.bind_of_ok hcopy, hidx]
        have hfilled : m.Calm A t _ :=
          .relinked h (fill_relinked h.wellFormed h.used hfree hn (t.mem (physToFrameIndex p))).1
        exact hfilled.trans (move_calm hfilled.walk hv howned _ hcount)
      · rw [Fallible.bind_of_error hcopy]
        exact htaken
    · rw [Fallible.bind_of_error halloc]
      exact .relinked h ((Grown.of_pmm h.wellFormed (a := 0) ⟨hfree, fun h => absurd rfl h⟩).relinked h.used)

theorem handleCowFault_calm (hv : v ∈ A) : m.Calm A s (Machine.handleCowFault v s).2 := by
  rcases handleCowFault_snd h.paging h.wellFormed (h.small v hv) with hs | ⟨e, message, he, hs⟩ <;> rw [hs]
  · exact .refl h
  · exact breakSharing_calm h hv (PageTableEntry.flags_present (entryOf_present he)) message

theorem unshareCowPage_calm (hv : v ∈ A) : m.Calm A s (Machine.unshareCowPage v s).2 := by
  rcases unshareCowPage_snd h.paging h.wellFormed (h.small v hv) with hs | ⟨e, message, he, hs⟩ <;> rw [hs]
  · exact .refl h
  · exact breakSharing_calm h hv (PageTableEntry.flags_present (entryOf_present he)) message

end Calls

theorem markCow_calm (h : m.Walkable A s) (hv : v ∈ A) : m.Calm A s (Machine.markCow v s).2 :=
  (afterReaders_calm h hv fun _ p hpr => Fallible.bind_snd (P := m.Calm A s) (incRefcount_calm h p) fun _ _ _ ht =>
    ht.trans (remapPage_calm ht.walk hv (cowFlags_present hpr) p)).1

theorem sharePageCow_calm (h : m.Walkable A s) (hv : v ∈ A) (hw : w ∈ A) :
    m.Calm A s (Machine.sharePageCow v w s).2 := by
  refine (afterReaders_calm h hv fun _ p hpr => ?_).2
  refine Fallible.bind_snd (P := m.Calm A s) (remapPage_calm h hv (cowFlags_present hpr) p) fun _ t _ ht => ht.trans ?_
  refine Fallible.bind_snd (P := m.Calm A t) (mapPage_calm ht.walk hw (cowFlags_present hpr) p) fun _ u _ hu =>
    hu.trans ?_
  exact Fallible.bind_snd (P := m.Calm A u) (incRefcount_calm hu.walk p) fun _ _ _ hx => hx

theorem clonePageCow_calm {srcStart dstStart : VirtAddr} {i : Nat} (h : m.Walkable A s)
    (hv : srcStart.plus (i*4096) ∈ A) (hw : dstStart.plus (i*4096) ∈ A) :
    m.Calm A s (Machine.clonePageCow srcStart dstStart i s).2 := by
  rw [clonePageCow_snd]
  exact sharePageCow_calm h hv hw

theorem handleDemandPageFault_calm {faultAddr : VirtAddr} (h : m.Walkable A s) (hv : ⟨alignDown faultAddr.addr⟩ ∈ A)
    (errorCode : BitVec 64) : m.Calm A s (Machine.handleDemandPageFault faultAddr errorCode s).2 := by
  rcases Machine.handleDemandPageFault_run faultAddr errorCode s with
    ⟨er, pmm, htook, he⟩ | ⟨region, pmm, addr, words, -, htook, hrun⟩
  · rw [he]
    exact .relinked h (took_relinked h.wellFormed h.used htook)
  · have hfilled : m.Calm A s _ := .relinked h (filled_relinked h.wellFormed h.used htook words).1
    rcases hrun with ⟨er, he⟩ | ⟨-, he⟩ <;> rw [he]
    · exact hfilled
    · exact hfilled.trans (mapPage_calm hfilled.walk hv (Machine.set_present _) _)

theorem mmap_calm (h : m.Walkable A s) (start : VirtAddr) (size : BitVec 64) (flags : PageTableFlags)
    (backing : BackingKind) : m.Calm A s (Machine.mmap start size flags backing s).2 := by
  rcases Machine.mmap_run start size flags backing s with ⟨_, he⟩ | ⟨i, lo, hi, _, _, _, he⟩ <;> rw [he]
  · exact .refl h
  · exact .same h rfl rfl rfl rfl

/-! ### The loop of `munmap` -/

/-- A leaf entry, of whatever size, maps the frame at an address. -/
def Maps (m : PagingManager) (mem : Frames) (w : VirtAddr) (f : Nat) : Prop :=
  ∃ l e, m.leaf mem w = some (l, e) ∧ (Machine.leafAddress w l ⟨e⟩).addr.toNat/4096 = f

/-- The frame of a page of the call is no table, and only the entry of the page maps it. -/
def MappedAlone (m : PagingManager) (start : VirtAddr) (size : BitVec 64) (s : Machine) : Prop :=
  ∀ p ∈ callPages start size, ∀ f, m.Maps s.mem (pageAddr p) f →
    (∀ l, ¬ m.Table s.mem l f) ∧ ∀ w, m.Maps s.mem w f → ¬ m.Apart (pageAddr p) w

/-- The loop of `munmap` comes to a call `free_frame(addr)`, in state `u`. -/
def MunmapFrees (start : VirtAddr) (size : BitVec 64) (s : Machine) (addr : Nat) (u : Machine) : Prop :=
  ∃ lo hi k t, PageRange start size lo hi ∧ lo.toNat/4096 + k < hi.toNat/4096 ∧
    Fallible.forRange (fun page => releasePage (pageAddr page)) (lo.toNat/4096) k s = (.ok (), t) ∧
    freedAddress (pageAddr (lo.toNat/4096 + k)) t = (.ok (some addr), u)

theorem leaf_same (mem : Frames) (h : ¬ m.Apart v w) : m.leaf mem w = m.leaf mem v :=
  TableTree.lookup_indices (fun k hk => by_contra fun hne => h ⟨k, hk, fun he => hne he.symm⟩) _

/-- From `s` to `t` leaf entries and tables only went away. -/
structure Shrunk (m : PagingManager) (A : Set VirtAddr) (s t : Machine) : Prop where
  walk : m.Walkable A t
  leaf : ∀ w e, m.leaf t.mem w = some e → m.leaf s.mem w = some e
  tables : ∀ l f, m.Table t.mem l f → m.Table s.mem l f

theorem Shrunk.refl (h : m.Walkable A s) : m.Shrunk A s s := ⟨h, fun _ _ h => h, fun _ _ h => h⟩

theorem Shrunk.maps (h : m.Shrunk A s t) {f : Nat} (hw : m.Maps t.mem w f) : m.Maps s.mem w f := by
  obtain ⟨l, e, he, hf⟩ := hw
  exact ⟨l, e, h.leaf w _ he, hf⟩

/-- One entry is cleared. -/
theorem Shrunk.pruned (h : m.Shrunk A s t) (hp : m.Pruned v t u) (hgone : m.leaf u.mem v = none) : m.Shrunk A s u := by
  have hleaf : ∀ w e, m.leaf u.mem w = some e → m.leaf t.mem w = some e := by
    intro w e he
    by_cases ha : m.Apart v w
    · rwa [hp.leaf w ha] at he
    · rw [leaf_same _ ha, hgone] at he
      cases he
  exact ⟨⟨⟨hp.paging.trans h.walk.paging, hp.wellFormed, hp.used h.walk.used⟩, fun w hw l e he =>
    h.walk.small w hw l e (hleaf w _ he)⟩, fun w e he => h.leaf w e (hleaf w e he), fun l f hf =>
      h.tables l f (hp.tables hf)⟩

/-- A frame that is no table is freed. -/
theorem Shrunk.freed (h : m.Shrunk A s t) {pmm : Option PhysicalMemoryManager} {n : Nat} {event : Event}
    (hfree : ∀ f, FreeIn pmm f → FreeIn t.pmm f ∨ f = n) (htable : ∀ l, ¬ m.Table t.mem l n) :
    m.Shrunk A s { t.addLog event with pmm := pmm } := by
  refine ⟨⟨⟨h.walk.paging, h.walk.wellFormed, fun l f hf hfr => ?_⟩, h.walk.small⟩, h.leaf, h.tables⟩
  rcases hfree f hfr with hfr | rfl
  · exact h.walk.used l f hf hfr
  · exact htable l hf

/-- When the frame of a page is freed no page maps it, if none but that page did. -/
theorem freedAddress_shrunk (h : m.Shrunk A s t) (hv : v ∈ A) {addr : Nat}
    (halone : ∀ f, m.Maps s.mem v f → (∀ l, ¬ m.Table s.mem l f) ∧ ∀ w, m.Maps s.mem w f → ¬ m.Apart v w)
    (hrun : freedAddress v t = (.ok (some addr), u)) : m.Shrunk A s u ∧ (∃ f, addr = f*4096 ∧ m.Maps s.mem v f) ∧
      (∀ l, ¬ m.Table u.mem l (addr/4096)) ∧ ∀ w, ¬ m.Maps u.mem w (addr/4096) := by
  rcases freedAddress_run h.walk.paging h.walk.wellFormed (h.walk.small v hv) with
    ⟨r, hsame, hsome, -⟩ | ⟨e, he, ⟨er, _, herr, -⟩ | ⟨u', hrun', hc⟩⟩
  · exact absurd (Prod.mk.inj (hsame.symm.trans hrun)).1 (hsome addr)
  · rw [herr] at hrun
    cases hrun
  · rw [hrun'] at hrun
    obtain ⟨hr, rfl⟩ := Prod.mk.inj hrun
    obtain rfl := Option.some.inj (Except.ok.inj hr)
    have hmaps : m.Maps s.mem v (PageTableEntry.frame ⟨e⟩) := by
      obtain ⟨hn, hlt⟩ := leaf_toNat ⟨e⟩ v
      refine ⟨0, e, h.leaf v _ he, ?_⟩
      rw [Machine.leafAddress, hn]
      omega
    obtain ⟨htable, honly⟩ := halone _ hmaps
    have hu := h.pruned hc.pruned hc.gone
    rw [Nat.mul_div_cancel _ (by decide)]
    refine ⟨hu, ⟨_, rfl, hmaps⟩, fun l hl => htable l (hu.tables l _ hl), fun w hw => ?_⟩
    have hsame := leaf_same u'.mem (honly w (hu.maps hw))
    obtain ⟨l, e', he', -⟩ := hw
    rw [hsame, hc.gone] at he'
    cases he'

/-- A round frees emptied tables, and comes to at most the one call. -/
theorem releasePage_shrunk (h : m.Shrunk A s t) (hv : v ∈ A)
    (halone : ∀ f, m.Maps s.mem v f → (∀ l, ¬ m.Table s.mem l f) ∧ ∀ w, m.Maps s.mem w f → ¬ m.Apart v w) :
    m.Shrunk A s (releasePage v t).2 ∧ FreesOnly (fun addr => (∃ l, m.Table s.mem l (addr/4096)) ∨
      ∃ u, freedAddress v t = (.ok (some addr), u)) t (releasePage v t).2 := by
  have htables {x : Machine} (hp : m.Pruned v t x) : FreesOnly (fun addr => (∃ l, m.Table s.mem l (addr/4096)) ∨
      ∃ u, freedAddress v t = (.ok (some addr), u)) t x :=
    hp.log.mono fun _ ⟨_, l, hl⟩ => .inl ⟨l, h.tables l _ hl⟩
  rw [Machine.releasePage_eq]
  rcases freedAddress_run h.walk.paging h.walk.wellFormed (h.walk.small v hv) with
    ⟨r, hrun, hsome, -⟩ | ⟨e, -, ⟨er, u, hrun, hp, hgone⟩ | ⟨u, hrun, hc⟩⟩
  · rcases r with er | _ | addr
    · rw [Fallible.bind_of_error hrun]
      exact ⟨h, .of_log rfl⟩
    · rw [Fallible.bind_of_ok hrun]
      exact ⟨h, .of_log rfl⟩
    · exact absurd rfl (hsome addr)
  · rw [Fallible.bind_of_error hrun]
    exact ⟨h.pruned hp hgone, htables hp⟩
  · obtain ⟨hu, -, htable, -⟩ := freedAddress_shrunk h hv halone hrun
    obtain ⟨pmm, hstate, hfree, -⟩ := freeAddress_some (PageTableEntry.frame ⟨e⟩) u
    rw [Nat.mul_div_cancel _ (by decide)] at htable
    rw [Fallible.bind_of_ok hrun, hstate]
    exact ⟨hu.freed hfree htable, (htables hc.pruned).trans (.freeFrame (.inr ⟨u, hrun⟩))⟩

/-- The addresses of the pages of a call. -/
def callAddresses (start : VirtAddr) (size : BitVec 64) : Set VirtAddr :=
  {v | ∃ p ∈ callPages start size, v = pageAddr p}

/-- The first rounds of the loop, of which the next may be stopped at its call. -/
private theorem rounds_shrunk {start : VirtAddr} {size lo hi : BitVec 64} (h : m.Walkable (callAddresses start size) s)
    (halone : m.MappedAlone start size s) (hrange : PageRange start size lo hi) {n : Nat}
    (hn : lo.toNat/4096 + n ≤ hi.toNat/4096) :
    m.Shrunk (callAddresses start size) s
        (Fallible.forRange (fun page => releasePage (pageAddr page)) (lo.toNat/4096) n s).2 ∧
      FreesOnly (fun addr => (∃ l, m.Table s.mem l (addr/4096)) ∨ ∃ u, MunmapFrees start size s addr u) s
        (Fallible.forRange (fun page => releasePage (pageAddr page)) (lo.toNat/4096) n s).2 := by
  refine Fallible.forRange_rounds (P := fun t => m.Shrunk (callAddresses start size) s t ∧
    FreesOnly (fun addr => (∃ l, m.Table s.mem l (addr/4096)) ∨ ∃ u, MunmapFrees start size s addr u) s t)
    ⟨.refl h, .of_log rfl⟩ fun k t hk hrun ⟨ht, hlog⟩ => ?_
  have hp := (mem_callPages hrange (lo.toNat/4096 + k)).mpr (by omega)
  obtain ⟨hdone, hfrees⟩ := releasePage_shrunk ht ⟨_, hp, rfl⟩ (halone _ hp)
  refine ⟨hdone, hlog.trans (hfrees.mono fun addr ha => ha.imp_right fun ⟨u, hu⟩ => ?_)⟩
  exact ⟨u, lo, hi, k, t, hrange, by omega, hrun, hu⟩

/-- Where each page is mapped alone, `munmap` frees tables, and frames that no page maps then. -/
theorem munmap_frees {start : VirtAddr} {size : BitVec 64} (h : m.Walkable (callAddresses start size) s)
    (halone : m.MappedAlone start size s) : m.Paged (Machine.munmap start size s).2 ∧
      FreesOnly (fun addr => (∃ l, m.Table s.mem l (addr/4096)) ∨ ∃ u, MunmapFrees start size s addr u) s
        (Machine.munmap start size s).2 ∧
      ∀ addr u, MunmapFrees start size s addr u → ∀ w, ¬ m.Maps u.mem w (addr/4096) := by
  have hloop (lo hi : BitVec 64) (hrange : PageRange start size lo hi) :=
    rounds_shrunk h halone hrange (n := hi.toNat/4096 - lo.toNat/4096) (by have := hrange.lt; omega)
  refine ⟨?_, ?_, ?_⟩
  · rcases Machine.munmap_run start size s with ⟨_, t, he, -, rfl | ⟨lo, hi, hrange, hr⟩⟩ |
      ⟨lo, hi, u, hrange, hr, he⟩ <;> rw [he]
    · exact h.toPaged
    · have := (hloop lo hi hrange).1.walk
      exact (congrArg Prod.snd hr) ▸ this.toPaged
    · have := (hloop lo hi hrange).1.walk
      have hu : m.Walkable _ u := (congrArg Prod.snd hr) ▸ this
      have hcut : m.Walkable _ { u with regions := (Regions.cut lo hi s.regions).2 } := hu.same rfl rfl rfl
      exact hcut.toPaged
  · rcases Machine.munmap_run start size s with ⟨_, t, he, -, rfl | ⟨lo, hi, hrange, hr⟩⟩ |
      ⟨lo, hi, u, hrange, hr, he⟩ <;> rw [he]
    · exact .of_log rfl
    · have := (hloop lo hi hrange).2
      exact (congrArg Prod.snd hr) ▸ this
    · have := (hloop lo hi hrange).2
      have hu : FreesOnly _ s u := (congrArg Prod.snd hr) ▸ this
      exact hu.trans (.of_log rfl)
  · rintro addr u ⟨lo, hi, k, t, hrange, hk, hrun, hfreed⟩
    have hp := (mem_callPages hrange (lo.toNat/4096 + k)).mpr (by omega)
    have ht := (rounds_shrunk h halone hrange hk.le).1
    rw [hrun] at ht
    exact (freedAddress_shrunk ht ⟨_, hp, rfl⟩ (halone _ hp) hfreed).2.2.2

end PagingManager

/-! ### Runs -/

inductive FrameAction where
  | mmap (start : VirtAddr) (size : BitVec 64) (flags : PageTableFlags) (backing : BackingKind)
  | demandFault (faultAddr : VirtAddr) (errorCode : BitVec 64)
  | markCow (v : VirtAddr)
  | share (src dst : VirtAddr)
  | clone (srcStart dstStart : VirtAddr) (size : BitVec 64)
  | cowFault (v : VirtAddr)
  | unshare (v : VirtAddr)
  | munmap (start : VirtAddr) (size : BitVec 64)

namespace FrameAction
open PagingManager (MunmapFrees callAddresses)

/-- The machine after a call, whatever it returns. -/
def after : FrameAction → Machine → Machine
  | mmap start size flags backing, s => (Machine.mmap start size flags backing s).2
  | demandFault faultAddr errorCode, s => (Machine.handleDemandPageFault faultAddr errorCode s).2
  | markCow v, s => (Machine.markCow v s).2
  | share src dst, s => (Machine.sharePageCow src dst s).2
  | clone srcStart dstStart size, s => (Machine.cloneRangeCow srcStart dstStart size s).2
  | cowFault v, s => (Machine.handleCowFault v s).2
  | unshare v, s => (Machine.unshareCowPage v s).2
  | munmap start size, s => (Machine.munmap start size s).2

/-- The addresses a call walks. -/
def addresses : FrameAction → Set VirtAddr
  | mmap _ _ _ _ => ∅
  | demandFault faultAddr _ => {⟨alignDown faultAddr.addr⟩}
  | markCow v | cowFault v | unshare v => {v}
  | share src dst => {src, dst}
  | clone srcStart dstStart size => {v | ∃ i < CowAction.pageCount size,
      v = srcStart.plus (i*4096) ∨ v = dstStart.plus (i*4096)}
  | munmap start size => callAddresses start size

variable (m : PagingManager)

/-- The condition of a call on the state before it: its walks meet no huge leaf, and each page
that `munmap` is to release is mapped alone. -/
structure Meets (a : FrameAction) (s : Machine) : Prop where
  small : ∀ v ∈ a.addresses, m.NoHugeLeaf s.mem v
  alone : ∀ start size, a = munmap start size → m.MappedAlone start size s

/-- A call comes to `free_frame(addr)` for a frame other than a table, in state `u`. For the calls
other than `munmap` there is none. -/
def Frees : FrameAction → Machine → Nat → Machine → Prop
  | munmap start size, s, addr, u => MunmapFrees start size s addr u
  | _, _, _, _ => False

end FrameAction

namespace PagingManager
open Machine (FreesOnly)
variable {m : PagingManager} {s s₀ : Machine}

/-- The machines reached from `s₀` by calls that meet the condition, each returning anything. -/
inductive FrameRun (m : PagingManager) (s₀ : Machine) : Machine → Prop where
  | start : FrameRun m s₀ s₀
  | step {s : Machine} (a : FrameAction) : FrameRun m s₀ s → a.Meets m s → FrameRun m s₀ (a.after s)

private theorem after_calm {a : FrameAction} (h : m.Walkable a.addresses s)
    (hne : ∀ start size, a ≠ .munmap start size) :
    m.Calm a.addresses s (a.after s) := by
  cases a with
  | mmap start size flags backing => exact mmap_calm h start size flags backing
  | demandFault faultAddr errorCode => exact handleDemandPageFault_calm h rfl errorCode
  | markCow v => exact markCow_calm h rfl
  | share src dst => exact sharePageCow_calm h (.inl rfl) (.inr rfl)
  | clone srcStart dstStart size =>
    refine Fallible.forRange_snd (P := m.Calm _ s) (fun i t _ hi ht => ht.trans ?_) (.refl h)
    have hi : i < CowAction.pageCount size := by
      rw [CowAction.pageCount]
      omega
    exact clonePageCow_calm ht.walk ⟨i, hi, .inl rfl⟩ ⟨i, hi, .inr rfl⟩
  | cowFault v => exact handleCowFault_calm h rfl
  | unshare v => exact unshareCowPage_calm h rfl
  | munmap start size => exact absurd rfl (hne start size)

/-- One call: what it frees is a table, or is mapped nowhere when it is freed. -/
theorem after_frees (h : m.Paged s) {a : FrameAction} (ha : a.Meets m s) : m.Paged (a.after s) ∧
    FreesOnly (fun addr => (∃ l, m.Table s.mem l (addr/4096)) ∨ ∃ u, a.Frees s addr u) s (a.after s) ∧
    ∀ addr u, a.Frees s addr u → ∀ w, ¬ m.Maps u.mem w (addr/4096) := by
  by_cases hne : ∀ start size, a ≠ .munmap start size
  · have hcalm := after_calm ⟨h, ha.small⟩ hne
    refine ⟨hcalm.walk.toPaged, hcalm.quiet.mono fun _ => False.elim, fun addr u hf => ?_⟩
    cases a with
    | munmap start size => exact absurd rfl (hne start size)
    | _ => exact hf.elim
  · push Not at hne
    obtain ⟨start, size, rfl⟩ := hne
    exact munmap_frees ⟨h, ha.small⟩ (ha.alone start size rfl)

theorem FrameRun.paged (hr : FrameRun m s₀ s) (h : m.Paged s₀) : m.Paged s := by
  induction hr with
  | start => exact h
  | step a _ ha ih => exact (after_frees ih ha).1

/-- In every run of calls that meet the condition, from a well-formed hierarchy in used frames:
every address freed is that of a table, or of a frame that no leaf entry maps at that moment. -/
theorem frameRun_release (hm : s₀.paging = some m) (hwf : m.WellFormed s₀.mem) (hu : m.TablesUsed s₀)
    (hr : FrameRun m s₀ s) {a : FrameAction} (ha : a.Meets m s) :
    (∃ new, (a.after s).log = new ++ s.log ∧ ∀ addr, Event.freeFrame addr ∈ new →
      (∃ l, m.Table s.mem l (addr/4096)) ∨ ∃ u, a.Frees s addr u) ∧
    ∀ addr u, a.Frees s addr u → ∀ w, ¬ m.Maps u.mem w (addr/4096) :=
  (after_frees (hr.paged ⟨hm, hwf, hu⟩) ha).2

/-! ### One page, mapped and shared -/

/-- A page at 4 MiB is registered, and a fault populates it. -/
def mappedMachine : Machine :=
  (Machine.handleDemandPageFault ⟨0x400000#64⟩ 0 (Machine.mmap ⟨0x400000#64⟩ 0x1000#64 ⟨3#64⟩
    .zeroFill smallMachine).2).2

/-- Then it is shared at 5 MiB. -/
def sharedMachine : Machine := (Machine.sharePageCow ⟨0x400000#64⟩ ⟨0x500000#64⟩ mappedMachine).2

private theorem mappedMachine_pages :
    smallPaging.DemandPages (callPages ⟨0x400000#64⟩ 0x2000#64) mappedMachine := by
  have hrun : DemandRun (callPages ⟨0x400000#64⟩ 0x2000#64) smallMachine mappedMachine :=
    .step (.fault ⟨0x400000#64⟩ 0) (.step (.mmap ⟨0x400000#64⟩ 0x1000#64 ⟨3#64⟩ .zeroFill) .start
      ⟨Set.Ico_subset_Ico_right (by decide), by decide⟩) trivial
  refine (hrun.ok twoPages_area 
    ⟨.start rfl smallMachine_wellFormed smallMachine_used fun _ _ => smallMachine_unmapped _,
    (Machine.RegistryRun.start fun _ => rfl).ok, fun a r ⟨i, hi, _⟩ => ?_⟩).pages
  cases hi

private theorem mappedMachine_entries : ∃ e, smallPaging.entryOf mappedMachine.mem =
    Function.update (fun _ => none) (smallPaging.pageOf ⟨0x400000#64⟩) (some (0, e)) := by
  have hok : (Machine.handleDemandPageFault ⟨0x400000#64⟩ 0
      (Machine.mmap ⟨0x400000#64⟩ 0x1000#64 ⟨3#64⟩ .zeroFill smallMachine).2).1 = .ok () := by decide +kernel
  have hstart : smallPaging.Walkable {⟨0x400000#64⟩}
      (Machine.mmap ⟨0x400000#64⟩ 0x1000#64 ⟨3#64⟩ .zeroFill smallMachine).2 :=
    (mmap_calm ⟨⟨rfl, smallMachine_wellFormed, smallMachine_used⟩, fun v _ l e he => by
      rw [smallMachine_unmapped] at he
      cases he⟩ _ _ _ _).walk
  have hnone : smallPaging.entryOf (Machine.mmap ⟨0x400000#64⟩ 0x1000#64 ⟨3#64⟩ .zeroFill smallMachine).2.mem =
      fun _ => none := by
    funext k
    exact TableTree.lookup_of_absent .root (PageTableEntry.kind_zero _)
  rw [mappedMachine]
  rcases Machine.handleDemandPageFault_run ⟨0x400000#64⟩ 0
      (Machine.mmap ⟨0x400000#64⟩ 0x1000#64 ⟨3#64⟩ .zeroFill smallMachine).2 with
    ⟨er, pmm, -, he⟩ | ⟨region, pmm, addr, words, -, htook, ⟨er, he⟩ | ⟨-, he⟩⟩
  · rw [he] at hok
    cases hok
  · rw [he] at hok
    cases hok
  · have hr := (filled_relinked hstart.wellFormed hstart.used htook words).1
    have hfilled := (Calm.relinked hstart hr).walk
    rw [he] at hok ⊢
    rcases mapPage_pages hfilled.paging hfilled.wellFormed hfilled.used (hfilled.small ⟨0x400000#64⟩ rfl) (p := ⟨addr⟩)
      (Machine.set_present region.flags) with ⟨t, hrun, hr'⟩ | ⟨er, t, hrun, -⟩
    · have halign : (⟨alignDown (VirtAddr.mk 0x400000#64).addr⟩ : VirtAddr) = ⟨0x400000#64⟩ := by decide
      rw [halign, hrun, hr'.entries, hr.entries, hnone]
      exact ⟨_, rfl⟩
    · have halign : (⟨alignDown (VirtAddr.mk 0x400000#64).addr⟩ : VirtAddr) = ⟨0x400000#64⟩ := by decide
      rw [halign, hrun] at hok
      cases hok

private theorem onePage_eq {p : Nat} (hp : p ∈ callPages ⟨0x400000#64⟩ 0x1000#64) : p = 0x400 := by
  have h₁ : 0x400 ≤ p := hp.1
  have h₂ : p < 0x401 := hp.2
  omega

private theorem onePage_freed (s : Machine) {addr : Nat}
    (h : (Machine.freedAddress ⟨0x400000#64⟩ s).1 = .ok (some addr)) :
    MunmapFrees ⟨0x400000#64⟩ 0x1000#64 s addr (Machine.freedAddress ⟨0x400000#64⟩ s).2 :=
  ⟨0x400000#64, 0x401000#64, 0, s, ⟨rfl, rfl, by decide⟩, by decide, rfl, Fallible.run_of_fst h⟩

/-- The frame of a page that is not shared is mapped nowhere when it is freed. -/
theorem frameRun_release_unshared : ∃ u, MunmapFrees ⟨0x400000#64⟩ 0x1000#64 mappedMachine 0x2000 u ∧
    ¬ smallPaging.Maps u.mem ⟨0x400000#64⟩ 2 := by
  have hrun : FrameRun smallPaging smallMachine mappedMachine := by
    refine .step (.demandFault ⟨0x400000#64⟩ 0) (.step (.mmap ⟨0x400000#64⟩ 0x1000#64 ⟨3#64⟩ .zeroFill) .start
      ⟨fun v hv => hv.elim, fun _ _ h => by cases h⟩) ⟨fun v _ l e he => ?_, fun _ _ h => by cases h⟩
    have hnone : smallPaging.leaf smallMachine.mem v = some (l, e) := he
    rw [smallMachine_unmapped] at hnone
    cases hnone
  have hmeets : (FrameAction.munmap ⟨0x400000#64⟩ 0x1000#64).Meets smallPaging mappedMachine := by
    have hpages := mappedMachine_pages
    have hin : 0x400 ∈ callPages ⟨0x400000#64⟩ 0x2000#64 := ⟨by decide, by decide⟩
    refine ⟨?_, ?_⟩
    · rintro v ⟨p, hp, rfl⟩
      rw [onePage_eq hp]
      exact hpages.small _ hin
    · rintro start size he p hp f ⟨l, e, hl, hf⟩
      obtain ⟨rfl, rfl⟩ := FrameAction.munmap.inj he
      obtain rfl := onePage_eq hp
      refine ⟨(hpages.data _ hin f ?_).1, fun w ⟨l', e', hl', _⟩ ⟨k, hk, hne⟩ => hne ?_⟩
      · obtain rfl := hpages.small _ hin l e hl
        obtain ⟨hn, hlt⟩ := leaf_toNat ⟨e⟩ (Machine.pageAddr 0x400)
        rw [mappedFrame_eq, hl, Option.map_some, ← hf, Machine.leafAddress]
        have hdiv : PageTableEntry.frame ⟨e⟩ = (PageTableEntry.address ⟨e⟩ |||
            (Machine.pageAddr 0x400).pageOffset).toNat/4096 := by
          omega
        exact congrArg some hdiv
      · obtain ⟨e₁, hentries⟩ := mappedMachine_entries
        rw [leaf_eq_entryOf, hentries] at hl'
        by_cases hpage : smallPaging.pageOf w = smallPaging.pageOf ⟨0x400000#64⟩
        · exact (congrFun hpage ⟨k, by omega⟩).symm
        · rw [Function.update_of_ne hpage] at hl'
          cases hl'
  have hfreed : MunmapFrees ⟨0x400000#64⟩ 0x1000#64 mappedMachine 0x2000 _ :=
    onePage_freed mappedMachine (by decide +kernel)
  exact ⟨_, hfreed, (frameRun_release (m := smallPaging)
    rfl smallMachine_wellFormed smallMachine_used hrun hmeets).2 _ _ hfreed _⟩

/-- The frame of a page that is shared is freed while the other page still maps it. -/
theorem shared_frame_freed : (smallPaging.WellFormed smallMachine.mem ∧ smallPaging.TablesUsed smallMachine) ∧
    (Machine.sharePageCow ⟨0x400000#64⟩ ⟨0x500000#64⟩ mappedMachine).1 = .ok () ∧
    (Machine.munmap ⟨0x400000#64⟩ 0x1000#64 sharedMachine).1 = .ok () ∧
    Event.freeFrame 0x2000 ∈ (Machine.munmap ⟨0x400000#64⟩ 0x1000#64 sharedMachine).2.log ∧
    ∃ u, MunmapFrees ⟨0x400000#64⟩ 0x1000#64 sharedMachine 0x2000 u ∧ smallPaging.Maps u.mem ⟨0x500000#64⟩ 2 := by
  refine ⟨⟨smallMachine_wellFormed, smallMachine_used⟩, by decide +kernel, by decide +kernel, by decide +kernel,
    _, onePage_freed sharedMachine (by decide +kernel), 0, 0x2201#64, by decide +kernel, by decide +kernel⟩

end PagingManager
end Nafuraito.Memory
