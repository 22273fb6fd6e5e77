import Nafuraito.Memory.CowSharing

/-! Each copy-on-write call keeps frames private to their pages, as long as no shared frame is
missing in the counts, and leaves alone what is read through other pages. -/
namespace Nafuraito.Memory.PagingManager
open Nafuraito.Library
open PhysicalMemoryManager (FreeIn)
open Machine (physToFrameIndex getRefcount frameCount Counts)

variable {m : PagingManager} {P A B : Set m.Page} {s t u : Machine} {v : VirtAddr} {e : BitVec 64}

/-- The pages stay data pages, no frame is shared behind the counts, and what is read through
a page has not changed unless it is one of `touched`. -/
structure Kept (m : PagingManager) (P touched : Set m.Page) (s t : Machine) : Prop where
  pages : m.DataPages P t
  alone : ∀ f, (m.sharing P t).Private f
  content : ∀ k ∈ P, k ∉ touched → m.contentOf t k = m.contentOf s k

theorem Kept.refl (h : m.DataPages P s) (ha : ∀ f, (m.sharing P s).Private f) : m.Kept P A s s :=
  ⟨h, ha, fun _ _ _ => rfl⟩

theorem Kept.trans (h : m.Kept P A s t) (h' : m.Kept P B t u) (hB : A ⊆ B) : m.Kept P B s u where
  pages := h'.pages
  alone := h'.alone
  content k hk hkB := (h'.content k hk hkB).trans (h.content k hk fun hkA => hkB (hB hkA))

theorem Kept.mono (h : m.Kept P A s t) (hB : A ⊆ B) : m.Kept P B s t :=
  ⟨h.pages, h.alone, fun k hk hkB => h.content k hk fun hkA => hkB (hB hkA)⟩

/-! ### A new entry for one page -/

section Update
variable {k : m.Page}
  (hr : m.Relinked s t (Function.update (m.entryOf s.mem) k (some (0, e))))
include hr

theorem writable_update {j : P} (h : (m.sharing P t).writable j) :
    (j.1 = k ∧ e.getLsbD 1 = true) ∨ (j.1 ≠ k ∧ (m.sharing P s).writable j) := by
  obtain ⟨e', he', hw⟩ := h
  rw [hr.entries] at he'
  by_cases hj : j.1 = k
  · rw [hj, Function.update_self] at he'
    obtain rfl := (Prod.mk.inj (Option.some.inj he')).2
    exact .inl ⟨hj, hw⟩
  · rw [Function.update_of_ne hj] at he'
    exact .inr ⟨hj, e', he', hw⟩

theorem DataPages.update (h : m.DataPages P s) (hdata : m.IsData s (PageTableEntry.frame ⟨e⟩)) : m.DataPages P t := by
  refine h.relinked hr fun j _ => ?_
  by_cases hj : j = k
  · subst hj
    exact .inr ⟨e, Function.update_self .., hdata⟩
  · exact .inl (Function.update_of_ne hj ..)

end Update

/-- The same entries, whatever became of tables and free frames. -/
theorem Kept.of_relinked (h : m.DataPages P s) (ha : ∀ f, (m.sharing P s).Private f)
    (hr : m.Relinked s t (m.entryOf s.mem)) : m.Kept P A s t := by
  have hframe : m.frameOf t = m.frameOf s := by
    funext k
    rw [frameOf, frameOf, hr.entries]
  refine ⟨h.relinked hr fun _ _ => .inl rfl, fun f => (ha f).mono (fun j hj => ?_) (fun j _ hw => ?_) ?_, fun k hk _ =>
    h.content_relinked hr hk (congrFun hframe k)⟩
  · rwa [Sharing.mem_owners, sharing, hframe] at hj
  · obtain ⟨e, he, hw⟩ := hw
    rw [hr.entries] at he
    exact ⟨e, he, hw⟩
  · rw [sharing, sharing]
    simp only [frameCount, hr.refcounts, le_refl]

/-! ### Counts -/

section OfCounts
variable {f count : Nat} (hc : Counts s t f count)
include hc

theorem frameOf_counts : m.frameOf t = m.frameOf s := by
  rw [hc.only]
  rfl

theorem contentOf_counts : m.contentOf t = m.contentOf s := by
  rw [hc.only]
  rfl

theorem writable_counts : (m.sharing P t).writable = (m.sharing P s).writable := by
  rw [hc.only]
  rfl

theorem DataPages.counts (h : m.DataPages P s) : m.DataPages P t := by
  rw [hc.only]
  exact ⟨h.paging, h.wellFormed, h.used, h.small, h.data, h.bits⟩

end OfCounts

/-! ### The address of a page's entry -/

theorem physToFrameIndex_leaf (e : PageTableEntry) (v : VirtAddr) :
    physToFrameIndex ⟨e.address ||| v.pageOffset⟩ = e.frame := by
  obtain ⟨h, hlt⟩ := leaf_toNat e v
  rw [physToFrameIndex, h]
  omega

theorem leaf_of_aligned {e : PageTableEntry} (h : (PhysAddr.mk (e.address ||| v.pageOffset)).isAligned = true) :
    e.address ||| v.pageOffset = e.address := by
  have h : (e.address ||| v.pageOffset).toNat % 4096 = 0 := PhysAddr.isAligned_iff.mp h
  obtain ⟨hn, hlt⟩ := leaf_toNat e v
  rw [hn] at h
  rw [← BitVec.toNat_inj, hn, e.address_eq]
  omega

/-! ### Breaking the sharing of a page -/

theorem copyPage_run (src dst : PhysAddr) (s : Machine) :
    (src.isAligned = true ∧
      Machine.copyPage src dst s = (.ok (), s.setFrame (physToFrameIndex dst) (s.mem (physToFrameIndex src)))) ∨
    ∃ e, Machine.copyPage src dst s = (.error e, s) := by
  rw [Machine.copyPage]
  by_cases h : src.isAligned = true ∧ dst.isAligned = true
  · rw [Fallible.bind_of_ok (Fallible.require_run_pos _ h s)]
    exact .inl ⟨h.1, rfl⟩
  · rw [Fallible.bind_of_error (Fallible.require_run_neg _ h s)]
    exact .inr ⟨_, rfl⟩

/-- A frame counted at most once is made writable where it is. -/
private theorem own_kept (h : m.DataPages P s) (ha : ∀ f, (m.sharing P s).Private f) (hv : m.pageOf v ∈ P)
    (he : m.entryOf s.mem (m.pageOf v) = some (0, e))
    (hcount : s.frameCount (PageTableEntry.frame ⟨e⟩) ≤ 1) {p : PhysAddr}
    (hp : p = ⟨PageTableEntry.address ⟨e⟩ ||| v.pageOffset⟩) :
    m.Kept P ∅ s ((Machine.decRefcount p >>= fun _ =>
      Machine.remapPage v p (ownedFlags (PageTableEntry.flags ⟨e⟩))) s).2 := by
  have htarget : (m.sharing P s).target ⟨m.pageOf v, hv⟩ = some (PageTableEntry.frame ⟨e⟩) := frameOf_of_entry he
  obtain ⟨c, s₁, count, hdec, hc, -⟩ := Machine.decRefcount_counts (s := s) p
  rw [hp, physToFrameIndex_leaf] at hc
  have h₁ := h.counts hc
  obtain ⟨hfb, hpr, hw⟩ := ownedFlags_bits (PageTableEntry.flags_flagBits ⟨e⟩)
  rw [PageTableEntry.flags_present (entryOf_present he)] at hpr
  rw [Fallible.bind_of_ok hdec]
  rcases remapPage_pages h₁.paging h₁.wellFormed h₁.used (h₁.noHugeLeaf hv) (p := p) hpr with
    ⟨t, hrun, hal, hr⟩ | ⟨_, er, hrun⟩ <;> rw [hrun]
  · rw [hp] at hal hr
    have hframe : PageTableEntry.frame (.of (PhysAddr.mk (PageTableEntry.address ⟨e⟩ ||| v.pageOffset)).addr
        (ownedFlags (PageTableEntry.flags ⟨e⟩))) = PageTableEntry.frame ⟨e⟩ := by
      rw [leaf_of_aligned hal, PageTableEntry.of_frame hfb]
    have hsame : m.frameOf t = m.frameOf s := by
      rw [hr.frameOf_update, hframe, frameOf_counts hc, Function.update_eq_self_iff]
      exact htarget.symm
    refine ⟨h₁.update hr (hframe ▸ h₁.data _ hv _ ?_), fun f => (ha f).own htarget hcount (fun j => ?_) (fun j hj => ?_)
      fun g hg => ?_, fun k hk _ => ?_⟩
    · rw [frameOf_counts hc]
      exact htarget
    · exact congrFun hsame j
    · rcases writable_update hr hj with ⟨hjk, _⟩ | ⟨_, hj⟩
      · exact .inl (Subtype.ext hjk)
      · rw [writable_counts hc] at hj
        exact .inr hj
    · refine Eq.trans ?_ (hc.rest g hg)
      simp only [sharing, frameCount, hr.refcounts]
    · rw [← contentOf_counts hc]
      exact h₁.content_relinked hr hk (by rw [hsame, frameOf_counts hc])
  · refine ⟨h₁, fun f => (ha f).own htarget hcount (fun j => congrFun (frameOf_counts (m := m) hc) j.1)
      (fun j hj => .inr ?_)
      (fun g hg => hc.rest g hg), fun k _ _ => congrFun (contentOf_counts hc) k⟩
    rwa [writable_counts hc] at hj

theorem frame_toNat {n : Nat} (hn : n < 2^40) : (BitVec.ofNat 64 (n*4096)).toNat = n*4096 := by
  rw [BitVec.toNat_ofNat]
  omega

/-- A page whose frame is counted more than once moves to a copy that no page has. -/
private theorem move_kept (h : m.DataPages P s) (ha : ∀ f, (m.sharing P s).Private f) (hv : m.pageOf v ∈ P)
    (he : m.entryOf s.mem (m.pageOf v) = some (0, e))
    (hcount : 2 ≤ s.frameCount (PageTableEntry.frame ⟨e⟩)) {p q : PhysAddr}
    (hp : p = ⟨PageTableEntry.address ⟨e⟩ ||| v.pageOffset⟩) {n : Nat} (hq : q = ⟨BitVec.ofNat 64 (n*4096)⟩)
    (hn : n < 2^40) (hdata : m.IsData s n) (hnone : ∀ k ∈ P, m.frameOf s k ≠ some n)
    (hcopy : s.mem n = s.mem (PageTableEntry.frame ⟨e⟩)) :
    m.Kept P ∅ s ((do
      Machine.remapPage v q (ownedFlags (PageTableEntry.flags ⟨e⟩))
      let newRefcount ← Machine.decRefcount p
      if newRefcount = 0 then
        Machine.ignore (Machine.freeFrame p.addr.toNat)
      Fallible.modify (Machine.setRefcount q 1) : Machine.Op Unit) s).2 := by
  have htarget : (m.sharing P s).target ⟨m.pageOf v, hv⟩ = some (PageTableEntry.frame ⟨e⟩) := frameOf_of_entry he
  obtain ⟨hfb, hpr, hw⟩ := ownedFlags_bits (PageTableEntry.flags_flagBits ⟨e⟩)
  rw [PageTableEntry.flags_present (entryOf_present he)] at hpr
  rcases remapPage_pages h.paging h.wellFormed h.used (h.noHugeLeaf hv) (p := q) hpr with
    ⟨t, hrun, -, hr⟩ | ⟨_, er, hrun⟩
  · have hqn : q.addr.toNat = n*4096 := by rw [hq, frame_toNat hn]
    have hframe : (PageTableEntry.of q.addr (ownedFlags (PageTableEntry.flags ⟨e⟩))).frame = n := by
      rw [PageTableEntry.frame, PageTableEntry.of_address (by omega) (by omega) hfb]
      omega
    have hpages := h.update hr (hframe ▸ hdata)
    have hnew := hr.frameOf_update
    obtain ⟨c, t₁, count, hdec, hc, hdown⟩ := Machine.decRefcount_counts (s := t) p
    have hc₂ := Machine.setRefcount_counts (s := t₁) q 1
    have hidx : physToFrameIndex q = n := by
      rw [physToFrameIndex, hqn]
      omega
    rw [hp, physToFrameIndex_leaf] at hc hdown
    rw [hidx] at hc₂
    have hsame (f : Nat) : t.frameCount f = s.frameCount f := by simp only [frameCount, hr.refcounts]
    rw [hsame] at hdown
    obtain ⟨hc0, hdown⟩ := hdown hcount
    have htracked : PageTableEntry.frame ⟨e⟩ < MAX_FRAMES := by
      by_contra hf
      rw [frameCount, if_neg hf] at hcount
      omega
    have hgn : PageTableEntry.frame ⟨e⟩ ≠ n := fun he => hnone _ hv (he ▸ htarget)
    have hframes : m.frameOf (Machine.setRefcount q 1 t₁) = Function.update (m.frameOf s) (m.pageOf v) (some n) := by
      rw [frameOf_counts hc₂, frameOf_counts hc, hnew, hframe]
    rw [Fallible.bind_of_ok hrun, Fallible.bind_of_ok hdec, if_neg hc0]
    change m.Kept P ∅ s (Machine.setRefcount q 1 t₁)
    refine ⟨(hpages.counts hc).counts hc₂, fun f =>
      (ha f).copy htarget hcount (fun j => hnone j j.2) ?_ (fun j hj => ?_)
      (fun j hj => ?_) ?_ (fun f hfg hfn => ?_), fun k hk _ => ?_⟩
    · change m.frameOf _ _ = _
      rw [hframes, Function.update_self]
    · change m.frameOf _ _ = _
      rw [hframes, Function.update_of_ne fun h => hj (Subtype.ext h)]
      rfl
    · rw [writable_counts hc₂, writable_counts hc] at hj
      rcases writable_update hr hj with ⟨hjk, _⟩ | ⟨_, hj⟩
      · exact .inl (Subtype.ext hjk)
      · exact .inr hj
    · change s.frameCount _ ≤ Machine.frameCount _ _ + 1
      rw [hc₂.rest _ hgn, hc.count htracked, hdown]
    · change Machine.frameCount _ f = s.frameCount f
      rw [hc₂.rest f hfn, hc.rest f hfg, hsame]
    · rw [contentOf_counts hc₂, contentOf_counts hc]
      by_cases hkv : k = m.pageOf v
      · subst hkv
        rw [contentOf, contentOf, hnew, hframe, Function.update_self, frameOf_of_entry he, Option.map_some,
          Option.map_some, hr.rest n hdata.1 hdata.2, hcopy]
      · exact h.content_relinked hr hk (by rw [hnew, Function.update_of_ne hkv])
  · rw [Fallible.bind_of_error hrun]
    exact .refl h ha

/-- `handle_cow_fault` and `unshare_cow_page` change nothing that is read through a page. -/
theorem breakSharing_kept (h : m.DataPages P s) (ha : ∀ f, (m.sharing P s).Private f) (hv : m.pageOf v ∈ P)
    (he : m.entryOf s.mem (m.pageOf v) = some (0, e)) (message : String) :
    m.Kept P ∅ s (Machine.breakSharing v (PageTableEntry.flags ⟨e⟩) message s).2 := by
  have hrefl : m.Kept P ∅ s s := .refl h ha
  rw [Machine.breakSharing]
  rcases readers_run h.paging h.wellFormed (h.noHugeLeaf hv) with ⟨e', he', -, -, htr, -⟩ | ⟨-, ⟨er, htr⟩, -⟩
  · obtain rfl := (Prod.mk.inj (Option.some.inj (he.symm.trans he'))).2
    rw [Fallible.bind_of_ok htr, Fallible.get_bind_run]
    have hcount : (getRefcount ⟨PageTableEntry.address ⟨e⟩ ||| v.pageOffset⟩ s).toNat =
        s.frameCount (PageTableEntry.frame ⟨e⟩) := by rw [Machine.getRefcount_toNat, physToFrameIndex_leaf]
    by_cases hle : getRefcount ⟨PageTableEntry.address ⟨e⟩ ||| v.pageOffset⟩ s ≤ 1
    · rw [if_pos hle]
      rw [BitVec.le_def, hcount] at hle
      exact own_kept h ha hv he hle rfl
    · rw [if_neg hle]
      rw [BitVec.le_def, hcount, show (1 : BitVec 32).toNat = 1 from rfl] at hle
      have htwo : 2 ≤ s.frameCount (PageTableEntry.frame ⟨e⟩) := by omega
      obtain ⟨p, hfree, ⟨n, halloc, hn, hused⟩ | ⟨er, halloc⟩⟩ := Machine.allocCowFrame_run message s
      · have htaken : m.Relinked s { s with pmm := p } (m.entryOf s.mem) :=
          (Grown.of_pmm h.wellFormed (a := 0) ⟨hfree, fun h => absurd rfl h⟩).relinked h.used
        rw [Fallible.bind_of_ok halloc]
        rcases copyPage_run ⟨PageTableEntry.address ⟨e⟩ ||| v.pageOffset⟩ ⟨BitVec.ofNat 64 (n*4096)⟩
          { s with pmm := p } with ⟨-, hcopy⟩ | ⟨er, hcopy⟩
        · rw [Fallible.bind_of_ok hcopy]
          have hn40 := h.bits n hn
          have hidx : physToFrameIndex ⟨BitVec.ofNat 64 (n*4096)⟩ = n := by
            rw [physToFrameIndex, frame_toNat hn40]
            omega
          rw [hidx, physToFrameIndex_leaf]
          obtain ⟨hfill, htable⟩ := fill_relinked h.wellFormed h.used hfree hn (s.mem (PageTableEntry.frame ⟨e⟩))
          have hkept : m.Kept P ∅ s _ := .of_relinked h ha hfill
          have hnone (k : m.Page) (hk : k ∈ P) : m.frameOf s k ≠ some n := fun hkn => (h.data k hk n hkn).2 hn
          refine hkept.trans (move_kept hkept.pages hkept.alone hv ?_ htwo rfl rfl hn40 ⟨htable, hused⟩
            (fun k hk => ?_) ?_)
            (Set.Subset.refl ∅)
          · rw [hfill.entries, he]
          · rw [frameOf, hfill.entries]
            exact hnone k hk
          · have hgn : PageTableEntry.frame ⟨e⟩ ≠ n := fun hgn => hnone _ hv (hgn ▸ frameOf_of_entry he)
            refine (Function.update_self _ _ _).trans ?_
            exact (Function.update_of_ne hgn _ _).symm
        · rw [Fallible.bind_of_error hcopy]
          exact .of_relinked h ha htaken
      · rw [Fallible.bind_of_error halloc]
        exact .of_relinked h ha ((Grown.of_pmm h.wellFormed (a := 0) ⟨hfree, fun h => absurd rfl h⟩).relinked h.used)
  · rw [Fallible.bind_of_error htr]
    exact hrefl

/-- The fault handler leaves the machine as it is or breaks the sharing of a mapped page. -/
theorem handleCowFault_snd (hm : s.paging = some m) (hwf : m.WellFormed s.mem) (hleaf : m.NoHugeLeaf s.mem v) :
    (Machine.handleCowFault v s).2 = s ∨ ∃ e message, m.entryOf s.mem (m.pageOf v) = some (0, e) ∧
      (Machine.handleCowFault v s).2 = (Machine.breakSharing v (PageTableEntry.flags ⟨e⟩) message s).2 := by
  rw [Machine.handleCowFault]
  rcases readers_run hm hwf hleaf with ⟨e, he, -, -, -, hfl⟩ | ⟨-, -, er, hfl⟩
  · rw [Fallible.bind_of_ok hfl]
    by_cases hcow : isCowPage (PageTableEntry.flags ⟨e⟩) = true
    · rw [Fallible.bind_of_ok (Fallible.require_run_pos _ hcow s)]
      exact .inr ⟨e, _, he, rfl⟩
    · rw [Fallible.bind_of_error (Fallible.require_run_neg _ hcow s)]
      exact .inl rfl
  · rw [Fallible.bind_of_error hfl]
    exact .inl rfl

/-- And so does the call outside a fault. -/
theorem unshareCowPage_snd (hm : s.paging = some m) (hwf : m.WellFormed s.mem) (hleaf : m.NoHugeLeaf s.mem v) :
    (Machine.unshareCowPage v s).2 = s ∨ ∃ e message, m.entryOf s.mem (m.pageOf v) = some (0, e) ∧
      (Machine.unshareCowPage v s).2 = (Machine.breakSharing v (PageTableEntry.flags ⟨e⟩) message s).2 := by
  rw [Machine.unshareCowPage]
  rcases readers_run hm hwf hleaf with ⟨e, he, -, -, -, hfl⟩ | ⟨-, -, er, hfl⟩
  · rw [Fallible.bind_of_ok hfl]
    split
    · exact .inl rfl
    · exact .inr ⟨e, _, he, rfl⟩
  · rw [Fallible.bind_of_error hfl]
    exact .inl rfl

theorem handleCowFault_kept (h : m.DataPages P s) (ha : ∀ f, (m.sharing P s).Private f) (hv : m.pageOf v ∈ P) :
    m.Kept P ∅ s (Machine.handleCowFault v s).2 := by
  rcases handleCowFault_snd h.paging h.wellFormed (h.noHugeLeaf hv) with hs | ⟨e, message, he, hs⟩ <;> rw [hs]
  · exact .refl h ha
  · exact breakSharing_kept h ha hv he message

theorem unshareCowPage_kept (h : m.DataPages P s) (ha : ∀ f, (m.sharing P s).Private f) (hv : m.pageOf v ∈ P) :
    m.Kept P ∅ s (Machine.unshareCowPage v s).2 := by
  rcases unshareCowPage_snd h.paging h.wellFormed (h.noHugeLeaf hv) with hs | ⟨e, message, he, hs⟩ <;> rw [hs]
  · exact .refl h ha
  · exact breakSharing_kept h ha hv he message

/-! ### Sharing a page -/

/-- The frame of the page has a count that counts, and that can take one more. -/
def ShareCounted (src : VirtAddr) (s : Machine) : Prop := ∀ phys, (Machine.translateAddress src s).1 = .ok phys →
  1 ≤ (getRefcount phys s).toNat ∧ (getRefcount phys s).toNat < 2^32-1

/-- A page that keeps its frame and is not writable any more. -/
private theorem protect_kept (h : m.DataPages P s) (ha : ∀ f, (m.sharing P s).Private f) {k : m.Page} {e' : BitVec 64}
    (hk : k ∈ P) (he : m.entryOf s.mem k = some (0, e)) (hw : e'.getLsbD 1 = false)
    (hframe : PageTableEntry.frame ⟨e'⟩ = PageTableEntry.frame ⟨e⟩)
    (hr : m.Relinked s t (Function.update (m.entryOf s.mem) k (some (0, e')))) :
    m.Kept P ∅ s t ∧ m.frameOf t = m.frameOf s := by
  have hsame : m.frameOf t = m.frameOf s := by
    rw [hr.frameOf_update, hframe, Function.update_eq_self_iff]
    exact (frameOf_of_entry he).symm
  refine ⟨⟨h.update hr (hframe ▸ h.data k hk _ (frameOf_of_entry he)), fun f => (ha f).mono (fun j hj => ?_)
    (fun j _ hj => ?_) ?_, fun j hj _ => h.content_relinked hr hj (congrFun hsame j)⟩, hsame⟩
  · exact (congrFun hsame j.1).symm.trans hj
  · rcases writable_update hr hj with ⟨_, hb⟩ | ⟨_, hj⟩
    · rw [hw] at hb
      cases hb
    · exact hj
  · simp only [sharing, frameCount, hr.refcounts, le_refl]

/-- Then another page gets that frame too, and the frame is counted once more. -/
private theorem duplicate_kept (h : m.DataPages P s) (ha : ∀ f, (m.sharing P s).Private f) {k k' : m.Page}
    {e' : BitVec 64} {w : Machine} (hk : k ∈ P) (hk' : k' ∈ P) (he : m.entryOf s.mem k = some (0, e))
    (hw : e'.getLsbD 1 = false) (hframe : PageTableEntry.frame ⟨e'⟩ = PageTableEntry.frame ⟨e⟩)
    (hlow : 1 ≤ s.frameCount (PageTableEntry.frame ⟨e⟩))
    (hr : m.Relinked s t (Function.update (m.entryOf s.mem) k (some (0, e'))))
    (hr' : m.Relinked t u (Function.update (m.entryOf t.mem) k' (some (0, e'))))
    (hc : Counts u w (PageTableEntry.frame ⟨e⟩) (u.frameCount (PageTableEntry.frame ⟨e⟩) + 1)) :
    m.Kept P {k'} s w ∧ m.contentOf w k' = m.contentOf s k := by
  obtain ⟨hkept, hsame⟩ := protect_kept h ha hk he hw hframe hr
  have hold := frameOf_of_entry he
  have hnew : m.frameOf u = Function.update (m.frameOf s) k' (some (PageTableEntry.frame ⟨e⟩)) := by
    rw [hr'.frameOf_update, hsame, hframe]
  have hu (f : Nat) : u.frameCount f = s.frameCount f := by simp only [frameCount, hr'.refcounts, hr.refcounts]
  have htracked : PageTableEntry.frame ⟨e⟩ < MAX_FRAMES := by
    by_contra hf
    rw [frameCount, if_neg hf] at hlow
    omega
  have hdata := IsData.relinked (h.data k hk _ hold) hr
  have hpages := hkept.pages.update hr' (hframe ▸ hdata)
  have hother (j : P) (hj : j ≠ ⟨k', hk'⟩) : m.frameOf u j = m.frameOf s j := by
    rw [hnew, Function.update_of_ne fun he => hj (Subtype.ext he)]
  refine ⟨⟨hpages.counts hc, fun f => ?_, fun j hj hjk => ?_⟩, ?_⟩
  · have htarget : (m.sharing P w).target ⟨k', hk'⟩ = some (PageTableEntry.frame ⟨e⟩) := by
      change m.frameOf w k' = _
      rw [frameOf_counts hc, hnew, Function.update_self]
    refine (ha f).share (k := ⟨k, hk⟩) hold hlow htarget (fun j hj => ?_) (fun j hj => ?_) ?_ fun g hg => ?_
    · change m.frameOf w j = m.frameOf s j
      rw [frameOf_counts hc, hother j hj]
    · rw [writable_counts hc] at hj
      rcases writable_update hr' hj with ⟨_, hb⟩ | ⟨hjk', hj⟩
      · rw [hw] at hb
        cases hb
      · rcases writable_update hr hj with ⟨_, hb⟩ | ⟨hjk, hj⟩
        · rw [hw] at hb
          cases hb
        · exact ⟨fun he => hjk (congrArg Subtype.val he), fun he => hjk' (congrArg Subtype.val he), hj⟩
    · exact (hc.count htracked).trans (by rw [hu]; rfl)
    · exact (hc.rest g hg).trans (hu g)
  · rw [contentOf_counts hc, ← hkept.content j hj (Set.notMem_empty j)]
    exact hkept.pages.content_relinked hr' hj (by rw [hsame, hother ⟨j, hj⟩ fun he => hjk (congrArg Subtype.val he)])
  · rw [contentOf_counts hc, ← hkept.content k hk (Set.notMem_empty k)]
    exact hkept.pages.content_relinked hr' hk (by rw [hsame, hnew, Function.update_self, hold])

/-- `share_page_cow` with a count that covers the pages of the frame: whatever it returns it
changes what is read through the destination only, and if it returns `Ok` that is the source. -/
theorem sharePageCow_kept {src dst : VirtAddr} (h : m.DataPages P s) (ha : ∀ f, (m.sharing P s).Private f)
    (hsrc : m.pageOf src ∈ P) (hdst : m.pageOf dst ∈ P) (hcounted : ShareCounted src s) :
    m.Kept P {m.pageOf dst} s (Machine.sharePageCow src dst s).2 ∧
      ∀ t, Machine.sharePageCow src dst s = (.ok (), t) →
        m.contentOf t (m.pageOf dst) = m.contentOf s (m.pageOf src) := by
  rw [Machine.sharePageCow]
  rcases readers_run h.paging h.wellFormed (h.noHugeLeaf hsrc) with ⟨e, he, -, -, htr, hfl⟩ | ⟨-, ⟨er, htr⟩, -⟩
  · obtain ⟨hlow, hhigh⟩ := hcounted _ (congrArg Prod.fst htr)
    have hcount : (getRefcount ⟨PageTableEntry.address ⟨e⟩ ||| src.pageOffset⟩ s).toNat =
        s.frameCount (PageTableEntry.frame ⟨e⟩) := by rw [Machine.getRefcount_toNat, physToFrameIndex_leaf]
    obtain ⟨hfb, hpr, hnw⟩ := cowFlags_bits (PageTableEntry.flags_flagBits ⟨e⟩)
    rw [PageTableEntry.flags_present (entryOf_present he)] at hpr
    rw [Fallible.bind_of_ok htr, Fallible.bind_of_ok hfl]
    rcases remapPage_pages h.paging h.wellFormed h.used (h.noHugeLeaf hsrc)
      (p := ⟨PageTableEntry.address ⟨e⟩ ||| src.pageOffset⟩) hpr with ⟨t, hrun, hal, hr⟩ | ⟨-, er, hrun⟩
    · have hframe : (PageTableEntry.of (PhysAddr.mk (PageTableEntry.address ⟨e⟩ ||| src.pageOffset)).addr
          (cowFlags (PageTableEntry.flags ⟨e⟩))).frame = PageTableEntry.frame ⟨e⟩ := by
        rw [leaf_of_aligned hal, PageTableEntry.of_frame hfb]
      have hro : (PageTableEntry.of (PhysAddr.mk (PageTableEntry.address ⟨e⟩ ||| src.pageOffset)).addr
          (cowFlags (PageTableEntry.flags ⟨e⟩))).raw.getLsbD 1 = false := by
        rw [PageTableEntry.of_getLsbD (by decide), hnw]
      obtain ⟨hkept, hsame⟩ := protect_kept h ha hsrc he hro hframe hr
      rw [Fallible.bind_of_ok hrun]
      rcases mapPage_pages hkept.pages.paging hkept.pages.wellFormed hkept.pages.used (hkept.pages.noHugeLeaf hdst)
        (p := ⟨PageTableEntry.address ⟨e⟩ ||| src.pageOffset⟩) hpr with ⟨u, hrun', hr'⟩ | ⟨er, u, hrun', hr'⟩
      · rw [Fallible.bind_of_ok hrun']
        have hcountu : (getRefcount ⟨PageTableEntry.address ⟨e⟩ ||| src.pageOffset⟩ u).toNat =
            s.frameCount (PageTableEntry.frame ⟨e⟩) := by
          rw [Machine.getRefcount_toNat, physToFrameIndex_leaf]
          simp only [frameCount, hr'.refcounts, hr.refcounts]
        obtain ⟨c, w, hinc, hc⟩ := Machine.incRefcount_counts (s := u)
          ⟨PageTableEntry.address ⟨e⟩ ||| src.pageOffset⟩ (by omega)
        rw [physToFrameIndex_leaf] at hc
        obtain ⟨hdone, hcontent⟩ := duplicate_kept h ha hsrc hdst he hro hframe (by omega) hr hr' hc
        rw [Fallible.bind_of_ok hinc]
        exact ⟨hdone, by rintro _ ⟨⟩; exact hcontent⟩
      · rw [Fallible.bind_of_error hrun']
        exact ⟨hkept.trans (.of_relinked hkept.pages hkept.alone hr') (Set.empty_subset _), fun _ h => by cases h⟩
    · rw [Fallible.bind_of_error hrun]
      exact ⟨.refl h ha, fun _ h => by cases h⟩
  · rw [Fallible.bind_of_error htr]
    exact ⟨.refl h ha, fun _ h => by cases h⟩

/-! ### Writing -/

theorem storePage_kept (h : m.DataPages P s) (ha : ∀ f, (m.sharing P s).Private f) (hv : m.pageOf v ∈ P)
    (change : (Fin 512 → BitVec 64) → Fin 512 → BitVec 64) :
    m.Kept P {m.pageOf v} s (Machine.storePage v change s).2 := by
  rw [Machine.storePage]
  rcases readers_run h.paging h.wellFormed (h.noHugeLeaf hv) with ⟨e, he, -, -, htr, hfl⟩ | ⟨-, -, er, hfl⟩
  · rw [Fallible.bind_of_ok hfl]
    by_cases hw : (PageTableEntry.flags ⟨e⟩).contains PageTableFlags.WRITABLE = true
    · rw [Fallible.bind_of_ok (Fallible.require_run_pos _ hw s), Fallible.bind_of_ok htr, Fallible.modify_run,
        physToFrameIndex_leaf]
      have hold := frameOf_of_entry he
      obtain ⟨htable, hused⟩ := h.data _ hv _ hold
      generalize change _ = words
      have hother {f : Nat} (hf : f ≠ PageTableEntry.frame ⟨e⟩) :
          (s.setFrame (PageTableEntry.frame ⟨e⟩) words).mem f = s.mem f :=
        Function.update_of_ne hf _ _
      obtain ⟨hwf, htables, hlookup⟩ := h.wellFormed.of_same fun l f hf =>
        hother (f := f) fun he => htable l (he ▸ hf)
      have hentries : m.entryOf (s.setFrame (PageTableEntry.frame ⟨e⟩) words).mem = m.entryOf s.mem :=
        funext fun k => hlookup _
      have hframes : m.frameOf (s.setFrame (PageTableEntry.frame ⟨e⟩) words) = m.frameOf s := by
        funext k
        rw [frameOf, frameOf, hentries]
      have halone (j : m.Page) (hj : j ∈ P) (hf : m.frameOf s j = some (PageTableEntry.frame ⟨e⟩)) :
          j = m.pageOf v := by
        have hbit : e.getLsbD 1 = true := by
          rw [contains_writable, PageTableEntry.flags, Words.getLsbD_and_mask offsetMask_bits, Bool.and_eq_true] at hw
          exact hw.1
        exact congrArg Subtype.val ((ha _).alone ⟨m.pageOf v, hv⟩ hold ⟨e, he, hbit⟩ ⟨j, hj⟩ hf)
      refine ⟨⟨h.paging, hwf, fun l f hf => h.used l f ((htables l f).mp hf), ?_, ?_, h.bits⟩, fun f =>
        (ha f).mono (fun j hj => ?_) (fun j _ hj => ?_) (Nat.le_refl _), fun j hj hjv => ?_⟩
      · rw [hentries]
        exact h.small
      · rw [hframes]
        exact fun k hk f hf => ⟨fun l hl => (h.data k hk f hf).1 l ((htables l f).mp hl), (h.data k hk f hf).2⟩
      · exact (congrFun hframes j.1).symm.trans hj
      · obtain ⟨e', he', hb⟩ := hj
        exact ⟨e', (congrFun hentries j.1).symm.trans he', hb⟩
      · rw [contentOf, contentOf, hframes]
        cases hf : m.frameOf s j with
        | none => rfl
        | some f => exact congrArg some (hother fun he => hjv (halone j hj (he ▸ hf)))
    · rw [Fallible.bind_of_error (Fallible.require_run_neg _ hw s)]
      exact .refl h ha
  · rw [Fallible.bind_of_error hfl]
    exact .refl h ha

/-- A write is seen through the written page only. -/
theorem writePage_kept (h : m.DataPages P s) (ha : ∀ f, (m.sharing P s).Private f) (hv : m.pageOf v ∈ P)
    (change : (Fin 512 → BitVec 64) → Fin 512 → BitVec 64) :
    m.Kept P {m.pageOf v} s (Machine.writePage v change s).2 := by
  rw [Machine.writePage]
  rcases readers_run h.paging h.wellFormed (h.noHugeLeaf hv) with ⟨e, he, -, -, -, hfl⟩ | ⟨-, -, er, hfl⟩
  · rw [Fallible.bind_of_ok hfl]
    split
    · exact storePage_kept h ha hv change
    · have hfault := handleCowFault_kept h ha hv
      refine Fallible.bind_snd (P := m.Kept P {m.pageOf v} s) (hfault.mono (Set.empty_subset _)) fun _ t _ ht =>
        ht.trans (storePage_kept ht.pages ht.alone hv change) (Set.Subset.refl _)
  · rw [Fallible.bind_of_error hfl]
    exact .refl h ha

end Nafuraito.Memory.PagingManager
