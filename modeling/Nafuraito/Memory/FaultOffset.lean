import Nafuraito.Memory.CowSharing
import Nafuraito.Memory.TableWrites

/-! How the copy-on-write fault handler depends on the offset of the faulting address. The
translation keeps the offset, and the handler passes it on to calls that demand aligned frames. -/
namespace Nafuraito.Memory
open Nafuraito.Library

namespace Machine
variable {s : Machine} {v w : VirtAddr}

/-! ### Reading one page through two of its addresses -/

theorem page_div (v : VirtAddr) : v.page.addr.toNat/4096 = v.addr.toNat/4096 := by
  have h := VirtAddr.page_plus_div v (show 0 < 4096 by decide)
  rwa [VirtAddr.plus, BitVec.add_zero] at h

private theorem requireCanonical_eq {mode : PagingMode} (h : v.isCanonical mode = w.isCanonical mode) (s : Machine) :
    requireCanonical mode v s = requireCanonical mode w s := by
  by_cases hw : w.isCanonical mode = true
  · rw [PagingManager.requireCanonical_run hw, PagingManager.requireCanonical_run (h.trans hw)]
  · have hv : ¬ v.isCanonical mode = true := fun hv => hw (h.symm.trans hv)
    cases mode <;> exact (Fallible.require_run_neg _ hv s).trans (Fallible.require_run_neg _ hw s).symm

private theorem presentEntry_cases (table : Nat) (index : Fin 512) (message : String) (s : Machine) :
    (PageTableEntry.isPresent ⟨s.mem table index⟩ = true ∧
      presentEntry table index message s = (.ok ⟨s.mem table index⟩, s)) ∨
    ∃ e, presentEntry table index message s = (.error e, s) := by
  cases h : PageTableEntry.isPresent ⟨s.mem table index⟩ with
  | true => exact .inl ⟨rfl, presentEntry_run h⟩
  | false => exact .inr ⟨_, presentEntry_absent h⟩

/-- A read walk ends at the entry of a lookup or with an error, as the indices and the memory decide. -/
private theorem readWalk_result (idx : Nat → Fin 512) (l : Nat) (phys : BitVec 64) (s : Machine) :
    ∃ r : Except Stop (Nat × PageTableEntry), (∀ {α : Type} (out : Nat → PageTableEntry → α) (w : VirtAddr),
      w.index = idx → readWalk w out l phys s = (r.map fun x => out x.1 x.2, s)) ∧
      ∀ k e, r = .ok (k, e) →
        TableTree.lookup PageTableEntry.kind s.mem idx l (phys.toNat/4096) = some (k, e.raw) := by
  induction l generalizing phys with
  | zero =>
    by_cases hlt : phys.toNat < 2^32
    · rcases presentEntry_cases (phys.toNat/4096) (idx 0) (notMapped 0) s with ⟨hpr, he⟩ | ⟨e, he⟩
      · refine ⟨.ok (0, ⟨s.mem (phys.toNat/4096) (idx 0)⟩), fun out w hw => ?_, fun k e hr => ?_⟩
        · rw [readWalk, Fallible.bind_of_ok (tableAt_run hlt), hw, Fallible.bind_of_ok he]
          rfl
        · obtain ⟨rfl, rfl⟩ := Prod.mk.inj (Except.ok.inj hr)
          rw [TableTree.lookup, PageTableEntry.kind, hpr]
          rfl
      · refine ⟨.error e, fun out w hw => ?_, fun k e hr => by cases hr⟩
        rw [readWalk, Fallible.bind_of_ok (tableAt_run hlt), hw, Fallible.bind_of_error he]
        rfl
    · exact ⟨.error .crash, fun out w _ => readWalk_crash w out 0 hlt, fun k e hr => by cases hr⟩
  | succ l ih =>
    by_cases hlt : phys.toNat < 2^32
    · rcases presentEntry_cases (phys.toNat/4096) (idx (l+1)) (notMapped (l+1)) s with ⟨hpr, he⟩ | ⟨e, he⟩
      · by_cases hhuge : l+1 ≤ 2 ∧ PageTableEntry.isHuge ⟨s.mem (phys.toNat/4096) (idx (l+1))⟩ = true
        · refine ⟨.ok (l+1, ⟨s.mem (phys.toNat/4096) (idx (l+1))⟩), fun out w hw => ?_, fun k e hr => ?_⟩
          · rw [readWalk_succ, Fallible.bind_of_ok (tableAt_run hlt), hw, Fallible.bind_of_ok he, if_pos hhuge]
            rfl
          · obtain ⟨rfl, rfl⟩ := Prod.mk.inj (Except.ok.inj hr)
            have hk : PageTableEntry.kind (l+1) (s.mem (phys.toNat/4096) (idx (l+1))) = .leaf := by
              simp [PageTableEntry.kind, hpr, hhuge]
            rw [TableTree.lookup, hk]
        · obtain ⟨r, hr, hlookup⟩ := ih (PageTableEntry.address ⟨s.mem (phys.toNat/4096) (idx (l+1))⟩)
          refine ⟨r, fun out w hw => ?_, fun k e he => ?_⟩
          · rw [readWalk_succ, Fallible.bind_of_ok (tableAt_run hlt), hw, Fallible.bind_of_ok he, if_neg hhuge]
            exact hr out w hw
          · rw [TableTree.lookup, PageTableEntry.kind_link.mpr ⟨hpr, Nat.succ_ne_zero l, hhuge, rfl⟩]
            exact hlookup k e he
      · refine ⟨.error e, fun out w hw => ?_, fun k e hr => by cases hr⟩
        rw [readWalk_succ, Fallible.bind_of_ok (tableAt_run hlt), hw, Fallible.bind_of_error he]
        rfl
    · exact ⟨.error .crash, fun out w _ => readWalk_crash w out (l+1) hlt, fun k e hr => by cases hr⟩

/-- What the readers find for the page of an address: the entry of its lookup, or an error. -/
theorem readers_page (v : VirtAddr) (s : Machine) : ∃ r : Except Stop (Nat × PageTableEntry),
    (∀ w : VirtAddr, w.addr.toNat/4096 = v.addr.toNat/4096 →
      getPageFlags w s = (r.map fun x => x.2.flags, s) ∧
        translateAddress w s = (r.map fun x => leafAddress w x.1 x.2, s)) ∧
      ∀ k e, r = .ok (k, e) → ∃ m, s.paging = some m ∧ m.leaf s.mem v = some (k, e.raw) := by
  cases hm : s.paging with
  | none =>
    have hfail : getPagingManager s = (.error (.err "Paging not initialized"), s) := by rw [getPagingManager, hm]
    exact ⟨.error _, fun w _ => ⟨Fallible.bind_of_error hfail, Fallible.bind_of_error hfail⟩, fun k e hr => by cases hr⟩
  | some m =>
    by_cases hv : v.isCanonical m.mode = true
    · obtain ⟨r, hr, hlookup⟩ := readWalk_result v.index m.mode.top m.rootTablePhys s
      refine ⟨r, fun w hw => ?_, fun k e he => ⟨m, rfl, hlookup k e he⟩⟩
      have hw' : w.isCanonical m.mode = true := by rwa [VirtAddr.isCanonical_eq hw]
      rw [getPageFlags, translateAddress, Fallible.bind_of_ok (getPagingManager_run hm),
        Fallible.bind_of_ok (getPagingManager_run hm), Fallible.bind_of_ok (PagingManager.requireCanonical_run hw' s),
        Fallible.bind_of_ok (PagingManager.requireCanonical_run hw' s), readLevels_eq, readLevels_eq]
      exact ⟨hr _ w (VirtAddr.index_eq hw), hr _ w (VirtAddr.index_eq hw)⟩
    · obtain ⟨message, he⟩ := PagingManager.requireCanonical_fails hv
      refine ⟨.error (.err message), fun w hw => ?_, fun k e hr => by cases hr⟩
      have he' : requireCanonical m.mode w s = (.error (.err message), s) := by
        rw [requireCanonical_eq (VirtAddr.isCanonical_eq hw m.mode), he]
      rw [getPageFlags, translateAddress, Fallible.bind_of_ok (getPagingManager_run hm),
        Fallible.bind_of_ok (getPagingManager_run hm), Fallible.bind_of_error he', Fallible.bind_of_error he']
      exact ⟨rfl, rfl⟩

/-! ### The offset of a translated address -/

section Splice
variable {mask a x : BitVec 64} (hmask : offsetMask &&& mask = offsetMask)
include hmask

private theorem splice_low : ((a &&& ~~~mask) ||| (x &&& mask)) &&& offsetMask = x &&& offsetMask := by
  apply BitVec.eq_of_getLsbD_eq
  intro i hi
  have hbit := congrArg (·.getLsbD i) hmask
  simp only [BitVec.getLsbD_and, BitVec.getLsbD_or, BitVec.getLsbD_not, decide_eq_true hi, Bool.true_and] at hbit ⊢
  grind

private theorem splice_page :
    ((a &&& ~~~mask) ||| (x &&& mask)) &&& ~~~offsetMask = (a &&& ~~~mask) ||| (x &&& ~~~offsetMask &&& mask) := by
  apply BitVec.eq_of_getLsbD_eq
  intro i hi
  have hbit := congrArg (·.getLsbD i) hmask
  simp only [BitVec.getLsbD_and, BitVec.getLsbD_or, BitVec.getLsbD_not, decide_eq_true hi, Bool.true_and] at hbit ⊢
  grind

end Splice

private theorem address_low (e : PageTableEntry) : e.address &&& ~~~offsetMask = e.address := by
  apply BitVec.eq_of_getLsbD_eq
  intro i hi
  have hlow := Words.getLsbD_of_mod (i := i) (show e.address.toNat % 2^12 = 0 from e.address_mod)
  rw [BitVec.getLsbD_and, BitVec.getLsbD_not, offsetMask_bits i]
  by_cases h : i < 12
  · rw [hlow h, Bool.false_and]
  · simp [h, hi]

/-- Leaves of every level splice the address of the entry and the low bits of the virtual one. -/
private theorem leafAddress_splice (k : Nat) (e : PageTableEntry) : ∃ mask, offsetMask &&& mask = offsetMask ∧
    ∀ v : VirtAddr, (leafAddress v k e).addr = (e.address &&& ~~~mask) ||| (v.addr &&& mask) := by
  match k with
  | 0 => exact ⟨offsetMask, by decide, fun v => by rw [address_low]; rfl⟩
  | 1 => exact ⟨0x1FFFFF#64, by decide, fun v => rfl⟩
  | k+2 => exact ⟨0x3FFFFFFF#64, by decide, fun v => rfl⟩

theorem leafAddress_offset (v : VirtAddr) (k : Nat) (e : PageTableEntry) :
    (leafAddress v k e).addr &&& offsetMask = v.pageOffset := by
  obtain ⟨mask, hmask, haddr⟩ := leafAddress_splice k e
  rw [haddr, splice_low hmask, VirtAddr.pageOffset]

theorem leafAddress_page (v : VirtAddr) (k : Nat) (e : PageTableEntry) :
    leafAddress v.page k e = (leafAddress v k e).alignDown := by
  obtain ⟨mask, hmask, haddr⟩ := leafAddress_splice k e
  rw [PhysAddr.alignDown, haddr, splice_page hmask]
  exact congrArg PhysAddr.mk (haddr v.page)

/-! ### The errors of `remap_page` -/

/-- Given an aligned frame, the only messages are those of absent entries. -/
private theorem remapPage_errors {m : PagingManager} (hm : s.paging = some m) {p : PhysAddr} (hp : p.isAligned = true)
    {flags : PageTableFlags} {e : Stop} (h : (remapPage v p flags s).1 = .error e) :
    e = .crash ∨ ∃ k, e = .err (notMapped k) := by
  rw [remapPage, Fallible.bind_of_ok (getPagingManager_run hm), Fallible.bind_of_ok (Fallible.require_run_pos _ hp s),
    remapLevels_eq] at h
  rcases Fallible.bind_error (Fallible.run_of_fst h) with hwalk | ⟨_, _, _, hflush⟩
  · have hend := PagingManager.remapWalk_end (s := s) (v := v) p flags 0 m.mode.top m.rootTablePhys
    split at hend
    · exact .inl (Except.error.inj (congrArg Prod.fst (hwalk.symm.trans hend)))
    · exact .inr ⟨_, Except.error.inj (congrArg Prod.fst (hwalk.symm.trans hend))⟩
    · split at hend
      · cases hwalk.symm.trans hend
      · exact .inr ⟨0, Except.error.inj (congrArg Prod.fst (hwalk.symm.trans hend))⟩
  · cases hflush

private theorem notMapped_ne (k : Nat) : notMapped k ≠ "Physical address not page-aligned" ∧
    notMapped k ≠ "Physical addresses must be page-aligned" := by
  match k with
  | 0 => decide
  | 1 => decide
  | 2 => decide
  | 3 => decide
  | k+4 => exact ⟨show "Page not mapped (PML5)" ≠ _ by decide, show "Page not mapped (PML5)" ≠ _ by decide⟩

/-! ### The handler -/

private theorem alignDown_index (p : PhysAddr) : physToFrameIndex p.alignDown = physToFrameIndex p := by
  have h := Words.and_not_toNat (k := 12) (x := p.addr) offsetMask_bits
  rw [physToFrameIndex, physToFrameIndex, PhysAddr.alignDown, h]
  omega

private theorem alignDown_aligned (p : PhysAddr) : p.alignDown.isAligned = true := by
  have h := Words.and_not_toNat (k := 12) (x := p.addr) offsetMask_bits
  rw [PhysAddr.isAligned_iff, PhysAddr.alignDown, h]
  omega

private theorem page_of_offset (h : v.pageOffset = 0) : v.page = v := by
  have hlow : v.addr.toNat % 4096 = 0 := by
    have := Words.and_low_toNat (x := v.addr) offsetMask_bits
    rw [← VirtAddr.pageOffset, h] at this
    exact this.symm
  have hand := Words.and_not_toNat (k := 12) (x := v.addr) offsetMask_bits
  rw [VirtAddr.page]
  congr 1
  rw [← BitVec.toNat_inj, hand]
  omega

private theorem refcounts_index {p q : PhysAddr} (h : physToFrameIndex p = physToFrameIndex q) :
    getRefcount p = getRefcount q ∧ decRefcount p = decRefcount q := by
  have hset : setRefcount p = setRefcount q := by
    funext count s
    rw [setRefcount, setRefcount, h]
  have hget : getRefcount p = getRefcount q := by
    funext s
    rw [getRefcount, getRefcount, h]
  refine ⟨hget, ?_⟩
  funext s
  rw [decRefcount, decRefcount, h, hget, hset]

/-- Moving a page to a copy fails, if at all, in the remap. -/
private theorem move_errors {m : PagingManager} (hm : s.paging = some m) {old new : PhysAddr}
    (hnew : new.isAligned = true) {flags : PageTableFlags} {e : Stop}
    (h : ((do
      remapPage v new flags
      let newRefcount ← decRefcount old
      if newRefcount = 0 then
        ignore (freeFrame old.addr.toNat)
      Fallible.modify (setRefcount new 1) : Op Unit) s).1 = .error e) : e = .crash ∨ ∃ k, e = .err (notMapped k) := by
  rcases Fallible.bind_error (Fallible.run_of_fst h) with hremap | ⟨_, t, _, hrest⟩
  · exact remapPage_errors hm hnew (congrArg Prod.fst hremap)
  · obtain ⟨c, u, _, hdec, -⟩ := decRefcount_counts (s := t) old
    rw [Fallible.bind_of_ok hdec] at hrest
    split at hrest <;> cases hrest

private theorem allocCowFrame_ok {message : String} {p : PhysAddr} (h : (allocCowFrame message s).1 = .ok p) :
    ∃ addr ≠ 0, (allocFrame s).1 = .ok addr := by
  rw [allocCowFrame] at h
  rcases hrun : allocFrame s with ⟨e | addr, t⟩
  · rw [hrun] at h
    cases h
  · refine ⟨addr, fun h₀ => ?_, rfl⟩
    simp [hrun, h₀] at h

/-- At an offset, `remap_page` and `copy_page` refuse the translated address; at the base they do not. -/
private theorem breakSharing_page_iff {m : PagingManager} (hm : s.paging = some m) {p : PhysAddr}
    (ht : translateAddress v s = (.ok p, s)) (ht' : translateAddress w s = (.ok p.alignDown, s))
    (hp : ¬ p.isAligned = true) (flags : PageTableFlags) (message : String) :
    breakSharing v flags message s = breakSharing w flags message s ↔
      ¬ getRefcount p s ≤ 1 ∧ ∀ addr, (allocFrame s).1 = .ok addr → addr = 0 := by
  obtain ⟨hget, hdec⟩ := refcounts_index (alignDown_index p)
  rw [breakSharing, breakSharing, Fallible.bind_of_ok ht, Fallible.bind_of_ok ht', Fallible.get_bind_run,
    Fallible.get_bind_run, hget, hdec]
  by_cases hcount : getRefcount p s ≤ 1
  · rw [if_pos hcount, if_pos hcount]
    obtain ⟨c, t, _, hrun, hc, -⟩ := decRefcount_counts (s := s) p
    have hm' : t.paging = some m := by rwa [hc.only]
    rw [Fallible.bind_of_ok hrun, Fallible.bind_of_ok hrun]
    have hfail : remapPage v p (ownedFlags flags) t = (.error (.err "Physical address not page-aligned"), t) := by
      rw [remapPage, Fallible.bind_of_ok (getPagingManager_run hm'),
        Fallible.bind_of_error (Fallible.require_run_neg _ hp t)]
    refine iff_of_false (fun he => ?_) fun h => h.1 hcount
    rw [hfail] at he
    rcases remapPage_errors hm' (alignDown_aligned p) (congrArg Prod.fst he.symm) with he | ⟨k, he⟩
    · cases he
    · exact (notMapped_ne k).1 (Stop.err.inj he).symm
  · rw [if_neg hcount, if_neg hcount]
    obtain ⟨q, -, ⟨n, hrun, -⟩ | ⟨e, hrun⟩⟩ := allocCowFrame_run message s
    · have hnew : (PhysAddr.mk (BitVec.ofNat 64 (n*4096))).isAligned = true := by
        rw [PhysAddr.isAligned_iff, BitVec.toNat_ofNat]
        omega
      have hfail : copyPage p ⟨BitVec.ofNat 64 (n*4096)⟩ { s with pmm := q } =
          (.error (.err "Physical addresses must be page-aligned"), { s with pmm := q }) := by
        rw [copyPage, Fallible.bind_of_error (Fallible.require_run_neg _ (fun h => hp h.1) _)]
      obtain ⟨t, hcopy, hm'⟩ : ∃ t, copyPage p.alignDown ⟨BitVec.ofNat 64 (n*4096)⟩ { s with pmm := q } = (.ok (), t) ∧
          t.paging = some m := by
        rw [copyPage, Fallible.bind_of_ok (Fallible.require_run_pos _ ⟨alignDown_aligned p, hnew⟩ _)]
        exact ⟨_, rfl, hm⟩
      rw [Fallible.bind_of_ok hrun, Fallible.bind_of_ok hrun, Fallible.bind_of_error hfail, Fallible.bind_of_ok hcopy]
      refine iff_of_false (fun he => ?_) fun h => ?_
      · rw [← hdec] at he
        rcases move_errors hm' hnew (congrArg Prod.fst he.symm) with he | ⟨k, he⟩
        · cases he
        · exact (notMapped_ne k).2 (Stop.err.inj he).symm
      · obtain ⟨addr, hne, haddr⟩ := allocCowFrame_ok (congrArg Prod.fst hrun)
        exact hne (h.2 addr haddr)
    · rw [Fallible.bind_of_error hrun, Fallible.bind_of_error hrun]
      refine iff_of_true rfl ⟨hcount, fun addr haddr => ?_⟩
      rw [allocCowFrame, Fallible.run_of_fst haddr] at hrun
      by_contra hne
      simp [hne] at hrun

/-- When the handler makes the same of an address and of its page: at offset 0, unless the
page is a mapped copy-on-write page, and where a shared frame cannot be copied for want of one. -/
def OffsetIrrelevant (v : VirtAddr) (s : Machine) : Prop :=
  v.pageOffset = 0 ∨ ∀ flags phys, (getPageFlags v s).1 = .ok flags → isCowPage flags = true →
    (translateAddress v s).1 = .ok phys →
      ¬ getRefcount phys s ≤ 1 ∧ ∀ addr, (allocFrame s).1 = .ok addr → addr = 0

theorem handleCowFault_page_iff (v : VirtAddr) (s : Machine) :
    handleCowFault v s = handleCowFault v.page s ↔ OffsetIrrelevant v s := by
  obtain ⟨r, hr, -⟩ := readers_page v s
  obtain ⟨hflags, htranslate⟩ := hr v rfl
  obtain ⟨hflags', htranslate'⟩ := hr v.page (page_div v)
  rw [OffsetIrrelevant, handleCowFault, handleCowFault]
  rcases r with e | ⟨k, e⟩
  · rw [Fallible.bind_of_error hflags, Fallible.bind_of_error hflags', hflags]
    exact iff_of_true rfl (.inr fun flags phys h => by cases h)
  by_cases hoff : v.pageOffset = 0
  · rw [page_of_offset hoff]
    exact iff_of_true rfl (.inl hoff)
  rw [Fallible.bind_of_ok hflags, Fallible.bind_of_ok hflags', hflags, htranslate]
  by_cases hcow : isCowPage e.flags = true
  · rw [Fallible.bind_of_ok (Fallible.require_run_pos _ hcow s),
      Fallible.bind_of_ok (Fallible.require_run_pos _ hcow s)]
    have hp : ¬ (leafAddress v k e).isAligned = true := by
      rw [PhysAddr.isAligned, leafAddress_offset, beq_iff_eq]
      exact hoff
    obtain ⟨m, hm⟩ : ∃ m, s.paging = some m := by
      cases hm : s.paging with
      | none =>
        have hfail : getPagingManager s = (.error (.err "Paging not initialized"), s) := by rw [getPagingManager, hm]
        rw [getPageFlags, Fallible.bind_of_error hfail] at hflags
        cases hflags
      | some m => exact ⟨m, rfl⟩
    rw [breakSharing_page_iff hm htranslate (by rw [htranslate', ← leafAddress_page]; rfl) hp]
    constructor
    · intro h
      refine .inr fun flags phys _ _ hphys => ?_
      rwa [← Except.ok.inj hphys]
    · rintro (h | h)
      · exact absurd h hoff
      · exact h _ _ rfl hcow rfl
  · rw [Fallible.bind_of_error (Fallible.require_run_neg _ hcow s),
      Fallible.bind_of_error (Fallible.require_run_neg _ hcow s)]
    refine iff_of_true rfl (.inr fun flags phys h hc => ?_)
    rw [← Except.ok.inj h] at hc
    exact absurd hc hcow

/-- A mapped copy-on-write page that nothing counts. -/
def cowPage : Machine := (mapPage ⟨0x400000#64⟩ ⟨0x9000#64⟩ ⟨0x201#64⟩ PagingManager.smallMachine).2

/-- A fault inside the page fails where one at its base is handled. -/
theorem handleCowFault_inside :
    (handleCowFault ⟨0x400123#64⟩ cowPage).1 = .error (.err "Physical address not page-aligned") ∧
      (handleCowFault (VirtAddr.page ⟨0x400123#64⟩) cowPage).1 = .ok () :=
  ⟨by rfl, by rfl⟩

end Machine
end Nafuraito.Memory
