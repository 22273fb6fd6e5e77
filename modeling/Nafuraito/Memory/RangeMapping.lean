import Nafuraito.Memory.AddressAliases
import Nafuraito.Memory.Pages

/-! What `map_range` and `unmap_range` do to a range of pages that were not mapped: the pages are
mapped one after the other, keeping the earlier ones, and unmapped in the same order. -/
namespace Nafuraito.Memory
open Nafuraito.Library
open PhysicalMemoryManager (FreeIn Tracks)

/-- A size rounded up to whole pages. -/
def rounded (size : BitVec 64) : Nat := (size.toNat+4095)/4096*4096

/-- The addresses of `size` bytes from the page `v` on, rounded up, do not wrap and are all
sign-extended. -/
structure VirtAddr.Range (mode : PagingMode) (v : VirtAddr) (size : BitVec 64) : Prop where
  aligned : v.addr.toNat % 4096 = 0
  fits : v.addr.toNat + rounded size ≤ 2^64
  canonical : ∀ o < rounded size, (v.plus o).SignExtended mode

theorem VirtAddr.eq_of_toNat {v w : VirtAddr} (h : v.addr.toNat = w.addr.toNat) : v = w :=
  congrArg VirtAddr.mk (BitVec.eq_of_toNat_eq h)

theorem PhysAddr.plus_toNat {p : PhysAddr} {o : Nat} (h : p.addr.toNat + o < 2^64) :
    (p.plus o).addr.toNat = p.addr.toNat + o := by
  rw [plus, BitVec.toNat_add, BitVec.toNat_ofNat]
  omega

theorem PhysAddr.plus_plus (p : PhysAddr) (a b : Nat) : (p.plus a).plus b = p.plus (a+b) := by
  rw [plus, plus, plus, BitVec.add_assoc, BitVec.ofNat_add]

namespace VirtAddr.Range
variable {mode : PagingMode} {v w : VirtAddr} {size : BitVec 64}

theorem toNat (h : Range mode v size) {o : Nat} (ho : o < rounded size) : (v.plus o).addr.toNat = v.addr.toNat + o := by
  have hfits := h.fits
  rw [plus, BitVec.toNat_add, BitVec.toNat_ofNat]
  omega

/-- The whole address space is no such range, so the page count does not wrap. -/
theorem count (h : Range mode v size) : rounded size = Machine.pageCount size*4096 := by
  have hfits := h.fits
  have hlt := size.isLt
  have hsmall : rounded size < 2^64 := by
    by_contra hbig
    have hmid : (2^60 : Nat) < rounded size := by omega
    have hcan := h.canonical _ hmid
    have hnat := h.toNat hmid
    cases mode <;> simp only [SignExtended] at hcan <;> omega
  rw [rounded] at hsmall ⊢
  simp only [Machine.pageCount, BitVec.toNat_udiv, BitVec.toNat_sub, BitVec.toNat_add, BitVec.toNat_ofNat,
    Nat.reducePow, Nat.reduceMod]
  omega

theorem lt (h : Range mode v size) {i : Nat} (hi : i < Machine.pageCount size) : i*4096 < rounded size := by
  have := h.count
  omega

/-- An address of a page of the range is one of the range. -/
theorem mem_of_page (h : Range mode v size) {i : Nat} (hi : i < Machine.pageCount size)
    (hpage : w.addr.toNat/4096 = (v.plus (i*4096)).addr.toNat/4096) : ∃ o < rounded size, w = v.plus o := by
  have hcount := h.count
  have hal := h.aligned
  have hrest : w.addr.toNat%4096 < 4096 := Nat.mod_lt _ (by decide)
  have ho : i*4096 + w.addr.toNat%4096 < rounded size := by omega
  rw [h.toNat (h.lt hi)] at hpage
  refine ⟨_, ho, eq_of_toNat ?_⟩
  rw [h.toNat ho]
  omega

end VirtAddr.Range

namespace PagingManager
variable {m : PagingManager} {s t : Machine} {v w : VirtAddr} {p : PhysAddr} {flags : PageTableFlags}

/-! ### The tables stay marked -/

theorem TablesMarked.relinked (h : m.TablesMarked s) {E : m.Entries} (hr : m.Relinked s t E)
    (htotal : Machine.SameTotal s t) : m.TablesMarked t := by
  intro l f hf
  refine ⟨Tracks.of_total ?_ htotal, hr.used l f hf⟩
  rcases hr.new hf with hf | hf
  · exact (h l f hf).1
  · exact hf.tracks

/-! ### One page -/

private theorem mapPage_root (hm : s.paging = some m) (hok : Machine.mapPage v p flags s = (.ok (), t)) :
    m.rootTablePhys.toNat < 2^32 := by
  obtain ⟨_, _, u, hwalk, _⟩ := mapPage_ok hm hok
  by_contra hroot
  rw [mapWalk_crash hroot] at hwalk
  cases hwalk

section Entries
variable {E : m.Entries}

/-- A mapped page becomes unmapped, and no other page changes. -/
theorem Shows.unmapPage (h : m.Shows s E) (hmarked : m.TablesMarked s) (hroot : m.rootTablePhys.toNat < 2^32)
    (hv : v.isCanonical m.mode = true) {e : BitVec 64} (he : E (m.pageOf v) = some (0, e)) :
    ∃ t, Machine.unmapPage v s = (.ok (), t) ∧ m.Shows t (Function.update E (m.pageOf v) none) ∧ m.TablesMarked t := by
  have hl : m.leaf s.mem v = some (0, e) := by rw [leaf_eq_entryOf, h.entries, he]
  obtain ⟨t, hrun, hc⟩ := unmapPage_succeeds h.paging h.wellFormed hmarked hroot hv hl
  have htotal : Machine.SameTotal s t := by
    have := Machine.unmapPage_total v s
    rwa [hrun] at this
  refine ⟨t, hrun, ⟨hc.pruned.paging.trans h.paging, hc.pruned.wellFormed, hc.pruned.used h.used, ?_⟩,
    hmarked.pruned hc.pruned htotal⟩
  funext k
  obtain ⟨w, rfl⟩ := m.pageOf_surjective k
  rw [← leaf_eq_entryOf]
  by_cases hk : m.pageOf w = m.pageOf v
  · rw [hk, Function.update_self, leaf_eq_entryOf, hk, ← leaf_eq_entryOf, hc.gone]
  · rw [Function.update_of_ne hk, ← h.entries, ← leaf_eq_entryOf]
    refine hc.pruned.leaf w ?_
    obtain ⟨l, hl⟩ := Function.ne_iff.mp hk
    exact ⟨l, by omega, Ne.symm hl⟩

/-! ### The entries of a range -/

/-- The entries `E` with `n` pages mapped, from page `lo` of the range on. -/
def rangeEntries (m : PagingManager) (v : VirtAddr) (p : PhysAddr) (flags : PageTableFlags) (E : m.Entries) (lo : Nat) :
    Nat → m.Entries
  | 0 => E
  | n+1 => Function.update (rangeEntries m v p flags E lo n) (m.pageOf (v.plus ((lo+n)*4096)))
      (some (0, (PageTableEntry.of (p.plus ((lo+n)*4096)).addr flags).raw))

theorem rangeEntries_other {lo n : Nat} {k : m.Page} (hk : ∀ i < n, k ≠ m.pageOf (v.plus ((lo+i)*4096))) :
    m.rangeEntries v p flags E lo n k = E k := by
  induction n with
  | zero => rfl
  | succ n ih =>
    rw [rangeEntries, Function.update_of_ne (hk n (by omega)), ih fun i hi => hk i (by omega)]

/-- The pages of the range are different ones. -/
private def Distinct (m : PagingManager) (v : VirtAddr) (n : Nat) : Prop :=
  ∀ i < n, ∀ j < n, i ≠ j → m.pageOf (v.plus (i*4096)) ≠ m.pageOf (v.plus (j*4096))

private theorem rangeEntries_self (E : m.Entries) (p : PhysAddr) (flags : PageTableFlags) {lo n i : Nat}
    (hd : Distinct m v (lo+n)) (hi : i < n) :
    m.rangeEntries v p flags E lo n (m.pageOf (v.plus ((lo+i)*4096))) =
      some (0, (PageTableEntry.of (p.plus ((lo+i)*4096)).addr flags).raw) := by
  induction n with
  | zero => omega
  | succ n ih =>
    rw [rangeEntries]
    by_cases hin : i = n
    · rw [hin, Function.update_self]
    · rw [Function.update_of_ne (hd _ (by omega) _ (by omega) (by omega)),
        ih (fun i hi j hj => hd i (by omega) j (by omega)) (by omega)]

/-- Unmapping the first page leaves the others. -/
private theorem rangeEntries_clear {lo n : Nat} (hd : Distinct m v (lo+(n+1)))
    (hnone : E (m.pageOf (v.plus (lo*4096))) = none) :
    Function.update (m.rangeEntries v p flags E lo (n+1)) (m.pageOf (v.plus (lo*4096))) none =
      m.rangeEntries v p flags E (lo+1) n := by
  induction n with
  | zero =>
    change Function.update (Function.update E (m.pageOf (v.plus (lo*4096))) _) _ none = E
    rw [Function.update_idem, ← hnone, Function.update_eq_self]
  | succ n ih =>
    rw [rangeEntries, Function.update_comm (hd _ (by omega) _ (by omega) (by omega)),
      ih fun i hi j hj => hd i (by omega) j (by omega)]
    rw [show lo+(n+1) = lo+1+n by omega]
    rfl

/-! ### The loops -/

private theorem range_distinct {size : BitVec 64} (hr : v.Range m.mode size) :
    Distinct m v (Machine.pageCount size) := by
  intro i hi j hj hne he
  have hi' := hr.lt hi
  have hj' := hr.lt hj
  have hpage := (hr.canonical _ hi').page_eq (hr.canonical _ hj') fun k hk =>
    congrFun he ⟨k, Nat.lt_succ_of_le hk⟩
  have hal := hr.aligned
  rw [hr.toNat hi', hr.toNat hj'] at hpage
  omega

section Loops
variable {size : BitVec 64} (hr : v.Range m.mode size) (hsh : m.Shows s E) (hmarked : m.TablesMarked s)
  (hnone : ∀ i < Machine.pageCount size, E (m.pageOf (v.plus (i*4096))) = none)
include hr hsh hmarked hnone

/-- After `i` rounds the first `i` pages are mapped. -/
theorem mapRange_shows (hflags : flags.raw.getLsbD 0 = true) (hok : Machine.mapRange v p size flags s = (.ok (), t)) :
    m.Shows t (m.rangeEntries v p flags E 0 (Machine.pageCount size)) ∧ m.TablesMarked t ∧
      (0 < Machine.pageCount size → m.rootTablePhys.toNat < 2^32) := by
  have hd := range_distinct hr
  have hround (i : Nat) (u w : Machine) (hi : i < Machine.pageCount size)
      (hu : m.Shows u (m.rangeEntries v p flags E 0 i) ∧ m.TablesMarked u ∧ (0 < i → m.rootTablePhys.toNat < 2^32))
      (hrun : Machine.mapPage (v.plus (i*4096)) (p.plus (i*4096)) flags u = (.ok (), w)) :
      m.Shows w (m.rangeEntries v p flags E 0 (i+1)) ∧ m.TablesMarked w ∧
        (0 < i+1 → m.rootTablePhys.toNat < 2^32) := by
    obtain ⟨hshu, hmk, -⟩ := hu
    have hfree : m.rangeEntries v p flags E 0 i (m.pageOf (v.plus (i*4096))) = none := by
      rw [rangeEntries_other fun j hj => ?_]
      · exact hnone i hi
      · rw [Nat.zero_add]
        exact hd i hi j (by omega) (by omega)
    have hsmall : m.NoHugeLeaf u.mem (v.plus (i*4096)) := hshu.noHugeLeaf fun l e he => by
      rw [hfree] at he
      cases he
    rcases mapPage_pages hshu.paging hshu.wellFormed hshu.used hsmall (p := p.plus (i*4096)) hflags with
      ⟨w', hrun', hrel⟩ | ⟨e, w', hrun', -⟩
    · obtain rfl := (Prod.mk.inj (hrun'.symm.trans hrun)).2
      have htotal := Machine.mapPage_total (v.plus (i*4096)) (p.plus (i*4096)) flags u
      rw [hrun'] at htotal
      refine ⟨?_, hmk.relinked hrel htotal, fun _ => mapPage_root hshu.paging hrun'⟩
      have hnext := hshu.relinked hrel
      rw [hshu.entries] at hnext
      rwa [rangeEntries, Nat.zero_add]
    · rw [hrun'] at hrun
      cases hrun
  have hloop := Fallible.forRange_ok (P := fun i u => m.Shows u (m.rangeEntries v p flags E 0 i) ∧ m.TablesMarked u ∧
    (0 < i → m.rootTablePhys.toNat < 2^32)) (fun i u w _ hlt => hround i u w (by omega))
    ⟨hsh, hmarked, fun h => absurd h (by decide)⟩ hok
  rwa [Nat.zero_add] at hloop

omit hsh hmarked in
/-- From there `unmap_range` unmaps one page after the other, and cannot fail. -/
theorem unmapRange_shows {u : Machine} (hmapped : m.Shows u (m.rangeEntries v p flags E 0 (Machine.pageCount size)))
    (hmk : m.TablesMarked u) (hroot : 0 < Machine.pageCount size → m.rootTablePhys.toNat < 2^32) :
    ∃ t, Machine.unmapRange v size u = (.ok (), t) ∧ m.Shows t E := by
  have hd := range_distinct hr
  have hround (i : Nat) (w : Machine) (hi : i < Machine.pageCount size)
      (hw : m.Shows w (m.rangeEntries v p flags E i (Machine.pageCount size-i)) ∧ m.TablesMarked w) :
      ∃ t, Machine.unmapPage (v.plus (i*4096)) w = (.ok (), t) ∧
        m.Shows t (m.rangeEntries v p flags E (i+1) (Machine.pageCount size-(i+1))) ∧ m.TablesMarked t := by
    obtain ⟨n, hn⟩ : ∃ n, Machine.pageCount size = i+(n+1) := ⟨Machine.pageCount size-(i+1), by omega⟩
    rw [show Machine.pageCount size-i = n+1 by omega] at hw
    rw [show Machine.pageCount size-(i+1) = n by omega]
    rw [hn] at hd
    have hself := rangeEntries_self E p flags hd (Nat.succ_pos n)
    rw [Nat.add_zero] at hself
    obtain ⟨t, hrun, hsh', hmk'⟩ := hw.1.unmapPage hw.2 (hroot (by omega)) (hr.canonical _ (hr.lt hi)).canonical hself
    rw [rangeEntries_clear hd (hnone i hi)] at hsh'
    exact ⟨t, hrun, hsh', hmk'⟩
  obtain ⟨t, hrun, ht⟩ : ∃ t, Machine.unmapRange v size u = (.ok (), t) ∧ _ := Fallible.forRange_returns
    (P := fun i w => m.Shows w (m.rangeEntries v p flags E i (Machine.pageCount size-i)) ∧ m.TablesMarked w)
    (fun i w _ hlt => hround i w (by omega)) ⟨hmapped, hmk⟩
  rw [Nat.zero_add, Nat.sub_self] at ht
  exact ⟨t, hrun, ht.1⟩

end Loops

end Entries

/-! ### What is read -/

/-- An address that is rejected is rejected in every state. -/
private theorem translate_rejected (hm : s.paging = some m) (hm' : t.paging = some m)
    (hv : ¬ v.isCanonical m.mode = true) : Machine.SameOutcome (Machine.translateAddress v) s t := by
  obtain ⟨message, he⟩ := requireCanonical_fails hv
  have hrun {u : Machine} (hu : u.paging = some m) : Machine.translateAddress v u = (.error (.err message), u) := by
    rw [Machine.translateAddress, Fallible.bind_of_ok (Machine.getPagingManager_run hu)]
    exact Fallible.bind_of_error (he u)
  rw [Machine.SameOutcome, hrun hm, hrun hm']
  exact ⟨fun _ => Iff.rfl, Iff.rfl⟩

/-- Each byte of a range that is mapped reads its byte of the frames. -/
private theorem Shows.translate_range {E : m.Entries} {size : BitVec 64} (hr : v.Range m.mode size)
    (hsh : m.Shows t (m.rangeEntries v p flags E 0 (Machine.pageCount size))) (hroot : m.rootTablePhys.toNat < 2^32)
    (hp : p.addr.toNat % 4096 = 0) (hplt : p.addr.toNat + rounded size ≤ 2^52) (hbits : PageTableEntry.FlagBits flags)
    {o : Nat} (ho : o < rounded size) : Machine.translateAddress (v.plus o) t = (.ok (p.plus o), t) := by
  have hcount := hr.count
  have hal := hr.aligned
  have hi : o/4096 < Machine.pageCount size := by omega
  have hrest : o%4096 < 4096 := Nat.mod_lt _ (by decide)
  have hnat := hr.toNat ho
  have hbase := hr.toNat (hr.lt hi)
  have hpbase : (p.plus (o/4096*4096)).addr.toNat = p.addr.toNat + o/4096*4096 := PhysAddr.plus_toNat (by omega)
  have hv : (v.plus (o/4096*4096)).page.plus (o%4096) = v.plus o := by
    apply VirtAddr.eq_of_toNat
    rw [VirtAddr.page_plus_toNat _ hrest, hbase, hnat]
    omega
  have hpo : (p.plus (o/4096*4096)).plus (o%4096) = p.plus o := by
    rw [PhysAddr.plus_plus, Nat.mul_comm, Nat.div_add_mod]
  have hdiv : (v.plus o).addr.toNat/4096 = (v.plus (o/4096*4096)).addr.toNat/4096 := by omega
  have hpage : m.pageOf (v.plus o) = m.pageOf (v.plus (o/4096*4096)) :=
    funext fun k => congrFun (VirtAddr.index_eq hdiv) k
  have hd : Distinct m v (0+Machine.pageCount size) := by
    rw [Nat.zero_add]
    exact range_distinct hr
  have hself := rangeEntries_self E p flags hd hi
  rw [Nat.zero_add] at hself
  have hl : m.leaf t.mem (v.plus o) = some (0, (PageTableEntry.of (p.plus (o/4096*4096)).addr flags).raw) := by
    rw [leaf_eq_entryOf, hsh.entries, hpage, hself]
  rcases hsh.wellFormed.translate_run hsh.paging hroot (hr.canonical o ho).canonical with ⟨l, e, h₁, h₂⟩ | ⟨h₁, _⟩ <;>
    rw [hl] at h₁
  · obtain ⟨rfl, rfl⟩ := Prod.mk.inj (Option.some.inj h₁)
    have hleaf := leafAddress_of (p := p.plus (o/4096*4096)) (by omega) (by omega) hbits (v.plus (o/4096*4096)) hrest
    rw [h₂, ← hpo, ← hleaf, hv]
  · cases h₁

/-- A `map_range` of a range that was not mapped and that returns `Ok` maps each byte of the
range to its byte of the frames. Only addresses that the check takes for an address of the range
read anything else than before, and after an `unmap_range`, which returns `Ok`, none does. -/
theorem mapRange_exact (hm : s.paging = some m) (hwf : m.WellFormed s.mem) (hmarked : m.TablesMarked s)
    {size : BitVec 64} (hr : v.Range m.mode size) (hp : p.addr.toNat % 4096 = 0)
    (hplt : p.addr.toNat + rounded size ≤ 2^52) (hunmapped : ∀ o < rounded size, m.leaf s.mem (v.plus o) = none)
    (hpres : flags.raw.getLsbD 0 = true) (hbits : PageTableEntry.FlagBits flags)
    (hok : Machine.mapRange v p size flags s = (.ok (), t)) :
    (∀ o < rounded size, Machine.translateAddress (v.plus o) t = (.ok (p.plus o), t)) ∧
      (∀ w : VirtAddr, (w.isCanonical m.mode = true → ∀ o < rounded size, w.signExtend m.mode ≠ v.plus o) →
        Machine.SameOutcome (Machine.translateAddress w) s t) ∧
      ∃ u, Machine.unmapRange v size t = (.ok (), u) ∧ ∀ w, Machine.SameOutcome (Machine.translateAddress w) s u := by
  have hsh : m.Shows s (m.entryOf s.mem) := ⟨hm, hwf, hmarked.used, rfl⟩
  have hnone (i : Nat) (hi : i < Machine.pageCount size) : m.entryOf s.mem (m.pageOf (v.plus (i*4096))) = none := by
    rw [← leaf_eq_entryOf]
    exact hunmapped _ (hr.lt hi)
  have hcount := hr.count
  obtain ⟨hsht, hmk, hroot⟩ := mapRange_shows hr hsh hmarked hnone hpres hok
  refine ⟨fun o ho => hsht.translate_range hr (hroot (by omega)) hp hplt hbits ho, fun w hw => ?_, ?_⟩
  · by_cases hcan : w.isCanonical m.mode = true
    · refine (readers_same hm hsht.paging hwf hsht.wellFormed ?_).1
      rw [leaf_eq_entryOf, leaf_eq_entryOf, hsht.entries]
      refine rangeEntries_other fun i hi he => ?_
      rw [Nat.zero_add] at he
      -- the sign extension of an address with the indices of a page is in that page
      have hpage := (w.signExtended_signExtend m.mode).page_eq (hr.canonical _ (hr.lt hi)) fun k hk =>
        (w.signExtend_index m.mode k hk).trans (congrFun he ⟨k, Nat.lt_succ_of_le hk⟩)
      obtain ⟨o, ho, hin⟩ := hr.mem_of_page hi hpage
      exact hw hcan o ho hin
    · exact translate_rejected hm hsht.paging hcan
  · obtain ⟨u, hrun, hshu⟩ := unmapRange_shows hr hnone hsht hmk hroot
    refine ⟨u, hrun, fun w => (readers_same hm hshu.paging hwf hshu.wellFormed ?_).1⟩
    rw [leaf_eq_entryOf, leaf_eq_entryOf, hshu.entries]

/-! ### Ranges of a small machine -/

private theorem lowRange : VirtAddr.Range .fourLevel ⟨0x400000#64⟩ 0x1800#64 where
  aligned := by decide
  fits := by decide
  canonical o ho := by
    have ho : o < 0x2000 := ho
    have hnat : ((VirtAddr.mk 0x400000#64).plus o).addr.toNat = (0x400000 + o % 2^64) % 2^64 := by
      rw [VirtAddr.plus, BitVec.toNat_add, BitVec.toNat_ofNat]
      rfl
    rw [VirtAddr.SignExtended, hnat]
    omega

private theorem highRange : VirtAddr.Range .fourLevel ⟨0xFFFF800000000000#64⟩ 0x1000#64 where
  aligned := by decide
  fits := by decide
  canonical o ho := by
    have ho : o < 0x1000 := ho
    have hnat : ((VirtAddr.mk 0xFFFF800000000000#64).plus o).addr.toNat = (0xFFFF800000000000 + o % 2^64) % 2^64 := by
      rw [VirtAddr.plus, BitVec.toNat_add, BitVec.toNat_ofNat]
      rfl
    rw [VirtAddr.SignExtended, hnat]
    omega

theorem mapRange_exact_small : ∃ u, Machine.unmapRange ⟨0x400000#64⟩ 0x1800#64
    (Machine.mapRange ⟨0x400000#64⟩ ⟨0x200000#64⟩ 0x1800#64 ⟨3#64⟩ smallMachine).2 = (.ok (), u) := by
  have hok : (Machine.mapRange ⟨0x400000#64⟩ ⟨0x200000#64⟩ 0x1800#64 ⟨3#64⟩ smallMachine).1 = .ok () := by
    decide +kernel
  obtain ⟨-, -, u, hu, -⟩ := mapRange_exact (m := smallPaging) rfl smallMachine_wellFormed
    smallMachine_marked lowRange (by decide) (by decide) (fun o _ => smallMachine_unmapped _) (by decide) (by decide)
    (Fallible.run_of_fst hok)
  exact ⟨u, hu⟩

/-- The flags decide whether the range reads back, and a sign-extended range drags along the
addresses the check takes for it. -/
theorem mapRange_inexact : smallPaging.WellFormed smallMachine.mem ∧ smallPaging.TablesMarked smallMachine ∧
    (∀ v, smallPaging.leaf smallMachine.mem v = none) ∧
    VirtAddr.Range .fourLevel ⟨0x400000#64⟩ 0x1800#64 ∧ VirtAddr.Range .fourLevel ⟨0xFFFF800000000000#64⟩ 0x1000#64 ∧
    (∃ t message, Machine.mapRange ⟨0x400000#64⟩ ⟨0x200000#64⟩ 0x1800#64 ⟨0#64⟩ smallMachine = (.ok (), t) ∧
      (Machine.translateAddress ⟨0x400000#64⟩ t).1 = .error (.err message)) ∧
    (∃ t, Machine.mapRange ⟨0x400000#64⟩ ⟨0x200000#64⟩ 0x1800#64 ⟨0x4003#64⟩ smallMachine = (.ok (), t) ∧
      (Machine.translateAddress ⟨0x400000#64⟩ t).1 = .ok ⟨0x204000#64⟩) ∧
    ∃ t message, Machine.mapRange ⟨0xFFFF800000000000#64⟩ ⟨0x200000#64⟩ 0x1000#64 ⟨3#64⟩ smallMachine = (.ok (), t) ∧
      (Machine.translateAddress ⟨0x800000000000#64⟩ smallMachine).1 = .error (.err message) ∧
      (Machine.translateAddress ⟨0x800000000000#64⟩ t).1 = .ok ⟨0x200000#64⟩ := by
  have h₁ : (Machine.mapRange ⟨0x400000#64⟩ ⟨0x200000#64⟩ 0x1800#64 ⟨0#64⟩ smallMachine).1 = .ok () := by decide +kernel
  have h₂ : (Machine.mapRange ⟨0x400000#64⟩ ⟨0x200000#64⟩ 0x1800#64 ⟨0x4003#64⟩ smallMachine).1 = .ok () := by
    decide +kernel
  have h₃ : (Machine.mapRange ⟨0xFFFF800000000000#64⟩ ⟨0x200000#64⟩ 0x1000#64 ⟨3#64⟩ smallMachine).1 = .ok () := by
    decide +kernel
  refine ⟨smallMachine_wellFormed, smallMachine_marked, smallMachine_unmapped, lowRange,
    highRange, ⟨_, "Page not mapped (PT)", Fallible.run_of_fst h₁, ?_⟩, ⟨_, Fallible.run_of_fst h₂, ?_⟩,
    _, "Page not mapped (PML4)", Fallible.run_of_fst h₃, ?_, ?_⟩ <;> decide +kernel

end PagingManager
end Nafuraito.Memory
