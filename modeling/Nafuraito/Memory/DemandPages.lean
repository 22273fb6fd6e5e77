import Nafuraito.Memory.PageRelease
import Nafuraito.Memory.RegionRegistry

/-! The pages of an area that only demand paging maps: each has a frame of its own, and what the
fault handler and the loop of `munmap` do to them. -/
namespace Nafuraito.Memory
open Nafuraito.Library
open PageTableEntry (FlagBits)
open PhysicalMemoryManager (FreeIn Tracks)

/-! ### The pages of an area -/

namespace PagingManager
open Machine (pageAddr freedAddress freeAddress releasePage SameTotal)
variable {m : PagingManager} {s t u : Machine} {area : Set Nat} {p q i n : Nat}

/-- Page numbers whose addresses are sign-extended. -/
def PageArea (m : PagingManager) (area : Set Nat) : Prop := ∀ p ∈ area, p < 2^52 ∧ (pageAddr p).SignExtended m.mode

/-- The frame a page is mapped to. -/
def mappedFrame (m : PagingManager) (s : Machine) (p : Nat) : Option Nat := m.frameOf s (m.pageOf (pageAddr p))

theorem pageAddr_toNat (hp : p < 2^52) : (pageAddr p).addr.toNat = 4096*p := by
  rw [pageAddr, BitVec.toNat_ofNat]
  omega

theorem PageArea.apart (ha : m.PageArea area) (hp : p ∈ area) (hq : q ∈ area) (hne : p ≠ q) :
    m.Apart (pageAddr p) (pageAddr q) := by
  by_contra hsame
  obtain ⟨hlt, hs⟩ := ha p hp
  obtain ⟨hlt', hs'⟩ := ha q hq
  have := hs.page_eq hs' fun k hk => by_contra fun h => hsame ⟨k, hk, h⟩
  rw [pageAddr_toNat hlt, pageAddr_toNat hlt'] at this
  omega

theorem PageArea.page_ne (ha : m.PageArea area) (hp : p ∈ area) (hq : q ∈ area) (hne : p ≠ q) :
    m.pageOf (pageAddr p) ≠ m.pageOf (pageAddr q) := by
  intro he
  obtain ⟨k, hk, hidx⟩ := ha.apart hp hq hne
  exact hidx (congrFun he ⟨k, by omega⟩)

theorem mappedFrame_eq (s : Machine) (p : Nat) :
    m.mappedFrame s p = (m.leaf s.mem (pageAddr p)).map fun e => PageTableEntry.frame ⟨e.2⟩ := by
  rw [mappedFrame, frameOf, leaf_eq_entryOf]

/-- Each page of the area is mapped by a 4 KiB entry, if at all, to a tracked frame that is neither a
table nor free, and no two to one frame. -/
structure DemandPages (m : PagingManager) (area : Set Nat) (s : Machine) : Prop where
  paging : s.paging = some m
  wellFormed : m.WellFormed s.mem
  used : m.TablesUsed s
  small : ∀ p ∈ area, m.NoHugeLeaf s.mem (pageAddr p)
  data : ∀ p ∈ area, ∀ f, m.mappedFrame s p = some f → m.IsData s f
  tracked : ∀ p ∈ area, ∀ f, m.mappedFrame s p = some f → Tracks s.pmm f
  once : ∀ p ∈ area, ∀ q ∈ area, ∀ f, m.mappedFrame s p = some f → m.mappedFrame s q = some f → p = q

/-- Where nothing is mapped. -/
theorem DemandPages.start (hm : s.paging = some m) (hwf : m.WellFormed s.mem) (hu : m.TablesUsed s)
    (hnone : ∀ p ∈ area, m.leaf s.mem (pageAddr p) = none) : m.DemandPages area s where
  paging := hm
  wellFormed := hwf
  used := hu
  small p hp l e he := by
    rw [hnone p hp] at he
    cases he
  data p hp f hf := by
    rw [mappedFrame_eq, hnone p hp] at hf
    cases hf
  tracked p hp f hf := by
    rw [mappedFrame_eq, hnone p hp] at hf
    cases hf
  once p hp q hq f hf := by
    rw [mappedFrame_eq, hnone p hp] at hf
    cases hf

/-- The same entries, whatever became of tables and free frames. -/
theorem DemandPages.relinked (h : m.DemandPages area s) (hr : m.Relinked s t (m.entryOf s.mem))
    (htotal : SameTotal s t) :
    m.DemandPages area t := by
  have hframe (p : Nat) : m.mappedFrame t p = m.mappedFrame s p := by
    rw [mappedFrame, mappedFrame, frameOf, frameOf, hr.entries]
  refine ⟨hr.paging.trans h.paging, hr.wellFormed, hr.used, fun p hp l e he => ?_, fun p hp f hf => ?_,
    fun p hp f hf => ?_, fun p hp q hq f hf hf' => ?_⟩
  · rw [leaf_eq_entryOf, hr.entries, ← leaf_eq_entryOf] at he
    exact h.small p hp l e he
  · rw [hframe] at hf
    exact (h.data p hp f hf).relinked hr
  · rw [hframe] at hf
    exact (h.tracked p hp f hf).of_total htotal
  · rw [hframe] at hf hf'
    exact h.once p hp q hq f hf hf'

/-- A page gets a frame that no page of the area has. -/
theorem DemandPages.update (h : m.DemandPages area s) (ha : m.PageArea area) (hi : i ∈ area) {e : BitVec 64}
    (hr : m.Relinked s t (Function.update (m.entryOf s.mem) (m.pageOf (pageAddr i)) (some (0, e))))
    (htotal : SameTotal s t) (hdata : m.IsData s (PageTableEntry.frame ⟨e⟩))
      (htracks : Tracks s.pmm (PageTableEntry.frame ⟨e⟩))
    (hnew : ∀ p ∈ area, m.mappedFrame s p ≠ some (PageTableEntry.frame ⟨e⟩)) : m.DemandPages area t := by
  have hself : m.mappedFrame t i = some (PageTableEntry.frame ⟨e⟩) := by
    rw [mappedFrame, hr.frameOf_update, Function.update_self]
  have hother {p : Nat} (hp : p ∈ area) (hne : p ≠ i) : m.mappedFrame t p = m.mappedFrame s p := by
    rw [mappedFrame, hr.frameOf_update, Function.update_of_ne (ha.page_ne hp hi hne), mappedFrame]
  refine ⟨hr.paging.trans h.paging, hr.wellFormed, hr.used, fun p hp l e' he => ?_, fun p hp f hf => ?_,
    fun p hp f hf => ?_, fun p hp q hq f hf hf' => ?_⟩
  · rw [leaf_eq_entryOf, hr.entries] at he
    by_cases hne : p = i
    · rw [hne, Function.update_self] at he
      exact (Prod.mk.inj (Option.some.inj he)).1.symm
    · rw [Function.update_of_ne (ha.page_ne hp hi hne), ← leaf_eq_entryOf] at he
      exact h.small p hp l e' he
  · by_cases hne : p = i
    · rw [hne, hself] at hf
      exact Option.some.inj hf ▸ hdata.relinked hr
    · rw [hother hp hne] at hf
      exact (h.data p hp f hf).relinked hr
  · refine Tracks.of_total ?_ htotal
    by_cases hne : p = i
    · rw [hne, hself] at hf
      exact Option.some.inj hf ▸ htracks
    · rw [hother hp hne] at hf
      exact h.tracked p hp f hf
  · by_cases hpi : p = i <;> by_cases hqi : q = i
    · rw [hpi, hqi]
    · rw [hpi, hself] at hf
      rw [hother hq hqi, ← hf] at hf'
      exact absurd hf' (hnew q hq)
    · rw [hqi, hself] at hf'
      rw [hother hp hpi, ← hf'] at hf
      exact absurd hf (hnew p hp)
    · rw [hother hp hpi] at hf
      rw [hother hq hqi] at hf'
      exact h.once p hp q hq f hf hf'

/-! ### The loop of `munmap` -/

/-- A page loses its entry. -/
theorem DemandPages.pruned (h : m.DemandPages area s) (ha : m.PageArea area) (hi : i ∈ area)
    (hp : m.Pruned (pageAddr i) s t) (hgone : m.leaf t.mem (pageAddr i) = none) (htotal : SameTotal s t) :
    m.DemandPages area t ∧ m.mappedFrame t i = none ∧
      ∀ p ∈ area, p ≠ i → m.mappedFrame t p = m.mappedFrame s p := by
  have hself : m.mappedFrame t i = none := by rw [mappedFrame_eq, hgone, Option.map_none]
  have hother {p : Nat} (hpa : p ∈ area) (hne : p ≠ i) : m.mappedFrame t p = m.mappedFrame s p := by
    rw [mappedFrame_eq, mappedFrame_eq, hp.leaf _ (ha.apart hi hpa hne.symm)]
  have hold {p f : Nat} (hpa : p ∈ area) (hf : m.mappedFrame t p = some f) : m.mappedFrame s p = some f := by
    by_cases hne : p = i
    · rw [hne, hself] at hf
      cases hf
    · rwa [hother hpa hne] at hf
  refine ⟨⟨hp.paging.trans h.paging, hp.wellFormed, hp.used h.used, fun p hpa l e he => ?_, fun p hpa f hf => ?_,
    fun p hpa f hf => (h.tracked p hpa f (hold hpa hf)).of_total htotal, fun p hpa q hq f hf hf' =>
      h.once p hpa q hq f (hold hpa hf) (hold hq hf')⟩, hself, fun p => hother⟩
  · by_cases hne : p = i
    · rw [hne, hgone] at he
      cases he
    · rw [hp.leaf _ (ha.apart hi hpa fun h => hne h.symm)] at he
      exact h.small p hpa l e he
  · obtain ⟨htable, hused⟩ := h.data p hpa f (hold hpa hf)
    refine ⟨fun l hl => htable l (hp.tables hl), fun hfree => ?_⟩
    exact (hp.free f hfree).elim hused fun ⟨⟨l, hl⟩, _⟩ => htable l hl

/-- A frame that no page of the area has any more is given back. -/
theorem DemandPages.freed (h : m.DemandPages area s) {pmm : Option PhysicalMemoryManager}
    (hfree : ∀ f, FreeIn pmm f → FreeIn s.pmm f ∨ f = n) (htable : ∀ l, ¬ m.Table s.mem l n)
    (hnone : ∀ p ∈ area, m.mappedFrame s p ≠ some n) {event : Event}
    (htotal : SameTotal s { s.addLog event with pmm := pmm }) :
      m.DemandPages area { s.addLog event with pmm := pmm } where
  paging := h.paging
  wellFormed := h.wellFormed
  used l f hf hfr := by
    rcases hfree f hfr with hfr | rfl
    · exact h.used l f hf hfr
    · exact htable l hf
  small := h.small
  data p hp f hf := by
    refine ⟨(h.data p hp f hf).1, fun hfr => ?_⟩
    rcases hfree f hfr with hfr | rfl
    · exact (h.data p hp f hf).2 hfr
    · exact hnone p hp hf
  tracked p hp f hf := (h.tracked p hp f hf).of_total htotal
  once := h.once

private theorem freedAddress_total (v : VirtAddr) : Fallible.Relates SameTotal (freedAddress v) := by
  have h := Machine.sameTotal_rule
  refine .bind h.trans (Machine.tryOk_relates (Machine.translateAddress_relates h.refl h.trans v)) fun phys => ?_
  cases phys with
  | none => exact .pure h.refl _
  | some phys => exact .bind h.trans (Machine.unmapPage_total v) fun _ => .pure h.refl _

/-- A round concerns the one page, whatever it returns. -/
theorem releasePage_keeps (h : m.DemandPages area s) (ha : m.PageArea area) (hi : i ∈ area) :
    m.DemandPages area (releasePage (pageAddr i) s).2 ∧
      ∀ p ∈ area, p ≠ i → m.mappedFrame (releasePage (pageAddr i) s).2 p = m.mappedFrame s p := by
  have htotal := freedAddress_total (pageAddr i) s
  rw [Machine.releasePage_eq]
  rcases freedAddress_run h.paging h.wellFormed (h.small i hi) with
    ⟨r, hrun, hsome, -⟩ | ⟨e, he, ⟨err, t, hrun, hp, hgone⟩ | ⟨t, hrun, hc⟩⟩
  · rcases r with err | _ | addr
    · rw [Fallible.bind_of_error hrun]
      exact ⟨h, fun _ _ _ => rfl⟩
    · rw [Fallible.bind_of_ok hrun]
      exact ⟨h, fun _ _ _ => rfl⟩
    · exact absurd rfl (hsome addr)
  · rw [hrun] at htotal
    obtain ⟨ht, -, hother⟩ := h.pruned ha hi hp hgone htotal
    rw [Fallible.bind_of_error hrun]
    exact ⟨ht, hother⟩
  · rw [hrun] at htotal
    obtain ⟨ht, hself, hother⟩ := h.pruned ha hi hc.pruned hc.gone htotal
    have hfreed : SameTotal t (freeAddress (some (PageTableEntry.frame ⟨e⟩*4096)) t).2 := Machine.freeFrame_total _ t
    obtain ⟨p, hp, hfree, -⟩ := freeAddress_some (PageTableEntry.frame ⟨e⟩) t
    have hframe : m.mappedFrame s i = some (PageTableEntry.frame ⟨e⟩) := by rw [mappedFrame_eq, he, Option.map_some]
    rw [hp] at hfreed
    rw [Fallible.bind_of_ok hrun, hp]
    refine ⟨ht.freed hfree (fun l hl => (h.data i hi _ hframe).1 l (hc.pruned.tables hl)) (fun q hq hf => ?_)
      hfreed, hother⟩
    by_cases hqi : q = i
    · rw [hqi, hself] at hf
      cases hf
    · rw [hother q hq hqi] at hf
      exact hqi (h.once q hq i hi _ hf hframe)

theorem releasePages_keeps (h : m.DemandPages area s) (ha : m.PageArea area) {lo hi : BitVec 64}
    (hrange : ∀ p, lo.toNat/4096 ≤ p → p < hi.toNat/4096 → p ∈ area) :
    m.DemandPages area (Machine.releasePages lo hi s).2 :=
  Fallible.forRange_snd (P := m.DemandPages area) (fun _ _ h₁ h₂ ht =>
    (releasePage_keeps ht ha (hrange _ h₁ (by omega))).1) h

/-- The state of the loop before page `i`. -/
private structure Rounds (m : PagingManager) (area : Set Nat) (s : Machine) (first i : Nat) (t : Machine) : Prop where
  pages : m.DemandPages area t
  released : m.Released s t {f | ∃ p, first ≤ p ∧ p < i ∧ m.mappedFrame s p = some f}
  later : ∀ p ∈ area, i ≤ p → m.mappedFrame t p = m.mappedFrame s p

/-- Where the loop returns `Ok` it released the frames of the pages and the emptied tables. -/
theorem releasePages_released (h : m.DemandPages area s) (ha : m.PageArea area) {lo hi : BitVec 64}
    (hrange : ∀ p, lo.toNat/4096 ≤ p → p < hi.toNat/4096 → p ∈ area)
    (hok : Machine.releasePages lo hi s = (.ok (), t)) :
    m.Released s t {f | ∃ p, lo.toNat/4096 ≤ p ∧ p < hi.toNat/4096 ∧ m.mappedFrame s p = some f} := by
  have hstart : Rounds m area s (lo.toNat/4096) (lo.toNat/4096) s := by
    refine ⟨h, ?_, fun _ _ _ => rfl⟩
    have hnone : {f | ∃ p, lo.toNat/4096 ≤ p ∧ p < lo.toNat/4096 ∧ m.mappedFrame s p = some f} = ∅ := by
      rw [Set.eq_empty_iff_forall_notMem]
      rintro f ⟨p, h₁, h₂, -⟩
      omega
    rw [hnone]
    exact .refl m s
  have hstep : ∀ i u u', lo.toNat/4096 ≤ i → i < lo.toNat/4096 + (hi.toNat/4096 - lo.toNat/4096) →
      Rounds m area s (lo.toNat/4096) i u → releasePage (pageAddr i) u = (.ok (), u') →
      Rounds m area s (lo.toNat/4096) (i+1) u' := by
    intro i u u' h₁ h₂ hu hrun
    have hia := hrange i h₁ (by omega)
    have hone := releasePage_released hu.pages.paging hu.pages.wellFormed (hu.pages.small i hia)
      (ha i hia).2.canonical hrun
    obtain ⟨hpages, hother⟩ := releasePage_keeps hu.pages ha hia
    rw [hrun] at hpages hother
    refine ⟨hpages, ?_, fun p hp hle => (hother p hp (by omega)).trans (hu.later p hp (by omega))⟩
    have hset : {f | ∃ p, lo.toNat/4096 ≤ p ∧ p < i+1 ∧ m.mappedFrame s p = some f} =
        {f | ∃ p, lo.toNat/4096 ≤ p ∧ p < i ∧ m.mappedFrame s p = some f} ∪
          {f | m.frameOf u (m.pageOf (pageAddr i)) = some f} := by
      have hnow : m.frameOf u (m.pageOf (pageAddr i)) = m.mappedFrame s i := hu.later i hia le_rfl
      ext f
      rw [hnow]
      constructor
      · rintro ⟨p, hp, hlt, hf⟩
        by_cases hpi : p = i
        · exact .inr (hpi ▸ hf)
        · exact .inl ⟨p, hp, by omega, hf⟩
      · rintro (⟨p, hp, hlt, hf⟩ | hf)
        · exact ⟨p, hp, by omega, hf⟩
        · exact ⟨i, h₁, by omega, hf⟩
    rw [hset]
    exact hu.released.trans hone
  have hend := (Fallible.forRange_ok (P := Rounds m area s (lo.toNat/4096)) hstep hstart hok).released
  have hset : {f | ∃ p, lo.toNat/4096 ≤ p ∧ p < hi.toNat/4096 ∧ m.mappedFrame s p = some f} =
      {f | ∃ p, lo.toNat/4096 ≤ p ∧
      p < lo.toNat/4096 + (hi.toNat/4096 - lo.toNat/4096) ∧ m.mappedFrame s p = some f} := by
    ext f
    refine exists_congr fun p => and_congr_right fun hp => and_congr_left fun _ => ?_
    omega
  rw [hset]
  exact hend

/-! ### The fault handler -/

end PagingManager

/-- The place of a page in the file, or an error where that is no number of 64 bits. -/
theorem VmRegion.faultOffset_cases (region : VmRegion) (file : FileBacking) (page : BitVec 64) :
    (∃ offset, region.faultOffset file page = .ok offset ∧ region.start ≤ page ∧
      offset.toNat = file.fileOffset.toNat + (page - region.start).toNat) ∨
    (∃ message, region.faultOffset file page = .error (.err message)) ∧
      ¬ (region.start ≤ page ∧ file.fileOffset.toNat + (page - region.start).toNat < 2^64) := by
  rw [faultOffset, checkedSub]
  by_cases hle : region.start ≤ page
  swap
  · rw [if_neg hle]
    exact .inr ⟨⟨_, rfl⟩, fun h => hle h.1⟩
  rw [if_pos hle]
  dsimp only
  cases hsum : checkedAdd file.fileOffset (page - region.start) with
  | some offset => exact .inl ⟨_, rfl, hle, checkedAdd_some hsum⟩
  | none =>
    refine .inr ⟨⟨_, rfl⟩, fun h => ?_⟩
    rw [checkedAdd, if_pos h.2] at hsum
    cases hsum

namespace Machine

/-- The frame lies in the identity window of the module. -/
def InWindow (phys : BitVec 64) : Prop := phys ≠ 0 ∧ phys.toNat < 2^27

instance (phys : BitVec 64) : Decidable (InWindow phys) := inferInstanceAs (Decidable (_ ∧ _))

/-- The bytes a fault on a page of a region reads; the frame is zero past them. -/
def readBytes (region : VmRegion) (pageBase : BitVec 64) : Except Stop (List Byte) := match region.backing with
  | .zeroFill => .ok []
  | .fileBacked file => (region.faultOffset file pageBase).map file.pageBytes

theorem pageOfBytes_nil : pageOfBytes [] = fun _ => 0 := by
  funext i
  rw [pageOfBytes]
  simp only [List.getD_nil]
  rfl

/-- A frame outside the window is not written; one inside is zeroed, and filled where the read comes to that. -/
theorem fillFrame_eq (region : VmRegion) (pageBase phys : BitVec 64) (s : Machine) :
    fillFrame region pageBase phys s = if InWindow phys then match readBytes region pageBase with
      | .ok bytes => (.ok (), s.setFrame (phys.toNat/4096) (pageOfBytes bytes))
      | .error e => (.error e, s.setFrame (phys.toNat/4096) fun _ => 0)
    else (.error (.err "No identity mapping for frame"), s) := by
  have htwice (n : Nat) (words words' : Fin 512 → BitVec 64) :
      (s.setFrame n words).setFrame n words' = s.setFrame n words' := by
    simp only [setFrame, Function.update_idem]
  rw [fillFrame, readBytes]
  by_cases hp : InWindow phys
  · have hid : identityFrame phys s = (.ok (phys.toNat/4096), s) := by
      rw [identityFrame, if_neg]
      · rfl
      · exact fun h => h.elim (fun h => absurd hp.2 (by omega)) hp.1
    rw [if_pos hp]
    cases region.backing with
    | zeroFill =>
      dsimp only
      rw [pageOfBytes_nil]
      exact Fallible.bind_of_ok hid
    | fileBacked file =>
      dsimp only
      rw [Fallible.bind_of_ok hid, Fallible.modify_bind_run]
      cases region.faultOffset file pageBase with
      | error e => rfl
      | ok fileOffset => exact congrArg (Prod.mk _) (htwice _ _ _)
  · have hid : identityFrame phys s = (.error (.err "No identity mapping for frame"), s) := by
      rw [identityFrame, if_pos]
      · rfl
      · by_contra h
        rw [not_or] at h
        exact hp ⟨h.2, by omega⟩
    rw [if_neg hp]
    cases region.backing <;> exact Fallible.bind_of_error hid

/-- The allocator gave frames away. -/
structure Took (s : Machine) (pmm : Option PhysicalMemoryManager) : Prop where
  total : SameTotal s { s with pmm := pmm }
  free : ∀ f, FreeIn pmm f → FreeIn s.pmm f

/-- Among them the frame at an address below 128 MiB. -/
structure TookFrame (s : Machine) (pmm : Option PhysicalMemoryManager)
    (addr : BitVec 64) : Prop extends Took s pmm where
  aligned : addr.toNat % 4096 = 0
  low : addr.toNat < 2^27
  taken : FreeIn s.pmm (addr.toNat/4096) ∧ ¬ FreeIn pmm (addr.toNat/4096)

/-- The state in which a frame was taken and filled. -/
def filled (s : Machine) (pmm : Option PhysicalMemoryManager) (addr : BitVec 64) (words : Fin 512 → BitVec 64) :
    Machine :=
  ({ s with pmm := pmm } : Machine).setFrame (addr.toNat/4096) words

/-- A fault fails with no frame filled, or with one that stays taken, or maps it. -/
theorem handleDemandPageFault_run (faultAddr : VirtAddr) (errorCode : BitVec 64) (s : Machine) :
    (∃ e pmm, Took s pmm ∧ handleDemandPageFault faultAddr errorCode s = (.error e, { s with pmm := pmm })) ∨
    ∃ region pmm addr words, s.regions.findRegion faultAddr.addr = some region ∧ TookFrame s pmm addr ∧
      ((∃ e, handleDemandPageFault faultAddr errorCode s = (.error e, filled s pmm addr words)) ∨
      (∃ bytes, readBytes region (alignDown faultAddr.addr) = .ok bytes ∧ words = pageOfBytes bytes) ∧
        handleDemandPageFault faultAddr errorCode s = mapPage ⟨alignDown faultAddr.addr⟩ ⟨addr⟩
          (region.flags.set PageTableFlags.PRESENT) (filled s pmm addr words)) := by
  have hsame : Took s s.pmm := ⟨rfl, fun _ h => h⟩
  rw [handleDemandPageFault]
  by_cases hcode : errorCode &&& 1#64 = 0
  swap
  · exact .inl ⟨_, _, hsame, Fallible.bind_of_error (Fallible.require_run_neg _ hcode s)⟩
  rw [Fallible.bind_of_ok (Fallible.require_run_pos _ hcode s), Fallible.get_bind_run]
  cases hregion : s.regions.findRegion faultAddr.addr with
  | none => exact .inl ⟨_, _, hsame, rfl⟩
  | some region =>
    obtain ⟨r, pmm, hrun, htotal, hfree, htakes⟩ := allocFrame_run s
    have hrun' : Fallible.mapError (fun _ => Stop.err "Failed to allocate frame") allocFrame s =
        (r.mapError fun _ => .err "Failed to allocate frame", { s with pmm := pmm }) := by
      rw [Fallible.mapError, hrun]
    rw [Fallible.okOr_some, Fallible.pure_bind_run]
    rcases r with e | addr
    · exact .inl ⟨_, pmm, ⟨htotal, hfree⟩, Fallible.bind_of_error hrun'⟩
    rw [Fallible.bind_of_ok hrun']
    have hfill := fillFrame_eq region (alignDown faultAddr.addr) (BitVec.ofNat 64 addr) { s with pmm := pmm }
    by_cases hwindow : InWindow (BitVec.ofNat 64 addr)
    swap
    · rw [if_neg hwindow] at hfill
      exact .inl ⟨_, pmm, ⟨htotal, hfree⟩, Fallible.bind_of_error hfill⟩
    rw [if_pos hwindow] at hfill
    obtain ⟨hne, hlt⟩ := hwindow
    have hzero : addr ≠ 0 := by
      rintro rfl
      exact hne rfl
    obtain ⟨hmod, htaken⟩ := (htakes addr rfl).taken hzero
    have hnat : (BitVec.ofNat 64 addr).toNat = addr := by
      have := PhysicalMemoryManager.freeIn_lt htaken.1
      rw [BitVec.toNat_ofNat]
      omega
    rw [← hnat] at hmod htaken
    cases hread : readBytes region (alignDown faultAddr.addr) with
    | error e =>
      rw [hread] at hfill
      exact .inr ⟨region, pmm, BitVec.ofNat 64 addr, _, rfl, ⟨⟨htotal, hfree⟩, hmod, hlt, htaken⟩,
        .inl ⟨e, Fallible.bind_of_error hfill⟩⟩
    | ok bytes =>
      rw [hread] at hfill
      exact .inr ⟨region, pmm, BitVec.ofNat 64 addr, _, rfl, ⟨⟨htotal, hfree⟩, hmod, hlt, htaken⟩,
        .inr ⟨⟨bytes, hread, rfl⟩, Fallible.bind_of_ok hfill⟩⟩

theorem set_present (flags : PageTableFlags) : (flags.set PageTableFlags.PRESENT).raw.getLsbD 0 = true := by
  rw [PageTableFlags.set, BitVec.getLsbD_or, show PageTableFlags.PRESENT.getLsbD 0 = true by decide, Bool.or_true]

end Machine

namespace PagingManager
open Machine (pageAddr SameTotal Took TookFrame filled)
variable {m : PagingManager} {s t : Machine} {area : Set Nat} {i : Nat}
  {pmm : Option PhysicalMemoryManager} {addr : BitVec 64}

theorem took_relinked (hwf : m.WellFormed s.mem) (hu : m.TablesUsed s) (h : Took s pmm) :
    m.Relinked s { s with pmm := pmm } (m.entryOf s.mem) :=
  (Grown.of_pmm hwf (a := 0) ⟨h.free, fun h => absurd rfl h⟩).relinked hu

theorem filled_relinked (hwf : m.WellFormed s.mem) (hu : m.TablesUsed s) (h : TookFrame s pmm addr)
    (words : Fin 512 → BitVec 64) : m.Relinked s (filled s pmm addr words) (m.entryOf s.mem) ∧
      ∀ l, ¬ m.Table (filled s pmm addr words).mem l (addr.toNat/4096) := fill_relinked hwf hu h.free h.taken.1 words

/-- The registered addresses lie in the area, and their flags keep out of the address bits. -/
structure Registered (area : Set Nat) (regions : Regions) : Prop where
  ok : regions.Ok
  flags : ∀ a r, Slots.At VmRegion.span regions a r → FlagBits r.flags ∧ a/4096 ∈ area

theorem pageAddr_div {a : BitVec 64} : pageAddr (a.toNat/4096) = ⟨alignDown a⟩ := by
  have hlt := a.isLt
  rw [pageAddr, VirtAddr.mk.injEq, ← BitVec.toNat_inj, BitVec.toNat_ofNat, alignDown_toNat]
  omega

/-- A page of the area is mapped to a frame just taken and filled, or that fails. -/
private theorem DemandPages.populate (h : m.DemandPages area s) (ha : m.PageArea area) (hi : i ∈ area)
    (htook : TookFrame s pmm addr) (words : Fin 512 → BitVec 64) {flags : PageTableFlags} (hbits : FlagBits flags)
    (hpresent : flags.raw.getLsbD 0 = true) : m.DemandPages area (filled s pmm addr words) ∧
      m.DemandPages area (Machine.mapPage (pageAddr i) ⟨addr⟩ flags (filled s pmm addr words)).2 := by
  obtain ⟨hfill, htable⟩ := filled_relinked h.wellFormed h.used htook words
  have hu := h.relinked hfill htook.total
  have hmap := Machine.mapPage_total (pageAddr i) ⟨addr⟩ flags (filled s pmm addr words)
  have hlow := htook.low
  refine ⟨hu, ?_⟩
  rcases mapPage_pages hu.paging hu.wellFormed hu.used (hu.small _ hi) (p := ⟨addr⟩) hpresent with
    ⟨t, hrun, hr⟩ | ⟨e, t, hrun, hr⟩ <;> rw [hrun] at hmap ⊢
  · have hframe : (PageTableEntry.of addr flags).frame = addr.toNat/4096 := by
      rw [PageTableEntry.frame, PageTableEntry.of_address htook.aligned (by omega) hbits]
    refine hu.update ha hi hr hmap ?_ ?_ fun q hq hf => ?_ <;> rw [hframe] at *
    · exact ⟨htable, htook.taken.2⟩
    · exact htook.taken.1.tracks.of_total htook.total
    · rw [mappedFrame, frameOf, hfill.entries, ← frameOf, ← mappedFrame] at hf
      exact (h.data q hq _ hf).2 htook.taken.1
  · exact hu.relinked hr hmap

/-- A fault gives its page a frame that was free, or leaves the pages as they are. -/
theorem handleDemandPageFault_keeps (h : m.DemandPages area s) (ha : m.PageArea area)
    (hreg : Registered area s.regions) (faultAddr : VirtAddr) (errorCode : BitVec 64) :
    m.DemandPages area (Machine.handleDemandPageFault faultAddr errorCode s).2 ∧
      (Machine.handleDemandPageFault faultAddr errorCode s).2.regions = s.regions := by
  rcases Machine.handleDemandPageFault_run faultAddr errorCode s with
    ⟨e, pmm, htook, he⟩ | ⟨region, pmm, addr, words, hregion, htook, hrun⟩
  · rw [he]
    exact ⟨h.relinked (took_relinked h.wellFormed h.used htook) htook.total, rfl⟩
  · obtain ⟨hbits, hin⟩ := hreg.flags _ _ ((Regions.findRegion_iff hreg.ok).mp hregion)
    have hflags : FlagBits (region.flags.set PageTableFlags.PRESENT) := hbits.or (by decide)
    obtain ⟨hu, ht⟩ := h.populate ha hin htook words hflags (Machine.set_present _)
    rcases hrun with ⟨e, he⟩ | ⟨-, he⟩ <;> rw [he]
    · exact ⟨hu, rfl⟩
    · rw [← pageAddr_div]
      exact ⟨ht, (Machine.mapPage_statics _ _ _ _).regions⟩

end PagingManager
end Nafuraito.Memory
