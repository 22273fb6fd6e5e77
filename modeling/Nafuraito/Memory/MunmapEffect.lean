import Nafuraito.Memory.MapUnmap
import Nafuraito.Memory.PageRelease
import Nafuraito.Memory.RegionRegistry

/-! What `munmap` does to pages and frames that are not its own: its loop runs over the whole range, and asks the
page tables only. -/
namespace Nafuraito.Memory
open Nafuraito.Library
open PhysicalMemoryManager (FreeIn)

namespace Machine
variable {s t : Machine} {start : VirtAddr} {size lo hi : BitVec 64}

/-- The address is translated. -/
def Translates (v : VirtAddr) (s : Machine) : Prop := ∃ phys, translateAddress v s = (.ok phys, s)

/-- The page of the address is one of those the call names, and lies in a region. -/
def Owned (start : VirtAddr) (size : BitVec 64) (regions : Regions) (v : VirtAddr) : Prop :=
  v.addr.toNat/4096 ∈ Set.Ico (start.addr.toNat/4096) ((start.addr.toNat + size.toNat + 4095)/4096) ∧
    (alignDown v.addr).toNat ∈ regions.addresses

/-- The loop of `munmap` comes to a page, in the state `u`. -/
def ComesTo (start : VirtAddr) (size : BitVec 64) (s : Machine) (p : Nat) (u : Machine) : Prop :=
  ∃ lo hi, Admits start size lo hi s ∧ lo.toNat/4096 ≤ p ∧ p < hi.toNat/4096 ∧
    Fallible.forRange (fun page => releasePage (pageAddr page)) (lo.toNat/4096) (p - lo.toNat/4096) s = (.ok (), u)

/-- An address that is not translated is passed over, or the walk crashes. -/
theorem releasePage_skips {v : VirtAddr} (h : ¬ Translates v s) :
    (releasePage v s).2 = s ∧ ∀ message, (releasePage v s).1 ≠ .error (.err message) := by
  rcases hrun : translateAddress v s with ⟨e | phys, t⟩ <;>
    obtain rfl : t = s := (congrArg Prod.snd hrun).symm.trans (translateAddress_snd v s)
  · rw [releasePage]
    rcases tryOk_error hrun with he | he
    · rw [Fallible.bind_of_ok he]
      exact ⟨rfl, fun _ h => by cases h⟩
    · rw [Fallible.bind_of_error he]
      exact ⟨rfl, fun _ h => by cases h⟩
  · exact absurd ⟨phys, hrun⟩ h

theorem onRegions_rest {α : Type} (x : Fallible Regions Stop α) (s : Machine) :
    ∃ regions, (onRegions x s).2 = { s with regions := regions } := ⟨_, rfl⟩

end Machine

namespace PagingManager
open Machine (Admits ComesTo Owned SameOutcome Translates freedAddress freeAddress pageAddr releasePage)
variable {m : PagingManager} {s t u : Machine} {start : VirtAddr} {size lo hi : BitVec 64} {met : Set Nat} {p : Nat}

theorem translates_iff (hm : s.paging = some m) (hwf : m.WellFormed s.mem) {v : VirtAddr} : Translates v s ↔
    v.isCanonical m.mode = true ∧ m.rootTablePhys.toNat < 2^32 ∧ m.leaf s.mem v ≠ none := by
  by_cases hv : v.isCanonical m.mode = true
  swap
  · obtain ⟨message, he⟩ := requireCanonical_fails hv
    refine iff_of_false (fun ⟨_, h⟩ => ?_) fun h => hv h.1
    rw [Machine.translateAddress, Fallible.bind_of_ok (Machine.getPagingManager_run hm),
      Fallible.bind_of_error (he s)] at h
    cases h
  by_cases hroot : m.rootTablePhys.toNat < 2^32
  swap
  · refine iff_of_false (fun ⟨_, h⟩ => ?_) fun h => hroot h.2.1
    rw [Machine.translateAddress, Fallible.bind_of_ok (Machine.getPagingManager_run hm),
      Fallible.bind_of_ok (requireCanonical_run hv s), Machine.readLevels_eq,
      Machine.readWalk_crash v _ _ hroot] at h
    cases h
  rcases hwf.translate_run hm hroot hv with ⟨l, e, he, hrun⟩ | ⟨hnone, message, hrun⟩
  · refine iff_of_true ⟨_, hrun⟩ ⟨hv, hroot, ?_⟩
    rw [he]
    exact Option.some_ne_none _
  · refine iff_of_false (fun ⟨_, h⟩ => ?_) fun h => h.2.2 hnone
    cases hrun.symm.trans h

theorem apart_of_page_ne {v w : VirtAddr} (h : m.pageOf v ≠ m.pageOf w) : m.Apart v w := by
  obtain ⟨k, hk⟩ := Function.ne_iff.mp h
  exact ⟨k, by omega, hk⟩

theorem leaf_of_page_eq {mem : Frames} {v w : VirtAddr} (h : m.pageOf v = m.pageOf w) :
    m.leaf mem v = m.leaf mem w := by
  rw [leaf_eq_entryOf, h, ← leaf_eq_entryOf]

/-- From `s` to `t` at most the entries of these pages were cleared, and their frames and tables freed. -/
structure Swept (m : PagingManager) (met : Set Nat) (s t : Machine) : Prop where
  paging : t.paging = some m
  wellFormed : m.WellFormed t.mem
  tables : ∀ {l f}, m.Table t.mem l f → m.Table s.mem l f
  leaf : ∀ w, m.leaf t.mem w = m.leaf s.mem w ∨
    m.leaf t.mem w = none ∧ ∃ p ∈ met, m.pageOf w = m.pageOf (pageAddr p)
  free : ∀ f, FreeIn t.pmm f → FreeIn s.pmm f ∨ (∃ l, m.Table s.mem l f) ∨
    ∃ p ∈ met, m.frameOf s (m.pageOf (pageAddr p)) = some f

theorem Swept.refl (hm : s.paging = some m) (hwf : m.WellFormed s.mem) : m.Swept met s s :=
  ⟨hm, hwf, id, fun _ => .inl rfl, fun _ h => .inl h⟩

theorem Swept.gone (h : m.Swept met s t) {w : VirtAddr} (hw : m.leaf s.mem w = none) : m.leaf t.mem w = none := by
  rcases h.leaf w with he | ⟨hnone, -⟩
  · exact he.trans hw
  · exact hnone

theorem Swept.small (h : m.Swept met s t) {w : VirtAddr} (hw : m.NoHugeLeaf s.mem w) : m.NoHugeLeaf t.mem w := by
  intro l e he
  rcases h.leaf w with hsame | ⟨hnone, -⟩
  · exact hw l e (hsame.symm.trans he)
  · cases hnone.symm.trans he

/-- A page that is still translated was so from the start. -/
theorem Swept.translates (h : m.Swept met s t) (hm : s.paging = some m) (hwf : m.WellFormed s.mem) {w : VirtAddr}
    (hw : Translates w t) : Translates w s := by
  rw [translates_iff hm hwf]
  rw [translates_iff h.paging h.wellFormed] at hw
  exact ⟨hw.1, hw.2.1, fun hnone => hw.2.2 (h.gone hnone)⟩

theorem Swept.pruned (h : m.Swept met s t) (hp : p ∈ met) (hpruned : m.Pruned (pageAddr p) t u)
    (hgone : m.leaf u.mem (pageAddr p) = none) : m.Swept met s u where
  paging := hpruned.paging.trans h.paging
  wellFormed := hpruned.wellFormed
  tables hf := h.tables (hpruned.tables hf)
  leaf w := by
    by_cases hw : m.pageOf w = m.pageOf (pageAddr p)
    · exact .inr ⟨(leaf_of_page_eq hw).trans hgone, p, hp, hw⟩
    · rw [hpruned.leaf w (apart_of_page_ne (Ne.symm hw))]
      exact h.leaf w
  free f hf := by
    rcases hpruned.free f hf with hf | ⟨⟨l, hl⟩, -⟩
    · exact h.free f hf
    · exact .inr (.inl ⟨l, h.tables hl⟩)

/-- A round of the loop, whatever it returns. -/
theorem Swept.round (h : m.Swept met s t) (hm : s.paging = some m) (hwf : m.WellFormed s.mem)
    (hsmall : m.NoHugeLeaf s.mem (pageAddr p)) (hmet : Translates (pageAddr p) s → p ∈ met) :
    m.Swept met s (releasePage (pageAddr p) t).2 := by
  by_cases htr : Translates (pageAddr p) t
  swap
  · rw [(Machine.releasePage_skips htr).1]
    exact h
  have hp := hmet (h.translates hm hwf htr)
  rw [Machine.releasePage_eq]
  rcases freedAddress_run h.paging h.wellFormed (h.small hsmall) with
    ⟨r, hrun, hsome, -⟩ | ⟨e, he, ⟨err, u, hrun, hpruned, hgone⟩ | ⟨u, hrun, hc⟩⟩
  · rcases r with err | _ | addr
    · rw [Fallible.bind_of_error hrun]
      exact h
    · rw [Fallible.bind_of_ok hrun]
      exact h
    · exact absurd rfl (hsome addr)
  · rw [Fallible.bind_of_error hrun]
    exact h.pruned hp hpruned hgone
  · have hu := h.pruned hp hc.pruned hc.gone
    obtain ⟨pmm, hpmm, hfree, -⟩ := freeAddress_some (PageTableEntry.frame ⟨e⟩) u
    rw [Fallible.bind_of_ok hrun, hpmm]
    refine ⟨hu.paging, hu.wellFormed, hu.tables, hu.leaf, fun f hf => ?_⟩
    rcases hfree f hf with hf | rfl
    · exact hu.free f hf
    · have hentry : m.leaf s.mem (pageAddr p) = some (0, e) := by
        rcases h.leaf (pageAddr p) with hsame | ⟨hnone, -⟩
        · exact hsame.symm.trans he
        · cases hnone.symm.trans he
      exact .inr (.inr ⟨p, hp, frameOf_of_entry ((leaf_eq_entryOf _ _).symm.trans hentry)⟩)

/-- After its round the page is mapped no more. -/
theorem releasePage_gone (hm : s.paging = some m) (hwf : m.WellFormed s.mem) {v : VirtAddr}
    (hleaf : m.NoHugeLeaf s.mem v) (hroot : m.rootTablePhys.toNat < 2^32) (hv : v.isCanonical m.mode = true) :
    m.leaf (releasePage v s).2.mem v = none := by
  rw [releasePage]
  rcases hwf.translate_run hm hroot hv with ⟨l, e, -, hrun⟩ | ⟨hnone, message, hrun⟩
  · rw [Fallible.bind_of_ok (Machine.tryOk_ok hrun)]
    dsimp only
    have hgone := unmapPage_gone hm hwf hleaf hroot hv
    rcases hun : Machine.unmapPage v s with ⟨err | x, t⟩ <;> rw [hun] at hgone
    · rw [Fallible.bind_of_error hun]
      exact hgone
    · rw [Fallible.bind_of_ok hun]
      obtain ⟨pmm, hpmm, -⟩ := freeFrame_free (Machine.leafAddress v l ⟨e⟩).alignDown.addr.toNat t
      change m.leaf (Machine.freeFrame _ t).2.mem v = none
      rw [hpmm]
      exact hgone
  · rcases Machine.tryOk_error hrun with he | he
    · rw [Fallible.bind_of_ok he]
      exact hnone
    · rw [Fallible.bind_of_error he]
      exact hnone

/-! ### The loop -/

/-- The pages the loop comes to that were mapped before the call. -/
def metPages (start : VirtAddr) (size : BitVec 64) (s : Machine) : Set Nat :=
  {p | (∃ u, ComesTo start size s p u) ∧ Translates (pageAddr p) s}

section Loop
variable (hm : s.paging = some m) (hwf : m.WellFormed s.mem) (hadmits : Admits start size lo hi s)
  (hsmall : ∀ p u, ComesTo start size s p u → m.NoHugeLeaf s.mem (pageAddr p))
include hm hwf hadmits hsmall

/-- The first rounds of the loop. -/
theorem rounds_swept {k : Nat} (hk : k ≤ hi.toNat/4096 - lo.toNat/4096) : m.Swept (metPages start size s) s
    (Fallible.forRange (fun page => releasePage (pageAddr page)) (lo.toNat/4096) k s).2 := by
  refine Fallible.forRange_rounds (.refl hm hwf) fun j t hj hrun ht => ?_
  have hcomes : ComesTo start size s (lo.toNat/4096+j) t := by
    refine ⟨lo, hi, hadmits, Nat.le_add_right _ _, by omega, ?_⟩
    rwa [Nat.add_sub_cancel_left]
  exact ht.round hm hwf (hsmall _ t hcomes) fun htr => ⟨⟨t, hcomes⟩, htr⟩

theorem releasePages_swept : m.Swept (metPages start size s) s (Machine.releasePages lo hi s).2 :=
  rounds_swept hm hwf hadmits hsmall le_rfl

/-- A mapped page the loop comes to is mapped no more when it ends. -/
theorem releasePages_gone (hp : p ∈ metPages start size s) :
    m.leaf (Machine.releasePages lo hi s).2.mem (pageAddr p) = none := by
  obtain ⟨⟨u, hu⟩, htr⟩ := hp
  obtain ⟨hv, hroot, -⟩ := (translates_iff hm hwf).mp htr
  have hcomes := hu
  obtain ⟨lo', hi', hadmits', hlo, hhi, hrun⟩ := hu
  obtain ⟨rfl, rfl⟩ := hadmits.range.unique hadmits'.range
  -- the rounds up to that of the page, this round, and `n` more
  obtain ⟨n, hn⟩ : ∃ n, hi'.toNat/4096 - lo'.toNat/4096 = (p - lo'.toNat/4096) + (n+1) :=
    ⟨hi'.toNat/4096 - p - 1, by omega⟩
  have hfirst : lo'.toNat/4096 + (p - lo'.toNat/4096) = p := by omega
  have hswept := rounds_swept hm hwf hadmits hsmall (k := p - lo'.toNat/4096) (by omega)
  rw [hrun] at hswept
  have hround := hswept.round hm hwf (hsmall p u hcomes) fun htr => ⟨⟨u, hcomes⟩, htr⟩
  have hgone := releasePage_gone hswept.paging hswept.wellFormed (hswept.small (hsmall p u hcomes)) hroot hv
  have hloop : Machine.releasePages lo' hi' s = (releasePage (pageAddr p) >>= fun _ =>
      Fallible.forRange (fun page => releasePage (pageAddr page)) (p+1) n) u := by
    change Fallible.forRange (fun page => releasePage (pageAddr page)) _ _ s = _
    rw [hn, Fallible.forRange_add hrun, hfirst]
    rfl
  rw [hloop]
  rcases hone : releasePage (pageAddr p) u with ⟨e | x, t⟩ <;> rw [hone] at hround hgone
  · rw [Fallible.bind_of_error hone]
    exact hgone
  · rw [Fallible.bind_of_ok hone]
    have hrest : m.Swept Set.univ t (Fallible.forRange (fun page => releasePage (pageAddr page)) (p+1) n t).2 := by
      refine Fallible.forRange_rounds (.refl hround.paging hround.wellFormed) fun j t' hj hrun' ht' => ?_
      have hcomes' : ComesTo start size s (p+1+j) t' := by
        refine ⟨lo', hi', hadmits, by omega, by omega, ?_⟩
        rw [show p+1+j - lo'.toNat/4096 = (p - lo'.toNat/4096) + (j+1) by omega, Fallible.forRange_add hrun, hfirst]
        exact (Fallible.bind_of_ok hone).trans hrun'
      exact ht'.round hround.paging hround.wellFormed (hround.small (hsmall _ t' hcomes')) fun _ => trivial
    exact hrest.gone hgone

end Loop

/-! ### The call -/

/-- The addresses that are translated no more are the call's own, and so are those of the data frames it frees. -/
structure TouchesOwned (m : PagingManager) (start : VirtAddr) (size : BitVec 64) (s t : Machine) : Prop where
  mappings : ∀ v phys, (Machine.translateAddress v s).1 = .ok phys →
    Owned start size s.regions v ∨ (Machine.translateAddress v t).1 = .ok phys
  frames : ∀ f, (∀ l, ¬ m.Table s.mem l f) → ¬ FreeIn s.pmm f → FreeIn t.pmm f →
    ∃ v, Owned start size s.regions v ∧ Translates v s ∧ m.frameOf s (m.pageOf v) = some f

/-- A mapped page the loop comes to is the call's own, and so is each address that is read through the same
entries. -/
def MeetsOwned (m : PagingManager) (start : VirtAddr) (size : BitVec 64) (s : Machine) : Prop :=
  ∀ p u, ComesTo start size s p u → Translates (pageAddr p) s → ∀ w : VirtAddr, w.isCanonical m.mode = true →
    m.pageOf w = m.pageOf (pageAddr p) → Owned start size s.regions w

/-- A zero-filled region over one page. -/
def onePageRegistry : Regions := fun i =>
  if i.val = 0 then some ⟨0x400000#64, 0x401000#64, ⟨3#64⟩, .zeroFill⟩ else none

/-- None of its pages was touched yet. -/
def freshMachine : Machine := { smallMachine with regions := onePageRegistry }

theorem freshMachine_unmapped (v : VirtAddr) : smallPaging.leaf freshMachine.mem v = none := smallMachine_unmapped v

theorem freshMachine_wellFormed : smallPaging.WellFormed freshMachine.mem := smallMachine_wellFormed

theorem freshMachine_untranslated (v : VirtAddr) : ¬ Translates v freshMachine := fun h =>
  ((translates_iff rfl freshMachine_wellFormed).mp h).2.2 (freshMachine_unmapped v)

/-- The page after the region is mapped as well. -/
def neighbourMachine : Machine :=
  { (Machine.mapPage ⟨0x401000#64⟩ ⟨0x8000#64⟩ ⟨3#64⟩
      { smallMachine with pmm := some (tenFrames.taking 8 tenFrames.zones) }).2 with regions := onePageRegistry }

end PagingManager
end Nafuraito.Memory
