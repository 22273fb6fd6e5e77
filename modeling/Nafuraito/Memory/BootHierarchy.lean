import Nafuraito.Memory.ActiveTables
import Nafuraito.Memory.Pages
import Nafuraito.Memory.TableWrites

/-! The identity tables of the bootloader as a hierarchy, and what `map_page` does on them: below
4 GiB it writes into the first frame of a 2 MiB page, as if that were a page table. -/
namespace Nafuraito.Memory.Boot
open Nafuraito.Library
open PageTableEntry (kind frame)
open PhysicalMemoryManager (FreeIn)

variable {mode : PagingMode} {mem : Frames} {s t : Machine} {v : VirtAddr} {l f g : Nat} {i : Fin 512}

theorem above_le (mode : PagingMode) : above mode ≤ 2 := by cases mode <;> decide

theorem top_eq (mode : PagingMode) : mode.top = 2 + above mode := by cases mode <;> rfl

theorem pagingManager_rootFrame (mode : PagingMode) : (pagingManager mode).rootFrame = 0x10 := by
  cases mode <;> decide

/-- A link leads to the frame as far on as its index. -/
private theorem Identity.link {n : Nat} (h : Identity n mem) (hn : n < 0x100)
    (hf : TableTree.Reach kind mem (2+n) 0x10 (l+1) f) (hk : kind (l+1) (mem f i) = .link g) :
    g = f+1+i.val ∧ 0x10 ≤ f ∧ f ≤ 0x10+n ∧ (f < 0x10+n → i.val = 0) ∧ i.val < 4 := by
  rcases h.table_frames hn hf with ⟨j, hj, -, rfl⟩ | ⟨hl, g', hg', rfl⟩
  · rcases Nat.eq_or_lt_of_le hj with rfl | hlt
    · rw [h.pdpt i] at hk
      split at hk
      · obtain rfl := kind_linkTo (by omega) hk
        omega
      · exact absurd hk kind_empty
    · rw [h.upper j hlt i] at hk
      split at hk
      · obtain rfl := kind_linkTo (by omega) hk
        omega
      · exact absurd hk kind_empty
  · rw [h.directory g' hg' i] at hk
    obtain ⟨_, _, hleaf, _⟩ := PageTableEntry.kind_link.mp hk
    exact absurd ⟨by omega, hugeLeaf_huge _⟩ hleaf

theorem Identity.wellFormed (h : Identity (above mode) mem) : (pagingManager mode).WellFormed mem := by
  have hn : above mode < 0x100 := Nat.lt_of_le_of_lt (above_le mode) (by decide)
  have hlink {l f g : Nat} {i : Fin 512} (hf : (pagingManager mode).Table mem (l+1) f)
      (hk : kind (l+1) (mem f i) = .link g) : g = f+1+i.val ∧ 0x10 ≤ f ∧ f ≤ 0x10+above mode ∧
        (f < 0x10+above mode → i.val = 0) ∧ i.val < 4 := by
    rw [PagingManager.Table, pagingManager_rootFrame] at hf
    change TableTree.Reach kind mem mode.top 0x10 (l+1) f at hf
    rw [top_eq] at hf
    exact h.link hn hf hk
  refine ⟨⟨fun hf hk => ?_, fun hf hk hf' hk' => ?_⟩, fun hf hk => ?_⟩
  · rw [pagingManager_rootFrame] at hk
    have := hlink hf hk
    omega
  · obtain ⟨hg, -, hle, hzero, -⟩ := hlink hf hk
    obtain ⟨hg', -, hle', hzero', -⟩ := hlink hf' hk'
    exact ⟨by omega, Fin.ext (by omega)⟩
  · have hle := above_le mode
    have := hlink hf hk
    omega

/-- The frames of the tables. -/
theorem Identity.table_range (h : Identity (above mode) mem) (hf : (pagingManager mode).Table mem l f) :
    0x10 ≤ f ∧ f < 0x10 + tableCount mode := by
  rw [PagingManager.Table, pagingManager_rootFrame] at hf
  change TableTree.Reach kind mem mode.top 0x10 l f at hf
  rw [top_eq] at hf
  have hle := above_le mode
  rw [tableCount]
  rcases h.table_frames (by omega) hf with ⟨j, hj, -, rfl⟩ | ⟨-, g, hg, rfl⟩ <;> omega

/-- What the kernel starts on: the identity tables, in frames that are used. -/
structure Boots (mode : PagingMode) (s : Machine) : Prop where
  paging : s.paging = some (pagingManager mode)
  identity : Identity (above mode) s.mem
  used : ∀ f, 0x10 ≤ f → f < 0x10 + tableCount mode → ¬ FreeIn s.pmm f

namespace Boots
variable (h : Boots mode s)
include h

theorem shows : (pagingManager mode).Shows s ((pagingManager mode).entryOf s.mem) :=
  ⟨h.paging, h.identity.wellFormed, fun _ f hf =>
    h.used f (h.identity.table_range hf).1 (h.identity.table_range hf).2, rfl⟩

/-- Nothing is mapped past the first 4 GiB. -/
theorem entryOf_high (hv : v.SignExtended mode) (hhigh : ¬ v.addr.toNat < 0x100000000) :
    (pagingManager mode).entryOf s.mem ((pagingManager mode).pageOf v) = none := by
  rw [← PagingManager.leaf_eq_entryOf]
  obtain ⟨message, hrun⟩ := (h.identity.translateAddress_run h.paging v).2 hhigh hv
  rcases h.identity.wellFormed.translate_run h.paging (by cases mode <;> decide) hv.canonical with
    ⟨l, e, -, hok⟩ | ⟨hnone, -⟩
  · rw [hrun] at hok
    cases hok
  · exact hnone

end Boots

/-! ### `map_page` below 4 GiB -/

open PagingManager (WalkEnd walkEnd walkEndOf)

private theorem walkEnd_present {above : Nat} (hf : f < 2^20)
    (hp : PageTableEntry.isPresent ⟨mem f (v.index (l+1))⟩ = true) :
    walkEnd mem v above (l+1) (BitVec.ofNat 64 (4096*f)) =
      walkEnd mem v f l (PageTableEntry.address ⟨mem f (v.index (l+1))⟩) := by
  have hphys : (BitVec.ofNat 64 (4096*f)).toNat = 4096*f := Nat.mod_eq_of_lt (by omega)
  have hdiv : 4096*f/4096 = f := Nat.mul_div_cancel_left f (by decide)
  rw [walkEnd, hphys, hdiv, if_pos (by omega), if_pos hp]

/-- The walk goes through the 2 MiB page as through a link. -/
private theorem Identity.walkEnd_run {n : Nat} (h : Identity n mem) (hn : n < 0x100) {r : Nat} (hr : r ≤ n)
    (hin : Inside v r) (start : Nat) : ∃ pd, walkEnd mem v start (2+r) (BitVec.ofNat 64 (4096*(0x10+(n-r)))) =
      .pageTable pd (((v.index 2).val*2^30+(v.index 1).val*2^21)/4096) := by
  induction r generalizing start with
  | zero =>
    have hpdpt := h.pdpt (v.index 2)
    have hlt := hin.2
    rw [if_pos hlt] at hpdpt
    have hpd := h.directory (v.index 2).val hlt (v.index 1)
    have hidx := (v.index 1).isLt
    have haddr : (v.index 2).val*2^30+(v.index 1).val*2^21 < 2^32 := by omega
    have hphys : (BitVec.ofNat 64 ((v.index 2).val*2^30+(v.index 1).val*2^21)).toNat =
        (v.index 2).val*2^30+(v.index 1).val*2^21 := by
      rw [BitVec.toNat_ofNat]
      exact Nat.mod_eq_of_lt (by omega)
    have hlink : PageTableEntry.isPresent ⟨mem (0x10+n) (v.index (1+1))⟩ = true := by
      rw [hpdpt]
      exact linkTo_present _
    have hleaf : PageTableEntry.isPresent ⟨mem (0x11+n+(v.index 2).val) (v.index (0+1))⟩ = true := by
      rw [hpd]
      exact hugeLeaf_present _
    refine ⟨0x11+n+(v.index 2).val, ?_⟩
    rw [Nat.sub_zero, walkEnd_present (l := 1) (by omega) hlink, hpdpt, linkTo_address (by omega),
      walkEnd_present (l := 0) (by omega) hleaf, hpd, hugeLeaf_address (by omega) haddr, walkEnd, hphys, if_pos haddr]
  | succ r ih =>
    have htable := h.upper (n-(r+1)) (by omega) (v.index (3+r))
    have hnext : 0x11+(n-(r+1)) = 0x10+(n-r) := by omega
    have hindex : 2+r+1 = 3+r := by omega
    rw [hnext, if_pos (hin.1 r (by omega)), ← hindex] at htable
    obtain ⟨pd, hpd⟩ := ih (by omega) ⟨fun k hk => hin.1 k (by omega), hin.2⟩ (0x10+(n-(r+1)))
    have hlink : PageTableEntry.isPresent ⟨mem (0x10+(n-(r+1))) (v.index (2+r+1))⟩ = true := by
      rw [htable]
      exact linkTo_present _
    refine ⟨pd, ?_⟩
    rw [← Nat.add_assoc, walkEnd_present (l := 2+r) (by omega) hlink, htable, linkTo_address (by omega)]
    exact hpd

variable {p : PhysAddr} {flags : PageTableFlags}

/-- `map_page` writes its entry into the first frame of the 2 MiB page of the address. -/
theorem Boots.mapPage_low (h : Boots mode s) (hlow : v.addr.toNat < 0x100000000) (hp : p.isAligned = true)
    (flags : PageTableFlags) : Machine.mapPage v p flags s =
      (.ok (), (s.setWord (512*(v.addr.toNat/2^21)) (v.index 0) (PageTableEntry.of p.addr flags).raw).addLog
        (.invlpg v.addr)) := by
  have hv : v.SignExtended mode := by cases mode <;> simp only [VirtAddr.SignExtended] <;> omega
  have hn : above mode < 0x100 := Nat.lt_of_le_of_lt (above_le mode) (by decide)
  obtain ⟨pd, hend⟩ := h.identity.walkEnd_run hn (Nat.le_refl _) ((inside_iff hv).mpr hlow) 0
  have hframe : ((v.index 2).val*2^30+(v.index 1).val*2^21)/4096 = 512*(v.addr.toNat/2^21) := by
    rw [v.index_toNat 1, v.index_toNat 2]
    omega
  have hroot : BitVec.ofNat 64 (4096*(0x10+(above mode-above mode))) = pagingRootAddr := by rw [Nat.sub_self]; rfl
  rw [← top_eq, hroot, hframe] at hend
  have hwalk := PagingManager.mapWalk_end (s := s) (v := v) p flags 0 mode.top pagingRootAddr
  rw [hend] at hwalk
  have hcanonical : Machine.requireCanonical (pagingManager mode).mode v s = (.ok (), s) :=
    PagingManager.requireCanonical_run hv.canonical s
  rw [Machine.mapPage, Fallible.bind_of_ok (Machine.getPagingManager_run h.paging),
    Fallible.bind_of_ok (Fallible.require_run_pos _ hp s), Fallible.bind_of_ok hcanonical, Machine.mapLevels_eq]
  exact Fallible.bind_of_ok hwalk

/-- The first frame of a 2 MiB page is none of the tables, so they stay what they were. -/
theorem Boots.setWord (h : Boots mode s) (n : Nat) (i : Fin 512) (word : BitVec 64) :
    Boots mode (s.setWord (512*n) i word) where
  paging := h.paging
  identity := h.identity.of_same fun g _ hg => by
    have hle := above_le mode
    funext j
    rw [Machine.setWord_mem, if_neg fun he => by
      obtain ⟨rfl, -⟩ := Prod.mk.inj he
      omega]
  used := h.used

end Nafuraito.Memory.Boot
