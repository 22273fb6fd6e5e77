import Nafuraito.Memory.HeapContract
import Mathlib.Algebra.BigOperators.Group.Finset.Basic
import Mathlib.Algebra.Order.BigOperators.Group.Finset
import Mathlib.Algebra.Ring.Nat

/-! No page of the heap is left behind: what its pages hold adds up to the live blocks. -/
namespace Nafuraito.Memory.Heap
open Nafuraito.Library
open Slab (pageSize classSize freeListEnd)
variable {arena : HeapArena} {h h' : Heap} {live live' : List Block} {page : Nat} {layout : Layout}

/-- How many blocks a page accounts for: its objects in use, or the run that starts there. -/
def weight (h : Heap) (page : Nat) : Nat := match h.pageKind page with
  | .free => 0
  | .slab => (h.slabs page).inUse
  | .large => if h.pageHead page = page then 1 else 0

def holdings (h : Heap) : Nat := ∑ page ∈ Finset.range heapPageCount, h.weight page

/-- A free page is as after a reset, no slab page stays without an object in use, and the pages account for
as many blocks as are live. -/
structure Tidy (h : Heap) (live : List Block) : Prop where
  reset : ∀ page < heapPageCount, h.pageKind page = .free → h.pageHead page = 0xFFFF ∧ h.slabs page = .empty
  busy : ∀ page < heapPageCount, h.pageKind page = .slab → 0 < (h.slabs page).inUse
  count : h.holdings = live.length

/-! ### Counting -/

private theorem holdings_change (hlt : page < heapPageCount)
    (hother : ∀ p < heapPageCount, p ≠ page → h'.weight p = h.weight p) :
    h'.holdings + h.weight page = h.holdings + h'.weight page := by
  have hmem : page ∈ Finset.range heapPageCount := Finset.mem_range.mpr hlt
  have hrest : ∑ p ∈ (Finset.range heapPageCount).erase page, h'.weight p =
      ∑ p ∈ (Finset.range heapPageCount).erase page, h.weight p := by
    apply Finset.sum_congr rfl
    intro p hp
    obtain ⟨hne, hin⟩ := Finset.mem_erase.mp hp
    exact hother p (Finset.mem_range.mp hin) hne
  rw [holdings, holdings, ← Finset.sum_erase_add _ _ hmem, ← Finset.sum_erase_add _ _ hmem, hrest]
  omega

/-- A step that changes what one page accounts for. -/
private theorem Tidy.step (ht : h.Tidy live) (hlt : page < heapPageCount)
    (hother : ∀ p < heapPageCount, p ≠ page → h'.weight p = h.weight p)
    (hpage : h'.weight page + live.length = h.weight page + live'.length)
    (hreset : ∀ p < heapPageCount, h'.pageKind p = .free → h'.pageHead p = 0xFFFF ∧ h'.slabs p = .empty)
    (hbusy : ∀ p < heapPageCount, h'.pageKind p = .slab → 0 < (h'.slabs p).inUse) : h'.Tidy live' := by
  refine ⟨hreset, hbusy, ?_⟩
  have hsum := holdings_change hlt hother
  have hcount := ht.count
  omega

private theorem weight_eq {p q : Nat} (hkind : h'.pageKind p = h.pageKind q)
    (hhead : h'.pageHead p = p ↔ h.pageHead q = q)
    (hslab : h'.slabs p = h.slabs q) : h'.weight p = h.weight q := by
  unfold weight
  rw [hkind, hslab]
  cases h.pageKind q <;> simp [hhead]

/-- A step that changes one page only. -/
private theorem Tidy.onePage (ht : h.Tidy live) (hlt : page < heapPageCount)
    (hother : ∀ p, p ≠ page → h'.pageKind p = h.pageKind p ∧ h'.pageHead p = h.pageHead p ∧ h'.slabs p = h.slabs p)
    (hpage : h'.weight page + live.length = h.weight page + live'.length)
    (hreset : h'.pageKind page = .free → h'.pageHead page = 0xFFFF ∧ h'.slabs page = .empty)
    (hbusy : h'.pageKind page = .slab → 0 < (h'.slabs page).inUse) : h'.Tidy live' := by
  refine ht.step hlt (fun p _ hne => ?_) hpage (fun p hp hk => ?_) (fun p hp hk => ?_)
  · obtain ⟨h₁, h₂, h₃⟩ := hother p hne
    exact weight_eq h₁ (by rw [h₂]) h₃
  · by_cases hne : p = page
    · subst hne
      exact hreset hk
    · obtain ⟨h₁, h₂, h₃⟩ := hother p hne
      rw [h₂, h₃]
      exact ht.reset p hp (h₁ ▸ hk)
  · by_cases hne : p = page
    · subst hne
      exact hbusy hk
    · obtain ⟨h₁, _, h₃⟩ := hother p hne
      rw [h₃]
      exact ht.busy p hp (h₁ ▸ hk)

/-! ### Allocation -/

/-- What an allocation returns, as far as the count goes. -/
def Counts (live : List Block) (layout : Layout) (r : Nat × Heap) : Prop :=
  (r.1 = 0 ∧ r.2.Tidy live) ∨ (r.1 ≠ 0 ∧ r.2.Tidy (⟨r.1, layout⟩ :: live))

private theorem SlabOk.allocFromSlab_inUse (hs : h.SlabOk arena page) (hfree : (h.slabs page).hasFreeObjects = true)
    (pagePtr : Nat) (mem : Bytes) :
    ((h.slabs page).allocFromSlab pagePtr mem).2.inUse = (h.slabs page).inUse + 1 := by
  have hsize : classSize (h.slabs page).classIndex ≠ 0 := by
    have := hs.two_le
    rw [objSize] at this
    omega
  obtain ⟨l, _, _, _, hlen, _⟩ := hs.free_iff
  have hcap : (h.slabs page).capacity ≤ 4096 := by
    rw [hs.capacity]
    exact Nat.div_le_self _ _
  rw [SlabPage.allocFromSlab, if_neg (by simp [hfree]), if_neg hsize]
  exact Nat.min_eq_left (by omega)

/-- An object more of a slab page. -/
private theorem Tidy.takeObject (ht : h.Tidy live) (hs : h.SlabOk arena page) (hlt : page < heapPageCount)
    (hk : h.pageKind page = .slab) (hfree : (h.slabs page).hasFreeObjects = true) (b : Block) :
    (h.setSlab page ((h.slabs page).allocFromSlab (arena.pagePtr page) h.mem).2).Tidy (b :: live) := by
  have hinUse := hs.allocFromSlab_inUse hfree (arena.pagePtr page) h.mem
  generalize ((h.slabs page).allocFromSlab (arena.pagePtr page) h.mem).2 = slab at hinUse
  have hslab : (h.setSlab page slab).slabs page = slab := setSlab_self slab
  have hkind : (h.setSlab page slab).pageKind page = .slab := hk
  refine ht.onePage hlt (fun p hne => ⟨rfl, rfl, by rw [setSlab_slabs, if_neg hne]⟩) ?_ (fun hfree => ?_) fun _ => ?_
  · rw [weight, weight, hkind, hk, List.length_cons]
    dsimp only
    rw [hslab]
    omega
  · rw [hkind] at hfree
    cases hfree
  · rw [hslab]
    omega

private theorem Tidy.allocExisting (ht : h.Tidy live) (hi : h.HeapInv arena live) {classIndex : Nat} {pages : List Nat}
    (hpages : ∀ p ∈ pages, p < heapPageCount) (hpos : 0 < layout.size) (hsize : layout.size ≤ classSize classIndex)
    (halign : layout.align ≤ classSize classIndex) {r : Nat × Heap}
    (hr : h.allocExisting arena classIndex pages = some r) : Counts live layout r := by
  induction pages with
  | nil => cases hr
  | cons page rest ih =>
    rw [Heap.allocExisting] at hr
    split at hr
    · rename_i hfits
      obtain ⟨hk, _, rfl, hfree⟩ := hfits
      have hlt := hpages page List.mem_cons_self
      obtain ⟨hne, _⟩ := hi.takeObject hlt hk hfree hpos hsize halign
      simp only [if_pos hne, Option.some.injEq] at hr
      subst hr
      exact .inr ⟨hne, ht.takeObject (hi.pages.slab hlt hk) hlt hk hfree _⟩
    · exact ih (fun p hp => hpages p (List.mem_cons_of_mem page hp)) hr

private theorem kind_free (hi : h.HeapInv arena live) (hlt : page < heapPageCount) (hfree : h.isPageUsed page = false) :
    h.pageKind page = .free := by
  have hused := (hi.pages page hlt).1
  rw [hfree] at hused
  simpa using hused.symm

/-- A slab page more, with one object in use. -/
private theorem Tidy.newSlab (ht : h.Tidy live) (hi : h.HeapInv arena live) {classIndex : Nat} (hc : classIndex < 8)
    (hlt : page < heapPageCount) (hfree : h.isPageUsed page = false) (b : Block) :
    ((h.markUsed page 1).allocNewSlab arena classIndex page).2.Tidy (b :: live) := by
  rw [allocNewSlab_eq]
  obtain ⟨bitmap, hmark, _⟩ := markUsed_spec h page 1
  obtain ⟨hslab, hkind⟩ := freshSlab_page arena h page hc
  have hs := (hi.freshSlab hc hlt hfree).pages.slab hlt hkind
  have hinUse := hs.allocFromSlab_inUse (by rw [hslab]; rfl) (arena.pagePtr page)
      (h.freshSlab arena classIndex page).mem
  have hzero : ((h.freshSlab arena classIndex page).slabs page).inUse = 0 := by rw [hslab]
  have hold : h.weight page = 0 := by rw [weight, kind_free hi hlt hfree]
  generalize (((h.freshSlab arena classIndex page).slabs page).allocFromSlab (arena.pagePtr page)
    (h.freshSlab arena classIndex page).mem).2 = slab at hinUse
  have hkind' : ((h.freshSlab arena classIndex page).setSlab page slab).pageKind page = .slab := hkind
  have hslab' : ((h.freshSlab arena classIndex page).setSlab page slab).slabs page = slab := setSlab_self slab
  refine ht.onePage hlt (fun p hne => ⟨?_, ?_, ?_⟩) ?_ (fun hf => ?_) fun _ => ?_
  · refine (setKind_kind page .slab (u16 page)).trans ((if_neg hne).trans ?_)
    rw [hmark]
  · refine (setKind_head page .slab (u16 page)).trans ((if_neg hne).trans ?_)
    rw [hmark]
  · rw [setSlab_slabs, if_neg hne]
    refine (setSlab_slabs page _).trans ((if_neg hne).trans ?_)
    rw [hmark]
    rfl
  · rw [hold, weight, hkind', List.length_cons]
    dsimp only
    rw [hslab']
    omega
  · rw [hkind'] at hf
    cases hf
  · rw [hslab']
    omega

private theorem Tidy.allocSmall (ht : h.Tidy live) (hi : h.HeapInv arena live) (hpos : 0 < layout.size) :
    Counts live layout (h.allocSmall arena layout.size layout.align) := by
  rw [Heap.allocSmall]
  split
  · exact .inl ⟨rfl, ht⟩
  · rename_i classIndex hc
    obtain ⟨hlt, hsize, halign⟩ := Slab.classIndexFor_some hc
    split
    · rename_i hr
      exact ht.allocExisting hi (fun p hp => List.mem_range.mp hp) hpos hsize halign hr
    · rcases allocContiguousPages_run 1 h with ⟨page, hrun, _, hle, hfree⟩ | hrun <;> rw [hrun]
      · have hfree := hfree page ⟨Nat.le_refl _, Nat.lt_succ_self _⟩
        obtain ⟨hne, _⟩ := hi.newObject hlt (Nat.lt_of_succ_le hle) hfree hpos hsize halign
        exact .inr ⟨hne, ht.newSlab hi hlt (Nat.lt_of_succ_le hle) hfree _⟩
      · exact .inl ⟨rfl, ht⟩

/-- A run more: only its first page accounts for a block. -/
private theorem Tidy.newRun (ht : h.Tidy live) (hi : h.HeapInv arena live) {head pages : Nat} (hpos : 0 < pages)
    (hle : head + pages ≤ heapPageCount) (hfree : ∀ p, InPages head pages p → h.isPageUsed p = false) (b : Block) :
    (h.freshRun arena head pages).Tidy (b :: live) := by
  have hfields := freshRun_fields arena h hle hpos
  have hfirst : InPages head pages head := ⟨Nat.le_refl _, by omega⟩
  have hlarge (p : Nat) (hin : InPages head pages p) :
      (h.freshRun arena head pages).weight p = if head = p then 1 else 0 := by
    obtain ⟨hkind, hhead, _⟩ := hfields p
    rw [if_pos hin] at hkind hhead
    rw [weight, hkind, hhead]
  have hzero (p : Nat) (hin : InPages head pages p) : h.weight p = 0 := by
    have hlt : p < heapPageCount := Nat.lt_of_lt_of_le hin.2 hle
    rw [weight, kind_free hi hlt (hfree p hin)]
  have hlt : head < heapPageCount := by omega
  refine ht.step hlt (fun p _ hne => ?_) ?_ (fun p hp hk => ?_) fun p hp hk => ?_
  · by_cases hin : InPages head pages p
    · rw [hlarge p hin, hzero p hin, if_neg (Ne.symm hne)]
    · obtain ⟨hkind, hhead, hslab, _⟩ := hfields p
      rw [if_neg hin] at hkind hhead
      exact weight_eq hkind (by rw [hhead]) hslab
  · rw [hlarge head hfirst, hzero head hfirst, if_pos rfl, List.length_cons]
    omega
  · obtain ⟨hkind, hhead, hslab, _⟩ := hfields p
    rw [hk] at hkind
    split at hkind
    · cases hkind
    · rename_i hout
      rw [hhead, hslab, if_neg hout]
      exact ht.reset p hp hkind.symm
  · obtain ⟨hkind, _, hslab, _⟩ := hfields p
    rw [hk] at hkind
    split at hkind
    · cases hkind
    · rw [hslab]
      exact ht.busy p hp hkind.symm

private theorem Tidy.allocLarge (ht : h.Tidy live) (hi : h.HeapInv arena live) (hpos : 0 < layout.size) :
    Counts live layout (h.allocLarge arena layout.size layout.align) := by
  obtain ⟨_, hroom⟩ := largePages_spec hpos
  obtain hnone | ⟨head, hpages, hle, hfree, hrun⟩ := allocLarge_run arena layout.size layout.align h
  · rw [hnone]
    exact .inl ⟨rfl, ht⟩
  · rw [hrun]
    exact .inr ⟨(hi.newRun hpos hpages hle hfree hroom).1, ht.newRun hi hpages hle hfree _⟩

theorem Tidy.heapAlloc (ht : h.Tidy live) (hi : h.HeapInv arena live) (layout : Layout) :
    Counts live layout (h.heapAlloc arena layout) := by
  rw [Heap.heapAlloc, if_neg (by simp [hi.ready]), allocInner]
  split
  · exact .inl ⟨rfl, ht⟩
  · rename_i hsize
    have hpos := Nat.pos_of_ne_zero hsize
    split
    · have hsmall : Counts live layout _ := ht.allocSmall hi hpos
      have hgives : Gives arena live layout _ := hi.allocSmall hpos
      dsimp only
      split
      · exact hsmall
      · rename_i hnull
        rcases hsmall with ⟨_, ht'⟩ | ⟨hne, _⟩
        · rcases hgives with ⟨_, hi'⟩ | ⟨hne, _⟩
          · exact ht'.allocLarge hi' hpos
          · exact absurd hne hnull
        · exact absurd hne hnull
    · exact ht.allocLarge hi hpos

/-! ### Freeing -/

/-- An object less; the page goes with the last one. -/
private theorem Tidy.freeSlabObject (ht : h.Tidy live) (hs : h.SlabOk arena page) (hlt : page < heapPageCount)
    (hk : h.pageKind page = .slab) {index : Nat} (hindex : index < (h.slabs page).capacity)
    (hcount : live'.length + 1 = live.length) :
    (h.freeSlabObject arena page (arena.pagePtr page + index*h.objSize page)).Tidy live' := by
  have hbusy := ht.busy page hlt hk
  have hother (p : Nat) (hne : p ≠ page) : (h.returned arena page index).slabs p = h.slabs p :=
    (setSlab_slabs page _).trans (if_neg hne)
  have hkind : (h.returned arena page index).pageKind page = .slab := hk
  rw [Heap.freeSlabObject, if_neg (Nat.not_le.mpr hlt), hs.freeToSlab_run hindex]
  change Tidy (if !true then _ else if _ then (h.returned arena page index).freeContiguousPages page 1
    else h.returned arena page index) live'
  rw [if_neg (by decide)]
  split
  · rename_i hempty
    rw [SlabPage.isEmpty, Bool.and_eq_true, beq_iff_eq] at hempty
    have hone : (h.slabs page).inUse = 1 := by
      have := hempty.2
      dsimp only at this
      omega
    obtain ⟨_, _, hspec⟩ := releasePages_spec (h.returned arena page index) page 1
    have hcount' : (h.returned arena page index).freeContiguousPages page 1 =
        (List.range 1).foldl (fun h i => h.releasePage (page+i)) (h.returned arena page index) := by
      rw [freeContiguousPages, Nat.min_eq_left (by omega)]
    obtain ⟨_, hfree, hhead, hslab⟩ := (hspec page).1 ⟨Nat.le_refl _, Nat.lt_succ_self _⟩
    rw [hcount']
    refine ht.onePage hlt (fun p hne => ?_) ?_ (fun _ => ⟨hhead, hslab⟩) fun hk' => ?_
    · obtain ⟨_, h₁, h₂, h₃⟩ := (hspec p).2 (by unfold InPages; omega)
      exact ⟨h₁, h₂, h₃.trans (hother p hne)⟩
    · rw [weight, weight, hfree, hk]
      dsimp only
      omega
    · rw [hfree] at hk'
      cases hk'
  · rename_i hempty
    have hpos : 0 < (h.slabs page).inUse - 1 := by
      rw [SlabPage.isEmpty, hs.active, Bool.true_and, beq_iff_eq] at hempty
      exact Nat.pos_of_ne_zero hempty
    refine ht.onePage hlt (fun p hne => ⟨rfl, rfl, hother p hne⟩) ?_ (fun hk' => ?_) fun _ => ?_
    · rw [weight, weight, hkind, hk, returned_slab]
      dsimp only
      omega
    · rw [hkind] at hk'
      cases hk'
    · rw [returned_slab]
      exact hpos

/-- A run less, with all its pages. -/
private theorem Tidy.freeLargeRun (ht : h.Tidy live) {head : Nat} (hr : h.RunOk arena head)
    (hcount : live'.length + 1 = live.length) : (h.freeLargeRun arena head).Tidy live' := by
  have hpos := hr.pos
  have hle := hr.stop_le
  have hlt : head < heapPageCount := by omega
  obtain ⟨_, _, hspec⟩ := releasePages_spec h head (h.runPages arena head)
  rw [Heap.freeLargeRun, if_neg (Nat.not_le.mpr hlt), if_neg (not_not.mpr hr.magic), freeContiguousPages]
  change Tidy ((List.range (min (h.runPages arena head) _)).foldl _ h) live'
  rw [Nat.min_eq_left (by omega)]
  have hlarge (p : Nat) (hin : InPages head (h.runPages arena head) p) : h.weight p = if head = p then 1 else 0 := by
    obtain ⟨hk, hh⟩ := hr.pages p hin.1 hin.2
    rw [weight, hk, hh]
  refine ht.step hlt (fun p _ hne => ?_) ?_ (fun p hp hk => ?_) fun p hp hk => ?_
  · by_cases hin : InPages head (h.runPages arena head) p
    · rw [weight, ((hspec p).1 hin).2.1, hlarge p hin, if_neg (Ne.symm hne)]
    · obtain ⟨_, hkind, hhead, hslab⟩ := (hspec p).2 hin
      exact weight_eq hkind (by rw [hhead]) hslab
  · have hin : InPages head (h.runPages arena head) head := ⟨Nat.le_refl _, by omega⟩
    rw [weight, ((hspec head).1 hin).2.1, hlarge head hin, if_pos rfl]
    dsimp only
    omega
  · by_cases hin : InPages head (h.runPages arena head) p
    · exact ((hspec p).1 hin).2.2
    · obtain ⟨_, hkind, hhead, hslab⟩ := (hspec p).2 hin
      rw [hhead, hslab]
      exact ht.reset p hp (hkind ▸ hk)
  · by_cases hin : InPages head (h.runPages arena head) p
    · rw [((hspec p).1 hin).2.1] at hk
      cases hk
    · obtain ⟨_, hkind, _, hslab⟩ := (hspec p).2 hin
      rw [hslab]
      exact ht.busy p hp (hkind ▸ hk)

theorem Tidy.heapDealloc {l₁ l₂ : List Block} {b : Block} (ht : h.Tidy (l₁ ++ b :: l₂))
    (hi : h.HeapInv arena (l₁ ++ b :: l₂)) : (h.heapDealloc arena b.ptr).Tidy (l₁ ++ l₂) := by
  have hcount : (l₁ ++ l₂).length + 1 = (l₁ ++ b :: l₂).length := by
    simp only [List.length_append, List.length_cons]
    omega
  obtain ⟨c, hc, _, hf, _, heq⟩ := hi.heapDealloc_eq
  rw [heq]
  cases c with
  | object page index =>
    dsimp only
    rw [hf.object page index rfl]
    exact ht.freeSlabObject (hi.pages.slab hc.1 hc.2.1) hc.1 hc.2.1 hc.2.2 hcount
  | run head =>
    have hr := hi.pages.run hc.1 hc.2.1
    rw [hc.2.2] at hr
    exact ht.freeLargeRun hr hcount

/-! ### Runs -/

theorem heapInit_tidy (h : Heap) : h.heapInit.Tidy [] := by
  have hkind (page : Nat) (hlt : page < heapPageCount) : h.heapInit.pageKind page = .free := if_pos hlt
  refine ⟨fun page hlt _ => ⟨if_pos hlt, if_pos hlt⟩, fun page hlt hk => ?_, ?_⟩
  · rw [hkind page hlt] at hk
    cases hk
  · apply Finset.sum_eq_zero
    intro page hp
    rw [weight, hkind page (Finset.mem_range.mp hp)]

theorem HeapRun.tidy (hr : HeapRun arena h live) : h.Tidy live := by
  induction hr with
  | init h => exact heapInit_tidy h
  | alloc layout hr hne ih => exact ((ih.heapAlloc hr.inv layout).resolve_left fun hnull => hne hnull.1).2
  | allocNull layout hr hnull ih => exact ((ih.heapAlloc hr.inv layout).resolve_right fun hne => hne.1 hnull).2
  | dealloc b hr ih => exact ih.heapDealloc hr.inv
  | store b mem _ _ _ ih => exact ⟨ih.reset, ih.busy, ih.count⟩

/-- The page is one of the block's: the slab page of its object, or a page of its run. -/
def Uses (arena : HeapArena) (h : Heap) (b : Block) (page : Nat) : Prop := match h.cellAt arena b.ptr with
  | .object p _ => page = p
  | .run head => head ≤ page ∧ page < head + h.runPages arena head

/-- No page has more cells in use than it accounts for. -/
private theorem cells_le (hp : h.PagesOk arena) (cells : Finset Cell)
    (hcells : ∀ c ∈ cells, h.HasCell c ∧ h.NotFree arena c) (hlt : page < heapPageCount) :
    (cells.filter fun c => c.firstPage = page).card ≤ h.weight page := by
  cases hk : h.pageKind page with
  | free =>
    have hnone : cells.filter (fun c => c.firstPage = page) = ∅ := by
      apply Finset.filter_false_of_mem
      rintro c hc rfl
      have hcell := (hcells c hc).1
      cases c <;> exact absurd (hk.symm.trans hcell.2.1) (by decide)
    rw [hnone, Finset.card_empty]
    exact Nat.zero_le _
  | slab =>
    obtain ⟨l, hnodup, hl, _, hlen, hiff⟩ := (hp.slab hlt hk).free_iff
    have hsub : cells.filter (fun c => c.firstPage = page) ⊆
        (Finset.range (h.slabs page).capacity \ l.toFinset).image (Cell.object page) := by
      intro c hc
      obtain ⟨hin, hpage⟩ := Finset.mem_filter.mp hc
      obtain ⟨hcell, hn⟩ := hcells c hin
      obtain ⟨i, rfl⟩ := hcell.of_slab hpage hk
      refine Finset.mem_image_of_mem _ (Finset.mem_sdiff.mpr ⟨Finset.mem_range.mpr hcell.2.2, fun hfree => ?_⟩)
      exact hn page i rfl ((hiff i).mpr (List.mem_toFinset.mp hfree))
    have hfree : l.toFinset ⊆ Finset.range (h.slabs page).capacity := fun i hi =>
      Finset.mem_range.mpr (hl i (List.mem_toFinset.mp hi))
    have hcard := (Finset.card_le_card hsub).trans Finset.card_image_le
    rw [Finset.card_sdiff_of_subset hfree, Finset.card_range, List.toFinset_card_of_nodup hnodup] at hcard
    rw [weight, hk]
    dsimp only
    omega
  | large =>
    have hsub : cells.filter (fun c => c.firstPage = page) ⊆ if h.pageHead page = page then {.run page} else ∅ := by
      intro c hc
      obtain ⟨hin, rfl⟩ := Finset.mem_filter.mp hc
      have hcell := (hcells c hin).1
      cases c with
      | object p i => exact absurd (hk.symm.trans hcell.2.1) (by decide)
      | run head =>
        have hself : h.pageHead (Cell.run head).firstPage = (Cell.run head).firstPage := hcell.2.2
        rw [if_pos hself, Finset.mem_singleton]
        rfl
    have hcard := Finset.card_le_card hsub
    rw [weight, hk]
    dsimp only
    split at hcard
    · rename_i hself
      rwa [if_pos hself]
    · rename_i hself
      rwa [if_neg hself]

/-- Every cell in use belongs to a live block: there are as many blocks as the pages can hold. -/
theorem Tidy.exists_owner (ht : h.Tidy live) (hi : h.HeapInv arena live) {c : Cell} (hc : h.HasCell c)
    (hn : h.NotFree arena c) : ∃ b ∈ live, h.Fills arena c b := by
  obtain ⟨owned, rfl, hnodup, hcells⟩ := hi.owned
  by_contra hnone
  have hnew : c ∉ (owned.map Prod.fst).toFinset := by
    rw [List.mem_toFinset]
    intro hin
    obtain ⟨o, ho, rfl⟩ := List.mem_map.mp hin
    exact hnone ⟨o.2, List.mem_map_of_mem ho, (hcells o ho).2.2.2⟩
  have hused : ∀ c' ∈ insert c (owned.map Prod.fst).toFinset, h.HasCell c' ∧ h.NotFree arena c' := by
    intro c' hin
    rcases Finset.mem_insert.mp hin with rfl | hin
    · exact ⟨hc, hn⟩
    · obtain ⟨o, ho, rfl⟩ := List.mem_map.mp (List.mem_toFinset.mp hin)
      exact ⟨(hcells o ho).2.1, (hcells o ho).2.2.1⟩
  have hpages : ∀ c' ∈ insert c (owned.map Prod.fst).toFinset, c'.firstPage ∈ Finset.range heapPageCount :=
    fun c' hin => Finset.mem_range.mpr (hused c' hin).1.firstPage_lt
  have hcard : (insert c (owned.map Prod.fst).toFinset).card ≤ h.holdings := by
    rw [Finset.card_eq_sum_card_fiberwise hpages]
    exact Finset.sum_le_sum fun p hp => cells_le hi.pages _ hused (Finset.mem_range.mp hp)
  rw [Finset.card_insert_of_notMem hnew, List.toFinset_card_of_nodup hnodup, ht.count, List.length_map,
    List.length_map] at hcard
  omega

private theorem SlabOk.exists_used (hs : h.SlabOk arena page) (hbusy : 0 < (h.slabs page).inUse) :
    ∃ index < (h.slabs page).capacity, ¬ h.FreeObject arena page index := by
  obtain ⟨l, _, _, _, hlen, hiff⟩ := hs.free_iff
  by_contra hall
  push Not at hall
  have hsub : List.range (h.slabs page).capacity ⊆ l := fun i hin => (hiff i).mp (hall i (List.mem_range.mp hin))
  have hle := (List.nodup_range.subperm hsub).length_le
  rw [List.length_range] at hle
  omega

private theorem Tidy.used_iff (ht : h.Tidy live) (hi : h.HeapInv arena live) (hlt : page < heapPageCount) :
    h.isPageUsed page = true ↔ ∃ b ∈ live, h.Uses arena b page := by
  have hused : h.isPageUsed page = true ↔ h.pageKind page ≠ .free := by
    rw [(hi.pages page hlt).1, decide_eq_true_eq]
  rw [hused]
  constructor
  · intro hne
    cases hk : h.pageKind page with
    | free => exact absurd hk hne
    | slab =>
      obtain ⟨i, hindex, hn⟩ := (hi.pages.slab hlt hk).exists_used (ht.busy page hlt hk)
      have hc : h.HasCell (.object page i) := ⟨hlt, hk, hindex⟩
      obtain ⟨b, hb, hf⟩ := ht.exists_owner hi hc (by rintro _ _ ⟨⟩; exact hn)
      exact ⟨b, hb, by rw [Uses, hf.cellAt_eq hi.pages hc]⟩
    | large =>
      obtain ⟨hc, hlo, hhi⟩ := hi.pages.run_cell hlt hk
      obtain ⟨b, hb, hf⟩ := ht.exists_owner hi hc (by rintro _ _ ⟨⟩)
      exact ⟨b, hb, by rw [Uses, hf.cellAt_eq hi.pages hc]; exact ⟨hlo, hhi⟩⟩
  · rintro ⟨b, hb, huses⟩
    obtain ⟨owned, rfl, _, hcells⟩ := hi.owned
    obtain ⟨⟨c, b⟩, ho, rfl⟩ := List.mem_map.mp hb
    obtain ⟨_, hcell, _, hf⟩ := hcells _ ho
    rw [Uses, hf.cellAt_eq hi.pages hcell] at huses
    cases c with
    | object p i =>
      obtain rfl : page = p := huses
      rw [hcell.2.1]
      decide
    | run head =>
      have hr := hi.pages.run hcell.1 hcell.2.1
      rw [hcell.2.2] at hr
      rw [(hr.pages page huses.1 huses.2).1]
      decide

/-- The two heaps have the same bitmap, page kinds and heads and slab metadata. -/
def SameBookkeeping (h h' : Heap) : Prop :=
  (∀ i < heapPageCount/8, h.pageBitmap i = h'.pageBitmap i) ∧ ∀ page < heapPageCount,
    h.pageKind page = h'.pageKind page ∧ h.pageHead page = h'.pageHead page ∧ h.slabs page = h'.slabs page

private theorem Tidy.reset_of_nil (ht : h.Tidy []) (hi : h.HeapInv arena []) (h₀ : Heap) :
    SameBookkeeping h h₀.heapInit := by
  have hunused (page : Nat) (hlt : page < heapPageCount) : h.isPageUsed page = false := by
    rw [← Bool.not_eq_true, ht.used_iff hi hlt]
    simp
  constructor
  · intro i hlt
    have hzero : h₀.heapInit.pageBitmap i = 0#8 := if_pos hlt
    rw [hzero]
    by_contra hne
    obtain ⟨bit, hbit, hon⟩ := Bitmap.exists_set hne
    have hcount : heapPageCount = 1024 := rfl
    have hoff := hunused (8*i+bit) (by omega)
    rw [isPageUsed, show (8*i+bit)/8 = i by omega, show (8*i+bit)%8 = bit by omega, hon] at hoff
    cases hoff
  · intro page hlt
    have hfree := kind_free hi hlt (hunused page hlt)
    obtain ⟨hhead, hslab⟩ := ht.reset page hlt hfree
    rw [hfree, hhead, hslab]
    exact ⟨(if_pos hlt).symm, (if_pos hlt).symm, (if_pos hlt).symm⟩

/-- After any run the used pages are those of the live blocks, and once there are none the bookkeeping is
that of a reset heap. -/
theorem heapRun_noLeak (hr : HeapRun arena h live) :
    (∀ page < heapPageCount, h.isPageUsed page = true ↔ ∃ b ∈ live, h.Uses arena b page) ∧
    (live = [] → ∀ h₀ : Heap, SameBookkeeping h h₀.heapInit) := by
  refine ⟨fun page hlt => hr.tidy.used_iff hr.inv hlt, ?_⟩
  rintro rfl h₀
  exact hr.tidy.reset_of_nil hr.inv h₀

/-- A word allocated and freed again. -/
theorem heapRun_noLeak_one : ∃ h, HeapRun arenaAt h [] ∧ h.mem ≠ zeroHeap.mem ∧
    SameBookkeeping h zeroHeap.heapInit := by
  have hword : (zeroHeap.heapInit.heapAlloc arenaAt wordLayout).1 = 0x100000 := by decide +kernel
  have hbyte : ((zeroHeap.heapInit.heapAlloc arenaAt wordLayout).2.heapDealloc arenaAt 0x100000).mem 0x100000 = 1 := by
    decide +kernel
  generalize hr : zeroHeap.heapInit.heapAlloc arenaAt wordLayout = r at hword hbyte
  have hrun : HeapRun arenaAt r.2 ([] ++ ⟨r.1, wordLayout⟩ :: []) := by
    subst hr
    exact .alloc wordLayout (.init zeroHeap) (by rw [hword]; decide)
  have hfreed : HeapRun arenaAt (r.2.heapDealloc arenaAt r.1) [] := hrun.dealloc
  rw [hword] at hfreed
  refine ⟨_, hfreed, fun he => ?_, (heapRun_noLeak hfreed).2 rfl zeroHeap⟩
  rw [he] at hbyte
  cases hbyte

end Nafuraito.Memory.Heap
