import Nafuraito.Memory.HeapMemory
import Nafuraito.Memory.HeapPages

/-! Frees of pointers that are no live block: which of them the heap ignores. -/
namespace Nafuraito.Memory.Heap
open Nafuraito.Library
open Slab (pageSize classSize freeListEnd)
variable {arena : HeapArena} {h h' : Heap} {live : List Block} {page index ptr : Nat}

/-- The free list of a page is `l`, from the head to the end. -/
def FreeList (arena : HeapArena) (h : Heap) (page : Nat) (l : List Nat) : Prop :=
  FreeChain (h.link arena page) freeListEnd (h.slabs page).freeHead l

/-- `h'` has the bitmap, the slab metadata and the free lists of `h`, and every live block where it was, with the
same bytes. -/
structure Unharmed (arena : HeapArena) (live : List Block) (h h' : Heap) : Prop where
  pageBitmap : h'.pageBitmap = h.pageBitmap
  slabs : h'.slabs = h.slabs
  freeLists : ∀ page l, h'.FreeList arena page l ↔ h.FreeList arena page l
  blocks : ∀ b ∈ live, h'.blockBytes arena b = h.blockBytes arena b ∧
    ∀ addr ∈ h.blockBytes arena b, h'.mem addr = h.mem addr

/-- The pointer is the start of an object on the free list of its page. -/
def AtFreeObject (arena : HeapArena) (h : Heap) (ptr : Nat) : Prop :=
  ∃ page index, h.HasCell (.object page index) ∧ h.FreeObject arena page index ∧
    ptr = h.cellStart arena (.object page index)

/-- The pointer is somewhere in the pages of a large block: in its header, its padding or its bytes. -/
def InRunOf (arena : HeapArena) (h : Heap) (b : Block) (ptr : Nat) : Prop := match h.cellAt arena b.ptr with
  | .object _ _ => False
  | .run head => arena.pagePtr head ≤ ptr ∧ ptr < h.cellStop arena (.run head)

theorem not_inRunOf {b : Block} (hcell : h.cellAt arena b.ptr = .object page index) : ¬ InRunOf arena h b ptr := by
  rw [InRunOf, hcell]
  exact id

theorem Unharmed.refl (arena : HeapArena) (live : List Block) (h : Heap) : Unharmed arena live h h :=
  ⟨rfl, rfl, fun _ _ => Iff.rfl, fun _ _ => ⟨rfl, fun _ _ => rfl⟩⟩

/-! ### What is ignored -/

/-- `free_to_slab` rejects what is not the start of an object. -/
theorem SlabOk.freeToSlab_inside (hs : h.SlabOk arena page) (hlo : arena.pagePtr page ≤ ptr)
    (hhi : ptr < arena.pagePtr (page+1)) (hoff : (ptr - arena.pagePtr page) % h.objSize page ≠ 0) :
    (h.slabs page).freeToSlab (arena.pagePtr page) ptr h.mem = (false, h.slabs page, h.mem) := by
  have htwo := hs.two_le
  have hbase := arena.base_pos
  have hlow : arena.base ≤ arena.pagePtr page := Nat.le_add_right _ _
  have hsize : classSize (h.slabs page).classIndex = h.objSize page := rfl
  rw [arena.pagePtr_succ] at hhi
  rw [SlabPage.freeToSlab, if_neg (by omega), if_neg (by simp [hs.active])]
  simp only [hsize]
  rw [if_neg (by omega), if_neg (by omega), if_pos hoff]

theorem SlabOk.freeSlabObject_inside (hs : h.SlabOk arena page) (hlt : page < heapPageCount)
    (hlo : arena.pagePtr page ≤ ptr) (hhi : ptr < arena.pagePtr (page+1))
    (hoff : (ptr - arena.pagePtr page) % h.objSize page ≠ 0) : h.freeSlabObject arena page ptr = h := by
  rw [Heap.freeSlabObject, if_neg (Nat.not_le.mpr hlt), hs.freeToSlab_inside hlo hhi hoff]
  change { h with slabs := Function.update h.slabs page (h.slabs page) } = h
  rw [Function.update_eq_self]

/-- The address of an object's start, from its offset in the page. -/
theorem SlabOk.object_at (hs : h.SlabOk arena page) (hlo : arena.pagePtr page ≤ ptr)
    (hhi : ptr < arena.pagePtr (page+1)) (hoff : (ptr - arena.pagePtr page) % h.objSize page = 0) :
    ∃ index < (h.slabs page).capacity, ptr = h.cellStart arena (.object page index) := by
  refine ⟨(ptr - arena.pagePtr page) / h.objSize page, ?_, ?_⟩
  · rw [arena.pagePtr_succ] at hhi
    rw [Nat.div_lt_iff_lt_mul (by have := hs.two_le; omega), hs.full]
    omega
  · rw [cellStart, Nat.div_mul_cancel (Nat.dvd_of_mod_eq_zero hoff)]
    omega

/-- A pointer that is no live block, at no free object and in no large block changes nothing. -/
theorem HeapRun.heapDealloc_ignored (hr : HeapRun arena h live) (hptr : ∀ b ∈ live, b.ptr ≠ ptr)
    (hfree : ¬ AtFreeObject arena h ptr) (hrun : ∀ b ∈ live, ¬ InRunOf arena h b ptr) :
    h.heapDealloc arena ptr = h := by
  have hi := hr.inv
  by_cases hin : ptr ∈ Set.Ico arena.base (arena.base + heapSize)
  · have hpage : (ptr - arena.base) / pageSize < heapPageCount ∧
        arena.pagePtr ((ptr - arena.base) / pageSize) ≤ ptr ∧
        ptr < arena.pagePtr ((ptr - arena.base) / pageSize + 1) := by
      simp only [HeapArena.pagePtr, heapPageCount, heapSize, pageSize, Set.mem_Ico] at *
      omega
    obtain ⟨hlt, hlo, hhi⟩ := hpage
    rw [heapDealloc_page hi.ready hlt hlo hhi]
    generalize (ptr - arena.base) / pageSize = page at hlt hlo hhi
    cases hk : h.pageKind page with
    | free => rfl
    | slab =>
      have hs := hi.pages.slab hlt hk
      dsimp only
      rw [hs.head]
      refine hs.freeSlabObject_inside hlt hlo hhi fun hoff => ?_
      -- The object at the pointer is not free, so a live block starts there.
      obtain ⟨index, hindex, hstart⟩ := hs.object_at hlo hhi hoff
      have hc : h.HasCell (.object page index) := ⟨hlt, hk, hindex⟩
      have hn : h.NotFree arena (.object page index) := by
        rintro _ _ ⟨⟩ hobject
        exact hfree ⟨page, index, hc, hobject, hstart⟩
      obtain ⟨b, hb, hf⟩ := hr.tidy.exists_owner hi hc hn
      exact hptr b hb ((hf.object page index rfl).trans hstart.symm)
    | large =>
      obtain ⟨hc, hfrom, hto⟩ := hi.pages.run_cell hlt hk
      obtain ⟨b, hb, hf⟩ := hr.tidy.exists_owner hi hc (by rintro _ _ ⟨⟩)
      refine absurd ?_ (hrun b hb)
      rw [InRunOf, hf.cellAt_eq hi.pages hc]
      change arena.pagePtr _ ≤ ptr ∧ ptr < arena.pagePtr (_ + h.runPages arena _)
      simp only [HeapArena.pagePtr, pageSize] at *
      omega
  · exact heapDealloc_outside h hin

/-! ### What is not -/

/-- Whether the object is in use or not, `free_to_slab` takes it back: the count goes down, and the page is given
up if it was at one. -/
theorem HeapRun.heapDealloc_object_slab (hr : HeapRun arena h live) (hc : h.HasCell (.object page index)) :
    (h.heapDealloc arena (h.cellStart arena (.object page index))).slabs page ≠ h.slabs page := by
  have hi := hr.inv
  have hs := hi.pages.slab hc.1 hc.2.1
  have hbusy := hr.tidy.busy page hc.1 hc.2.1
  rw [hi.heapDealloc_object hc, cellStart, Heap.freeSlabObject, if_neg (Nat.not_le.mpr hc.1),
    hs.freeToSlab_run hc.2.2]
  change (if !true then _ else if _ then (h.returned arena page index).freeContiguousPages page 1
    else h.returned arena page index).slabs page ≠ _
  rw [if_neg (by decide)]
  split
  · have hone : min 1 (heapPageCount - page) = 1 := by
      have := hc.1
      omega
    obtain ⟨_, _, hspec⟩ := releasePages_spec (h.returned arena page index) page 1
    obtain ⟨_, _, _, hslab⟩ := (hspec page).1 ⟨Nat.le_refl _, Nat.lt_succ_self _⟩
    rw [freeContiguousPages, hone, hslab]
    intro he
    have hactive := hs.active
    rw [← he] at hactive
    cases hactive
  · rw [returned_slab]
    intro he
    have hcount := congrArg SlabPage.inUse he
    dsimp only at hcount
    omega

/-- Any address in the pages of a large block gives the pages back. -/
theorem HeapInv.heapDealloc_run_unused (hi : h.HeapInv arena live) {head : Nat} (hc : h.HasCell (.run head))
    (hlo : arena.pagePtr head ≤ ptr) (hhi : ptr < h.cellStop arena (.run head)) :
    h.isPageUsed head = true ∧ (h.heapDealloc arena ptr).isPageUsed head = false := by
  have hr := hi.pages.run hc.1 hc.2.1
  rw [hc.2.2] at hr
  have hpos := hr.pos
  have hle := hr.stop_le
  constructor
  · rw [(hi.pages head hc.1).1, hc.2.1]
    rfl
  · rw [hi.heapDealloc_run hc hlo hhi, Heap.freeLargeRun, if_neg (Nat.not_le.mpr hc.1),
      if_neg (fun hne => hne hr.magic)]
    have hcount : min (h.runPages arena head) (heapPageCount - head) = h.runPages arena head := by omega
    obtain ⟨_, _, hspec⟩ := releasePages_spec h head (h.runPages arena head)
    rw [freeContiguousPages, ← runPages, hcount]
    exact ((hspec head).1 ⟨Nat.le_refl _, by omega⟩).1

/-- After any run a free of a pointer that is no live block leaves the bookkeeping, the free lists and the live
blocks alone exactly if no free object starts there and no large block has it in its pages. -/
theorem heapDealloc_unharmed_iff (hr : HeapRun arena h live) (hptr : ∀ b ∈ live, b.ptr ≠ ptr) :
    Unharmed arena live h (h.heapDealloc arena ptr) ↔
      ¬ AtFreeObject arena h ptr ∧ ∀ b ∈ live, ¬ InRunOf arena h b ptr := by
  constructor
  · intro hu
    refine ⟨?_, fun b hb hin => ?_⟩
    · rintro ⟨page, index, hc, _, rfl⟩
      exact hr.heapDealloc_object_slab hc (congrFun hu.slabs page)
    · obtain ⟨owned, rfl, _, hcells⟩ := hr.inv.owned
      obtain ⟨⟨c, b⟩, ho, rfl⟩ := List.mem_map.mp hb
      obtain ⟨_, hc, _, hf⟩ := hcells _ ho
      rw [InRunOf, hf.cellAt_eq hr.inv.pages hc] at hin
      cases c with
      | object page index => exact hin
      | run head =>
        obtain ⟨hused, hunused⟩ := hr.inv.heapDealloc_run_unused hc hin.1 hin.2
        rw [isPageUsed, hu.pageBitmap] at hunused
        rw [isPageUsed, hunused] at hused
        cases hused
  · rintro ⟨hfree, hrun⟩
    rw [hr.heapDealloc_ignored hptr hfree hrun]
    exact .refl arena live h

/-! ### A word freed twice -/

/-- Two words were allocated, the first is freed. -/
def secondWordHeap : Heap :=
  ((zeroHeap.heapInit.heapAlloc arenaAt wordLayout).2.heapAlloc arenaAt wordLayout).2.heapDealloc arenaAt 0x100000

def secondWord : Block := ⟨0x100020, wordLayout⟩

private theorem secondWordHeap_run : HeapRun arenaAt secondWordHeap [secondWord] := by
  have hfirst : (zeroHeap.heapInit.heapAlloc arenaAt wordLayout).1 = 0x100000 := by decide +kernel
  have hsecond : ((zeroHeap.heapInit.heapAlloc arenaAt wordLayout).2.heapAlloc arenaAt wordLayout).1 = 0x100020 := by
    decide +kernel
  have hrun₁ : HeapRun arenaAt (zeroHeap.heapInit.heapAlloc arenaAt wordLayout).2 [⟨0x100000, wordLayout⟩] := by
    rw [← hfirst]
    exact .alloc wordLayout (.init zeroHeap) (by rw [hfirst]; decide)
  have hrun₂ : HeapRun arenaAt ((zeroHeap.heapInit.heapAlloc arenaAt wordLayout).2.heapAlloc arenaAt wordLayout).2
      ([secondWord] ++ ⟨0x100000, wordLayout⟩ :: []) := by
    rw [secondWord, ← hsecond]
    exact .alloc wordLayout hrun₁ (by rw [hsecond]; decide)
  exact hrun₂.dealloc

private theorem secondWordHeap_page : secondWordHeap.isPageUsed 0 = true ∧
    (secondWordHeap.heapDealloc arenaAt 0x100000).isPageUsed 0 = false := by
  constructor <;> decide +kernel

private theorem secondWord_cell : secondWordHeap.cellAt arenaAt secondWord.ptr = .object 0 1 := by decide +kernel

/-- Freeing the first word again gives up the page of the second. -/
theorem secondWordHeap_freedTwice : HeapRun arenaAt secondWordHeap [secondWord] ∧
    (∀ b ∈ [secondWord], b.ptr ≠ 0x100000) ∧
    ¬ Unharmed arenaAt [secondWord] secondWordHeap (secondWordHeap.heapDealloc arenaAt 0x100000) := by
  refine ⟨secondWordHeap_run, by decide, fun hu => ?_⟩
  obtain ⟨hused, hunused⟩ := secondWordHeap_page
  rw [isPageUsed, hu.pageBitmap] at hunused
  exact Bool.false_ne_true (hunused.symm.trans hused)

/-- A pointer into the second word is ignored. -/
theorem secondWordHeap_inside :
    Unharmed arenaAt [secondWord] secondWordHeap (secondWordHeap.heapDealloc arenaAt 0x100028) := by
  refine (heapDealloc_unharmed_iff secondWordHeap_run (by decide)).mpr ⟨?_, fun b hb => ?_⟩
  · rintro ⟨page, index, hc, _, hstart⟩
    have hs := secondWordHeap_run.inv.pages.slab hc.1 hc.2.1
    obtain ⟨h₁, h₂, _⟩ := hs.object_bytes hc.2.2 (Nat.le_refl _) (by
      rw [Nat.add_mul, Nat.one_mul]
      have := hs.two_le
      omega)
    rw [cellStart] at hstart
    have hpage := pagePtr_div h₁ h₂
    rw [← hstart] at hpage
    obtain rfl : 0 = page := hpage
    have hsize : secondWordHeap.objSize 0 = 32 := by decide +kernel
    have hbase : arenaAt.pagePtr 0 = 0x100000 := rfl
    rw [hsize, hbase] at hstart
    omega
  · obtain rfl := List.mem_singleton.mp hb
    exact not_inRunOf secondWord_cell

end Nafuraito.Memory.Heap
