import Nafuraito.Memory.HeapContract

/-! What the heap's calls do to the bytes of the clients: nothing but to those of a block that is freed. -/
namespace Nafuraito.Memory.Heap
open Nafuraito.Library
open Slab (pageSize classSize)
variable {arena : HeapArena} {h h' h'' : Heap} {live : List Block} {page : Nat}

/-! ### Allocation -/

/-- The addresses of a page. -/
def pageBytes (arena : HeapArena) (page : Nat) : Set Nat := Set.Ico (arena.pagePtr page) (arena.pagePtr (page+1))

/-- No page of `h` that is used has become free, and bytes were only written in free ones. -/
structure Grows (arena : HeapArena) (h h' : Heap) : Prop where
  used : ∀ page, h.isPageUsed page = true → h'.isPageUsed page = true
  mem : ∀ addr, (∀ page < heapPageCount, h.isPageUsed page = false → addr ∉ pageBytes arena page) →
    h'.mem addr = h.mem addr

theorem Grows.refl (h : Heap) : Grows arena h h := ⟨fun _ hu => hu, fun _ _ => rfl⟩

theorem Grows.trans (h₁ : Grows arena h h') (h₂ : Grows arena h' h'') : Grows arena h h'' where
  used page hu := h₂.used page (h₁.used page hu)
  mem addr ha := by
    refine (h₂.mem addr fun page hlt hfree => ha page hlt ?_).trans (h₁.mem addr ha)
    by_contra hused
    rw [h₁.used page (by simpa using hused)] at hfree
    cases hfree

theorem Grows.of_bitmap (hbitmap : h'.pageBitmap = h.pageBitmap) (hmem : h'.mem = h.mem) : Grows arena h h' where
  used page hu := by rwa [isPageUsed, hbitmap]
  mem addr _ := congrFun hmem addr

theorem allocExisting_grows (classIndex : Nat) (pages : List Nat) (h : Heap) {r : Nat × Heap}
    (hr : h.allocExisting arena classIndex pages = some r) : Grows arena h r.2 := by
  induction pages generalizing h with
  | nil => cases hr
  | cons page rest ih =>
    rw [Heap.allocExisting] at hr
    dsimp only at hr
    split_ifs at hr
    · cases hr
      exact .of_bitmap rfl rfl
    · have hslab (slab : SlabPage) : Grows arena h (h.setSlab page slab) := .of_bitmap rfl rfl
      exact (hslab _).trans (ih _ hr)
    · exact ih h hr

/-- Links are written inside the page. -/
theorem allocNewSlab_grows {classIndex : Nat} (hc : classIndex < 8) (hlt : page < heapPageCount)
    (hfree : h.isPageUsed page = false) : Grows arena h ((h.markUsed page 1).allocNewSlab arena classIndex page).2 := by
  obtain ⟨bitmap, hmark, hused⟩ := markUsed_spec h page 1
  rw [allocNewSlab_eq]
  constructor
  · intro p hu
    change (h.markUsed page 1).isPageUsed p = true
    rw [hused]
    split
    · rfl
    · exact hu
  · intro addr ha
    have hout := ha page hlt hfree
    rw [pageBytes, Set.mem_Ico, HeapArena.pagePtr_succ] at hout
    obtain ⟨k, hk, _, hsize, hfull⟩ := Slab.classSize_spec hc
    have htwo : 2 ≤ classSize classIndex := by
      rw [hsize]
      exact Nat.le_trans (show 2 ≤ 2^4 by decide) (Nat.pow_le_pow_right (by decide) hk)
    have hcap : pageSize / classSize classIndex ≤ 4096 := Nat.div_le_self _ _
    obtain ⟨hother, _⟩ := Slab.linksUpTo h.mem (arena.pagePtr page) (classSize classIndex) _ htwo hcap
      (pageSize / classSize classIndex)
    have hinit := congrArg Prod.snd (SlabPage.initSlabPage_run hc (arena.pagePtr page) h.mem)
    have hmem : (h.freshSlab arena classIndex page).mem = SlabPage.writeLinks h.mem (arena.pagePtr page)
      (classSize classIndex) (pageSize / classSize classIndex) := hinit
    change (h.freshSlab arena classIndex page).mem addr = h.mem addr
    rw [hmem]
    apply hother
    rw [Nat.mul_comm, hsize, hfull]
    omega

theorem allocSmall_grows (size align : Nat) (h : Heap) : Grows arena h (h.allocSmall arena size align).2 := by
  rw [Heap.allocSmall]
  split
  · exact .refl h
  · rename_i classIndex hc
    split
    · rename_i hr
      exact allocExisting_grows _ _ _ hr
    · rcases allocContiguousPages_run 1 h with ⟨page, hrun, _, hle, hfree⟩ | hrun <;> rw [hrun]
      · exact allocNewSlab_grows (Slab.classIndexFor_some hc).1 hle (hfree page ⟨Nat.le_refl _, Nat.lt_succ_self _⟩)
      · exact .refl h

/-- The header is written in the first page. -/
theorem allocLarge_grows (size align : Nat) (h : Heap) : Grows arena h (h.allocLarge arena size align).2 := by
  obtain hnone | ⟨head, hpos, hle, hfree, hrun⟩ := allocLarge_run arena size align h
  · rw [hnone]
    exact .refl h
  · rw [hrun]
    generalize largePages size align = pages at *
    have hcount : heapPageCount = 1024 := rfl
    obtain ⟨_, _, hheader⟩ := writeHeader_spec h.mem (arena.pagePtr head) (show pages < 2^16 by omega)
    constructor
    · intro p hu
      rw [(freshRun_fields arena h hle hpos p).2.2.2]
      split
      · rfl
      · exact hu
    · intro addr ha
      have hout := ha head (by omega) (hfree head ⟨Nat.le_refl _, by omega⟩)
      rw [pageBytes, Set.mem_Ico, HeapArena.pagePtr_succ] at hout
      refine hheader addr ?_
      simp only [headerSize, pageSize] at *
      omega

theorem heapAlloc_grows (layout : Layout) (h : Heap) : Grows arena h (h.heapAlloc arena layout).2 := by
  rw [Heap.heapAlloc]
  split
  · exact .refl h
  · rw [allocInner]
    split
    · exact .refl h
    · split
      · dsimp only
        split
        · exact allocSmall_grows _ _ h
        · exact (allocSmall_grows _ _ h).trans (allocLarge_grows _ _ _)
      · exact allocLarge_grows _ _ h

/-- A live block has no byte in a free page. -/
theorem HeapInv.used_bytes (hi : h.HeapInv arena live) {b : Block} (hb : b ∈ live) {addr : Nat}
    (haddr : addr ∈ h.blockBytes arena b) (hlt : page < heapPageCount) (hfree : h.isPageUsed page = false) :
    addr ∉ pageBytes arena page := by
  rintro ⟨hlo, hhi⟩
  obtain ⟨owned, rfl, _, hcells⟩ := hi.owned
  obtain ⟨⟨c, b⟩, ho, rfl⟩ := List.mem_map.mp hb
  obtain ⟨_, hc, _, hf⟩ := hcells _ ho
  rw [blockBytes, hf.cellAt_eq hi.pages hc] at haddr
  have hcell := hi.pages.cellAt_eq hc (Nat.le_trans hf.start_le haddr.1) haddr.2
  have hkind : h.pageKind page = .free := by
    have := (hi.pages page hlt).1
    rw [hfree] at this
    simpa using this.symm
  rw [cellAt, pagePtr_div hlo hhi] at hcell
  simp only [hkind] at hcell
  subst hcell
  have hr := hi.pages.run hc.1 hc.2.1
  rw [hc.2.2] at hr
  have hstart := hf.start_le
  have hstop := haddr.2
  have hptr := haddr.1
  simp only [cellStart, cellStop, HeapArena.pagePtr, pageSize] at *
  have hlarge := (hr.pages page (by omega) (by omega)).1
  rw [hkind] at hlarge
  cases hlarge

/-- An allocation leaves the bytes of the live blocks alone, and all bytes outside the arena. -/
theorem HeapInv.heapAlloc_mem (hi : h.HeapInv arena live) (layout : Layout) {addr : Nat}
    (haddr : (∃ b ∈ live, addr ∈ h.blockBytes arena b) ∨ addr ∉ Set.Ico arena.base (arena.base + heapSize)) :
    (h.heapAlloc arena layout).2.mem addr = h.mem addr := by
  refine (heapAlloc_grows layout h).mem addr fun page hlt hfree => ?_
  rcases haddr with ⟨b, hb, hin⟩ | hout
  · exact hi.used_bytes hb hin hlt hfree
  · rintro ⟨hlo, hhi⟩
    apply hout
    simp only [HeapArena.pagePtr, heapPageCount, heapSize, pageSize, Set.mem_Ico] at *
    omega

/-! ### Freeing -/

/-- Freeing a block writes only in that block. -/
theorem HeapInv.heapDealloc_mem {l₁ l₂ : List Block} {b : Block} (hi : h.HeapInv arena (l₁ ++ b :: l₂)) {addr : Nat}
    (haddr : addr ∉ h.blockBytes arena b) : (h.heapDealloc arena b.ptr).mem addr = h.mem addr := by
  obtain ⟨c, hc, _, hf, _, heq⟩ := hi.heapDealloc_eq
  rw [blockBytes, hf.cellAt_eq hi.pages hc] at haddr
  rw [heq]
  cases c with
  | object page index =>
    have hptr := hf.object page index rfl
    have hs := hi.pages.slab hc.1 hc.2.1
    have htwo := hs.two_le
    have hother : addr < b.ptr ∨ b.ptr + 2 ≤ addr := by
      rw [Set.mem_Ico, cellStop, Nat.add_mul, Nat.one_mul] at haddr
      rw [cellStart] at hptr
      omega
    rw [hptr, cellStart] at hother
    dsimp only
    rw [hptr, cellStart, Heap.freeSlabObject, if_neg (Nat.not_le.mpr hc.1), hs.freeToSlab_run hc.2.2]
    dsimp only
    rw [if_neg (by decide)]
    split
    · rw [freeContiguousPages, (releasePages_spec _ _ _).2.1]
      exact writeLE_other hother
    · exact writeLE_other hother
  | run head =>
    dsimp only
    rw [Heap.freeLargeRun]
    split
    · rfl
    · split
      · rfl
      · rw [freeContiguousPages, (releasePages_spec _ _ _).2.1]

/-- A pointer outside the arena is ignored. -/
theorem heapDealloc_outside {ptr : Nat} (h : Heap) (hout : ptr ∉ Set.Ico arena.base (arena.base + heapSize)) :
    h.heapDealloc arena ptr = h := by
  rw [Set.mem_Ico] at hout
  rw [Heap.heapDealloc, freeInner]
  split
  · rfl
  · split
    · rfl
    · rw [if_pos (by omega)]

/-- All the allocator reads lies in the arena. -/
theorem PagesOk.readBytes_subset (hp : h.PagesOk arena) :
    h.ReadBytes arena ⊆ Set.Ico arena.base (arena.base + heapSize) := by
  rintro addr (⟨page, index, hlt, hk, hfree, h₁, h₂⟩ | ⟨page, hlt, hk, h₁, h₂⟩)
  · have hs := hp.slab hlt hk
    obtain ⟨l, _, hl, _, _, hiff⟩ := hs.free_iff
    have hindex := hl index ((hiff index).mp hfree)
    have htwo := hs.two_le
    have hstop := hp.cellStop_le (c := .object page index) ⟨hlt, hk, hindex⟩
    rw [cellStop, Nat.add_mul, Nat.one_mul] at hstop
    simp only [HeapArena.pagePtr, Set.mem_Ico] at *
    omega
  · have hr := hp.run hlt hk
    have hpos := hr.pos
    have hle := hr.stop_le
    simp only [HeapArena.pagePtr, headerSize, heapPageCount, heapSize, pageSize, Set.mem_Ico] at *
    omega

/-- A store outside the arena. -/
theorem HeapInv.storeOutside (hi : h.HeapInv arena live) {mem : Bytes}
    (hmem : ∀ addr ∈ Set.Ico arena.base (arena.base + heapSize), mem addr = h.mem addr) :
    HeapInv arena { h with mem := mem } live :=
  hi.of_reads fun addr ha => hmem addr (hi.pages.readBytes_subset ha)

end Nafuraito.Memory.Heap
