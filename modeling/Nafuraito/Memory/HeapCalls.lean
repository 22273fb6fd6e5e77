import Nafuraito.Library.Words
import Nafuraito.Memory.HeapSteps

/-! The calls of the heap: each keeps the invariant, with the block it gives or takes back. -/
namespace Nafuraito.Memory.Heap
open Nafuraito.Library
open Slab (pageSize classSize classIndexFor freeListEnd)

variable {arena : HeapArena} {h h' : Heap} {live : List Block} {page : Nat} {c : Cell} {layout : Layout}

/-! ### Free runs -/

/-- The loop looks at the pages in order; `runLen` pages before this one are free. -/
theorem findRun_some {count n page runStart runLen start : Nat} (hrun : 0 < runLen → runStart + runLen = page)
    (hfree : ∀ p, InPages runStart runLen p → h.isPageUsed p = false) (hlen : runLen < count)
    (hf : h.findRun count n page runStart runLen = some start) :
    start + count ≤ page + n ∧ ∀ p, InPages start count p → h.isPageUsed p = false := by
  induction n generalizing page runStart runLen with
  | zero => cases hf
  | succ n ih =>
    rw [findRun] at hf
    by_cases hu : h.isPageUsed page = true
    · rw [if_neg (by simp [hu])] at hf
      have := ih (by omega) (fun p hp => absurd hp (by unfold InPages; omega)) (by omega) hf
      exact ⟨by omega, this.2⟩
    · rw [if_pos (by simp [hu])] at hf
      simp only at hf
      generalize hs : (if runLen = 0 then page else runStart) = runStart' at hf
      have hstart : runStart' + runLen = page := by
        rw [← hs]
        split <;> omega
      have hfree' : ∀ p, InPages runStart' (runLen+1) p → h.isPageUsed p = false := by
        intro p hp
        rcases inPages_succ.mp hp with rfl | hp
        · rw [hstart]
          simpa using hu
        · refine hfree p ?_
          rw [← hs] at hp
          split at hp
          · exact absurd hp (by unfold InPages; omega)
          · exact hp
      split at hf
      · rename_i hcount
        obtain rfl := Option.some.inj hf
        exact ⟨by omega, by rwa [hcount] at hfree'⟩
      · have := ih (by omega) hfree' (by omega) hf
        exact ⟨by omega, this.2⟩

theorem allocContiguousPages_run (count : Nat) (h : Heap) :
    (∃ start, allocContiguousPages count h = (some start, h.markUsed start count) ∧ 0 < count ∧
      start + count ≤ heapPageCount ∧ ∀ p, InPages start count p → h.isPageUsed p = false) ∨
    allocContiguousPages count h = (none, h) := by
  rw [allocContiguousPages]
  split
  · exact .inr rfl
  · rename_i hcount
    split
    · rename_i start hf
      obtain ⟨hle, hfree⟩ := findRun_some (by omega) (fun p hp => absurd hp (by unfold InPages; omega)) (by omega) hf
      exact .inl ⟨start, rfl, by omega, by omega, hfree⟩
    · exact .inr rfl

/-- Putting free pages to a use leaves every block and every other page alone. -/
theorem HeapInv.grow (hi : h.HeapInv arena live) (h' : Heap) (start n : Nat)
    (hfree : ∀ p < heapPageCount, InPages start n p → h.isPageUsed p = false)
    (hsame : ∀ p, ¬ InPages start n p → h'.pageKind p = h.pageKind p ∧ h'.pageHead p = h.pageHead p ∧
      h'.slabs p = h.slabs p ∧ h'.isPageUsed p = h.isPageUsed p)
    (hmem : ∀ addr, addr < arena.pagePtr start ∨ arena.pagePtr (start+n) ≤ addr → h'.mem addr = h.mem addr)
    (hnew : ∀ p < heapPageCount, InPages start n p → h'.PageOk arena p) :
    h'.PagesOk arena ∧ ∀ off, h.Owned arena off live → h'.Owned arena off live := by
  have hkind (p : Nat) (hlt : p < heapPageCount) (hin : InPages start n p) : h.pageKind p = .free := by
    have h₁ := hfree p hlt hin
    rw [(hi.pages p hlt).1, decide_eq_false_iff_not, ne_eq, not_not] at h₁
    exact h₁
  have hpage (p : Nat) (hlt : p < heapPageCount) (hout : ¬ InPages start n p) : SamePage arena h h' p := by
    obtain ⟨h₁, h₂, h₃, h₄⟩ := hsame p hout
    refine .of_mem hi.pages hlt h₁ h₂ h₃ h₄ fun addr hlo hhi => hmem addr ?_
    simp only [InPages, HeapArena.pagePtr, pageSize] at *
    omega
  refine ⟨hi.pages.of_same {p | InPages start n p} hpage ?_ hnew, fun off ho => ho.kept fun c _ hc hn => ?_⟩
  · intro p hlt _ hk q hlo hhi hin
    have hr := hi.pages.run hlt hk
    have hle := hr.stop_le
    have := (hr.pages q hlo hhi).1
    rw [hkind q (by omega) hin] at this
    cases this
  · refine .of_same hi.pages hc hn (hpage _ hc.firstPage_lt fun hin => ?_)
    have hk := hkind _ hc.firstPage_lt hin
    cases c with
    | object page index =>
      have := hk.symm.trans hc.2.1
      cases this
    | run head =>
      have := hk.symm.trans hc.2.1
      cases this

/-! ### A new slab page -/

/-- The new page as `init_slab_page` leaves it, before the first object is taken. -/
def freshSlab (arena : HeapArena) (h : Heap) (classIndex page : Nat) : Heap :=
  { ((h.markUsed page 1).setKind page .slab (u16 page)).setSlab page
      (SlabPage.initSlabPage (arena.pagePtr page) classIndex h.mem).1 with
    mem := (SlabPage.initSlabPage (arena.pagePtr page) classIndex h.mem).2 }

/-- A free page becomes a slab page with all objects free. -/
theorem HeapInv.freshSlab (hi : h.HeapInv arena live) {classIndex : Nat} (hc : classIndex < 8)
    (hlt : page < heapPageCount) (hfree : h.isPageUsed page = false) :
    (h.freshSlab arena classIndex page).HeapInv arena live := by
  set h' := h.freshSlab arena classIndex page with hh'
  have hinit := SlabPage.initSlabPage_run hc (arena.pagePtr page) h.mem
  obtain ⟨bitmap, hmark, hused⟩ := markUsed_spec h page 1
  have hin (p : Nat) : InPages page 1 p ↔ p = page := by
    unfold InPages
    omega
  have hkind (p : Nat) : h'.pageKind p = if p = page then .slab else h.pageKind p := by
    refine (setKind_kind page .slab (u16 page)).trans ?_
    rw [hmark]
  have hhead (p : Nat) : h'.pageHead p = if p = page then u16 page else h.pageHead p := by
    refine (setKind_head page .slab (u16 page)).trans ?_
    rw [hmark]
  have hslab (p : Nat) : h'.slabs p = if p = page then ⟨true, classIndex, 0, 0, pageSize / classSize classIndex⟩
      else h.slabs p := by
    refine (setSlab_slabs page _).trans ?_
    rw [hinit, hmark]
    rfl
  have hmem : h'.mem = SlabPage.writeLinks h.mem (arena.pagePtr page) (classSize classIndex)
      (pageSize / classSize classIndex) := congrArg Prod.snd hinit
  have hbit (p : Nat) : h'.isPageUsed p = if InPages page 1 p then true else h.isPageUsed p := hused p
  obtain ⟨k, hk4, _, hsize, hfull⟩ := Slab.classSize_spec hc
  rw [← hsize] at hfull
  have htwo : 2 ≤ classSize classIndex := by
    rw [hsize]
    exact Nat.le_trans (show 2 ≤ 2^4 by decide) (Nat.pow_le_pow_right (by decide) hk4)
  have hcap : pageSize / classSize classIndex ≤ 4096 := Nat.div_le_self _ _
  obtain ⟨hother, hlink⟩ := Slab.linksUpTo h.mem (arena.pagePtr page) (classSize classIndex)
    (pageSize / classSize classIndex) htwo hcap (pageSize / classSize classIndex)
  have hs : h'.SlabOk arena page := by
    have hpage : h'.slabs page = ⟨true, classIndex, 0, 0, pageSize / classSize classIndex⟩ := by
      rw [hslab, if_pos rfl]
    have hobj : h'.objSize page = classSize classIndex := by rw [objSize, hpage]
    refine ⟨?_, by rw [hpage], by rw [hpage]; exact hc, by rw [hobj, hpage],
      List.range' 0 (pageSize / classSize classIndex),
      List.nodup_range', ?_⟩
    · rw [hhead, if_pos rfl, u16_of_lt (Nat.lt_trans hlt (by decide))]
    · have hpos : 0 < pageSize / classSize classIndex := by
        apply Nat.pos_of_ne_zero
        intro hz
        rw [hz, Nat.mul_zero] at hfull
        cases hfull
      have hchain := FreeChain.range (h'.link arena page) (show pageSize / classSize classIndex ≤ freeListEnd by
        rw [freeListEnd]; omega) (fun i hi => by rw [link, hobj, hmem]; exact hlink i hi) (Nat.zero_add _)
      rw [if_pos hpos] at hchain
      rw [hpage]
      refine ⟨fun i hi => ?_, hchain, by rw [List.length_range', Nat.zero_add]⟩
      have := (List.mem_range'_1.mp hi).2
      rwa [Nat.zero_add] at this
  have hsame (p : Nat) (hp : ¬ InPages page 1 p) : h'.pageKind p = h.pageKind p ∧ h'.pageHead p = h.pageHead p ∧
      h'.slabs p = h.slabs p ∧ h'.isPageUsed p = h.isPageUsed p := by
    rw [hkind, hhead, hslab, hbit, if_neg hp]
    rw [hin] at hp
    rw [if_neg hp, if_neg hp, if_neg hp]
    exact ⟨rfl, rfl, rfl, rfl⟩
  have hbytes (addr : Nat) (ha : addr < arena.pagePtr page ∨ arena.pagePtr (page+1) ≤ addr) :
      h'.mem addr = h.mem addr := by
    rw [hmem]
    refine hother addr ?_
    rw [Nat.mul_comm, hfull, ← arena.pagePtr_succ]
    exact ha
  have hnew (p : Nat) (_ : p < heapPageCount) (hp : InPages page 1 p) : h'.PageOk arena p := by
    obtain rfl := (hin p).mp hp
    refine ⟨?_, fun _ => hs, fun hk => ?_⟩
    · rw [hbit, if_pos hp, hkind, if_pos rfl]
      rfl
    · rw [hkind, if_pos rfl] at hk
      cases hk
  obtain ⟨hp, ho⟩ := hi.grow h' page 1 (fun p _ hp => by rw [(hin p).mp hp]; exact hfree) hsame hbytes hnew
  exact ⟨hi.ready, hp, ho _ hi.owned⟩

/-! ### Allocation -/

/-- What an allocation returns: null, or the pointer of a new live block. -/
def Gives (arena : HeapArena) (live : List Block) (layout : Layout) (r : Nat × Heap) : Prop :=
  (r.1 = 0 ∧ r.2.HeapInv arena live) ∨ (r.1 ≠ 0 ∧ r.2.HeapInv arena (⟨r.1, layout⟩ :: live))

theorem HeapInv.allocExisting (hi : h.HeapInv arena live) {classIndex : Nat} {pages : List Nat}
    (hpages : ∀ p ∈ pages, p < heapPageCount) (hpos : 0 < layout.size) (hsize : layout.size ≤ classSize classIndex)
    (halign : layout.align ≤ classSize classIndex) : h.allocExisting arena classIndex pages = none ∨
      ∃ r, h.allocExisting arena classIndex pages = some r ∧ Gives arena live layout r := by
  induction pages with
  | nil => exact .inl rfl
  | cons page rest ih =>
    rw [Heap.allocExisting]
    split
    · rename_i hfits
      obtain ⟨hk, _, rfl, hfree⟩ := hfits
      obtain ⟨hne, hinv⟩ := hi.takeObject (hpages page List.mem_cons_self) hk hfree hpos hsize halign
      simp only [if_pos hne]
      exact .inr ⟨_, rfl, .inr ⟨hne, hinv⟩⟩
    · exact ih fun p hp => hpages p (List.mem_cons_of_mem page hp)

/-- The new page, and then its first object. -/
theorem allocNewSlab_eq (classIndex : Nat) : (h.markUsed page 1).allocNewSlab arena classIndex page =
    ((((h.freshSlab arena classIndex page).slabs page).allocFromSlab (arena.pagePtr page)
      (h.freshSlab arena classIndex page).mem).1,
      (h.freshSlab arena classIndex page).setSlab page (((h.freshSlab arena classIndex page).slabs page).allocFromSlab
        (arena.pagePtr page) (h.freshSlab arena classIndex page).mem).2) := by
  have hslab : (h.freshSlab arena classIndex page).slabs page =
      (SlabPage.initSlabPage (arena.pagePtr page) classIndex h.mem).1 := setSlab_self _
  have hmem : (h.markUsed page 1).mem = h.mem := by
    obtain ⟨_, he, _⟩ := markUsed_spec h page 1
    rw [he]
  rw [hslab]
  simp only [allocNewSlab, Heap.freshSlab, setSlab, setKind, hmem, Function.update_idem]

variable (h arena page) in
/-- All objects of the new page are free. -/
theorem freshSlab_page {classIndex : Nat} (hc : classIndex < 8) : (h.freshSlab arena classIndex page).slabs page =
    ⟨true, classIndex, 0, 0, pageSize / classSize classIndex⟩ ∧
      (h.freshSlab arena classIndex page).pageKind page = .slab :=
  ⟨(setSlab_self _).trans (congrArg Prod.fst (SlabPage.initSlabPage_run hc _ _)),
    (setKind_kind page .slab (u16 page)).trans (if_pos rfl)⟩

/-- The first object of a new slab page. -/
theorem HeapInv.newObject (hi : h.HeapInv arena live) {classIndex : Nat} (hc : classIndex < 8)
    (hlt : page < heapPageCount) (hfree : h.isPageUsed page = false) (hpos : 0 < layout.size)
    (hsize : layout.size ≤ classSize classIndex) (halign : layout.align ≤ classSize classIndex) :
    ((h.markUsed page 1).allocNewSlab arena classIndex page).1 ≠ 0 ∧
      ((h.markUsed page 1).allocNewSlab arena classIndex page).2.HeapInv arena
        (⟨((h.markUsed page 1).allocNewSlab arena classIndex page).1, layout⟩ :: live) := by
  have hfresh := hi.freshSlab hc hlt hfree
  obtain ⟨hslab, hkind⟩ := freshSlab_page arena h page hc
  have hobj : (h.freshSlab arena classIndex page).objSize page = classSize classIndex := by rw [objSize, hslab]
  rw [allocNewSlab_eq]
  apply hfresh.takeObject hlt hkind ?_ hpos
  · rwa [hobj]
  · rwa [hobj]
  · rw [hslab]
    rfl

theorem HeapInv.allocSmall (hi : h.HeapInv arena live) (hpos : 0 < layout.size) :
    Gives arena live layout (h.allocSmall arena layout.size layout.align) := by
  rw [Heap.allocSmall]
  split
  · exact .inl ⟨rfl, hi⟩
  · rename_i classIndex hc
    obtain ⟨hlt, hsize, halign⟩ := Slab.classIndexFor_some hc
    rcases hi.allocExisting (fun p hp => List.mem_range.mp hp) hpos hsize halign with he | ⟨r, he, hr⟩ <;> rw [he]
    · rcases allocContiguousPages_run 1 h with ⟨page, hrun, _, hle, hfree⟩ | hrun <;> rw [hrun]
      · have hfree := hfree page ⟨Nat.le_refl _, Nat.lt_succ_self _⟩
        exact .inr (hi.newObject hlt (Nat.lt_of_succ_le hle) hfree hpos hsize halign)
      · exact .inl ⟨rfl, hi⟩
    · exact hr

/-! ### Large requests -/

/-- Rounding up to a power of two. -/
theorem alignUp_toNat (value k : Nat) (hlt : value + 2^k - 1 < 2^64) :
    alignUp value (2^k) = (value + 2^k - 1) / 2^k * 2^k := by
  have hpos : 0 < 2^k := Nat.pow_pos (by decide)
  have hk : k ≤ 64 := by
    have : 2^k ≤ 2^64 := by omega
    exact (Nat.pow_le_pow_iff_right (by decide)).mp this
  have hmask : Words.IsMask (BitVec.ofNat 64 (2^k-1)) 0 k := fun i => by
    rw [BitVec.getLsbD_ofNat, Nat.testBit_two_pow_sub_one, Bool.eq_iff_iff, Bool.and_eq_true, decide_eq_true_eq,
      decide_eq_true_eq, decide_eq_true_eq]
    omega
  rw [alignUp, Words.and_not_toNat hmask, BitVec.toNat_ofNat, Nat.mod_eq_of_lt hlt]

/-- The pages of a layout's request hold the header, the padding and the block. -/
theorem largePages_spec (hpos : 0 < layout.size) : 0 < layout.align ∧
    headerSize + (layout.align - 1) + layout.size < largePages layout.size layout.align * pageSize := by
  obtain ⟨k, hk⟩ := layout.align_pow
  have halign : 0 < layout.align := by
    rw [hk]
    exact Nat.pow_pos (by decide)
  have hle := layout.size_le
  refine ⟨halign, ?_⟩
  simp only [largePages, headerSize, pageSize, u64]
  omega

theorem writeHeader_spec (mem : Bytes) (basePtr : Nat) {pages : Nat} (hp : pages < 2^16) :
    headerMagic (writeHeader mem basePtr pages) basePtr = largeMagic ∧
      headerPages (writeHeader mem basePtr pages) basePtr = pages ∧
      ∀ addr, addr < basePtr ∨ basePtr + headerSize ≤ addr → writeHeader mem basePtr pages addr = mem addr := by
  refine ⟨?_, ?_, fun addr ha => ?_⟩
  · rw [headerMagic, writeHeader, readLE_writeLE_other (by omega), readLE_writeLE_other (by omega), readLE_writeLE]
    rfl
  · rw [headerPages, writeHeader, readLE_writeLE_other (by omega), readLE_writeLE, u16_of_lt hp,
      Nat.mod_eq_of_lt (by omega)]
  · rw [headerSize] at ha
    rw [writeHeader, writeLE_other (by omega), writeLE_other (by omega), writeLE_other (by omega)]

/-- The heap with a new run of `pages` pages. -/
def freshRun (arena : HeapArena) (h : Heap) (head pages : Nat) : Heap :=
  { (h.markUsed head pages).markLarge head pages with
    mem := writeHeader h.mem (arena.pagePtr head) pages }

theorem freshRun_state (arena : HeapArena) (h : Heap) (head pages : Nat) :
    { (h.markUsed head pages).markLarge head pages with
      mem := writeHeader ((h.markUsed head pages).markLarge head pages).mem (arena.pagePtr head) pages } =
      h.freshRun arena head pages ∧ (h.freshRun arena head pages).ready = h.ready := by
  obtain ⟨_, hmark, _⟩ := markUsed_spec h head pages
  obtain ⟨_, _, hlarge, _⟩ := markLarge_spec (h.markUsed head pages) head pages
  rw [freshRun, hlarge, hmark]
  exact ⟨rfl, rfl⟩

/-- The pages of the run are large and led by the first; the others are left alone. -/
theorem freshRun_fields (arena : HeapArena) (h : Heap) {head pages : Nat} (hle : head + pages ≤ heapPageCount)
    (hpos : 0 < pages) (p : Nat) :
    (h.freshRun arena head pages).pageKind p = (if InPages head pages p then .large else h.pageKind p) ∧
    (h.freshRun arena head pages).pageHead p = (if InPages head pages p then head else h.pageHead p) ∧
    (h.freshRun arena head pages).slabs p = h.slabs p ∧
    (h.freshRun arena head pages).isPageUsed p = if InPages head pages p then true else h.isPageUsed p := by
  obtain ⟨bitmap, hmark, hused⟩ := markUsed_spec h head pages
  obtain ⟨kinds, heads, hlarge, hspec⟩ := markLarge_spec (h.markUsed head pages) head pages
  have hcount : heapPageCount = 1024 := rfl
  have h16 : u16 head = head := u16_of_lt (by omega)
  obtain ⟨hkind, hhead⟩ := hspec p
  rw [hmark] at hkind
  rw [hmark, h16] at hhead
  rw [Heap.freshRun, hlarge]
  exact ⟨hkind, hhead, by rw [hmark], by rw [← hused]; rfl⟩

/-- Free pages become a run. -/
theorem HeapInv.freshRun (hi : h.HeapInv arena live) {head pages : Nat} (hpos : 0 < pages)
    (hle : head + pages ≤ heapPageCount) (hfree : ∀ p, InPages head pages p → h.isPageUsed p = false) :
    (h.freshRun arena head pages).PagesOk arena ∧ (h.freshRun arena head pages).HasCell (.run head) ∧
      (h.freshRun arena head pages).runPages arena head = pages ∧
      (h.freshRun arena head pages).Owned arena {.run head} live := by
  set h' := h.freshRun arena head pages with hh'
  have hcount : heapPageCount = 1024 := rfl
  have hfields : ∀ p, h'.pageKind p = (if InPages head pages p then .large else h.pageKind p) ∧
      h'.pageHead p = (if InPages head pages p then head else h.pageHead p) ∧ h'.slabs p = h.slabs p ∧
      h'.isPageUsed p = if InPages head pages p then true else h.isPageUsed p := freshRun_fields arena h hle hpos
  have hkind p := (hfields p).1
  have hhead p := (hfields p).2.1
  have hslab p := (hfields p).2.2.1
  have hbit p := (hfields p).2.2.2
  obtain ⟨hmagic, hpages, hother⟩ := writeHeader_spec h.mem (arena.pagePtr head) (show pages < 2^16 by omega)
  have hr : h'.runPages arena head = pages := hpages
  have hrun : h'.RunOk arena head := by
    refine ⟨hmagic, by rwa [hr], by rwa [hr], fun p hlo hhi => ?_⟩
    rw [hr] at hhi
    rw [hkind, hhead, if_pos ⟨hlo, hhi⟩, if_pos ⟨hlo, hhi⟩]
    exact ⟨rfl, rfl⟩
  have hsame (p : Nat) (hp : ¬ InPages head pages p) : h'.pageKind p = h.pageKind p ∧ h'.pageHead p = h.pageHead p ∧
      h'.slabs p = h.slabs p ∧ h'.isPageUsed p = h.isPageUsed p := by
    rw [hkind, hhead, hslab, hbit, if_neg hp, if_neg hp, if_neg hp]
    exact ⟨rfl, rfl, rfl, rfl⟩
  have hbytes (addr : Nat) (ha : addr < arena.pagePtr head ∨ arena.pagePtr (head+pages) ≤ addr) :
      h'.mem addr = h.mem addr := by
    refine hother addr ?_
    simp only [HeapArena.pagePtr, headerSize, pageSize] at *
    omega
  have hnew (p : Nat) (_ : p < heapPageCount) (hp : InPages head pages p) : h'.PageOk arena p := by
    have hk : h'.pageKind p = .large := by rw [hkind, if_pos hp]
    have hh : h'.pageHead p = head := by rw [hhead, if_pos hp]
    refine ⟨?_, fun hs => ?_, fun _ => ?_⟩
    · rw [hbit, if_pos hp, hk]
      rfl
    · rw [hk] at hs
      cases hs
    · rw [hh, hr]
      exact ⟨hrun, hp⟩
  have hfirst : InPages head pages head := ⟨Nat.le_refl _, by omega⟩
  obtain ⟨hp, ho⟩ := hi.grow h' head pages (fun p _ hp => hfree p hp) hsame hbytes hnew
  refine ⟨hp, ⟨by omega, by rw [hkind, if_pos hfirst], by rw [hhead, if_pos hfirst]⟩, hr,
    ho _ (hi.owned.unused fun hc _ => ?_)⟩
  have hu := (hi.pages head (by omega)).1
  rw [hfree head hfirst, hc.2.1] at hu
  cases hu

/-- The block of a new run that has room for it. -/
theorem HeapInv.newRun (hi : h.HeapInv arena live) (hpos : 0 < layout.size) {head pages : Nat} (hpages : 0 < pages)
    (hle : head + pages ≤ heapPageCount) (hfree : ∀ p, InPages head pages p → h.isPageUsed p = false)
    (hroom : headerSize + (layout.align - 1) + layout.size < pages*pageSize) :
    alignUp (arena.pagePtr head + headerSize) (max layout.align 1) ≠ 0 ∧ (h.freshRun arena head pages).HeapInv arena
      (⟨alignUp (arena.pagePtr head + headerSize) (max layout.align 1), layout⟩ :: live) := by
  obtain ⟨_, hready⟩ := freshRun_state arena h head pages
  obtain ⟨hp, hc, hr, ho⟩ := hi.freshRun hpages hle hfree
  obtain ⟨k, hk⟩ := layout.align_pow
  have halign : 0 < layout.align := by
    rw [hk]
    exact Nat.two_pow_pos k
  have hfits := arena.fits
  have hstop : (h.freshRun arena head pages).cellStop arena (.run head) = arena.pagePtr head + pages*pageSize := by
    rw [cellStop, hr, HeapArena.pagePtr, HeapArena.pagePtr, Nat.add_mul, Nat.add_assoc]
  have hend : arena.pagePtr head + pages*pageSize ≤ arena.base + heapSize := hstop ▸ hp.cellStop_le hc
  have hup := alignUp_toNat (arena.pagePtr head + headerSize) k (by rw [← hk]; omega)
  rw [← hk] at hup
  rw [Nat.max_eq_left halign, hup]
  have hdiv := Nat.div_add_mod (arena.pagePtr head + headerSize + layout.align - 1) layout.align
  have hmod := Nat.mod_lt (arena.pagePtr head + headerSize + layout.align - 1) halign
  rw [Nat.mul_comm] at hdiv
  have hbase := arena.base_pos
  have hlow : arena.base ≤ arena.pagePtr head := Nat.le_add_right _ _
  refine ⟨by omega, hready.trans hi.ready, hp, ho.add hc ?_ ⟨?_, ?_, ?_, hpos, ?_⟩⟩
  · rintro _ _ ⟨⟩
  · rw [cellStart]
    dsimp only
    omega
  · rintro _ _ ⟨⟩
  · rw [hstop]
    dsimp only
    omega
  · exact Nat.dvd_mul_left _ _

/-- A large request is refused or gets a run of free pages. -/
theorem allocLarge_run (arena : HeapArena) (size align : Nat) (h : Heap) :
    h.allocLarge arena size align = (0, h) ∨ ∃ head, 0 < largePages size align ∧
      head + largePages size align ≤ heapPageCount ∧
      (∀ p, InPages head (largePages size align) p → h.isPageUsed p = false) ∧
      h.allocLarge arena size align =
        (alignUp (arena.pagePtr head + headerSize) (max align 1), h.freshRun arena head (largePages size align)) := by
  rw [Heap.allocLarge]
  generalize largePages size align = pages
  dsimp only
  split
  · exact .inl rfl
  · obtain ⟨head, hrun, hpages, hle, hfree⟩ | hrun := allocContiguousPages_run pages h
    · refine .inr ⟨head, hpages, hle, hfree, ?_⟩
      rw [hrun]
      dsimp only
      rw [(freshRun_state arena h head pages).1]
    · rw [hrun]
      exact .inl rfl

theorem HeapInv.allocLarge (hi : h.HeapInv arena live) (hpos : 0 < layout.size) :
    Gives arena live layout (h.allocLarge arena layout.size layout.align) := by
  obtain ⟨_, hroom⟩ := largePages_spec hpos
  obtain hnone | ⟨head, hpages, hle, hfree, hrun⟩ := allocLarge_run arena layout.size layout.align h
  · rw [hnone]
    exact .inl ⟨rfl, hi⟩
  · rw [hrun]
    exact .inr (hi.newRun hpos hpages hle hfree hroom)

theorem HeapInv.heapAlloc (hi : h.HeapInv arena live) (layout : Layout) :
    Gives arena live layout (h.heapAlloc arena layout) := by
  rw [Heap.heapAlloc, if_neg (by simp [hi.ready]), allocInner]
  split
  · exact .inl ⟨rfl, hi⟩
  · rename_i hsize
    have hpos := Nat.pos_of_ne_zero hsize
    split
    · have hsmall : Gives arena live layout _ := hi.allocSmall hpos
      simp only
      split
      · exact hsmall
      · rename_i hnull
        rcases hsmall with ⟨_, hi'⟩ | ⟨hne, _⟩
        · exact hi'.allocLarge hpos
        · exact absurd hne hnull
    · exact hi.allocLarge hpos

/-! ### Freeing -/

/-- An object goes back to its page, and the page to the free pages if it was the last one in use. -/
theorem HeapInv.freeSlabObject (hi : h.HeapInv arena live) {index : Nat} (ho : h.Owned arena {.object page index} live)
    (hc : h.HasCell (.object page index)) (hn : ¬ h.FreeObject arena page index) :
    (h.freeSlabObject arena page (arena.pagePtr page + index*h.objSize page)).HeapInv arena live := by
  obtain ⟨hlt, hk, hindex⟩ := hc
  have hs := hi.pages.slab hlt hk
  have hinv := HeapInv.returnObject hi.ready hi.pages ho hk hlt hindex hn
  rw [Heap.freeSlabObject, if_neg (by omega), hs.freeToSlab_run hindex]
  change (if !true then _ else if _ then (h.returned arena page index).freeContiguousPages page 1
    else h.returned arena page index).HeapInv arena live
  rw [if_neg (by decide)]
  split
  · rename_i hempty
    rw [SlabPage.isEmpty, Bool.and_eq_true, beq_iff_eq] at hempty
    have hk' : (h.returned arena page index).pageKind page = .slab := hk
    have hin (p : Nat) : InPages page 1 p ↔ p = page := by
      unfold InPages
      omega
    refine HeapInv.release hinv.ready hinv.pages hinv.owned (by omega) (fun c _ hc hn hp => ?_)
      (fun p hlt' _ hkp q hlo hhi hq => ?_)
    · obtain ⟨j, rfl⟩ := hc.of_slab ((hin _).mp hp) hk'
      obtain ⟨l, hnodup, hl, _, hlen, hiff⟩ := (hinv.pages.slab hlt hk').free_iff
      have hshort := length_lt_of_missing hnodup hl hc.2.2 fun hj => hn page j rfl ((hiff j).mpr hj)
      rw [returned_slab] at hlen hshort
      have := hempty.2
      omega
    · obtain rfl := (hin q).mp hq
      have := ((hinv.pages.run hlt' hkp).pages q hlo hhi).1
      rw [hk'] at this
      cases this
  · exact hinv

theorem HeapInv.freeLargeRun (hi : h.HeapInv arena live) {head : Nat} (ho : h.Owned arena {.run head} live)
    (hc : h.HasCell (.run head)) : (h.freeLargeRun arena head).HeapInv arena live := by
  obtain ⟨hlt, hk, hh⟩ := hc
  have hr := hi.pages.run hlt hk
  rw [hh] at hr
  rw [Heap.freeLargeRun, if_neg (by omega), if_neg (fun hne => hne hr.magic)]
  refine HeapInv.release hi.ready hi.pages ho hr.stop_le (fun c hne hc _ hp => ?_)
    (fun p hlt' hp hkp q hlo hhi hq => ?_)
  · obtain ⟨hkc, hhc⟩ := hr.pages _ hp.1 hp.2
    cases c with
    | object page index =>
      have := hkc.symm.trans hc.2.1
      cases this
    | run head' => exact hne (congrArg Cell.run (hc.2.2.symm.trans hhc))
  · have hrp := hi.pages.run hlt' hkp
    have hhead : h.pageHead p = head := (hrp.pages q hlo hhi).2.symm.trans (hr.pages q hq.1 hq.2).2
    obtain ⟨_, hlo', hhi'⟩ := (hi.pages p hlt').2.2 hkp
    rw [hhead] at hlo' hhi'
    exact hp ⟨hlo', hhi'⟩

/-- What becomes of a pointer into a page of the arena depends on what the page is used for. -/
theorem heapDealloc_page (hready : h.ready = true) (hlt : page < heapPageCount) {ptr : Nat}
    (hlo : arena.pagePtr page ≤ ptr) (hhi : ptr < arena.pagePtr (page+1)) :
    h.heapDealloc arena ptr = match h.pageKind page with
      | .slab => h.freeSlabObject arena (h.pageHead page) ptr
      | .large => h.freeLargeRun arena (h.pageHead page)
      | .free => h := by
  have hbase := arena.base_pos
  have hin : arena.base ≤ ptr ∧ ptr < arena.base + heapSize := by
    simp only [HeapArena.pagePtr, heapPageCount, heapSize, pageSize] at *
    omega
  rw [Heap.heapDealloc, if_neg (by simp [hready]), freeInner, if_neg (by omega), if_neg (by omega)]
  cases hk : h.pageKind page <;> simp only [pagePtr_div hlo hhi, if_neg (Nat.not_le.mpr hlt), hk]

theorem HeapInv.heapDealloc_object (hi : h.HeapInv arena live) (hc : h.HasCell (.object page index)) :
    h.heapDealloc arena (h.cellStart arena (.object page index)) =
      h.freeSlabObject arena page (h.cellStart arena (.object page index)) := by
  have hs := hi.pages.slab hc.1 hc.2.1
  obtain ⟨h₁, h₂, _⟩ := hs.object_bytes hc.2.2 (Nat.le_refl _) (by
    rw [Nat.add_mul, Nat.one_mul]
    have := hs.two_le
    omega)
  rw [cellStart, heapDealloc_page hi.ready hc.1 h₁ h₂, hc.2.1, hs.head]

theorem HeapInv.heapDealloc_run (hi : h.HeapInv arena live) {head ptr : Nat} (hc : h.HasCell (.run head))
    (hlo : arena.pagePtr head ≤ ptr) (hhi : ptr < h.cellStop arena (.run head)) :
    h.heapDealloc arena ptr = h.freeLargeRun arena head := by
  have hr := hi.pages.run hc.1 hc.2.1
  rw [hc.2.2] at hr
  have hle := hr.stop_le
  have hpage : head ≤ (ptr - arena.base) / pageSize ∧
      (ptr - arena.base) / pageSize < head + h.runPages arena head ∧
      arena.pagePtr ((ptr - arena.base) / pageSize) ≤ ptr ∧
      ptr < arena.pagePtr ((ptr - arena.base) / pageSize + 1) := by
    simp only [cellStop, HeapArena.pagePtr, pageSize] at *
    omega
  obtain ⟨hfrom, hto, h₁, h₂⟩ := hpage
  obtain ⟨hk, hh⟩ := hr.pages _ hfrom hto
  rw [heapDealloc_page hi.ready (by omega) h₁ h₂, hk, hh]

/-- The call on a live block frees the object or the run that is its cell. -/
theorem HeapInv.heapDealloc_eq {l₁ l₂ : List Block} {b : Block} (hi : h.HeapInv arena (l₁ ++ b :: l₂)) :
    ∃ c, h.HasCell c ∧ h.NotFree arena c ∧ h.Fills arena c b ∧ h.Owned arena {c} (l₁ ++ l₂) ∧
      h.heapDealloc arena b.ptr = match c with
        | .object page _ => h.freeSlabObject arena page b.ptr
        | .run head => h.freeLargeRun arena head := by
  obtain ⟨c, hc, hn, hf, ho⟩ := hi.owned.remove
  refine ⟨c, hc, hn, hf, ho, ?_⟩
  cases c with
  | object page index =>
    rw [hf.object page index rfl]
    exact hi.heapDealloc_object hc
  | run head =>
    have hstart := hf.start_le
    have hstop := hf.stop_le
    have hpos := hf.pos
    exact hi.heapDealloc_run hc (by rw [cellStart] at hstart; omega) (by omega)

theorem HeapInv.heapDealloc {l₁ l₂ : List Block} {b : Block} (hi : h.HeapInv arena (l₁ ++ b :: l₂)) :
    (h.heapDealloc arena b.ptr).HeapInv arena (l₁ ++ l₂) := by
  obtain ⟨c, hc, hn, hf, ho, heq⟩ := hi.heapDealloc_eq
  have hi' : h.HeapInv arena (l₁ ++ l₂) := ⟨hi.ready, hi.pages, ho.weaken⟩
  rw [heq]
  cases c with
  | object page index =>
    dsimp only
    rw [hf.object page index rfl]
    exact hi'.freeSlabObject ho hc (hn page index rfl)
  | run head => exact hi'.freeLargeRun ho hc

end Nafuraito.Memory.Heap
