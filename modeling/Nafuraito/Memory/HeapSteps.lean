import Nafuraito.Memory.HeapInvariant

/-! Every part of a heap call keeps the invariant. -/
namespace Nafuraito.Memory.Heap
open Nafuraito.Library
open Slab (pageSize classSize classIndexFor freeListEnd)

variable {arena : HeapArena} {h h' : Heap} {live : List Block} {page index : Nat} {c : Cell} {layout : Layout}

/-! ### Loops over pages -/

/-- Page `p` is one of the `n` pages from `start` on. -/
def InPages (start n p : Nat) : Prop := start ≤ p ∧ p < start+n

instance (start n p : Nat) : Decidable (InPages start n p) := inferInstanceAs (Decidable (_ ∧ _))

theorem inPages_succ {start n p : Nat} : InPages start (n+1) p ↔ p = start+n ∨ InPages start n p := by
  unfold InPages
  omega

theorem isPageUsed_set (p : Nat) (used : Bool) :
    (h.setPageUsed p used).isPageUsed page = if page = p then used else h.isPageUsed page := by
  cases used
  · refine (Bitmap.test_clear h.pageBitmap p page).trans ?_
    by_cases hp : page = p <;> simp [hp, isPageUsed, Bitmap.test]
  · refine (Bitmap.test_set h.pageBitmap p page).trans ?_
    by_cases hp : page = p <;> simp [hp, isPageUsed, Bitmap.test]

theorem setKind_kind (p : Nat) (kind : PageKind) (head : Nat) :
    (h.setKind p kind head).pageKind page = if page = p then kind else h.pageKind page := by
  change Function.update h.pageKind p kind page = _
  rw [Function.update_apply]

theorem setKind_head (p : Nat) (kind : PageKind) (head : Nat) :
    (h.setKind p kind head).pageHead page = if page = p then head else h.pageHead page := by
  change Function.update h.pageHead p head page = _
  rw [Function.update_apply]

theorem setSlab_slabs (p : Nat) (slab : SlabPage) :
    (h.setSlab p slab).slabs page = if page = p then slab else h.slabs page := by
  change Function.update h.slabs p slab page = _
  rw [Function.update_apply]

theorem setSlab_self (slab : SlabPage) : (h.setSlab page slab).slabs page = slab := by
  rw [setSlab_slabs, if_pos rfl]

/-- Only the bits of the pages change. -/
theorem markUsed_spec (h : Heap) (start n : Nat) : ∃ bitmap, h.markUsed start n = { h with pageBitmap := bitmap } ∧
    ∀ p, (h.markUsed start n).isPageUsed p = if InPages start n p then true else h.isPageUsed p := by
  induction n with
  | zero => exact ⟨h.pageBitmap, rfl, fun p => (if_neg (by unfold InPages; omega)).symm⟩
  | succ n ih =>
    obtain ⟨bitmap, he, hused⟩ := ih
    have hstep : h.markUsed start (n+1) = (h.markUsed start n).setPageUsed (start+n) true := by
      rw [markUsed, List.range_succ, List.foldl_append]
      rfl
    rw [hstep]
    refine ⟨_, by rw [he]; rfl, fun p => ?_⟩
    rw [isPageUsed_set, hused]
    simp only [inPages_succ]
    split_ifs <;> tauto

theorem markLarge_spec (h : Heap) (start n : Nat) : ∃ kinds heads,
    h.markLarge start n = { h with pageKind := kinds, pageHead := heads } ∧
    ∀ p, kinds p = (if InPages start n p then .large else h.pageKind p) ∧
      heads p = if InPages start n p then u16 start else h.pageHead p := by
  induction n with
  | zero =>
    refine ⟨h.pageKind, h.pageHead, rfl, fun p => ?_⟩
    have : ¬ InPages start 0 p := by unfold InPages; omega
    rw [if_neg this, if_neg this]
    exact ⟨rfl, rfl⟩
  | succ n ih =>
    obtain ⟨kinds, heads, he, hspec⟩ := ih
    have hstep : h.markLarge start (n+1) = (h.markLarge start n).setKind (start+n) .large (u16 start) := by
      rw [markLarge, List.range_succ, List.foldl_append]
      rfl
    rw [hstep, he]
    refine ⟨_, _, rfl, fun p => ?_⟩
    simp only [Function.update_apply, (hspec p).1, (hspec p).2, inPages_succ]
    constructor <;> split_ifs <;> tauto

theorem releasePage_self (p : Nat) : (h.releasePage p).isPageUsed p = false ∧ (h.releasePage p).pageKind p = .free ∧
    (h.releasePage p).pageHead p = 0xFFFF ∧ (h.releasePage p).slabs p = .empty :=
  ⟨(isPageUsed_set p false).trans (if_pos rfl), (setKind_kind p .free 0xFFFF).trans (if_pos rfl),
    (setKind_head p .free 0xFFFF).trans (if_pos rfl), setSlab_self .empty⟩

theorem releasePage_other {p : Nat} (hne : page ≠ p) : (h.releasePage p).isPageUsed page = h.isPageUsed page ∧
    (h.releasePage p).pageKind page = h.pageKind page ∧ (h.releasePage p).pageHead page = h.pageHead page ∧
    (h.releasePage p).slabs page = h.slabs page :=
  ⟨(isPageUsed_set p false).trans (if_neg hne), (setKind_kind p .free 0xFFFF).trans (if_neg hne),
    (setKind_head p .free 0xFFFF).trans (if_neg hne), (setSlab_slabs p .empty).trans (if_neg hne)⟩

/-- The pages are as after a reset; the others and memory are not touched. -/
theorem releasePages_spec (h : Heap) (start n : Nat) :
    let h' := (List.range n).foldl (fun h i => h.releasePage (start+i)) h
    h'.ready = h.ready ∧ h'.mem = h.mem ∧ ∀ p,
      (InPages start n p → h'.isPageUsed p = false ∧ h'.pageKind p = .free ∧ h'.pageHead p = 0xFFFF ∧
        h'.slabs p = .empty) ∧
      (¬ InPages start n p → h'.isPageUsed p = h.isPageUsed p ∧ h'.pageKind p = h.pageKind p ∧
        h'.pageHead p = h.pageHead p ∧ h'.slabs p = h.slabs p) := by
  induction n with
  | zero => exact ⟨rfl, rfl, fun p => ⟨fun hin => absurd hin (by unfold InPages; omega), fun _ => ⟨rfl, rfl, rfl, rfl⟩⟩⟩
  | succ n ih =>
    obtain ⟨hready, hmem, hspec⟩ := ih
    rw [List.range_succ, List.foldl_append, List.foldl_cons, List.foldl_nil]
    refine ⟨hready, hmem, fun p => ?_⟩
    obtain ⟨h₁, h₂⟩ := hspec p
    by_cases hp : p = start+n
    · subst hp
      exact ⟨fun _ => releasePage_self _, fun hn => absurd (inPages_succ.mpr (.inl rfl)) hn⟩
    · obtain ⟨e₁, e₂, e₃, e₄⟩ := releasePage_other (h := (List.range n).foldl (fun h i => h.releasePage (start+i)) h) hp
      rw [e₁, e₂, e₃, e₄, inPages_succ]
      exact ⟨fun hin => h₁ (hin.resolve_left hp), fun hn => h₂ fun hin => hn (.inr hin)⟩

/-! ### What stays the same -/

/-- A page whose bookkeeping and bytes are untouched. -/
theorem SamePage.of_mem (hp : h.PagesOk arena) (hlt : page < heapPageCount) (hkind : h'.pageKind page = h.pageKind page)
    (hhead : h'.pageHead page = h.pageHead page) (hslab : h'.slabs page = h.slabs page)
    (hused : h'.isPageUsed page = h.isPageUsed page)
    (hmem : ∀ addr, arena.pagePtr page ≤ addr → addr < arena.pagePtr (page+1) → h'.mem addr = h.mem addr) :
    SamePage arena h h' page where
  kind := hkind
  head := hhead
  slab := hslab
  used := hused
  links hk i hi := by
    have hs := hp.slab hlt hk
    obtain ⟨l, _, hl, _, _, hiff⟩ := hs.free_iff
    have hi := hl i ((hiff i).mp hi)
    rw [link, link, show h'.objSize page = h.objSize page by rw [objSize, objSize, hslab]]
    apply readLE_congr
    intro addr hlo hhi
    obtain ⟨h₁, h₂, _⟩ := hs.object_bytes hi hlo (by
      rw [Nat.add_mul, Nat.one_mul]
      have := hs.two_le
      omega)
    exact hmem addr h₁ h₂
  magic _ _ := readLE_congr fun addr hlo hhi => hmem addr hlo (by
    simp only [HeapArena.pagePtr, pageSize] at *
    omega)
  pages _ _ := readLE_congr fun addr hlo hhi => hmem addr (by omega) (by
    simp only [HeapArena.pagePtr, pageSize] at *
    omega)

theorem HasCell.firstPage_lt (hc : h.HasCell c) : c.firstPage < heapPageCount := by
  cases c <;> exact hc.1

/-- The cells of a slab page are its objects. -/
theorem HasCell.of_slab (hc : h.HasCell c) (hpage : c.firstPage = page) (hk : h.pageKind page = .slab) :
    ∃ i, c = .object page i := by
  cases c with
  | object page index => exact ⟨index, by rw [← hpage, Cell.firstPage]⟩
  | run head =>
    obtain rfl := hpage
    have := hk.symm.trans hc.2.1
    cases this

/-- An object is aligned to its size, so to any alignment that is not larger. -/
theorem SlabOk.aligned (hs : h.SlabOk arena page) (halign : layout.align ≤ h.objSize page) (i : Nat) :
    layout.align ∣ arena.pagePtr page + i*h.objSize page := by
  obtain ⟨a, ha⟩ := layout.align_pow
  obtain ⟨k, _, hk, hsize, _⟩ := Slab.classSize_spec hs.classIndex
  change h.objSize page = 2^k at hsize
  rw [ha, hsize] at halign
  have hak : a ≤ k := (Nat.pow_le_pow_iff_right (by decide)).mp halign
  have hpage : 2^12 ∣ arena.pagePtr page := by
    have := arena.aligned
    apply Nat.dvd_of_mod_eq_zero
    simp only [HeapArena.pagePtr, pageSize]
    omega
  rw [ha, hsize]
  exact Nat.dvd_add ((Nat.pow_dvd_pow 2 (by omega)).trans hpage)
    ((Nat.pow_dvd_pow 2 hak).trans (Nat.dvd_mul_left _ _))

/-- Objects of a page whose slab keeps its class, as long as none becomes free. -/
theorem Kept.object (hc : h.HasCell (.object page index)) (hkind : h'.pageKind page = h.pageKind page)
    (hclass : (h'.slabs page).classIndex = (h.slabs page).classIndex)
    (hcapacity : (h'.slabs page).capacity = (h.slabs page).capacity)
    (hn : ¬ h'.FreeObject arena page index) : Kept arena h h' (.object page index) := by
  obtain ⟨hlt, hk, hi⟩ := hc
  have hsize : h'.objSize page = h.objSize page := by rw [objSize, objSize, hclass]
  refine ⟨⟨hlt, hkind.trans hk, by rwa [hcapacity]⟩, ?_, ?_, ?_⟩
  · rintro _ _ ⟨⟩
    exact hn
  · rw [cellStart, cellStart, hsize]
  · rw [cellStop, cellStop, hsize]

/-! ### Objects of a slab page -/

/-- A change of one slab page that leaves it a slab page. -/
theorem PagesOk.changeSlab (hp : h.PagesOk arena) (hk : h.pageKind page = .slab) (hs : h'.SlabOk arena page)
    (hkind : ∀ p, h'.pageKind p = h.pageKind p) (hhead : ∀ p, h'.pageHead p = h.pageHead p)
    (hused : ∀ p, h'.isPageUsed p = h.isPageUsed p) (hslab : ∀ p, p ≠ page → h'.slabs p = h.slabs p)
    (hmem : ∀ addr, addr < arena.pagePtr page ∨ arena.pagePtr (page+1) ≤ addr → h'.mem addr = h.mem addr) :
    h'.PagesOk arena ∧ ∀ p < heapPageCount, p ≠ page → SamePage arena h h' p := by
  have hsame : ∀ p < heapPageCount, p ≠ page → SamePage arena h h' p := fun p hlt hne =>
    .of_mem hp hlt (hkind p) (hhead p) (hslab p hne) (hused p) fun addr hlo hhi => hmem addr (by
      simp only [HeapArena.pagePtr, pageSize] at *
      omega)
  refine ⟨hp.of_same {page} hsame ?_ ?_, hsame⟩
  · rintro p hlt _ hkp q hlo hhi rfl
    have := ((hp.run hlt hkp).pages q hlo hhi).1
    rw [hk] at this
    cases this
  · rintro p hlt rfl
    refine ⟨?_, fun _ => hs, fun hk' => ?_⟩
    · rw [hused, hkind]
      exact (hp p hlt).1
    · rw [hkind, hk] at hk'
      cases hk'

/-- Taking the first free object of a slab page. -/
theorem HeapInv.takeObject (hi : h.HeapInv arena live) (hlt : page < heapPageCount) (hk : h.pageKind page = .slab)
    (hfree : (h.slabs page).hasFreeObjects = true) (hpos : 0 < layout.size) (hsize : layout.size ≤ h.objSize page)
    (halign : layout.align ≤ h.objSize page) :
    ((h.slabs page).allocFromSlab (arena.pagePtr page) h.mem).1 ≠ 0 ∧
      (h.setSlab page ((h.slabs page).allocFromSlab (arena.pagePtr page) h.mem).2).HeapInv arena
        (⟨((h.slabs page).allocFromSlab (arena.pagePtr page) h.mem).1, layout⟩ :: live) := by
  have hs := hi.pages.slab hlt hk
  obtain ⟨l, hnodup, hl, hchain, hlen, hiff⟩ := hs.free_iff
  rw [SlabPage.hasFreeObjects, Bool.and_eq_true, bne_iff_ne] at hfree
  cases l with
  | nil => exact absurd hchain hfree.2
  | cons i rest =>
    obtain ⟨hhead, _, hrest⟩ := hchain
    have hi' := hl i List.mem_cons_self
    set slab : SlabPage := { h.slabs page with
      freeHead := h.link arena page i, inUse := min ((h.slabs page).inUse + 1) 0xFFFF } with hslab
    have hptr : (h.slabs page).allocFromSlab (arena.pagePtr page) h.mem =
        (arena.pagePtr page + i*h.objSize page, slab) := by
      have hpos : classSize (h.slabs page).classIndex ≠ 0 := by
        have := hs.two_le
        rw [objSize] at this
        omega
      rw [SlabPage.allocFromSlab, if_neg (by simp [SlabPage.hasFreeObjects, hfree]), if_neg hpos, hhead]
      rfl
    rw [hptr]
    have hlink : (h.setSlab page slab).link arena page = h.link arena page := by
      funext j
      rw [link, link, objSize, objSize, setSlab_self]
      rfl
    rw [List.length_cons] at hlen
    have hcap : (h.slabs page).capacity ≤ 4096 := by
      rw [hs.capacity]
      exact Nat.div_le_self _ _
    have hs' : (h.setSlab page slab).SlabOk arena page := by
      refine ⟨hs.head, ?_, ?_, ?_, rest, (List.nodup_cons.mp hnodup).2, ?_⟩
      · rw [setSlab_self]
        exact hs.active
      · rw [setSlab_self]
        exact hs.classIndex
      · rw [objSize, setSlab_self]
        exact hs.capacity
      · rw [hlink, setSlab_self]
        refine ⟨fun j hj => hl j (List.mem_cons_of_mem i hj), hrest, ?_⟩
        have hin : slab.inUse = (h.slabs page).inUse + 1 := Nat.min_eq_left (by omega)
        rw [hin, ← hlen]
        omega
    obtain ⟨hp', hsame⟩ := hi.pages.changeSlab hk hs' (fun _ => rfl) (fun _ => rfl) (fun _ => rfl)
      (fun p hne => by rw [setSlab_slabs, if_neg hne]) (fun _ _ => rfl)
    refine ⟨?_, hi.ready, hp', ?_⟩
    · have := arena.base_pos
      simp only [HeapArena.pagePtr]
      omega
    · have hother := hi.owned.unused (c := .object page i) fun _ hn => hn page i rfl ((hiff i).mpr List.mem_cons_self)
      have hfree' (j : Nat) : (h.setSlab page slab).FreeObject arena page j ↔ j ∈ rest := by
        rw [FreeObject, hlink, setSlab_self]
        exact hrest.linked_iff
      have hkept (c : Cell) (hne : c ∉ ({.object page i} : Set Cell)) (hc : h.HasCell c) (hn : h.NotFree arena c) :
          Kept arena h (h.setSlab page slab) c := by
        by_cases hpage : c.firstPage = page
        · obtain ⟨j, rfl⟩ := hc.of_slab hpage hk
          refine .object hc rfl (by rw [setSlab_self]) (by rw [setSlab_self]) fun hf => ?_
          exact hn _ j rfl ((hiff j).mpr (List.mem_cons_of_mem i ((hfree' j).mp hf)))
        · exact .of_same hi.pages hc hn (hsame _ hc.firstPage_lt hpage)
      refine (hother.kept hkept).add ⟨hlt, hk, ?_⟩ ?_ ?_
      · rw [setSlab_self]
        exact hi'
      · rintro _ _ ⟨⟩ hf
        exact (List.nodup_cons.mp hnodup).1 ((hfree' i).mp hf)
      · have hsize' : (h.setSlab page slab).objSize page = h.objSize page := by rw [objSize, setSlab_self, objSize]
        refine ⟨?_, fun _ _ _ => ?_, ?_, hpos, hs.aligned halign i⟩ <;> simp only [cellStart, cellStop, hsize']
        · exact Nat.le_refl _
        · rw [Nat.add_mul, Nat.one_mul]
          omega

/-- What `free_to_slab` makes of an object's pointer. -/
theorem SlabOk.freeToSlab_run (hs : h.SlabOk arena page) (hi : index < (h.slabs page).capacity) :
    (h.slabs page).freeToSlab (arena.pagePtr page) (arena.pagePtr page + index*h.objSize page) h.mem =
      (true, { h.slabs page with freeHead := index, inUse := (h.slabs page).inUse - 1 },
        writeLE h.mem (arena.pagePtr page + index*h.objSize page) 2 (h.slabs page).freeHead) :=
  hs.formed.freeToSlab_run (Nat.lt_of_lt_of_le arena.base_pos (Nat.le_add_right _ _)) hi h.mem

/-- The heap after an object went back on the free list of its page. -/
def returned (arena : HeapArena) (h : Heap) (page index : Nat) : Heap :=
  { h.setSlab page { h.slabs page with freeHead := index, inUse := (h.slabs page).inUse - 1 } with
    mem := writeLE h.mem (arena.pagePtr page + index*h.objSize page) 2 (h.slabs page).freeHead }

theorem returned_slab : (h.returned arena page index).slabs page =
    { h.slabs page with freeHead := index, inUse := (h.slabs page).inUse - 1 } := setSlab_self _

/-- Putting an object that is not free on the free list. -/
theorem HeapInv.returnObject (hready : h.ready = true) (hp : h.PagesOk arena)
    (ho : h.Owned arena {.object page index} live) (hk : h.pageKind page = .slab) (hlt : page < heapPageCount)
    (hi : index < (h.slabs page).capacity) (hn : ¬ h.FreeObject arena page index) :
    (h.returned arena page index).HeapInv arena live := by
  have hs := hp.slab hlt hk
  have htwo := hs.two_le
  obtain ⟨l, hnodup, hl, hchain, hlen, hiff⟩ := hs.free_iff
  have hnew : index ∉ l := fun hin => hn ((hiff index).mpr hin)
  have hshort := length_lt_of_missing hnodup hl hi hnew
  have hcap : (h.slabs page).capacity ≤ 4096 := by
    rw [hs.capacity]
    exact Nat.div_le_self _ _
  have hhead : (h.slabs page).freeHead < 256^2 := by
    cases l with
    | nil =>
      rw [show (h.slabs page).freeHead = freeListEnd from hchain]
      decide
    | cons j rest =>
      rw [hchain.1]
      have := hl j List.mem_cons_self
      omega
  have hlink (j : Nat) : (h.returned arena page index).link arena page j =
      if j = index then (h.slabs page).freeHead else h.link arena page j := by
    rw [link, link, show (h.returned arena page index).objSize page = h.objSize page by
      rw [objSize, returned_slab, objSize]]
    split
    · rename_i he
      rw [he]
      exact (readLE_writeLE _).trans (Nat.mod_eq_of_lt hhead)
    · rename_i hne
      apply readLE_writeLE_other
      rcases Slab.object_apart (h.objSize page) hne with h | h <;> omega
  have hchain' : FreeChain ((h.returned arena page index).link arena page) freeListEnd index (index :: l) := by
    refine hchain.push (by rw [freeListEnd]; omega) (by rw [hlink, if_pos rfl]) fun j hj => ?_
    rw [hlink, if_neg]
    rintro rfl
    exact hnew hj
  have hs' : (h.returned arena page index).SlabOk arena page := by
    refine ⟨hs.head, ?_, ?_, ?_, index :: l, List.nodup_cons.mpr ⟨hnew, hnodup⟩, ?_⟩
    · rw [returned_slab]
      exact hs.active
    · rw [returned_slab]
      exact hs.classIndex
    · rw [objSize, returned_slab]
      exact hs.capacity
    · rw [returned_slab]
      refine ⟨fun j hj => ?_, hchain', ?_⟩
      · rcases List.mem_cons.mp hj with rfl | hj
        · exact hi
        · exact hl j hj
      · rw [List.length_cons]
        change (h.slabs page).inUse - 1 + _ = (h.slabs page).capacity
        omega
  have hpage : arena.pagePtr page + index*h.objSize page + 2 ≤ arena.pagePtr (page+1) := by
    have := Nat.mul_le_mul_right (h.objSize page) (Nat.succ_le_of_lt hi)
    rw [hs.full, Nat.succ_mul] at this
    rw [arena.pagePtr_succ]
    omega
  obtain ⟨hp', hsame⟩ := hp.changeSlab hk hs' (fun _ => rfl) (fun _ => rfl) (fun _ => rfl)
    (fun p hne => (setSlab_slabs page _).trans (if_neg hne))
    (fun addr h => writeLE_other (by omega))
  refine ⟨hready, hp', (ho.kept fun c hne hc hn => ?_).weaken⟩
  by_cases hpage : c.firstPage = page
  · obtain ⟨j, rfl⟩ := hc.of_slab hpage hk
    refine .object hc rfl (by rw [returned_slab]) (by rw [returned_slab]) fun hf => ?_
    rw [FreeObject, returned_slab, hchain'.linked_iff, List.mem_cons] at hf
    rcases hf with rfl | hf
    · exact hne rfl
    · exact hn _ j rfl ((hiff j).mpr hf)
  · exact .of_same hp hc hn (hsame _ hc.firstPage_lt hpage)

/-! ### Releasing pages -/

/-- Pages that no block and no other run uses can be given back. -/
theorem HeapInv.release {off : Set Cell} (hready : h.ready = true) (hp : h.PagesOk arena)
    (ho : h.Owned arena off live) {start n : Nat} (hle : start + n ≤ heapPageCount)
    (hoff : ∀ c ∉ off, h.HasCell c → h.NotFree arena c → ¬ InPages start n c.firstPage)
    (hrun : ∀ p < heapPageCount, ¬ InPages start n p → h.pageKind p = .large → ∀ q, h.pageHead p ≤ q →
      q < h.pageHead p + h.runPages arena (h.pageHead p) → ¬ InPages start n q) :
    (h.freeContiguousPages start n).HeapInv arena live := by
  have hcount : h.freeContiguousPages start n = (List.range n).foldl (fun h i => h.releasePage (start+i)) h := by
    rw [freeContiguousPages, Nat.min_eq_left (by omega)]
  obtain ⟨hready', hmem, hspec⟩ := releasePages_spec h start n
  rw [hcount]
  have hsame (p : Nat) (hlt : p < heapPageCount) (hout : ¬ InPages start n p) :
      SamePage arena h ((List.range n).foldl (fun h i => h.releasePage (start+i)) h) p := by
    obtain ⟨hused, hkind, hhead, hslab⟩ := (hspec p).2 hout
    exact .of_mem hp hlt hkind hhead hslab hused fun addr _ _ => by rw [hmem]
  refine ⟨hready'.trans hready, ?_, (ho.kept fun c hne hc hn => ?_).weaken⟩
  · refine hp.of_same {p | InPages start n p} hsame hrun fun p _ hin => ?_
    obtain ⟨hused, hkind, _⟩ := (hspec p).1 hin
    refine ⟨by rw [hused, hkind]; rfl, fun hk => ?_, fun hk => ?_⟩ <;>
    · rw [hkind] at hk
      cases hk
  · exact .of_same hp hc hn (hsame _ hc.firstPage_lt (hoff c hne hc hn))

end Nafuraito.Memory.Heap
