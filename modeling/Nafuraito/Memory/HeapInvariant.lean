import Nafuraito.Memory.Heap
import Mathlib.Order.Interval.Set.Basic

/-! The invariant of the heap: what its pages hold, and which cell of the arena each live block has. -/
namespace Nafuraito.Memory
open Nafuraito.Library
open Slab (pageSize classSize freeListEnd)

/-- What the heap hands out: an object of a slab page, or a run of pages after its header. -/
inductive Cell where
  | object (page index : Nat)
  | run (head : Nat)
  deriving DecidableEq

/-- The page a cell starts in. -/
def Cell.firstPage : Cell → Nat
  | .object page _ => page
  | .run head => head

/-- A block given to a client, with what was asked for. -/
structure Block where
  ptr : Nat
  layout : Layout

namespace Heap
variable (arena : HeapArena) (h : Heap)

def objSize (page : Nat) : Nat := classSize (h.slabs page).classIndex

/-- The link in an object. -/
def link (page index : Nat) : Nat := readLE h.mem (arena.pagePtr page + index*h.objSize page) 2

/-- The object is on the free list of its page. -/
def FreeObject (page : Nat) : Nat → Prop := Linked (h.link arena page) freeListEnd (h.slabs page).freeHead

def runPages (head : Nat) : Nat := headerPages h.mem (arena.pagePtr head)

/-- A slab page: its objects are the free ones of the chain and those in use. -/
structure SlabOk (page : Nat) : Prop where
  head : h.pageHead page = page
  active : (h.slabs page).active = true
  classIndex : (h.slabs page).classIndex < 8
  capacity : (h.slabs page).capacity = pageSize / h.objSize page
  chain : ∃ l, l.Nodup ∧ (∀ i ∈ l, i < (h.slabs page).capacity) ∧
    FreeChain (h.link arena page) freeListEnd (h.slabs page).freeHead l ∧
    (h.slabs page).inUse + l.length = (h.slabs page).capacity

/-- The first page of a run, with the header. -/
structure RunOk (head : Nat) : Prop where
  magic : headerMagic h.mem (arena.pagePtr head) = largeMagic
  pos : 0 < h.runPages arena head
  stop_le : head + h.runPages arena head ≤ heapPageCount
  pages : ∀ page, head ≤ page → page < head + h.runPages arena head →
    h.pageKind page = .large ∧ h.pageHead page = head

/-- The page is free exactly if its bit is clear, and a used one is a slab or part of a run. -/
def PageOk (page : Nat) : Prop :=
  h.isPageUsed page = decide (h.pageKind page ≠ .free) ∧
  (h.pageKind page = .slab → h.SlabOk arena page) ∧
  (h.pageKind page = .large → h.RunOk arena (h.pageHead page) ∧ h.pageHead page ≤ page ∧
    page < h.pageHead page + h.runPages arena (h.pageHead page))

def PagesOk : Prop := ∀ page < heapPageCount, h.PageOk arena page

/-! ### Cells -/

/-- The first byte of a cell and the byte after it. -/
def cellStart : Cell → Nat
  | .object page index => arena.pagePtr page + index*h.objSize page
  | .run head => arena.pagePtr head + headerSize

def cellStop : Cell → Nat
  | .object page index => arena.pagePtr page + (index+1)*h.objSize page
  | .run head => arena.pagePtr (head + h.runPages arena head)

/-- The cell an address is in. -/
def cellAt (addr : Nat) : Cell :=
  let page := (addr - arena.base) / pageSize
  match h.pageKind page with
  | .slab => .object page ((addr - arena.pagePtr page) / h.objSize page)
  | _ => .run (h.pageHead page)

/-- The cell is one of the heap's, free or not. -/
def HasCell : Cell → Prop
  | .object page index => page < heapPageCount ∧ h.pageKind page = .slab ∧ index < (h.slabs page).capacity
  | .run head => head < heapPageCount ∧ h.pageKind head = .large ∧ h.pageHead head = head

/-- The cell is not a free object. -/
def NotFree (c : Cell) : Prop := ∀ page index, c = .object page index → ¬ h.FreeObject arena page index

/-- The block lies in the cell; in a slab page it is the object. -/
structure Fills (c : Cell) (b : Block) : Prop where
  start_le : h.cellStart arena c ≤ b.ptr
  object : ∀ page index, c = .object page index → b.ptr = h.cellStart arena c
  stop_le : b.ptr + b.layout.size ≤ h.cellStop arena c
  pos : 0 < b.layout.size
  aligned : b.layout.align ∣ b.ptr

/-- The blocks have cells of their own, none of them in `off`. -/
def Owned (off : Set Cell) (live : List Block) : Prop :=
  ∃ owned : List (Cell × Block), owned.map Prod.snd = live ∧ (owned.map Prod.fst).Nodup ∧
    ∀ o ∈ owned, o.1 ∉ off ∧ h.HasCell o.1 ∧ h.NotFree arena o.1 ∧ h.Fills arena o.1 o.2

structure HeapInv (live : List Block) : Prop where
  ready : h.ready = true
  pages : h.PagesOk arena
  owned : h.Owned arena ∅ live

variable {arena h} {page index addr : Nat} {c : Cell}

theorem pagePtr_div (hlo : arena.pagePtr page ≤ addr) (hhi : addr < arena.pagePtr (page+1)) :
    (addr - arena.base) / pageSize = page := by
  simp only [HeapArena.pagePtr, pageSize] at *
  omega

theorem SlabOk.formed (hs : h.SlabOk arena page) : (h.slabs page).Formed := ⟨hs.active, hs.classIndex, hs.capacity⟩

/-- An object has room for a link. -/
theorem SlabOk.two_le (hs : h.SlabOk arena page) : 2 ≤ h.objSize page := hs.formed.two_le

/-- The objects of a slab page fill it. -/
theorem SlabOk.full (hs : h.SlabOk arena page) : (h.slabs page).capacity * h.objSize page = pageSize := hs.formed.full

theorem SlabOk.free_iff (hs : h.SlabOk arena page) : ∃ l : List Nat, l.Nodup ∧
    (∀ i ∈ l, i < (h.slabs page).capacity) ∧
    FreeChain (h.link arena page) freeListEnd (h.slabs page).freeHead l ∧
    (h.slabs page).inUse + l.length = (h.slabs page).capacity ∧ ∀ i, h.FreeObject arena page i ↔ i ∈ l := by
  obtain ⟨l, hnodup, hlt, hchain, hlen⟩ := hs.chain
  exact ⟨l, hnodup, hlt, hchain, hlen, fun i => hchain.linked_iff⟩

/-- An object's bytes are in its page, at its index. -/
theorem SlabOk.object_bytes (hs : h.SlabOk arena page) (hi : index < (h.slabs page).capacity)
    (hlo : arena.pagePtr page + index*h.objSize page ≤ addr)
    (hhi : addr < arena.pagePtr page + (index+1)*h.objSize page) :
    arena.pagePtr page ≤ addr ∧ addr < arena.pagePtr (page+1) ∧
      (addr - arena.pagePtr page) / h.objSize page = index := by
  have hpos : 0 < h.objSize page := Nat.lt_of_lt_of_le (by decide) hs.two_le
  have hstop : (index+1)*h.objSize page ≤ pageSize := by
    rw [← hs.full]
    exact Nat.mul_le_mul_right _ hi
  refine ⟨by omega, ?_, ?_⟩
  · rw [arena.pagePtr_succ]
    omega
  · rw [Nat.div_eq_iff hpos]
    rw [Nat.add_mul, Nat.one_mul] at hhi
    have := Nat.mul_comm index (h.objSize page)
    omega

theorem PagesOk.slab (hp : h.PagesOk arena) (hlt : page < heapPageCount) (hk : h.pageKind page = .slab) :
    h.SlabOk arena page := (hp page hlt).2.1 hk

theorem PagesOk.run (hp : h.PagesOk arena) (hlt : page < heapPageCount) (hk : h.pageKind page = .large) :
    h.RunOk arena (h.pageHead page) := ((hp page hlt).2.2 hk).1

/-- The run of a large page, and where the page is in it. -/
theorem PagesOk.run_cell (hp : h.PagesOk arena) (hlt : page < heapPageCount) (hk : h.pageKind page = .large) :
    h.HasCell (.run (h.pageHead page)) ∧ h.pageHead page ≤ page ∧
      page < h.pageHead page + h.runPages arena (h.pageHead page) := by
  obtain ⟨hr, hlo, hhi⟩ := (hp page hlt).2.2 hk
  have hpos := hr.pos
  obtain ⟨hkh, hhh⟩ := hr.pages _ (Nat.le_refl _) (by omega)
  exact ⟨⟨Nat.lt_of_le_of_lt hlo hlt, hkh, hhh⟩, hlo, hhi⟩

/-- A byte of a run's pages belongs to the run, header or not. -/
theorem RunOk.cellAt_eq {head : Nat} (hr : h.RunOk arena head) (hlo : arena.pagePtr head ≤ addr)
    (hhi : addr < arena.pagePtr (head + h.runPages arena head)) : h.cellAt arena addr = .run head := by
  have hpage : head ≤ (addr - arena.base) / pageSize ∧
      (addr - arena.base) / pageSize < head + h.runPages arena head := by
    simp only [HeapArena.pagePtr, pageSize] at *
    omega
  obtain ⟨hk, hh⟩ := hr.pages _ hpage.1 hpage.2
  rw [cellAt]
  simp only [hk, hh]

/-- The cell of an address is the one whose bytes it is among. -/
theorem PagesOk.cellAt_eq (hp : h.PagesOk arena) (hc : h.HasCell c) (hlo : h.cellStart arena c ≤ addr)
    (hhi : addr < h.cellStop arena c) : h.cellAt arena addr = c := by
  cases c with
  | object page index =>
    obtain ⟨hlt, hk, hi⟩ := hc
    obtain ⟨h₁, h₂, h₃⟩ := (hp.slab hlt hk).object_bytes hi hlo hhi
    rw [cellAt]
    simp only [pagePtr_div h₁ h₂, hk, h₃]
  | run head =>
    obtain ⟨hlt, hk, hh⟩ := hc
    have hr := hp.run hlt hk
    rw [hh] at hr
    exact hr.cellAt_eq (Nat.le_trans (Nat.le_add_right _ _) hlo) hhi

/-! ### The contract -/

/-- The bytes a client has: from the pointer to the end of its cell. -/
def blockBytes (arena : HeapArena) (h : Heap) (b : Block) : Set Nat :=
  Set.Ico b.ptr (h.cellStop arena (h.cellAt arena b.ptr))

/-- The bytes the allocator still reads: the links of free objects and the headers of runs. -/
def ReadBytes (arena : HeapArena) (h : Heap) : Set Nat :=
  {addr | (∃ page index, page < heapPageCount ∧ h.pageKind page = .slab ∧ h.FreeObject arena page index ∧
      addr ∈ Set.Ico (arena.pagePtr page + index*h.objSize page) (arena.pagePtr page + index*h.objSize page + 2)) ∨
    ∃ page < heapPageCount, h.pageKind page = .large ∧
      addr ∈ Set.Ico (arena.pagePtr (h.pageHead page)) (arena.pagePtr (h.pageHead page) + headerSize)}

variable {live : List Block}

theorem Fills.cellAt_eq {b : Block} (hf : h.Fills arena c b) (hp : h.PagesOk arena) (hc : h.HasCell c) :
    h.cellAt arena b.ptr = c := by
  have h₁ := hf.stop_le
  have h₂ := hf.pos
  exact hp.cellAt_eq hc hf.start_le (by omega)

/-- A cell lies in the arena. -/
theorem PagesOk.cellStop_le (hp : h.PagesOk arena) (hc : h.HasCell c) :
    h.cellStop arena c ≤ arena.base + heapSize := by
  cases c with
  | object page index =>
    obtain ⟨hlt, hk, hi⟩ := hc
    have hs := hp.slab hlt hk
    have hstop : (index+1)*h.objSize page ≤ pageSize := by
      rw [← hs.full]
      exact Nat.mul_le_mul_right _ hi
    simp only [cellStop, HeapArena.pagePtr, heapPageCount, heapSize, pageSize] at *
    omega
  | run head =>
    obtain ⟨hlt, hk, hh⟩ := hc
    have hr := hp.run hlt hk
    rw [hh] at hr
    have := hr.stop_le
    simp only [cellStop, HeapArena.pagePtr, heapPageCount, heapSize, pageSize] at *
    omega

theorem base_le_cellStart : arena.base ≤ h.cellStart arena c := by
  cases c <;> simp only [cellStart, HeapArena.pagePtr] <;> omega

/-- What the allocator reads is in no cell that is in use. -/
theorem PagesOk.not_read (hp : h.PagesOk arena) (hc : h.HasCell c) (hn : h.NotFree arena c)
    (hlo : h.cellStart arena c ≤ addr) (hhi : addr < h.cellStop arena c) : addr ∉ h.ReadBytes arena := by
  have hcell := hp.cellAt_eq hc hlo hhi
  rintro (⟨page, index, hlt, hk, hfree, h₁, h₂⟩ | ⟨page, hlt, hk, h₁, h₂⟩)
  · have hs := hp.slab hlt hk
    obtain ⟨l, _, hl, _, _, hiff⟩ := hs.free_iff
    have hsize := hs.two_le
    have hobject : h.HasCell (.object page index) := ⟨hlt, hk, hl index ((hiff index).mp hfree)⟩
    have hstop : addr < h.cellStop arena (.object page index) := by
      rw [cellStop, Nat.add_mul, Nat.one_mul]
      omega
    rw [hp.cellAt_eq hobject h₁ hstop] at hcell
    exact hn page index hcell.symm hfree
  · have hr := hp.run hlt hk
    have hpos := hr.pos
    have hstop : addr < arena.pagePtr (h.pageHead page + h.runPages arena (h.pageHead page)) := by
      simp only [HeapArena.pagePtr, headerSize, pageSize] at *
      omega
    rw [hr.cellAt_eq h₁ hstop] at hcell
    subst hcell
    rw [cellStart] at hlo
    omega

/-- What the invariant says to the clients. -/
theorem HeapInv.contract (hi : h.HeapInv arena live) :
    live.Pairwise (fun a b => ∀ addr ∈ h.blockBytes arena a, addr ∉ h.blockBytes arena b) ∧
    ∀ b ∈ live, h.blockBytes arena b ⊆ Set.Ico arena.base (arena.base + heapSize) ∧
      (∀ addr ∈ h.blockBytes arena b, addr ∉ h.ReadBytes arena) ∧ b.layout.align ∣ b.ptr ∧
      Set.Ico b.ptr (b.ptr + b.layout.size) ⊆ h.blockBytes arena b := by
  obtain ⟨owned, rfl, hnodup, hcells⟩ := hi.owned
  have hbytes {o : Cell × Block} (ho : o ∈ owned) :
      h.blockBytes arena o.2 = Set.Ico o.2.ptr (h.cellStop arena o.1) := by
    obtain ⟨_, hc, _, hf⟩ := hcells o ho
    rw [blockBytes, hf.cellAt_eq hi.pages hc]
  constructor
  · rw [List.pairwise_map]
    rw [List.Nodup, List.pairwise_map] at hnodup
    refine hnodup.imp_of_mem fun {o o'} ho ho' hne => ?_
    rw [hbytes ho, hbytes ho']
    rintro addr ⟨h₁, h₂⟩ ⟨h₃, h₄⟩
    obtain ⟨_, hc, _, hf⟩ := hcells o ho
    obtain ⟨_, hc', _, hf'⟩ := hcells o' ho'
    apply hne
    rw [← hi.pages.cellAt_eq hc (Nat.le_trans hf.start_le h₁) h₂,
      hi.pages.cellAt_eq hc' (Nat.le_trans hf'.start_le h₃) h₄]
  · intro b hb
    obtain ⟨o, ho, rfl⟩ := List.mem_map.mp hb
    obtain ⟨_, hc, hn, hf⟩ := hcells o ho
    rw [hbytes ho]
    refine ⟨fun addr hin => ?_, fun addr hin => ?_, hf.aligned, ?_⟩
    · exact ⟨Nat.le_trans base_le_cellStart (Nat.le_trans hf.start_le hin.1),
        Nat.lt_of_lt_of_le hin.2 (hi.pages.cellStop_le hc)⟩
    · exact hi.pages.not_read hc hn (Nat.le_trans hf.start_le hin.1) hin.2
    · exact Set.Ico_subset_Ico_right hf.stop_le

/-! ### Owning cells -/

/-- The cell is in use in `h'` too, and where it was. -/
structure Kept (arena : HeapArena) (h h' : Heap) (c : Cell) : Prop where
  hasCell : h'.HasCell c
  notFree : h'.NotFree arena c
  start : h'.cellStart arena c = h.cellStart arena c
  stop : h'.cellStop arena c = h.cellStop arena c

theorem Kept.fills {h' : Heap} (hk : Kept arena h h' c) {b : Block} (hf : h.Fills arena c b) : h'.Fills arena c b where
  start_le := by rw [hk.start]; exact hf.start_le
  object := by rw [hk.start]; exact hf.object
  stop_le := by rw [hk.stop]; exact hf.stop_le
  pos := hf.pos
  aligned := hf.aligned

namespace Owned
variable {off : Set Cell} {h' : Heap}

theorem kept (ho : h.Owned arena off live)
    (hk : ∀ c ∉ off, h.HasCell c → h.NotFree arena c → Kept arena h h' c) : h'.Owned arena off live := by
  obtain ⟨owned, hmap, hnodup, hcells⟩ := ho
  refine ⟨owned, hmap, hnodup, fun o hin => ?_⟩
  obtain ⟨hoff, hc, hn, hf⟩ := hcells o hin
  have hkept := hk o.1 hoff hc hn
  exact ⟨hoff, hkept.hasCell, hkept.notFree, hkept.fills hf⟩

/-- A cell that is not in use is owned by no block. -/
theorem unused (ho : h.Owned arena ∅ live) (hc : h.HasCell c → ¬ h.NotFree arena c) : h.Owned arena {c} live := by
  obtain ⟨owned, hmap, hnodup, hcells⟩ := ho
  refine ⟨owned, hmap, hnodup, fun o hin => ?_⟩
  obtain ⟨_, hcell, hn, hf⟩ := hcells o hin
  refine ⟨fun he => ?_, hcell, hn, hf⟩
  rw [Set.mem_singleton_iff] at he
  exact hc (he ▸ hcell) (he ▸ hn)

theorem add (ho : h.Owned arena {c} live) (hc : h.HasCell c) (hn : h.NotFree arena c) {b : Block}
    (hf : h.Fills arena c b) : h.Owned arena ∅ (b :: live) := by
  obtain ⟨owned, rfl, hnodup, hcells⟩ := ho
  refine ⟨(c, b) :: owned, rfl, List.nodup_cons.mpr ⟨fun hin => ?_, hnodup⟩, fun o hin => ?_⟩
  · obtain ⟨o, hin, he⟩ := List.mem_map.mp hin
    exact (hcells o hin).1 he
  · rcases List.mem_cons.mp hin with rfl | hin
    · exact ⟨Set.notMem_empty _, hc, hn, hf⟩
    · exact ⟨Set.notMem_empty _, (hcells o hin).2⟩

theorem remove {l₁ l₂ : List Block} {b : Block} (ho : h.Owned arena ∅ (l₁ ++ b :: l₂)) :
    ∃ c, h.HasCell c ∧ h.NotFree arena c ∧ h.Fills arena c b ∧ h.Owned arena {c} (l₁ ++ l₂) := by
  obtain ⟨owned, hmap, hnodup, hcells⟩ := ho
  obtain ⟨o₁, o₂, rfl, rfl, htail⟩ := List.map_eq_append_iff.mp hmap
  obtain ⟨⟨c, b⟩, o₂, rfl, rfl, rfl⟩ := List.map_eq_cons_iff.mp htail
  obtain ⟨_, hc, hn, hf⟩ := hcells (c, b) (by simp)
  rw [List.map_append, List.map_cons, List.nodup_middle, ← List.map_append, List.nodup_cons] at hnodup
  refine ⟨c, hc, hn, hf, o₁ ++ o₂, List.map_append, hnodup.2, fun o hin => ?_⟩
  have hmem : o ∈ o₁ ++ (c, b) :: o₂ := by
    rw [List.mem_append] at hin
    rcases hin with hin | hin <;> simp [hin]
  refine ⟨fun he => hnodup.1 ?_, (hcells o hmem).2⟩
  rw [Set.mem_singleton_iff] at he
  exact List.mem_map.mpr ⟨o, hin, he⟩

theorem weaken (ho : h.Owned arena off live) : h.Owned arena ∅ live := by
  obtain ⟨owned, hmap, hnodup, hcells⟩ := ho
  exact ⟨owned, hmap, hnodup, fun o hin => ⟨Set.notMem_empty _, (hcells o hin).2⟩⟩

end Owned

/-! ### Pages that are left alone -/

/-- `h'` reads in the page what `h` does: its bookkeeping, its links and its header. -/
structure SamePage (arena : HeapArena) (h h' : Heap) (page : Nat) : Prop where
  kind : h'.pageKind page = h.pageKind page
  head : h'.pageHead page = h.pageHead page
  slab : h'.slabs page = h.slabs page
  used : h'.isPageUsed page = h.isPageUsed page
  links : h.pageKind page = .slab → ∀ i, h.FreeObject arena page i → h'.link arena page i = h.link arena page i
  magic : h.pageKind page = .large → h.pageHead page = page →
    headerMagic h'.mem (arena.pagePtr page) = headerMagic h.mem (arena.pagePtr page)
  pages : h.pageKind page = .large → h.pageHead page = page → h'.runPages arena page = h.runPages arena page

variable {h' : Heap}

theorem SlabOk.of_same (hs : h.SlabOk arena page) (hsame : SamePage arena h h' page)
    (hk : h.pageKind page = .slab) :
    h'.SlabOk arena page ∧ ∀ i, h'.FreeObject arena page i ↔ h.FreeObject arena page i := by
  obtain ⟨l, hnodup, hlt, hchain, hlen, hiff⟩ := hs.free_iff
  have hchain' : FreeChain (h'.link arena page) freeListEnd (h.slabs page).freeHead l :=
    hchain.congr fun i hi => hsame.links hk i ((hiff i).mpr hi)
  refine ⟨⟨?_, ?_, ?_, ?_, l, hnodup, ?_⟩, fun i => ?_⟩
  · rw [hsame.head, hs.head]
  · rw [hsame.slab, hs.active]
  · rw [hsame.slab]
    exact hs.classIndex
  · rw [objSize, hsame.slab]
    exact hs.capacity
  · rw [hsame.slab]
    exact ⟨hlt, hchain', hlen⟩
  · rw [FreeObject, hsame.slab]
    exact hchain'.linked_iff.trans (hiff i).symm

theorem RunOk.of_same {head : Nat} (hr : h.RunOk arena head)
    (hsame : ∀ page, head ≤ page → page < head + h.runPages arena head → SamePage arena h h' page) :
    h'.RunOk arena head ∧ h'.runPages arena head = h.runPages arena head := by
  have hpos := hr.pos
  obtain ⟨hk, hh⟩ := hr.pages head (Nat.le_refl _) (by omega)
  have hhead := hsame head (Nat.le_refl _) (by omega)
  have hpages := hhead.pages hk hh
  refine ⟨⟨(hhead.magic hk hh).trans hr.magic, by rwa [hpages], by rw [hpages]; exact hr.stop_le, ?_⟩, hpages⟩
  intro page hlo hhi
  rw [hpages] at hhi
  rw [(hsame page hlo hhi).kind, (hsame page hlo hhi).head]
  exact hr.pages page hlo hhi

/-- A page is in order still if it and the pages of its run are left alone. -/
theorem PageOk.of_same (hp : h.PageOk arena page) (hsame : SamePage arena h h' page)
    (hrun : h.pageKind page = .large → ∀ p, h.pageHead page ≤ p →
      p < h.pageHead page + h.runPages arena (h.pageHead page) → SamePage arena h h' p) : h'.PageOk arena page := by
  obtain ⟨hused, hslab, hlarge⟩ := hp
  refine ⟨?_, fun hk => ?_, fun hk => ?_⟩
  · rw [hsame.used, hsame.kind, hused]
  · rw [hsame.kind] at hk
    exact ((hslab hk).of_same hsame hk).1
  · rw [hsame.kind] at hk
    obtain ⟨hr, hlo, hhi⟩ := hlarge hk
    obtain ⟨hr', hpages⟩ := hr.of_same (hrun hk)
    rw [hsame.head, hpages]
    exact ⟨hr', hlo, hhi⟩

/-- A cell in use is kept if its page is left alone. -/
theorem Kept.of_same (hp : h.PagesOk arena) (hc : h.HasCell c) (hn : h.NotFree arena c)
    (hsame : SamePage arena h h' c.firstPage) : Kept arena h h' c := by
  cases c with
  | object page index =>
    obtain ⟨hlt, hk, hi⟩ := hc
    rw [Cell.firstPage] at hsame
    have hsize : h'.objSize page = h.objSize page := by rw [objSize, objSize, hsame.slab]
    refine ⟨⟨hlt, hsame.kind.trans hk, by rwa [hsame.slab]⟩, ?_, ?_, ?_⟩
    · rintro _ _ ⟨⟩ hfree
      exact hn page index rfl ((((hp.slab hlt hk).of_same hsame hk).2 index).mp hfree)
    · rw [cellStart, cellStart, hsize]
    · rw [cellStop, cellStop, hsize]
  | run head =>
    obtain ⟨hlt, hk, hh⟩ := hc
    rw [Cell.firstPage] at hsame
    refine ⟨⟨hlt, hsame.kind.trans hk, hsame.head.trans hh⟩, ?_, rfl, ?_⟩
    · rintro _ _ ⟨⟩
    · rw [cellStop, cellStop, hsame.pages hk hh]

/-- Pages outside a set that no run crosses are in order still if they are left alone. -/
theorem PagesOk.of_same (hp : h.PagesOk arena) (changed : Set Nat)
    (hsame : ∀ page < heapPageCount, page ∉ changed → SamePage arena h h' page)
    (hrun : ∀ page < heapPageCount, page ∉ changed → h.pageKind page = .large → ∀ p, h.pageHead page ≤ p →
      p < h.pageHead page + h.runPages arena (h.pageHead page) → p ∉ changed)
    (hnew : ∀ page < heapPageCount, page ∈ changed → h'.PageOk arena page) : h'.PagesOk arena := by
  intro page hlt
  by_cases hc : page ∈ changed
  · exact hnew page hlt hc
  · refine (hp page hlt).of_same (hsame page hlt hc) fun hk p hlo hhi => hsame p ?_ (hrun page hlt hc hk p hlo hhi)
    have := (hp.run hlt hk).stop_le
    omega

end Heap
end Nafuraito.Memory
