import Nafuraito.Memory.HeapCalls

/-! Runs of heap calls with clients that write their own blocks, and what holds after any of them. -/
namespace Nafuraito.Memory.Heap
open Nafuraito.Library

/-- The heaps reached from `heap_init`, with the blocks that are live. -/
inductive HeapRun (arena : HeapArena) : Heap → List Block → Prop where
  | init (h : Heap) : HeapRun arena h.heapInit []
  | alloc {h : Heap} {live : List Block} (layout : Layout) : HeapRun arena h live →
      (h.heapAlloc arena layout).1 ≠ 0 →
      HeapRun arena (h.heapAlloc arena layout).2 (⟨(h.heapAlloc arena layout).1, layout⟩ :: live)
  | allocNull {h : Heap} {live : List Block} (layout : Layout) : HeapRun arena h live →
      (h.heapAlloc arena layout).1 = 0 → HeapRun arena (h.heapAlloc arena layout).2 live
  | dealloc {h : Heap} {l₁ l₂ : List Block} (b : Block) : HeapRun arena h (l₁ ++ b :: l₂) →
      HeapRun arena (h.heapDealloc arena b.ptr) (l₁ ++ l₂)
  | store {h : Heap} {live : List Block} (b : Block) (mem : Bytes) : HeapRun arena h live → b ∈ live →
      (∀ addr, addr ∉ Set.Ico b.ptr (b.ptr + b.layout.size) → mem addr = h.mem addr) →
      HeapRun arena { h with mem := mem } live

variable {arena : HeapArena} {h : Heap} {live : List Block}

theorem heapInit_inv (h : Heap) : h.heapInit.HeapInv arena [] := by
  have hkind (page : Nat) (hlt : page < heapPageCount) : h.heapInit.pageKind page = .free := if_pos hlt
  refine ⟨rfl, fun page hlt => ⟨?_, fun hk => ?_, fun hk => ?_⟩, [], rfl, List.nodup_nil,
    fun o ho => absurd ho List.not_mem_nil⟩
  · have hbyte : page/8 < heapPageCount/8 := by
      have : heapPageCount = 1024 := rfl
      omega
    have hzero : h.heapInit.pageBitmap (page/8) = 0#8 := if_pos hbyte
    rw [hkind page hlt, isPageUsed, hzero, Bitmap.bitOn, BitVec.zero_and]
    rfl
  · rw [hkind page hlt] at hk
    cases hk
  · rw [hkind page hlt] at hk
    cases hk

/-- Memory that reads the same to the allocator. -/
theorem HeapInv.of_reads (hi : h.HeapInv arena live) {mem : Bytes}
    (hread : ∀ addr ∈ h.ReadBytes arena, mem addr = h.mem addr) : HeapInv arena { h with mem := mem } live := by
  have hsame (page : Nat) (hlt : page < heapPageCount) : SamePage arena h { h with mem := mem } page := by
    refine ⟨rfl, rfl, rfl, rfl, fun hk i hi => ?_, fun hk hh => ?_, fun hk hh => ?_⟩ <;>
      apply readLE_congr <;> intro addr hlo hhi
    · exact hread addr (.inl ⟨page, i, hlt, hk, hi, hlo, hhi⟩)
    · exact hread addr (.inr ⟨page, hlt, hk, by rw [hh, Set.mem_Ico, headerSize]; omega⟩)
    · exact hread addr (.inr ⟨page, hlt, hk, by rw [hh, Set.mem_Ico, headerSize]; omega⟩)
  refine ⟨hi.ready, ?_, hi.owned.kept fun c _ hc hn => .of_same hi.pages hc hn (hsame _ hc.firstPage_lt)⟩
  exact hi.pages.of_same ∅ (fun page hlt _ => hsame page hlt) (fun _ _ _ _ _ _ _ => Set.notMem_empty _)
    fun _ _ hin => absurd hin (Set.notMem_empty _)

/-- A store inside a live block. -/
theorem HeapInv.store (hi : h.HeapInv arena live) {b : Block} (hb : b ∈ live) {mem : Bytes}
    (hmem : ∀ addr, addr ∉ Set.Ico b.ptr (b.ptr + b.layout.size) → mem addr = h.mem addr) :
    HeapInv arena { h with mem := mem } live := by
  refine hi.of_reads fun addr ha => hmem addr fun hin => ?_
  obtain ⟨_, hcontract⟩ := hi.contract
  obtain ⟨_, hapart, _, hsub⟩ := hcontract b hb
  exact hapart addr (hsub hin) ha

theorem HeapRun.inv (hr : HeapRun arena h live) : h.HeapInv arena live := by
  induction hr with
  | init h => exact heapInit_inv h
  | alloc layout _ hne ih => exact ((ih.heapAlloc layout).resolve_left fun hnull => hne hnull.1).2
  | allocNull layout _ hnull ih => exact ((ih.heapAlloc layout).resolve_right fun hne => hne.1 hnull).2
  | dealloc b _ ih => exact ih.heapDealloc
  | store b mem _ hb hmem ih => exact ih.store hb hmem

/-- After any run of calls and stores the live blocks are apart, lie in the arena, keep off all the
allocator reads, and are aligned and as long as requested. -/
theorem heapRun_contract (hr : HeapRun arena h live) :
    live.Pairwise (fun a b => ∀ addr ∈ h.blockBytes arena a, addr ∉ h.blockBytes arena b) ∧
    ∀ b ∈ live, h.blockBytes arena b ⊆ Set.Ico arena.base (arena.base + heapSize) ∧
      (∀ addr ∈ h.blockBytes arena b, addr ∉ h.ReadBytes arena) ∧ b.layout.align ∣ b.ptr ∧
      Set.Ico b.ptr (b.ptr + b.layout.size) ⊆ h.blockBytes arena b := hr.inv.contract

/-! ### A small run -/

def arenaAt : HeapArena := ⟨0x100000, by decide, by decide, by decide⟩

def zeroHeap : Heap where
  ready := false
  pageBitmap _ := 0
  pageKind _ := .free
  pageHead _ := 0
  slabs _ := .empty
  mem _ := 0

def wordLayout : Layout := ⟨24, 8, ⟨3, rfl⟩, by decide, by decide⟩

def pagesLayout : Layout := ⟨5000, 16, ⟨4, rfl⟩, by decide, by decide⟩

theorem heapRun_contract_two : ∃ h a b, HeapRun arenaAt h [a, b] ∧ a.ptr = 0x101010 ∧ b.ptr = 0x100000 ∧
    ∀ addr ∈ h.blockBytes arenaAt a, addr ∉ h.blockBytes arenaAt b := by
  have hword : (zeroHeap.heapInit.heapAlloc arenaAt wordLayout).1 = 0x100000 := by decide +kernel
  have hpages : ((zeroHeap.heapInit.heapAlloc arenaAt wordLayout).2.heapAlloc arenaAt pagesLayout).1 = 0x101010 := by
    decide +kernel
  generalize hr₁ : zeroHeap.heapInit.heapAlloc arenaAt wordLayout = r₁ at hword hpages
  generalize hr₂ : r₁.2.heapAlloc arenaAt pagesLayout = r₂ at hpages
  have hrun₁ : HeapRun arenaAt r₁.2 [⟨r₁.1, wordLayout⟩] := by
    subst hr₁
    exact .alloc wordLayout (.init zeroHeap) (by rw [hword]; decide)
  have hrun : HeapRun arenaAt r₂.2 [⟨r₂.1, pagesLayout⟩, ⟨r₁.1, wordLayout⟩] := by
    subst hr₂
    exact .alloc pagesLayout hrun₁ (by rw [hpages]; decide)
  exact ⟨_, _, _, hrun, hpages, hword, 
    List.rel_of_pairwise_cons (heapRun_contract hrun).1 List.mem_cons_self⟩

end Nafuraito.Memory.Heap
