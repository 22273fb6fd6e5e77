import Nafuraito.Memory.HeapMemory
import Mathlib.Data.List.Basic

/-! The global allocator: a bump allocator before the heap is up and after it is exhausted, else the heap. -/
namespace Nafuraito.Memory
open Nafuraito.Library

/-- `EARLY_HEAP_SIZE`. -/
def earlyHeapSize : Nat := 256*1024

/-- Where the linker put `EARLY_HEAP` and the arena. -/
structure HeapStatics where
  arena : HeapArena
  earlyHeap : Nat
  early_pos : 0 < earlyHeap
  fits : earlyHeap + earlyHeapSize < 2^64
  apart : earlyHeap + earlyHeapSize ≤ arena.base ∨ arena.base + heapSize ≤ earlyHeap

/-- `Layout::from_size_align`. -/
def Layout.fromSizeAlign (size align : Nat) : Option Layout :=
  if h : align.isPowerOfTwo ∧ align ≤ 2^63 ∧ size ≤ 2^63-1 - (align-1) then
    some ⟨size, align, h.1, h.2.1, h.2.2⟩
  else none

/-- `heap_alloc_c`. -/
def Heap.heapAllocC (arena : HeapArena) (size align : Nat) (h : Heap) : Nat × Heap :=
  match Layout.fromSizeAlign size (max align 1) with
  | none => (0, h)
  | some layout => h.heapAlloc arena layout

/-- `EARLY_HEAP_OFFSET` and the heap; memory is the heap's. -/
structure KernelAllocator where
  earlyHeapOffset : Nat
  heap : Heap

namespace KernelAllocator
variable (st : HeapStatics)

/-- A round of the compare-and-exchange loop starts over unless the offset is what it read, so the call is
one step. The offset is aligned, not the address. -/
def allocEarly (layout : Layout) (s : KernelAllocator) : Nat × KernelAllocator :=
  let aligned := Heap.alignUp s.earlyHeapOffset (max layout.align 16)
  let next := min (aligned + layout.size) (2^64-1)
  if next > earlyHeapSize then (0, s) else (st.earlyHeap + aligned, { s with earlyHeapOffset := next })

def alloc (layout : Layout) (s : KernelAllocator) : Nat × KernelAllocator :=
  if s.heap.ready then
    let (ptr, heap) := s.heap.heapAllocC st.arena layout.size layout.align
    if ptr ≠ 0 then (ptr, { s with heap := heap }) else allocEarly st layout { s with heap := heap }
  else allocEarly st layout s

def dealloc (ptr : Nat) (s : KernelAllocator) : KernelAllocator :=
  if s.heap.ready then { s with heap := s.heap.heapDealloc st.arena ptr } else s

/-- `heap_init_c`, which does not fail. -/
def heapInitC (s : KernelAllocator) : KernelAllocator := { s with heap := s.heap.heapInit }

/-- `__rust_alloc`. -/
def rustAlloc (size align : Nat) (s : KernelAllocator) : Nat × KernelAllocator :=
  match Layout.fromSizeAlign size align with
  | some layout => alloc st layout s
  | none => (0, s)

/-- `__rust_dealloc`. -/
def rustDealloc (ptr size align : Nat) (s : KernelAllocator) : KernelAllocator :=
  match Layout.fromSizeAlign size align with
  | some _ => dealloc st ptr s
  | none => s

/-- `copy_nonoverlapping`. -/
def copyBytes (src dst count : Nat) (s : KernelAllocator) : KernelAllocator :=
  { s with heap := { s.heap with
      mem := fun addr => if dst ≤ addr ∧ addr < dst+count then s.heap.mem (src + (addr-dst)) else s.heap.mem addr } }

/-- `__rust_realloc`. -/
def rustRealloc (ptr oldSize align newSize : Nat) (s : KernelAllocator) : Nat × KernelAllocator :=
  match Layout.fromSizeAlign newSize align with
  | none => (0, s)
  | some _ =>
    let (newPtr, s) := rustAlloc st newSize align s
    if newPtr ≠ 0 then
      let s := copyBytes ptr newPtr (min oldSize newSize) s
      match Layout.fromSizeAlign oldSize align with
      | some _ => (newPtr, rustDealloc st ptr oldSize align s)
      | none => (newPtr, s)
    else (newPtr, s)

/-! ### Runs -/

inductive Stage where
  | early | runtime
  deriving DecidableEq

/-- A live block and the stage that handed it out. -/
structure Handed where
  stage : Stage
  block : Block

/-- The bytes the client asked for. -/
def Handed.bytes (b : Handed) : Set Nat := Set.Ico b.block.ptr (b.block.ptr + b.block.layout.size)

def Handed.Apart (a b : Handed) : Prop := ∀ addr ∈ a.bytes, addr ∉ b.bytes

/-- The stage that serves a request: the heap if it is up and not exhausted. -/
def servedBy (layout : Layout) (s : KernelAllocator) : Stage :=
  if s.heap.ready ∧ (s.heap.heapAllocC st.arena layout.size layout.align).1 ≠ 0 then .runtime else .early

/-- A result other than null joins the live blocks. -/
def hand (ptr : Nat) (layout : Layout) (stage : Stage) (live : List Handed) : List Handed :=
  if ptr = 0 then live else ⟨stage, ptr, layout⟩ :: live

/-- `GlobalAlloc` asks for sizes other than 0. An empty block is no matter either, unless the arena starts
right behind the early heap: there the end of the one is the start of the other. -/
def Asks (size : Nat) : Prop := 0 < size ∨ st.earlyHeap + earlyHeapSize ≠ st.arena.base

/-- The states and live blocks reached when clients free and reallocate only live blocks and store only
in them; the heap is brought up at most once. -/
inductive Run : KernelAllocator → List Handed → Prop where
  | boot (heap : Heap) : heap.ready = false → Run ⟨0, heap⟩ []
  | heapInit {s : KernelAllocator} {live : List Handed} : Run s live → s.heap.ready = false → Run s.heapInitC live
  | alloc {s : KernelAllocator} {live : List Handed} (layout : Layout) : Run s live → Asks st layout.size →
      Run (alloc st layout s).2 (hand (alloc st layout s).1 layout (servedBy st layout s) live)
  | dealloc {s : KernelAllocator} {l₁ l₂ : List Handed} (b : Handed) : Run s (l₁ ++ b :: l₂) →
      Run (dealloc st b.block.ptr s) (l₁ ++ l₂)
  | realloc {s t : KernelAllocator} {l₁ l₂ : List Handed} (b : Handed) {newPtr newSize : Nat} {layout : Layout} :
      Run s (l₁ ++ b :: l₂) → Layout.fromSizeAlign newSize b.block.layout.align = some layout → Asks st newSize →
      rustRealloc st b.block.ptr b.block.layout.size b.block.layout.align newSize s = (newPtr, t) → newPtr ≠ 0 →
      Run t (⟨servedBy st layout s, newPtr, layout⟩ :: (l₁ ++ l₂))
  | reallocNull {s t : KernelAllocator} {l₁ l₂ : List Handed} (b : Handed) {newSize : Nat} : Run s (l₁ ++ b :: l₂) →
      Asks st newSize →
      rustRealloc st b.block.ptr b.block.layout.size b.block.layout.align newSize s = (0, t) → Run t (l₁ ++ b :: l₂)
  | store {s : KernelAllocator} {live : List Handed} (b : Handed) (mem : Bytes) : Run s live → b ∈ live →
      (∀ addr, addr ∉ b.bytes → mem addr = s.heap.mem addr) →
      Run { s with heap := { s.heap with mem := mem } } live

/-! ### What holds in every state -/

variable {st} {s t : KernelAllocator} {live l₁ l₂ : List Handed} {b : Handed} {layout : Layout}

def runtimeBlocks (live : List Handed) : List Block :=
  (live.filter fun b => b.stage = .runtime).map Handed.block

structure Inv (st : HeapStatics) (s : KernelAllocator) (live : List Handed) : Prop where
  offset_le : s.earlyHeapOffset ≤ earlyHeapSize
  early : ∀ b ∈ live, b.stage = .early → st.earlyHeap ≤ b.block.ptr ∧
    b.block.ptr + b.block.layout.size ≤ st.earlyHeap + s.earlyHeapOffset ∧
    b.block.ptr ∉ Set.Ico st.arena.base (st.arena.base + heapSize)
  idle : s.heap.ready = false → runtimeBlocks live = []
  runtime : s.heap.ready = true → s.heap.HeapInv st.arena (runtimeBlocks live)
  apart : live.Pairwise Handed.Apart

private theorem stage_cases (b : Handed) : b.stage = .early ∨ b.stage = .runtime := by
  cases b.stage <;> simp

private theorem mem_runtimeBlocks (hb : b ∈ live) (hs : b.stage = .runtime) : b.block ∈ runtimeBlocks live :=
  List.mem_map_of_mem (List.mem_filter.mpr ⟨hb, by simpa using hs⟩)

private theorem runtimeBlocks_cons_early (hs : b.stage = .early) : runtimeBlocks (b :: live) = runtimeBlocks live := by
  simp [runtimeBlocks, hs]

private theorem runtimeBlocks_cons_runtime (hs : b.stage = .runtime) :
    runtimeBlocks (b :: live) = b.block :: runtimeBlocks live := by
  simp [runtimeBlocks, hs]

private theorem runtimeBlocks_append : runtimeBlocks (l₁ ++ l₂) = runtimeBlocks l₁ ++ runtimeBlocks l₂ := by
  simp [runtimeBlocks]

/-- A live block of the heap means that the heap is up. -/
private theorem Inv.ready_of_runtime (h : Inv st s live) (hb : b ∈ live) (hs : b.stage = .runtime) :
    s.heap.ready = true := by
  by_contra hready
  have hmem := mem_runtimeBlocks hb hs
  rw [h.idle (by simpa using hready)] at hmem
  cases hmem

private theorem Inv.runtime_subset (h : Inv st s live) (hb : b ∈ live) (hs : b.stage = .runtime) :
    b.bytes ⊆ s.heap.blockBytes st.arena b.block ∧
      s.heap.blockBytes st.arena b.block ⊆ Set.Ico st.arena.base (st.arena.base + heapSize) := by
  obtain ⟨hin, _, _, hsub⟩ := (h.runtime (h.ready_of_runtime hb hs)).contract.2 _ (mem_runtimeBlocks hb hs)
  exact ⟨hsub, hin⟩

/-- The early heap is none of the arena. -/
private theorem early_outside {addr : Nat} (hlo : st.earlyHeap ≤ addr) (hhi : addr < st.earlyHeap + earlyHeapSize) :
    addr ∉ Set.Ico st.arena.base (st.arena.base + heapSize) := by
  rintro ⟨h₁, h₂⟩
  rcases st.apart with h | h <;> omega

private theorem Inv.early_bytes (h : Inv st s live) (hb : b ∈ live) (hs : b.stage = .early) {addr : Nat}
    (ha : addr ∈ b.bytes) : addr ∉ Set.Ico st.arena.base (st.arena.base + heapSize) := by
  obtain ⟨hlo, hhi, _⟩ := h.early b hb hs
  have hle := h.offset_le
  exact early_outside (Nat.le_trans hlo ha.1) (by have := ha.2; omega)

/-! ### The early stage -/

/-- The sum in the alignment does not wrap. -/
theorem alignUp_layout (layout : Layout) {offset : Nat} (hle : offset ≤ earlyHeapSize) :
    Heap.alignUp offset (max layout.align 16) =
      (offset + max layout.align 16 - 1) / max layout.align 16 * max layout.align 16 := by
  obtain ⟨k, hk, hk63⟩ : ∃ k, max layout.align 16 = 2^k ∧ 2^k ≤ 2^63 := by
    obtain ⟨k, hk⟩ := layout.align_pow
    have hle63 := layout.align_le
    rcases Nat.le_total layout.align 16 with h | h
    · exact ⟨4, Nat.max_eq_right h, by decide⟩
    · exact ⟨k, by rw [Nat.max_eq_left h, hk], hk ▸ hle63⟩
  unfold earlyHeapSize at hle
  rw [hk, Heap.alignUp_toNat offset k (by omega)]

theorem le_alignUp_layout (layout : Layout) {offset : Nat} (hle : offset ≤ earlyHeapSize) :
    offset ≤ Heap.alignUp offset (max layout.align 16) := by
  have hpos : 0 < max layout.align 16 := Nat.lt_of_lt_of_le (by decide) (Nat.le_max_right _ _)
  have hdiv := Nat.div_add_mod (offset + max layout.align 16 - 1) (max layout.align 16)
  have hmod := Nat.mod_lt (offset + max layout.align 16 - 1) hpos
  rw [Nat.mul_comm] at hdiv
  rw [alignUp_layout layout hle]
  omega

/-- What the bump allocator returns: null, or the bytes up to its new offset. -/
private theorem allocEarly_run (st : HeapStatics) (layout : Layout) (hle : s.earlyHeapOffset ≤ earlyHeapSize) :
    allocEarly st layout s = (0, s) ∨ ∃ aligned, s.earlyHeapOffset ≤ aligned ∧
      aligned + layout.size ≤ earlyHeapSize ∧
      allocEarly st layout s = (st.earlyHeap + aligned, { s with earlyHeapOffset := aligned + layout.size }) := by
  have haligned := le_alignUp_layout layout hle
  rw [allocEarly]
  split
  · exact .inl rfl
  · rename_i hnext
    unfold earlyHeapSize at hnext
    refine .inr ⟨Heap.alignUp s.earlyHeapOffset (max layout.align 16), haligned, ?_, ?_⟩
    · unfold earlyHeapSize
      omega
    · rw [Nat.min_eq_left (by omega)]

private theorem Inv.allocEarly (h : Inv st s live) (hasks : Asks st layout.size) :
    Inv st (allocEarly st layout s).2 (hand (allocEarly st layout s).1 layout .early live) ∧
      (KernelAllocator.allocEarly st layout s).2.heap = s.heap := by
  rcases allocEarly_run st layout h.offset_le with hr | ⟨aligned, hoff, hend, hr⟩ <;> rw [hr]
  · exact ⟨h, rfl⟩
  · have hpos := st.early_pos
    have hne : st.earlyHeap + aligned ≠ 0 := by omega
    refine ⟨⟨hend, ?_, ?_, ?_, ?_⟩, rfl⟩ <;> dsimp only <;> rw [hand, if_neg hne]
    · rw [List.forall_mem_cons]
      refine ⟨fun _ => ⟨Nat.le_add_right _ _, by dsimp only; omega, ?_⟩, fun b hb hs => ?_⟩
      · rcases hasks with hsize | hplace
        · exact early_outside (Nat.le_add_right _ _) (by dsimp only; omega)
        · rintro ⟨h₁, h₂⟩
          dsimp only at h₁ h₂
          rcases st.apart with hap | hap <;> omega
      · obtain ⟨h₁, h₂, h₃⟩ := h.early b hb hs
        exact ⟨h₁, by omega, h₃⟩
    · rw [runtimeBlocks_cons_early rfl]
      exact h.idle
    · rw [runtimeBlocks_cons_early rfl]
      exact h.runtime
    · rw [List.pairwise_cons]
      refine ⟨fun b hb addr ha hin => ?_, h.apart⟩
      have hlo := ha.1
      have hhi := ha.2
      dsimp only at hlo hhi
      rcases stage_cases b with hs | hs
      · have hbefore := (h.early b hb hs).2.1
        have := hin.2
        omega
      · obtain ⟨hsub, harena⟩ := h.runtime_subset hb hs
        exact early_outside (by omega) (by omega) (harena (hsub hin))

/-! ### The calls -/

private theorem fromSizeAlign_layout (layout : Layout) : Layout.fromSizeAlign layout.size layout.align = some layout :=
  dif_pos ⟨layout.align_pow, layout.align_le, layout.size_le⟩

private theorem fromSizeAlign_some {size align : Nat} (h : Layout.fromSizeAlign size align = some layout) :
    layout.size = size ∧ layout.align = align := by
  rw [Layout.fromSizeAlign] at h
  split at h
  · cases h
    exact ⟨rfl, rfl⟩
  · cases h

private theorem heapAllocC_layout (arena : HeapArena) (layout : Layout) (h : Heap) :
    h.heapAllocC arena layout.size layout.align = h.heapAlloc arena layout := by
  have halign : 0 < layout.align := by
    obtain ⟨k, hk⟩ := layout.align_pow
    rw [hk]
    exact Nat.two_pow_pos k
  rw [Heap.heapAllocC, Nat.max_eq_left halign, fromSizeAlign_layout]

/-- The heap after an allocation of its own has the blocks it had. -/
private theorem Inv.withHeap (h : Inv st s live) {heap : Heap}
    (hheap : heap.HeapInv st.arena (runtimeBlocks live)) : Inv st { s with heap := heap } live where
  offset_le := h.offset_le
  early := h.early
  idle hidle := absurd hheap.ready (by rw [hidle]; decide)
  runtime _ := hheap
  apart := h.apart

/-- A block of the heap joins the others. -/
private theorem Inv.addRuntime (h : Inv st s live) {heap : Heap} {ptr : Nat}
    (hheap : heap.HeapInv st.arena (⟨ptr, layout⟩ :: runtimeBlocks live)) :
    Inv st { s with heap := heap } (⟨.runtime, ptr, layout⟩ :: live) := by
  obtain ⟨hpairs, hcontract⟩ := hheap.contract
  obtain ⟨harena, _, _, hsub⟩ := hcontract _ List.mem_cons_self
  refine ⟨h.offset_le, ?_, fun hidle => ?_, fun _ => ?_, ?_⟩
  · rw [List.forall_mem_cons]
    exact ⟨nofun, h.early⟩
  · exact absurd hheap.ready (by rw [hidle]; decide)
  · rw [runtimeBlocks_cons_runtime rfl]
    exact hheap
  · rw [List.pairwise_cons]
    refine ⟨fun b hb addr ha hin => ?_, h.apart⟩
    rcases stage_cases b with hs | hs
    · exact h.early_bytes hb hs hin (harena (hsub ha))
    · have hmem := mem_runtimeBlocks hb hs
      obtain ⟨_, _, _, hsub'⟩ := hcontract _ (List.mem_cons_of_mem _ hmem)
      exact List.rel_of_pairwise_cons hpairs hmem addr (hsub ha) (hsub' hin)

/-- An allocation keeps the invariant, whichever stage serves it, and every byte of the live blocks. -/
private theorem Inv.alloc (h : Inv st s live) (hasks : Asks st layout.size) :
    Inv st (alloc st layout s).2 (hand (alloc st layout s).1 layout (servedBy st layout s) live) ∧
      ∀ b ∈ live, ∀ addr ∈ b.bytes, (KernelAllocator.alloc st layout s).2.heap.mem addr = s.heap.mem addr := by
  rw [KernelAllocator.alloc, servedBy]
  by_cases hready : s.heap.ready = true
  · rw [if_pos hready, heapAllocC_layout]
    have hi := h.runtime hready
    have hmem : ∀ b ∈ live, ∀ addr ∈ b.bytes, (s.heap.heapAlloc st.arena layout).2.mem addr = s.heap.mem addr := by
      intro b hb addr ha
      apply hi.heapAlloc_mem
      rcases stage_cases b with hs | hs
      · exact .inr (h.early_bytes hb hs ha)
      · exact .inl ⟨_, mem_runtimeBlocks hb hs, (h.runtime_subset hb hs).1 ha⟩
    rcases hi.heapAlloc layout with ⟨hnull, hkept⟩ | ⟨hne, hnew⟩
    · have hs := (h.withHeap hkept).allocEarly hasks
      dsimp only
      rw [if_neg (not_not.mpr hnull), if_neg (fun hc => hc.2 hnull)]
      exact ⟨hs.1, fun b hb addr ha => by rw [hs.2]; exact hmem b hb addr ha⟩
    · dsimp only
      rw [if_pos hne, if_pos ⟨hready, hne⟩, hand, if_neg hne]
      exact ⟨h.addRuntime hnew, hmem⟩
  · rw [if_neg hready, if_neg fun hc => hready hc.1]
    obtain ⟨hinv, hheap⟩ := h.allocEarly hasks
    exact ⟨hinv, fun b _ addr _ => by rw [hheap]⟩

/-- A block of the early stage is outside the arena, so freeing it does nothing. -/
private theorem Inv.dealloc_early (h : Inv st s live) (hb : b ∈ live) (hs : b.stage = .early) :
    dealloc st b.block.ptr s = s := by
  rw [KernelAllocator.dealloc]
  split
  · rw [Heap.heapDealloc_outside _ (h.early b hb hs).2.2]
  · rfl

private theorem Inv.forget (h : Inv st s (l₁ ++ b :: l₂)) (hs : b.stage = .early) : Inv st s (l₁ ++ l₂) := by
  have hblocks : runtimeBlocks (l₁ ++ b :: l₂) = runtimeBlocks (l₁ ++ l₂) := by
    rw [runtimeBlocks_append, runtimeBlocks_append, runtimeBlocks_cons_early hs]
  have hsub : (l₁ ++ l₂).Sublist (l₁ ++ b :: l₂) := (List.sublist_cons_self b l₂).append_left l₁
  exact ⟨h.offset_le, fun c hc => h.early c (hsub.mem hc), hblocks ▸ h.idle, hblocks ▸ h.runtime, h.apart.sublist hsub⟩

/-- Freeing a live block keeps the invariant for the others, and their bytes. -/
private theorem Inv.dealloc (h : Inv st s (l₁ ++ b :: l₂)) : Inv st (dealloc st b.block.ptr s) (l₁ ++ l₂) ∧
    ∀ c ∈ l₁ ++ l₂, ∀ addr ∈ c.bytes,
      (KernelAllocator.dealloc st b.block.ptr s).heap.mem addr = s.heap.mem addr := by
  have hb : b ∈ l₁ ++ b :: l₂ := List.mem_append_cons_self
  rcases stage_cases b with hs | hs
  · rw [h.dealloc_early hb hs]
    exact ⟨h.forget hs, fun _ _ _ _ => rfl⟩
  · have hready := h.ready_of_runtime hb hs
    have hblocks : runtimeBlocks (l₁ ++ b :: l₂) = runtimeBlocks l₁ ++ b.block :: runtimeBlocks l₂ := by
      rw [runtimeBlocks_append, runtimeBlocks_cons_runtime hs]
    have hi := h.runtime hready
    have hsub : (l₁ ++ l₂).Sublist (l₁ ++ b :: l₂) := (List.sublist_cons_self b l₂).append_left l₁
    rw [KernelAllocator.dealloc, if_pos hready]
    constructor
    · rw [hblocks] at hi
      have hfreed := hi.heapDealloc
      rw [← runtimeBlocks_append] at hfreed
      exact ⟨h.offset_le, fun c hc => h.early c (hsub.mem hc),
        fun hidle => absurd hfreed.ready (by rw [hidle]; decide), fun _ => hfreed, h.apart.sublist hsub⟩
    · intro c hc addr ha
      rw [hblocks] at hi
      refine hi.heapDealloc_mem fun hin => ?_
      have hc' := hsub.mem hc
      rcases stage_cases c with hsc | hsc
      · exact h.early_bytes hc' hsc ha ((h.runtime_subset hb hs).2 hin)
      · have hmem := mem_runtimeBlocks hc hsc
        rw [runtimeBlocks_append] at hmem
        have hpairs := (List.pairwise_middle fun hxy addr hy hx => hxy addr hx hy).mp hi.contract.1
        exact List.rel_of_pairwise_cons hpairs hmem addr hin ((h.runtime_subset hc' hsc).1 ha)

/-- A store in a live block. -/
private theorem Inv.store (h : Inv st s live) (hb : b ∈ live) {mem : Bytes}
    (hmem : ∀ addr, addr ∉ b.bytes → mem addr = s.heap.mem addr) :
    Inv st { s with heap := { s.heap with mem := mem } } live := by
  refine ⟨h.offset_le, h.early, h.idle, fun hready => ?_, h.apart⟩
  rcases stage_cases b with hs | hs
  · exact (h.runtime hready).storeOutside fun addr ha => hmem addr fun hin => h.early_bytes hb hs hin ha
  · exact (h.runtime hready).store (mem_runtimeBlocks hb hs) hmem

/-- With a layout for the new size, `__rust_realloc` is an allocation, a copy and a deallocation. -/
private theorem rustRealloc_eq (b : Handed) {newSize : Nat}
    (hl : Layout.fromSizeAlign newSize b.block.layout.align = some layout) :
    rustRealloc st b.block.ptr b.block.layout.size b.block.layout.align newSize s =
      if (alloc st layout s).1 ≠ 0 then ((alloc st layout s).1, dealloc st b.block.ptr
        (copyBytes b.block.ptr (alloc st layout s).1 (min b.block.layout.size newSize) (alloc st layout s).2))
      else alloc st layout s := by
  have hold := fromSizeAlign_layout b.block.layout
  simp only [rustRealloc, rustAlloc, rustDealloc, hl, hold]

/-- A reallocated block is live in place of the old one and starts with the same bytes. -/
private theorem Inv.realloc (h : Inv st s (l₁ ++ b :: l₂)) {newPtr newSize : Nat}
    (hl : Layout.fromSizeAlign newSize b.block.layout.align = some layout) (hasks : Asks st newSize)
    (hr : rustRealloc st b.block.ptr b.block.layout.size b.block.layout.align newSize s = (newPtr, t))
    (hne : newPtr ≠ 0) :
    Inv st t (⟨servedBy st layout s, newPtr, layout⟩ :: (l₁ ++ l₂)) ∧
      ∀ i < min b.block.layout.size newSize, t.heap.mem (newPtr+i) = s.heap.mem (b.block.ptr+i) := by
  have hb : b ∈ l₁ ++ b :: l₂ := List.mem_append_cons_self
  obtain ⟨hsize, _⟩ := fromSizeAlign_some hl
  rw [rustRealloc_eq b hl] at hr
  split at hr
  · rename_i hnew
    cases hr
    have hasks' : Asks st layout.size := by rwa [hsize]
    obtain ⟨hinv, hbytes⟩ := h.alloc hasks'
    rw [hand, if_neg hnew] at hinv
    set new : Handed := ⟨servedBy st layout s, (KernelAllocator.alloc st layout s).1, layout⟩ with hdef
    -- the copy stays inside the new block, and so does not meet the old one
    have hcopied : Inv st (copyBytes b.block.ptr (KernelAllocator.alloc st layout s).1 (min b.block.layout.size newSize)
        (KernelAllocator.alloc st layout s).2) ((new :: l₁) ++ b :: l₂) := by
      refine hinv.store List.mem_cons_self fun addr hout => if_neg fun hin => hout ⟨hin.1, ?_⟩
      rw [hdef]
      dsimp only
      omega
    obtain ⟨hfreed, hkept⟩ := hcopied.dealloc
    refine ⟨hfreed, fun i hi => ?_⟩
    have hmem : (KernelAllocator.alloc st layout s).1 + i ∈ new.bytes := by
      rw [hdef, Handed.bytes, Set.mem_Ico]
      dsimp only
      omega
    rw [hkept new List.mem_cons_self _ hmem, copyBytes]
    dsimp only
    rw [if_pos ⟨Nat.le_add_right _ _, by omega⟩, Nat.add_sub_cancel_left]
    exact hbytes b hb _ ⟨Nat.le_add_right _ _, by omega⟩
  · rename_i hnull
    rw [hr] at hnull
    exact absurd hne hnull

private theorem Inv.reallocNull (h : Inv st s (l₁ ++ b :: l₂)) {newSize : Nat} (hasks : Asks st newSize)
    (hr : rustRealloc st b.block.ptr b.block.layout.size b.block.layout.align newSize s = (0, t)) :
    Inv st t (l₁ ++ b :: l₂) := by
  cases hl : Layout.fromSizeAlign newSize b.block.layout.align with
  | none =>
    rw [rustRealloc, hl] at hr
    cases hr
    exact h
  | some layout =>
    obtain ⟨hsize, _⟩ := fromSizeAlign_some hl
    have hasks' : Asks st layout.size := by rwa [hsize]
    obtain ⟨hinv, _⟩ := h.alloc hasks'
    rw [rustRealloc_eq b hl] at hr
    split at hr
    · rename_i hnew
      exact absurd (congrArg Prod.fst hr) hnew
    · rwa [hr, hand, if_pos rfl] at hinv

/-! ### Every run -/

theorem Run.inv (hr : Run st s live) : Inv st s live := by
  induction hr with
  | boot heap hready =>
    exact ⟨Nat.zero_le _, nofun, fun _ => rfl, fun h => absurd h (by rw [hready]; decide), .nil⟩
  | heapInit _ hready ih =>
    have hnone := ih.idle hready
    refine ⟨ih.offset_le, ih.early, nofun, fun _ => ?_, ih.apart⟩
    rw [hnone]
    exact Heap.heapInit_inv _
  | alloc layout _ hasks ih => exact (ih.alloc hasks).1
  | dealloc b _ ih => exact ih.dealloc.1
  | realloc b _ hl hasks hr hne ih => exact (ih.realloc hl hasks hr hne).1
  | reallocNull b _ hasks hr ih => exact ih.reallocNull hasks hr
  | store b mem _ hb hmem ih => exact ih.store hb hmem

/-- After any run the live blocks of both stages are apart, freeing a block of the early stage leaves the
heap as it is, and a reallocation that does not fail keeps the bytes that both blocks have. -/
theorem run_contract (hr : Run st s live) : live.Pairwise Handed.Apart ∧
    (∀ b ∈ live, b.stage = .early → (dealloc st b.block.ptr s).heap = s.heap) ∧
    ∀ b ∈ live, ∀ newSize newPtr t,
      rustRealloc st b.block.ptr b.block.layout.size b.block.layout.align newSize s = (newPtr, t) → newPtr ≠ 0 →
      ∀ i < min b.block.layout.size newSize, t.heap.mem (newPtr+i) = s.heap.mem (b.block.ptr+i) := by
  have hi := hr.inv
  refine ⟨hi.apart, fun b hb hs => by rw [hi.dealloc_early hb hs], ?_⟩
  intro b hb newSize newPtr t hrealloc hne i hlt
  obtain ⟨l₁, l₂, rfl⟩ := List.append_of_mem hb
  cases hl : Layout.fromSizeAlign newSize b.block.layout.align with
  | none =>
    rw [rustRealloc, hl] at hrealloc
    exact absurd (congrArg Prod.fst hrealloc).symm hne
  | some layout => exact (hi.realloc hl (.inl (by omega)) hrealloc hne).2 i hlt

/-! ### Across the switch -/

def staticsAt : HeapStatics := ⟨Heap.arenaAt, 0x80000, by decide, by decide, .inl (by decide)⟩

/-- A word of the early stage, and then the heap comes up. -/
private def switched : KernelAllocator := (alloc staticsAt Heap.wordLayout ⟨0, Heap.zeroHeap⟩).2.heapInitC

/-- The word moves to the heap when it is reallocated. -/
theorem run_contract_switched : ∃ s b t, Run staticsAt s [b] ∧ b.stage = .early ∧ b.block.ptr = 0x80000 ∧
    (dealloc staticsAt b.block.ptr s).heap = s.heap ∧
    rustRealloc staticsAt b.block.ptr b.block.layout.size b.block.layout.align 48 s = (0x100000, t) ∧
    ∀ i < 24, t.heap.mem (0x100000+i) = s.heap.mem (b.block.ptr+i) := by
  have hptr : (alloc staticsAt Heap.wordLayout ⟨0, Heap.zeroHeap⟩).1 = 0x80000 := by decide +kernel
  have hserved : servedBy staticsAt Heap.wordLayout ⟨0, Heap.zeroHeap⟩ = .early := by decide +kernel
  have hready : (alloc staticsAt Heap.wordLayout ⟨0, Heap.zeroHeap⟩).2.heap.ready = false := by decide +kernel
  have hrun : Run staticsAt switched [⟨.early, 0x80000, Heap.wordLayout⟩] := by
    have halloc := Run.alloc Heap.wordLayout (Run.boot Heap.zeroHeap rfl : Run staticsAt _ _) (.inl (by decide))
    rw [hptr, hserved] at halloc
    exact .heapInit halloc hready
  have hmoved : (rustRealloc staticsAt 0x80000 Heap.wordLayout.size Heap.wordLayout.align 48 switched).1 =
      0x100000 := by decide +kernel
  generalize hr : rustRealloc staticsAt 0x80000 Heap.wordLayout.size Heap.wordLayout.align 48 switched = r at hmoved
  obtain ⟨newPtr, t⟩ := r
  dsimp only at hmoved
  subst hmoved
  obtain ⟨_, hdealloc, hrealloc⟩ := run_contract hrun
  exact ⟨switched, _, t, hrun, rfl, rfl, hdealloc _ List.mem_cons_self rfl, hr,
    hrealloc _ List.mem_cons_self 48 0x100000 t hr (by decide)⟩

end KernelAllocator
end Nafuraito.Memory
