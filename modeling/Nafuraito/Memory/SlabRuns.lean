import Nafuraito.Memory.Slab

/-! The free list of a slab page over whole runs, whose clients write to their objects. -/
namespace Nafuraito.Memory.SlabPage
open Nafuraito.Library
open Slab
variable {pagePtr index : Nat} {slab : SlabPage} {mem mem' : Bytes} {live : List Nat}

/-- The pointer of an object. -/
def object (pagePtr : Nat) (slab : SlabPage) (index : Nat) : Nat := pagePtr + index*classSize slab.classIndex

/-- The link in an object. -/
def link (pagePtr : Nat) (slab : SlabPage) (mem : Bytes) (index : Nat) : Nat := readLE mem (object pagePtr slab index) 2

/-- What a page, its bytes and the pointers of its live objects come to. -/
inductive SlabRun (pagePtr : Nat) : SlabPage → Bytes → List Nat → Prop
  | init {classIndex : Nat} (hc : classIndex < 8) (mem : Bytes) :
      SlabRun pagePtr (initSlabPage pagePtr classIndex mem).1 (initSlabPage pagePtr classIndex mem).2 []
  | alloc {slab : SlabPage} {mem : Bytes} {live : List Nat} (h : SlabRun pagePtr slab mem live) :
      SlabRun pagePtr (slab.allocFromSlab pagePtr mem).2 mem
        (if (slab.allocFromSlab pagePtr mem).1 = 0 then live else (slab.allocFromSlab pagePtr mem).1 :: live)
  | free {slab : SlabPage} {mem : Bytes} {before after : List Nat} {ptr : Nat}
      (h : SlabRun pagePtr slab mem (before ++ ptr :: after)) :
      SlabRun pagePtr (slab.freeToSlab pagePtr ptr mem).2.1 (slab.freeToSlab pagePtr ptr mem).2.2 (before ++ after)
  | write {slab : SlabPage} {mem mem' : Bytes} {live : List Nat} (h : SlabRun pagePtr slab mem live)
      (hkept : ∀ addr, pagePtr ≤ addr → addr < pagePtr + pageSize →
        (∀ ptr ∈ live, addr < ptr ∨ ptr + classSize slab.classIndex ≤ addr) → mem' addr = mem addr) :
      SlabRun pagePtr slab mem' live

/-- The objects are those of the chain of free ones and the live ones, each once. -/
structure SlabInv (pagePtr : Nat) (slab : SlabPage) (mem : Bytes) (live : List Nat) : Prop extends slab.Formed where
  objects : ∃ free used, live = used.map (object pagePtr slab) ∧ (free ++ used).Perm (List.range slab.capacity) ∧
    FreeChain (link pagePtr slab mem) freeListEnd slab.freeHead free ∧ slab.inUse = used.length

/-! ### Steps -/

theorem slabInv_init {classIndex : Nat} (hc : classIndex < 8) (mem : Bytes) :
    SlabInv pagePtr (initSlabPage pagePtr classIndex mem).1 (initSlabPage pagePtr classIndex mem).2 [] := by
  rw [initSlabPage_run hc]
  have hformed : Formed ⟨true, classIndex, 0, 0, pageSize / classSize classIndex⟩ := ⟨rfl, hc, rfl⟩
  have hcap : pageSize / classSize classIndex ≤ 4096 := hformed.capacity_le
  have hfull : pageSize / classSize classIndex * classSize classIndex = pageSize := hformed.full
  obtain ⟨-, hlink⟩ := linksUpTo mem pagePtr (classSize classIndex) (pageSize / classSize classIndex) hformed.two_le
    hcap (pageSize / classSize classIndex)
  have hpos : 0 < pageSize / classSize classIndex := by
    apply Nat.pos_of_ne_zero
    intro hz
    rw [hz, Nat.zero_mul] at hfull
    cases hfull
  have hchain := FreeChain.range (link pagePtr ⟨true, classIndex, 0, 0, pageSize / classSize classIndex⟩
    (writeLinks mem pagePtr (classSize classIndex) (pageSize / classSize classIndex)))
    (show pageSize / classSize classIndex ≤ freeListEnd by rw [freeListEnd]; omega) hlink (Nat.zero_add _)
  rw [if_pos hpos, ← List.range_eq_range'] at hchain
  refine ⟨hformed, List.range (pageSize / classSize classIndex), [], rfl, ?_, hchain, rfl⟩
  rw [List.append_nil]

section Steps
variable (hpage : 0 < pagePtr) (h : SlabInv pagePtr slab mem live)
include hpage h

/-- The head of the chain becomes live; from an empty chain nothing is taken. -/
theorem slabInv_alloc : SlabInv pagePtr (slab.allocFromSlab pagePtr mem).2 mem
    (if (slab.allocFromSlab pagePtr mem).1 = 0 then live else (slab.allocFromSlab pagePtr mem).1 :: live) := by
  obtain ⟨free, used, hlive, hperm, hchain, hinUse⟩ := h.objects
  have htwo := h.two_le
  cases free with
  | nil =>
    have hnone : slab.hasFreeObjects = false := by
      rw [hasFreeObjects, show slab.freeHead = freeListEnd from hchain]
      simp
    rw [allocFromSlab, hnone]
    exact h
  | cons i rest =>
    obtain ⟨hhead, hne, hrest⟩ := hchain
    have hsome : slab.hasFreeObjects = true := by
      rw [hasFreeObjects, h.active, hhead]
      simpa using hne
    have hlen := hperm.length_eq
    rw [List.length_append, List.length_cons, List.length_range] at hlen
    have hcap := h.capacity_le
    have hrun : slab.allocFromSlab pagePtr mem = (object pagePtr slab i,
        { slab with freeHead := link pagePtr slab mem i, inUse := slab.inUse + 1 }) := by
      rw [allocFromSlab, hsome, if_neg (by decide), if_neg (by omega), hhead,
        Nat.min_eq_left (show slab.inUse + 1 ≤ 0xFFFF by omega)]
      rfl
    rw [hrun]
    dsimp only
    rw [if_neg (show object pagePtr slab i ≠ 0 by rw [object]; omega)]
    refine ⟨⟨h.active, h.classIndex, h.capacity⟩, rest, i :: used, ?_, List.perm_middle.trans hperm, hrest, ?_⟩
    · rw [hlive]
      rfl
    · rw [List.length_cons, ← hinUse]

/-- A live object goes back to the front of the chain. -/
theorem slabInv_free {before after : List Nat} {ptr : Nat} (hlive : live = before ++ ptr :: after) :
    SlabInv pagePtr (slab.freeToSlab pagePtr ptr mem).2.1 (slab.freeToSlab pagePtr ptr mem).2.2 (before ++ after) := by
  obtain ⟨free, used, hused, hperm, hchain, hinUse⟩ := h.objects
  obtain ⟨front, rest, hsplit, hfront, hrest⟩ := List.map_eq_append_iff.mp (hused.symm.trans hlive)
  obtain ⟨i, back, rfl, rfl, hback⟩ := List.map_eq_cons_iff.mp hrest
  subst hsplit
  have hmem (j : Nat) (hj : j ∈ free ++ (front ++ i :: back)) : j < slab.capacity :=
    List.mem_range.mp (hperm.subset hj)
  have hi : i < slab.capacity :=
    hmem i (List.mem_append_right _ (List.mem_append_right _ List.mem_cons_self))
  have hcap := h.capacity_le
  have htwo := h.two_le
  have hrun := h.freeToSlab_run hpage hi mem
  rw [show pagePtr + i*classSize slab.classIndex = object pagePtr slab i from rfl] at hrun
  have hnodup := hperm.nodup_iff.mpr List.nodup_range
  have hapart : ∀ j ∈ free, j ≠ i := fun j hj heq =>
    (List.nodup_append.mp hnodup).2.2 j hj i (List.mem_append_right _ List.mem_cons_self) heq
  -- the old head is an index or the stop mark, so two bytes hold it
  have hhead : slab.freeHead < 256^2 := by
    cases free with
    | nil =>
      rw [show slab.freeHead = freeListEnd from hchain]
      decide
    | cons j rest =>
      have := hmem j List.mem_cons_self
      rw [hchain.1]
      omega
  rw [hrun]
  refine ⟨⟨h.active, h.classIndex, h.capacity⟩, i :: free, front ++ back, ?_, ?_, ?_, ?_⟩
  · rw [List.map_append, ← hfront, ← hback]
    rfl
  · refine List.Perm.trans ?_ hperm
    rw [List.cons_append, ← List.append_assoc, ← List.append_assoc]
    exact List.perm_middle.symm
  · have hstop : freeListEnd = 0xFFFF := rfl
    refine hchain.push (show i ≠ freeListEnd by omega) ?_ fun j hj => ?_
    · exact (readLE_writeLE _).trans (Nat.mod_eq_of_lt hhead)
    · refine readLE_writeLE_other ?_
      change object pagePtr slab j + 2 ≤ object pagePtr slab i ∨ object pagePtr slab i + 2 ≤ object pagePtr slab j
      rw [object, object]
      rcases object_apart (classSize slab.classIndex) (hapart j hj) with hlt | hlt <;> omega
  · show slab.inUse - 1 = _
    rw [hinUse, List.length_append, List.length_append, List.length_cons]
    omega

omit hpage in
/-- The links are in objects that are not live, so clients leave them alone. -/
theorem slabInv_write (hkept : ∀ addr, pagePtr ≤ addr → addr < pagePtr + pageSize →
    (∀ ptr ∈ live, addr < ptr ∨ ptr + classSize slab.classIndex ≤ addr) → mem' addr = mem addr) :
    SlabInv pagePtr slab mem' live := by
  obtain ⟨free, used, hlive, hperm, hchain, hinUse⟩ := h.objects
  have htwo := h.two_le
  have hnodup := hperm.nodup_iff.mpr List.nodup_range
  refine ⟨h.toFormed, free, used, hlive, hperm, hchain.congr fun i hi => ?_, hinUse⟩
  have hcap : i < slab.capacity := List.mem_range.mp (hperm.subset (List.mem_append_left _ hi))
  have hinside := Nat.mul_le_mul_right (classSize slab.classIndex) (Nat.succ_le_of_lt hcap)
  rw [h.full, Nat.succ_mul] at hinside
  refine readLE_congr fun addr hlo hhi => ?_
  rw [object] at hlo hhi
  refine hkept addr (by omega) (by omega) fun ptr hptr => ?_
  rw [hlive] at hptr
  obtain ⟨j, hj, rfl⟩ := List.mem_map.mp hptr
  have hne : i ≠ j := (List.nodup_append.mp hnodup).2.2 i hi j hj
  rw [object]
  rcases object_apart (classSize slab.classIndex) hne with hlt | hlt <;> omega

end Steps

/-! ### Runs -/

theorem SlabRun.inv (hpage : 0 < pagePtr) (h : SlabRun pagePtr slab mem live) : SlabInv pagePtr slab mem live := by
  induction h with
  | init hc mem => exact slabInv_init hc mem
  | alloc _ ih => exact slabInv_alloc hpage ih
  | free _ ih => exact slabInv_free hpage ih rfl
  | write _ hkept ih => exact slabInv_write ih hkept

/-- In every run of a page that is not at the null pointer, the free list is a chain of different objects, as many as
are not in use, and the live pointers are those of other objects. -/
theorem slabRun_sound (hpage : 0 < pagePtr) (h : SlabRun pagePtr slab mem live) :
    ∃ free, FreeChain (link pagePtr slab mem) freeListEnd slab.freeHead free ∧ free.Nodup ∧
      (∀ i ∈ free, i < slab.capacity) ∧ slab.inUse ≤ slab.capacity ∧ free.length = slab.capacity - slab.inUse ∧
      (∀ i ∈ free, object pagePtr slab i ∉ live) ∧
      ∀ ptr ∈ live, ∃ i < slab.capacity, ptr = object pagePtr slab i ∧ i ∉ free := by
  obtain ⟨free, used, hlive, hperm, hchain, hinUse⟩ := (h.inv hpage).objects
  have htwo := (h.inv hpage).two_le
  have hnodup := hperm.nodup_iff.mpr List.nodup_range
  obtain ⟨hfree, -, hapart⟩ := List.nodup_append.mp hnodup
  have hlen := hperm.length_eq
  rw [List.length_append, List.length_range] at hlen
  refine ⟨free, hchain, hfree, fun i hi => List.mem_range.mp (hperm.subset (List.mem_append_left _ hi)), by omega,
    by omega, fun i hi hmem => ?_, fun ptr hptr => ?_⟩
  · rw [hlive] at hmem
    obtain ⟨j, hj, heq⟩ := List.mem_map.mp hmem
    have hne := hapart i hi j hj
    rw [object, object] at heq
    rcases object_apart (classSize slab.classIndex) hne with hlt | hlt <;> omega
  · rw [hlive] at hptr
    obtain ⟨j, hj, rfl⟩ := List.mem_map.mp hptr
    exact ⟨j, List.mem_range.mp (hperm.subset (List.mem_append_right _ hj)), rfl, fun hi => hapart j hi j hj rfl⟩

/-- A page of two objects with the first one live. -/
def halfUsed : SlabPage × Bytes :=
  let (slab, mem) := initSlabPage 0x1000 7 fun _ => 0
  ((slab.allocFromSlab 0x1000 mem).2, mem)

private theorem halfUsed_run : SlabRun 0x1000 halfUsed.1 halfUsed.2 [0x1000] := by
  have hinit : SlabRun 0x1000 _ _ [] := .init (show 7 < 8 by decide) fun _ => 0
  have hptr : ((initSlabPage 0x1000 7 fun _ => 0).1.allocFromSlab 0x1000 (initSlabPage 0x1000 7 fun _ => 0).2).1 =
      0x1000 := by decide +kernel
  have halloc := hinit.alloc
  rwa [hptr] at halloc

theorem halfUsed_sound : ∃ free, FreeChain (link 0x1000 halfUsed.1 halfUsed.2) freeListEnd halfUsed.1.freeHead free ∧
    free.Nodup ∧ (∀ i ∈ free, i < halfUsed.1.capacity) ∧ halfUsed.1.inUse ≤ halfUsed.1.capacity ∧
    free.length = halfUsed.1.capacity - halfUsed.1.inUse ∧ (∀ i ∈ free, object 0x1000 halfUsed.1 i ∉ [0x1000]) ∧
    ∀ ptr ∈ [0x1000], ∃ i < halfUsed.1.capacity, ptr = object 0x1000 halfUsed.1 i ∧ i ∉ free :=
  slabRun_sound (by decide) halfUsed_run

end Nafuraito.Memory.SlabPage
