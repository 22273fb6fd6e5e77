import Nafuraito.Memory.PageWalk

/-! Five-level paging runs as four-level paging does on the level-3 table its walk goes through. -/
namespace Nafuraito.Memory.Machine
open Nafuraito.Library
open Fallible (Ignores)

/-- The same memory and statics with this paging manager in charge. -/
def under (s : Machine) (m : PagingManager) : Machine := { s with paging := some m }

/-- Under either manager the call returns the same, and leaves the same memory, allocator and flushes. -/
def AlikeUnder {α : Type} (m m' : PagingManager) (s : Machine) (x : Op α) : Prop :=
  x (s.under m) = ((x (s.under m')).1, (x (s.under m')).2.under m)

/-! ### What never asks for the manager -/

section Ignores
variable (m : PagingManager)

private theorem tableAt_ignores (phys : BitVec 64) : Ignores (·.under m) (tableAt phys) := by
  unfold tableAt
  split
  · exact .throw _
  · exact .pure _

private theorem readEntry_ignores (table : Nat) (index : Fin 512) : Ignores (·.under m) (readEntry table index) :=
  fun _ => rfl

private theorem presentEntry_ignores (table : Nat) (index : Fin 512) (message : String) :
    Ignores (·.under m) (presentEntry table index message) := by
  apply Ignores.bind (readEntry_ignores m table index)
  intro e
  apply Ignores.bind (.require _ _)
  intro _
  exact .pure e

private theorem writeEntry_ignores (table : Nat) (index : Fin 512) (e : PageTableEntry) :
    Ignores (·.under m) (writeEntry table index e) := fun _ => rfl

private theorem emit_ignores (e : Event) : Ignores (·.under m) (emit e) := fun _ => rfl

private theorem allocPageTable_ignores : Ignores (·.under m) allocPageTable := by
  intro s
  change allocPageTable (s.under m) = _
  unfold allocPageTable
  by_cases h₀ : (PhysicalMemoryManager.takeTableFrame s.pmm).1 = 0
  · simp [under, h₀]
  · by_cases h₁ : (PhysicalMemoryManager.takeTableFrame s.pmm).1 ≥ 0x100000000
    · simp [under, h₀, h₁]
    · simp [under, setFrame, h₀, h₁]

private theorem getOrCreateNextLevel_ignores (table : Nat) (index : Fin 512) (flags : PageTableFlags) :
    Ignores (·.under m) (getOrCreateNextLevel table index flags) := by
  apply Ignores.bind (readEntry_ignores m table index)
  intro e
  split
  · exact .pure _
  · apply Ignores.bind (allocPageTable_ignores m)
    intro newTable
    apply Ignores.bind (writeEntry_ignores m _ _ _)
    intro _
    exact .pure newTable

private theorem readWalk_ignores {α : Type} (v : VirtAddr) (out : Nat → PageTableEntry → α) (l : Nat)
    (phys : BitVec 64) : Ignores (·.under m) (readWalk v out l phys) := by
  induction l generalizing phys with
  | zero =>
    apply Ignores.bind (tableAt_ignores m phys)
    intro table
    apply Ignores.bind (presentEntry_ignores m _ _ _)
    intro e
    exact .pure _
  | succ l ih =>
    rw [readWalk_succ]
    apply Ignores.bind (tableAt_ignores m phys)
    intro table
    apply Ignores.bind (presentEntry_ignores m _ _ _)
    intro e
    split
    · exact .pure _
    · exact ih e.address

private theorem remapWalk_ignores (v : VirtAddr) (p : PhysAddr) (flags : PageTableFlags) (l : Nat)
    (phys : BitVec 64) : Ignores (·.under m) (remapWalk v p flags l phys) := by
  induction l generalizing phys with
  | zero =>
    apply Ignores.bind (tableAt_ignores m phys)
    intro table
    apply Ignores.bind (presentEntry_ignores m _ _ _)
    intro _
    exact writeEntry_ignores m _ _ _
  | succ l ih =>
    apply Ignores.bind (tableAt_ignores m phys)
    intro table
    apply Ignores.bind (presentEntry_ignores m _ _ _)
    intro e
    exact ih e.address

private theorem mapWalk_ignores (v : VirtAddr) (p : PhysAddr) (flags : PageTableFlags) (l : Nat)
    (phys : BitVec 64) : Ignores (·.under m) (mapWalk v p flags l phys) := by
  induction l generalizing phys with
  | zero =>
    apply Ignores.bind (tableAt_ignores m phys)
    intro table
    exact writeEntry_ignores m _ _ _
  | succ l ih =>
    apply Ignores.bind (tableAt_ignores m phys)
    intro table
    apply Ignores.bind (getOrCreateNextLevel_ignores m _ _ _)
    intro next
    exact ih next

end Ignores

/-! ### The step through the PML5 table -/

/-- `m` is a 5-level manager, `m'` a 4-level one, and the PML5 entry for `v` leads to the root of `m'`. -/
structure Above (m m' : PagingManager) (mem : Frames) (v : VirtAddr) : Prop where
  five : m.mode = .fiveLevel
  four : m'.mode = .fourLevel
  present : PageTableEntry.isPresent ⟨mem m.rootFrame v.pml5Index⟩ = true
  points : PageTableEntry.address ⟨mem m.rootFrame v.pml5Index⟩ = m'.rootTablePhys

section Above
variable {m m' : PagingManager} {s : Machine} {v : VirtAddr}

/-- A step through the PML5 table, for the walks that start with a present entry. -/
private theorem Above.step (h : Above m m' s.mem v) (hroot : m.rootTablePhys.toNat < 2^32) {α : Type}
    (walk : BitVec 64 → Op α) :
    (do
      let table ← tableAt m.rootTablePhys
      let entry ← presentEntry table (v.index 4) (notMapped 4)
      walk entry.address) (s.under m) = walk m'.rootTablePhys (s.under m) := by
  have hp : PageTableEntry.isPresent ⟨(s.under m).mem (m.rootTablePhys.toNat/4096) (v.index 4)⟩ = true := h.present
  rw [Fallible.bind_of_ok (tableAt_run hroot), Fallible.bind_of_ok (presentEntry_run hp)]
  exact congrArg (walk · (s.under m)) h.points

private theorem Above.mapStep (h : Above m m' s.mem v) (hroot : m.rootTablePhys.toNat < 2^32)
    (p : PhysAddr) (flags : PageTableFlags) :
    mapWalk v p flags 4 m.rootTablePhys (s.under m) = mapWalk v p flags 3 m'.rootTablePhys (s.under m) := by
  have hnext : getOrCreateNextLevel m.rootFrame (v.index 4) flags (s.under m) = (.ok m'.rootTablePhys, s.under m) := by
    rw [getOrCreateNextLevel, Fallible.bind_of_ok (readEntry_run _ _)]
    have hp : PageTableEntry.isPresent ⟨(s.under m).mem m.rootFrame (v.index 4)⟩ = true := h.present
    rw [if_pos hp]
    exact congrArg (fun a => (Except.ok a, s.under m)) h.points
  rw [mapWalk, Fallible.bind_of_ok (tableAt_run hroot)]
  exact Fallible.bind_of_ok hnext

/-- Where the call does what the walk from the table below does, it does the same under either manager. -/
private theorem alike {α : Type} {x y : Op α} (hy : Ignores (·.under m) y) (h : x (s.under m) = y (s.under m))
    (h' : x (s.under m') = y (s.under m')) : AlikeUnder m m' s x := by
  unfold AlikeUnder
  rw [h, h']
  exact hy (s.under m')

private theorem Above.readers (h : Above m m' s.mem v) (hroot : m.rootTablePhys.toNat < 2^32)
    (hv : v.SignExtended .fourLevel) {α : Type} (out : Nat → PageTableEntry → α) :
    AlikeUnder m m' s (do
      let manager ← getPagingManager
      requireCanonical manager.mode v
      readLevels manager v out) := by
  have h₅ := PagingManager.requireCanonical_run (hv.five.canonical) (s.under m)
  have h₄ := PagingManager.requireCanonical_run (hv.canonical) (s.under m')
  apply alike (readWalk_ignores m v out 3 m'.rootTablePhys)
  · rw [Fallible.bind_of_ok (getPagingManager_run rfl), h.five, Fallible.bind_of_ok h₅, readLevels_eq, h.five]
    exact h.step hroot (readWalk v out 3)
  · rw [Fallible.bind_of_ok (getPagingManager_run rfl), h.four, Fallible.bind_of_ok h₄, readLevels_eq, h.four]
    rfl

/-- What `map_page` and `remap_page` share: one check, a walk that does not see the manager, and the flush. -/
private theorem checked_alike {x : Op Unit} {walk : Op Unit} (hwalk : Ignores (·.under m) walk) (aligned : Bool)
    (h : x (s.under m) = (do
      Fallible.require aligned (.err "Physical address not page-aligned")
      walk
      invlpg v : Op Unit) (s.under m))
    (h' : x (s.under m') = (do
      Fallible.require aligned (.err "Physical address not page-aligned")
      walk
      invlpg v : Op Unit) (s.under m')) : AlikeUnder m m' s x := by
  apply alike _ h h'
  apply Ignores.bind (.require _ _)
  intro _
  apply Ignores.bind hwalk
  intro _
  exact emit_ignores m _

private theorem Above.remap (h : Above m m' s.mem v) (hroot : m.rootTablePhys.toNat < 2^32) (p : PhysAddr)
    (flags : PageTableFlags) : AlikeUnder m m' s (remapPage v p flags) := by
  apply checked_alike (v := v) (remapWalk_ignores m v p flags 3 m'.rootTablePhys) p.isAligned
  · rw [remapPage, Fallible.bind_of_ok (getPagingManager_run rfl), remapLevels_eq, h.five]
    by_cases hp : p.isAligned = true
    · rw [Fallible.bind_of_ok (Fallible.require_run_pos _ hp _), Fallible.bind_of_ok (Fallible.require_run_pos _ hp _)]
      exact Fallible.bind_congr (h.step hroot (remapWalk v p flags 3)) _
    · rw [Fallible.bind_of_error (Fallible.require_run_neg _ hp _),
        Fallible.bind_of_error (Fallible.require_run_neg _ hp _)]
  · rw [remapPage, Fallible.bind_of_ok (getPagingManager_run rfl), remapLevels_eq, h.four]
    rfl

private theorem Above.map (h : Above m m' s.mem v) (hroot : m.rootTablePhys.toNat < 2^32)
    (hv : v.SignExtended .fourLevel) (p : PhysAddr) (flags : PageTableFlags) :
      AlikeUnder m m' s (mapPage v p flags) := by
  have h₅ := PagingManager.requireCanonical_run hv.five.canonical (s.under m)
  have h₄ := PagingManager.requireCanonical_run hv.canonical (s.under m')
  apply checked_alike (v := v) (mapWalk_ignores m v p flags 3 m'.rootTablePhys) p.isAligned
  · rw [mapPage, Fallible.bind_of_ok (getPagingManager_run rfl), mapLevels_eq, h.five]
    by_cases hp : p.isAligned = true
    · rw [Fallible.bind_of_ok (Fallible.require_run_pos _ hp _), Fallible.bind_of_ok (Fallible.require_run_pos _ hp _),
        Fallible.bind_of_ok h₅]
      exact Fallible.bind_congr (h.mapStep hroot p flags) _
    · rw [Fallible.bind_of_error (Fallible.require_run_neg _ hp _),
        Fallible.bind_of_error (Fallible.require_run_neg _ hp _)]
  · rw [mapPage, Fallible.bind_of_ok (getPagingManager_run rfl), mapLevels_eq, h.four]
    by_cases hp : p.isAligned = true
    · rw [Fallible.bind_of_ok (Fallible.require_run_pos _ hp _), Fallible.bind_of_ok (Fallible.require_run_pos _ hp _),
        Fallible.bind_of_ok h₄]
      rfl
    · rw [Fallible.bind_of_error (Fallible.require_run_neg _ hp _),
        Fallible.bind_of_error (Fallible.require_run_neg _ hp _)]

/-- Below a PML5 table that the kernel can reach, the four calls do the same in both modes. -/
theorem fiveLevel_refines (h : Above m m' s.mem v) (hroot : m.rootTablePhys.toNat < 2^32)
    (hv : v.SignExtended .fourLevel) :
    AlikeUnder m m' s (translateAddress v) ∧ AlikeUnder m m' s (getPageFlags v) ∧
      (∀ p flags, AlikeUnder m m' s (remapPage v p flags)) ∧ ∀ p flags, AlikeUnder m m' s (mapPage v p flags) :=
  ⟨h.readers hroot hv _, h.readers hroot hv _, h.remap hroot, h.map hroot hv⟩

end Above

/-! ### The two modes side by side -/

/-- A PML5 table at `root` with one entry, to a PML4 table in frame 1 that is all zeros. -/
def oneEntryPml5 (root : BitVec 64) : Machine where
  paging := none
  pmm := none
  regions := fun _ => none
  refcounts := fun _ => 0
  mem := fun f i => if f = root.toNat/4096 ∧ i.val = 0 then 0x1003#64 else 0
  log := []

def pml5At (root : BitVec 64) (h : root.toNat % 4096 = 0) : PagingManager := ⟨.fiveLevel, root, h⟩

private theorem frame1_aligned : (0x1000#64).toNat % 4096 = 0 := by decide

def pml4AtFrame1 : PagingManager := ⟨.fourLevel, 0x1000#64, frame1_aligned⟩

theorem fiveLevel_refines_low :
    AlikeUnder (pml5At 0x10000#64 (by decide)) pml4AtFrame1 (oneEntryPml5 0x10000#64)
      (translateAddress ⟨0x1234#64⟩) := by
  have h : Above (pml5At 0x10000#64 (by decide)) pml4AtFrame1 (oneEntryPml5 0x10000#64).mem ⟨0x1234#64⟩ :=
    ⟨rfl, rfl, by decide, by decide⟩
  exact (fiveLevel_refines h (by decide) (.inl (by decide))).1

/-- A PML5 table at 4 GiB is out of `phys_to_virt`'s reach, so only the 4-level walk gets an answer. -/
theorem fiveLevel_differs_high :
    Above (pml5At 0x100000000#64 (by decide)) pml4AtFrame1 (oneEntryPml5 0x100000000#64).mem ⟨0⟩ ∧
      VirtAddr.SignExtended ⟨0⟩ .fourLevel ∧
      ¬ AlikeUnder (pml5At 0x100000000#64 (by decide)) pml4AtFrame1 (oneEntryPml5 0x100000000#64)
        (translateAddress ⟨0⟩) := by
  refine ⟨⟨rfl, rfl, by decide, by decide⟩, .inl (by decide), fun h => ?_⟩
  have h₅ : (translateAddress ⟨0⟩ ((oneEntryPml5 0x100000000#64).under (pml5At 0x100000000#64 (by decide)))).1 =
    .error .crash := rfl
  have h₄ : (translateAddress ⟨0⟩ ((oneEntryPml5 0x100000000#64).under pml4AtFrame1)).1 =
    .error (.err "Page not mapped (PML4)") := rfl
  have heq := congrArg Prod.fst h
  rw [h₅, h₄] at heq
  cases heq

end Nafuraito.Memory.Machine
