import Nafuraito.Memory.PageWalk
import Nafuraito.Memory.TableFrames

/-! What the page-table calls leave alone: a relation between states that holds of their steps
holds of the calls, and what follows for the statics, the size of the frame allocator and the log. -/
namespace Nafuraito.Memory.Machine
open Nafuraito.Library
open Fallible (Relates)

/-! ### Steps that read -/

section Reads
variable {R : Machine → Machine → Prop} (hr : ∀ s, R s s) (ht : ∀ a b c, R a b → R b c → R a c)
include hr

theorem require_relates (c : Prop) [Decidable c] (e : Stop) : Relates R (Fallible.require c e : Op Unit) := by
  rw [Fallible.require]
  split
  · exact Relates.pure hr _
  · exact Relates.throw hr _

theorem tableAt_relates (phys : BitVec 64) : Relates R (tableAt phys) := by
  rw [tableAt]
  split
  · exact Relates.throw hr _
  · exact Relates.pure hr _

theorem getPagingManager_relates : Relates R getPagingManager := by
  intro s
  rw [getPagingManager]
  split <;> exact hr _

theorem requireCanonical_relates (mode : PagingMode) (v : VirtAddr) : Relates R (requireCanonical mode v) := by
  cases mode <;> exact require_relates hr _ _

include ht

theorem presentEntry_relates (table : Nat) (index : Fin 512) (message : String) :
    Relates R (presentEntry table index message) :=
  .bind ht (fun _ => hr _) fun _ => .bind ht (require_relates hr _ _) fun _ => Relates.pure hr _

theorem readWalk_relates {α : Type} (v : VirtAddr) (out : Nat → PageTableEntry → α) (l : Nat) (phys : BitVec 64) :
    Relates R (readWalk v out l phys) := by
  induction l generalizing phys with
  | zero => exact .bind ht (tableAt_relates hr _) fun _ => .bind ht (presentEntry_relates hr ht _ _ _) fun _ =>
    Relates.pure hr _
  | succ l ih =>
    rw [readWalk_succ]
    refine .bind ht (tableAt_relates hr _) fun _ => .bind ht (presentEntry_relates hr ht _ _ _) fun _ => ?_
    split
    · exact Relates.pure hr _
    · exact ih _

theorem translateAddress_relates (v : VirtAddr) : Relates R (translateAddress v) := by
  refine .bind ht (getPagingManager_relates hr) fun m => .bind ht (requireCanonical_relates hr _ _) fun _ => ?_
  rw [readLevels_eq]
  exact readWalk_relates hr ht _ _ _ _

theorem getPageFlags_relates (v : VirtAddr) : Relates R (getPageFlags v) := by
  refine .bind ht (getPagingManager_relates hr) fun m => .bind ht (requireCanonical_relates hr _ _) fun _ => ?_
  rw [readLevels_eq]
  exact readWalk_relates hr ht _ _ _ _

end Reads

theorem translateAddress_snd (v : VirtAddr) (s : Machine) : (translateAddress v s).2 = s :=
  (translateAddress_relates (fun _ => rfl) (fun _ _ _ h₁ h₂ => h₁.trans h₂) v s).symm

/-! ### Steps that write -/

/-- A relation that holds of doing nothing, of a chain of steps, of a write to a table and of
the flush at the end of a call. -/
structure StepRule (R : Machine → Machine → Prop) : Prop where
  refl : ∀ s, R s s
  trans : ∀ a b c, R a b → R b c → R a c
  setWord : ∀ s f i word, R s (s.setWord f i word)
  flush : ∀ s addr, R s (s.addLog (.invlpg addr))

section StepRule
variable {R : Machine → Machine → Prop} (h : StepRule R)
include h

private theorem mapWalk_relates (halloc : Relates R allocPageTable) (v : VirtAddr) (p : PhysAddr)
    (flags : PageTableFlags)
    (l : Nat) (phys : BitVec 64) : Relates R (mapWalk v p flags l phys) := by
  induction l generalizing phys with
  | zero => exact .bind h.trans (tableAt_relates h.refl _) fun _ s => h.setWord s _ _ _
  | succ l ih =>
    refine .bind h.trans (tableAt_relates h.refl _) fun table => .bind h.trans ?_ fun _ => ih _
    refine .bind h.trans (fun _ => h.refl _) fun entry => ?_
    split
    · exact Relates.pure h.refl _
    · exact .bind h.trans halloc fun _ => .bind h.trans (fun s => h.setWord s _ _ _) fun _ => Relates.pure h.refl _

theorem StepRule.mapPage (halloc : Relates R allocPageTable) (v : VirtAddr) (p : PhysAddr) (flags : PageTableFlags) :
    Relates R (Machine.mapPage v p flags) := by
  refine .bind h.trans (getPagingManager_relates h.refl) fun m => .bind h.trans (require_relates h.refl _ _) fun _ =>
    .bind h.trans (requireCanonical_relates h.refl _ _) fun _ => .bind h.trans ?_ fun _ s => h.flush s _
  rw [mapLevels_eq]
  exact mapWalk_relates h halloc v p flags _ _

private theorem ifEmpty_relates (table : Nat) {action : Op Unit} (ha : Relates R action) :
    Relates R (ifEmpty table action) := by
  intro s
  rw [ifEmpty]
  split
  · exact ha s
  · exact h.refl s

theorem StepRule.unlinkTable (hfree : ∀ addr, Relates R (freeFrame addr)) (table : Nat) (index : Fin 512)
    (child : PageTableEntry) : Relates R (unlinkTable table index child) :=
  .bind h.trans (fun s => h.setWord s _ _ _) fun _ s => hfree _ s

private theorem unmapWalk_relates (hfree : ∀ addr, Relates R (freeFrame addr)) (v : VirtAddr) (freeEmpty : Bool)
    (l : Nat)
    (phys : BitVec 64) {onEmpty : Op Unit} (ha : Relates R onEmpty) :
    Relates R (unmapWalk v freeEmpty l phys onEmpty) := by
  induction l generalizing phys onEmpty with
  | zero =>
    refine .bind h.trans (tableAt_relates h.refl _) fun _ => .bind h.trans
      (presentEntry_relates h.refl h.trans _ _ _) fun _ => .bind h.trans (fun s => h.setWord s _ _ _) fun _ => ?_
    rw [onlyIf]
    split
    · exact ifEmpty_relates h _ ha
    · exact Relates.pure h.refl _
  | succ l ih =>
    exact .bind h.trans (tableAt_relates h.refl _) fun _ => .bind h.trans
      (presentEntry_relates h.refl h.trans _ _ _) fun _ =>
        ih _ (.bind h.trans (h.unlinkTable hfree _ _ _) fun _ => ifEmpty_relates h _ ha)

theorem StepRule.unmapPage (hfree : ∀ addr, Relates R (freeFrame addr)) (v : VirtAddr) :
    Relates R (Machine.unmapPage v) := by
  refine .bind h.trans (getPagingManager_relates h.refl) fun m => .bind h.trans
    (requireCanonical_relates h.refl _ _) fun _ => .bind h.trans ?_ fun _ s => h.flush s _
  rw [unmapLevels_eq]
  exact .bind h.trans (tableAt_relates h.refl _) fun _ => .bind h.trans
    (presentEntry_relates h.refl h.trans _ _ _) fun _ => unmapWalk_relates h hfree _ _ _ _ (h.unlinkTable hfree _ _ _)

private theorem remapWalk_relates (v : VirtAddr) (p : PhysAddr) (flags : PageTableFlags) (l : Nat) (phys : BitVec 64) :
    Relates R (remapWalk v p flags l phys) := by
  induction l generalizing phys with
  | zero =>
    exact .bind h.trans (tableAt_relates h.refl _) fun _ => .bind h.trans
      (presentEntry_relates h.refl h.trans _ _ _) fun _ s => h.setWord s _ _ _
  | succ l ih =>
    exact .bind h.trans (tableAt_relates h.refl _) fun _ => .bind h.trans
      (presentEntry_relates h.refl h.trans _ _ _) fun _ => ih _

theorem StepRule.remapPage (v : VirtAddr) (p : PhysAddr) (flags : PageTableFlags) :
    Relates R (Machine.remapPage v p flags) := by
  refine .bind h.trans (getPagingManager_relates h.refl) fun m => .bind h.trans (require_relates h.refl _ _) fun _ =>
    .bind h.trans ?_ fun _ s => h.flush s _
  rw [remapLevels_eq]
  exact remapWalk_relates h v p flags _ _

end StepRule

/-! ### The statics -/

/-- The statics that no page-table call writes. -/
structure SameStatics (s t : Machine) : Prop where
  paging : t.paging = s.paging
  regions : t.regions = s.regions
  refcounts : t.refcounts = s.refcounts

theorem SameStatics.rfl {s : Machine} : SameStatics s s := ⟨.refl _, .refl _, .refl _⟩

theorem SameStatics.trans {a b c : Machine} (h₁ : SameStatics a b) (h₂ : SameStatics b c) : SameStatics a c :=
  ⟨h₂.paging.trans h₁.paging, h₂.regions.trans h₁.regions, h₂.refcounts.trans h₁.refcounts⟩

theorem sameStatics_rule : StepRule SameStatics where
  refl _ := .rfl
  trans _ _ _ h₁ h₂ := h₁.trans h₂
  setWord _ _ _ _ := ⟨rfl, rfl, rfl⟩
  flush _ _ := ⟨rfl, rfl, rfl⟩

theorem freeFrame_statics (addr : Nat) : Relates SameStatics (freeFrame addr) := by
  intro s
  rw [freeFrame]
  split <;> exact ⟨rfl, rfl, rfl⟩

private theorem allocPageTable_statics : Relates SameStatics allocPageTable := by
  intro s
  rw [allocPageTable]
  dsimp only
  split
  · exact ⟨rfl, rfl, rfl⟩
  · split <;> exact ⟨rfl, rfl, rfl⟩

theorem mapPage_statics (v : VirtAddr) (p : PhysAddr) (flags : PageTableFlags) :
    Relates SameStatics (mapPage v p flags) := sameStatics_rule.mapPage allocPageTable_statics v p flags

theorem unmapPage_statics (v : VirtAddr) : Relates SameStatics (unmapPage v) :=
  sameStatics_rule.unmapPage freeFrame_statics v

/-! ### The size of the frame allocator -/

/-- As many frames are tracked as before. -/
def SameTotal (s t : Machine) : Prop :=
  t.pmm.map PhysicalMemoryManager.totalFrames = s.pmm.map PhysicalMemoryManager.totalFrames

theorem sameTotal_rule : StepRule SameTotal where
  refl _ := rfl
  trans _ _ _ h₁ h₂ := h₂.trans h₁
  setWord _ _ _ _ := rfl
  flush _ _ := rfl

theorem freeFrame_total (addr : Nat) : Relates SameTotal (freeFrame addr) := by
  intro s
  rw [freeFrame]
  simp only [addLog_pmm]
  cases hp : s.pmm with
  | none => exact rfl
  | some q =>
    change some (PhysicalMemoryManager.freeFrame addr q).2.totalFrames = _
    rw [hp, Option.map_some]
    rcases PhysicalMemoryManager.freeFrame_run addr q with ⟨_, _, _, he⟩ | ⟨_, e, he⟩ <;> rw [he]
    rw [PhysicalMemoryManager.giving_total]

/-- Allocations do not change the size. -/
private theorem takeTableFrame_total (p : Option PhysicalMemoryManager) :
    (PhysicalMemoryManager.takeTableFrame p).2.map PhysicalMemoryManager.totalFrames =
      p.map PhysicalMemoryManager.totalFrames :=
  PhysicalMemoryManager.takeTableFrame_rule (R := fun p _ q => q.map PhysicalMemoryManager.totalFrames =
    p.map PhysicalMemoryManager.totalFrames) (fun _ => rfl) (fun _ _ => rfl) (fun h h' => h'.trans h) p

private theorem allocPageTable_total : Relates SameTotal allocPageTable := by
  intro s
  have h := takeTableFrame_total s.pmm
  rw [allocPageTable]
  dsimp only
  split
  · exact h
  · split <;> exact h

theorem mapPage_total (v : VirtAddr) (p : PhysAddr) (flags : PageTableFlags) :
    Relates SameTotal (mapPage v p flags) := sameTotal_rule.mapPage allocPageTable_total v p flags

theorem remapPage_total (v : VirtAddr) (p : PhysAddr) (flags : PageTableFlags) :
    Relates SameTotal (remapPage v p flags) := sameTotal_rule.remapPage v p flags

theorem unmapPage_total (v : VirtAddr) : Relates SameTotal (unmapPage v) := sameTotal_rule.unmapPage freeFrame_total v

end Nafuraito.Memory.Machine
