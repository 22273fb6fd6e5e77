import Nafuraito.Library.Observed
import Nafuraito.Memory.PageWalk

/-! What the processor may have cached of the page tables: its translations, the page-table calls
watched access by access, and the TLBs that are possible after what was seen. -/
namespace Nafuraito.Memory
open Nafuraito.Library

/-- What a walk of the processor yields: where the page starts, its level, and the rights that all
entries of the walk grant. Reserved bits aside. -/
structure Translation where
  frame : PhysAddr
  level : Nat
  writable : Bool
  user : Bool
  noExecute : Bool
  deriving DecidableEq

/-- What can be seen of the memory manager: the tables as they stand, or a flush. -/
inductive Moment where
  | tables (mem : Frames)
  | invlpg (addr : BitVec 64)

namespace PagingManager
variable (m : PagingManager)

def translation (mem : Frames) (w : VirtAddr) : Option Translation :=
  (TableTree.trail PageTableEntry.kind mem w.index m.mode.top m.rootFrame).map fun (links, level, e) =>
    let words := e :: links
    ⟨Machine.leafAddress ⟨0⟩ level ⟨e⟩, level, words.all (PageTableFlags.contains ⟨·⟩ PageTableFlags.WRITABLE),
      words.all (PageTableFlags.contains ⟨·⟩ PageTableFlags.USER),
      words.any (PageTableFlags.contains ⟨·⟩ PageTableFlags.NO_EXECUTE)⟩

/-- A flush drops the translations of the pages its address lies in, if the processor has that address. -/
def Drops (addr : BitVec 64) (c : VirtAddr × Translation) : Prop :=
  (VirtAddr.mk addr).SignExtended m.mode ∧
    addr.toNat/(4096*512^c.2.level) = c.1.addr.toNat/(4096*512^c.2.level)

/-- The TLBs that are possible after some moments, the newest first. At each the processor may cache
what the tables give for any address it has, and it may drop anything; a flush makes it drop. -/
def TlbAfter : List Moment → Set (VirtAddr × Translation) → Prop
  | [], tlb => tlb = ∅
  | .tables mem :: seen, tlb => ∃ old, TlbAfter seen old ∧
      tlb ⊆ old ∪ {c | c.1.SignExtended m.mode ∧ m.translation mem c.1 = some c.2}
  | .invlpg addr :: seen, tlb => ∃ old, TlbAfter seen old ∧ tlb ⊆ {c ∈ old | ¬ m.Drops addr c}

end PagingManager

/-! ### The calls, watched -/

namespace Machine

abbrev Watched (α : Type) := Fallible (Machine × List Moment) Stop α

/-- One access, with the tables as it leaves them. -/
def watch {α : Type} (x : Op α) : Watched α := x.observed fun _ t => [.tables t.mem]

/-- Memory with the first `n` words of every frame as in `after`. -/
def halfway (n : Nat) (before after : Frames) : Frames := fun f i => if i.val < n then after f i else before f i

namespace Watched

/-- The new table is zeroed word by word. -/
def allocPageTable : Watched (BitVec 64) :=
  Machine.allocPageTable.observed fun s t =>
    ((List.range 513).map fun n => Moment.tables (halfway n s.mem t.mem)).reverse

def linkNewTable (table : Nat) (index : Fin 512) (flags : PageTableFlags) : Watched (BitVec 64) := do
  let newTable ← allocPageTable
  watch (writeEntry table index (.of newTable (tableFlags flags)))
  pure newTable

def getOrCreateNextLevel (table : Nat) (index : Fin 512) (flags : PageTableFlags) : Watched (BitVec 64) := do
  let entry ← watch (readEntry table index)
  if entry.isPresent then pure entry.address else linkNewTable table index flags

def mapWalk (v : VirtAddr) (p : PhysAddr) (flags : PageTableFlags) : Nat → BitVec 64 → Watched Unit
  | 0, phys => do
    let table ← watch (tableAt phys)
    watch (writeEntry table (v.index 0) (.of p.addr flags))
  | l+1, phys => do
    let table ← watch (tableAt phys)
    let next ← getOrCreateNextLevel table (v.index (l+1)) flags
    mapWalk v p flags l next

/-- The flush is seen, and then the tables again. -/
def invlpg (v : VirtAddr) : Watched Unit :=
  (Machine.invlpg v).observed fun _ t => [.tables t.mem, .invlpg v.addr]

def mapPage (v : VirtAddr) (p : PhysAddr) (flags : PageTableFlags) : Watched Unit := do
  let manager ← watch getPagingManager
  watch (Fallible.require p.isAligned (.err "Physical address not page-aligned"))
  watch (requireCanonical manager.mode v)
  mapWalk v p flags manager.mode.top manager.rootTablePhys
  invlpg v

def ifEmpty (table : Nat) (action : Watched Unit) : Watched Unit := fun s =>
  if s.1.isPageTableEmpty table then action s else (.ok (), s)

def unlinkTable (table : Nat) (index : Fin 512) (child : PageTableEntry) : Watched Unit := do
  watch (writeEntry table index .new)
  watch (freePageTable child.address)

def unmapWalk (v : VirtAddr) : Nat → BitVec 64 → Watched Unit → Watched Unit
  | 0, phys, onEmpty => do
    let table ← watch (tableAt phys)
    let _ ← watch (presentEntry table (v.index 0) (notMapped 0))
    watch (writeEntry table (v.index 0) .new)
    ifEmpty table onEmpty
  | l+1, phys, onEmpty => do
    let table ← watch (tableAt phys)
    let entry ← watch (presentEntry table (v.index (l+1)) (notMapped (l+1)))
    unmapWalk v l entry.address do
      unlinkTable table (v.index (l+1)) entry
      ifEmpty table onEmpty

def unmapPage (v : VirtAddr) : Watched Unit := do
  let manager ← watch getPagingManager
  watch (requireCanonical manager.mode v)
  unmapWalk v manager.mode.top manager.rootTablePhys (pure ())
  invlpg v

def remapWalk (v : VirtAddr) (p : PhysAddr) (flags : PageTableFlags) : Nat → BitVec 64 → Watched Unit
  | 0, phys => do
    let table ← watch (tableAt phys)
    let _ ← watch (presentEntry table (v.index 0) (notMapped 0))
    watch (writeEntry table (v.index 0) (.of p.addr flags))
  | l+1, phys => do
    let table ← watch (tableAt phys)
    let entry ← watch (presentEntry table (v.index (l+1)) (notMapped (l+1)))
    remapWalk v p flags l entry.address

def remapPage (v : VirtAddr) (p : PhysAddr) (flags : PageTableFlags) : Watched Unit := do
  let manager ← watch getPagingManager
  watch (Fallible.require p.isAligned (.err "Physical address not page-aligned"))
  remapWalk v p flags manager.mode.top manager.rootTablePhys
  invlpg v

/-! ### Without the observer they are the calls of the source -/

open Fallible (Observes)

private theorem watch_observes {α : Type} (x : Op α) : Observes (watch x) x := .observed x _

theorem getOrCreateNextLevel_observes (table : Nat) (index : Fin 512) (flags : PageTableFlags) :
    Observes (getOrCreateNextLevel table index flags) (Machine.getOrCreateNextLevel table index flags) := by
  refine .bind (watch_observes _) fun entry => .ite (.pure _) ?_
  exact .bind (.observed _ _) fun _ => .bind (watch_observes _) fun _ => .pure _

theorem mapWalk_observes (v : VirtAddr) (p : PhysAddr) (flags : PageTableFlags) (l : Nat) (phys : BitVec 64) :
    Observes (mapWalk v p flags l phys) (Machine.mapWalk v p flags l phys) := by
  induction l generalizing phys with
  | zero => exact .bind (watch_observes _) fun _ => watch_observes _
  | succ l ih => exact .bind (watch_observes _) fun _ => .bind (getOrCreateNextLevel_observes _ _ _) ih

private theorem ifEmpty_observes {x : Op Unit} {y : Watched Unit} (h : Observes y x) (table : Nat) :
    Observes (ifEmpty table y) (Machine.ifEmpty table x) := by
  intro s
  rw [ifEmpty, Machine.ifEmpty]
  split
  · exact h s
  · rfl

theorem unlinkTable_observes (table : Nat) (index : Fin 512) (child : PageTableEntry) :
    Observes (unlinkTable table index child) (Machine.unlinkTable table index child) :=
  .bind (watch_observes _) fun _ => watch_observes _

theorem unmapWalk_observes (v : VirtAddr) (l : Nat) (phys : BitVec 64) {x : Op Unit} {y : Watched Unit}
    (h : Observes y x) : Observes (unmapWalk v l phys y) (Machine.unmapWalk v true l phys x) := by
  induction l generalizing phys x y with
  | zero =>
    rw [unmapWalk, Machine.unmapWalk]
    simp only [onlyIf, if_true]
    exact .bind (watch_observes _) fun table => .bind (watch_observes _) fun _ =>
      .bind (watch_observes _) fun _ => ifEmpty_observes h table
  | succ l ih =>
    refine .bind (watch_observes _) fun table => .bind (watch_observes _) fun entry => ih _ ?_
    exact .bind (unlinkTable_observes _ _ _) fun _ => ifEmpty_observes h table

theorem remapWalk_observes (v : VirtAddr) (p : PhysAddr) (flags : PageTableFlags) (l : Nat)
    (phys : BitVec 64) : Observes (remapWalk v p flags l phys) (Machine.remapWalk v p flags l phys) := by
  induction l generalizing phys with
  | zero => exact .bind (watch_observes _) fun _ => .bind (watch_observes _) fun _ => watch_observes _
  | succ l ih => exact .bind (watch_observes _) fun _ => .bind (watch_observes _) fun _ => ih _

theorem mapPage_observes (v : VirtAddr) (p : PhysAddr) (flags : PageTableFlags) :
    Observes (mapPage v p flags) (Machine.mapPage v p flags) := by
  refine .bind (watch_observes _) fun manager => .bind (watch_observes _) fun _ =>
    .bind (watch_observes _) fun _ => ?_
  rw [mapLevels_eq]
  exact .bind (mapWalk_observes v p flags _ _) fun _ => .observed _ _

theorem unmapPage_observes (v : VirtAddr) : Observes (unmapPage v) (Machine.unmapPage v) := by
  refine .bind (watch_observes _) fun manager => .bind (watch_observes _) fun _ => ?_
  rw [unmapLevels_eq, unmapFromRoot_eq, manager.mode.top_succ]
  exact .bind (unmapWalk_observes v _ _ (.pure ())) fun _ => .observed _ _

theorem remapPage_observes (v : VirtAddr) (p : PhysAddr) (flags : PageTableFlags) :
    Observes (remapPage v p flags) (Machine.remapPage v p flags) := by
  refine .bind (watch_observes _) fun manager => .bind (watch_observes _) fun _ => ?_
  rw [remapLevels_eq]
  exact .bind (remapWalk_observes v p flags _ _) fun _ => .observed _ _

end Watched
end Machine
end Nafuraito.Memory
