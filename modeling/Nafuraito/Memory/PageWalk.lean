import Nafuraito.Memory.Paging

/-! One recursion over the levels for each kind of walk, and what a well-formed hierarchy is. -/
namespace Nafuraito.Memory.Machine
open Nafuraito.Library

/-- The message for an absent entry at a level. -/
def notMapped : Nat → String
  | 0 => "Page not mapped (PT)"
  | 1 => "Page not mapped (PD)"
  | 2 => "Page not mapped (PDPT)"
  | 3 => "Page not mapped (PML4)"
  | _ => "Page not mapped (PML5)"

def mapWalk (v : VirtAddr) (p : PhysAddr) (flags : PageTableFlags) : Nat → BitVec 64 → Op Unit
  | 0, phys => do
    let table ← tableAt phys
    writeEntry table (v.index 0) (.of p.addr flags)
  | l+1, phys => do
    let table ← tableAt phys
    let next ← getOrCreateNextLevel table (v.index (l+1)) flags
    mapWalk v p flags l next

/-- `onEmpty` runs when the table the walk is at has become empty. -/
def unmapWalk (v : VirtAddr) (freeEmpty : Bool) : Nat → BitVec 64 → Op Unit → Op Unit
  | 0, phys, onEmpty => do
    let table ← tableAt phys
    let _ ← presentEntry table (v.index 0) (notMapped 0)
    writeEntry table (v.index 0) .new
    onlyIf freeEmpty (ifEmpty table onEmpty)
  | l+1, phys, onEmpty => do
    let table ← tableAt phys
    let entry ← presentEntry table (v.index (l+1)) (notMapped (l+1))
    unmapWalk v freeEmpty l entry.address do
      unlinkTable table (v.index (l+1)) entry
      ifEmpty table onEmpty

/-- The root is never checked for emptiness. -/
def unmapFromRoot (v : VirtAddr) (freeEmpty : Bool) (l : Nat) (phys : BitVec 64) : Op Unit := do
  let table ← tableAt phys
  let entry ← presentEntry table (v.index (l+1)) (notMapped (l+1))
  unmapWalk v freeEmpty l entry.address (unlinkTable table (v.index (l+1)) entry)

def remapWalk (v : VirtAddr) (p : PhysAddr) (flags : PageTableFlags) : Nat → BitVec 64 → Op Unit
  | 0, phys => do
    let table ← tableAt phys
    let _ ← presentEntry table (v.index 0) (notMapped 0)
    writeEntry table (v.index 0) (.of p.addr flags)
  | l+1, phys => do
    let table ← tableAt phys
    let entry ← presentEntry table (v.index (l+1)) (notMapped (l+1))
    remapWalk v p flags l entry.address

/-- Only the tables of levels 1 and 2 are checked for huge leaves. -/
def readWalk {α : Type} (v : VirtAddr) (out : Nat → PageTableEntry → α) : Nat → BitVec 64 → Op α
  | 0, phys => do
    let table ← tableAt phys
    let entry ← presentEntry table (v.index 0) (notMapped 0)
    pure (out 0 entry)
  | 1, phys => do
    let table ← tableAt phys
    let entry ← presentEntry table (v.index 1) (notMapped 1)
    if entry.isHuge then pure (out 1 entry) else readWalk v out 0 entry.address
  | 2, phys => do
    let table ← tableAt phys
    let entry ← presentEntry table (v.index 2) (notMapped 2)
    if entry.isHuge then pure (out 2 entry) else readWalk v out 1 entry.address
  | l+3, phys => do
    let table ← tableAt phys
    let entry ← presentEntry table (v.index (l+3)) (notMapped (l+3))
    readWalk v out (l+2) entry.address

variable (m : PagingManager) (v : VirtAddr) (p : PhysAddr) (flags : PageTableFlags)

theorem mapLevels_eq : mapLevels m v p flags = mapWalk v p flags m.mode.top m.rootTablePhys := by
  rw [mapLevels]
  cases m.mode <;> rfl

theorem unmapLevels_eq (freeEmpty : Bool) :
    unmapLevels m v freeEmpty = unmapFromRoot v freeEmpty (m.mode.top-1) m.rootTablePhys := by
  rw [unmapLevels]
  cases m.mode <;> rfl

theorem ifEmpty_pure (table : Nat) (s : Machine) : ifEmpty table (pure ()) s = (.ok (), s) := by
  rw [ifEmpty]
  split <;> rfl

/-- The walk from the root is one level more with nothing to do at its end. -/
theorem unmapFromRoot_eq (freeEmpty : Bool) (l : Nat) (phys : BitVec 64) :
    unmapFromRoot v freeEmpty l phys = unmapWalk v freeEmpty (l+1) phys (pure ()) := by
  have hend (table : Nat) (x : Op Unit) : (x >>= fun _ => ifEmpty table (pure ())) = x := by
    funext s
    rw [Fallible.bind_run]
    rcases x s with ⟨_ | _, t⟩
    · rfl
    · exact ifEmpty_pure table t
  simp only [unmapFromRoot, unmapWalk, hend]

theorem remapLevels_eq : remapLevels m v p flags = remapWalk v p flags m.mode.top m.rootTablePhys := by
  rw [remapLevels]
  cases m.mode <;> rfl

theorem readLevels_eq {α : Type} (out : Nat → PageTableEntry → α) :
    readLevels m v out = readWalk v out m.mode.top m.rootTablePhys := by
  rw [readLevels]
  cases m.mode <;> rfl

/-- The levels of `readWalk` in one equation. -/
theorem readWalk_succ {α : Type} (v : VirtAddr) (out : Nat → PageTableEntry → α) (l : Nat) (phys : BitVec 64) :
    readWalk v out (l+1) phys = (do
      let table ← tableAt phys
      let entry ← presentEntry table (v.index (l+1)) (notMapped (l+1))
      if l+1 ≤ 2 ∧ entry.isHuge then pure (out (l+1) entry) else readWalk v out l entry.address) := by
  match l with
  | 0 =>
    have : 0+1 ≤ 2 := by decide
    simp only [readWalk, this, true_and]
  | 1 =>
    have : 1+1 ≤ 2 := by decide
    simp only [readWalk, this, true_and]
  | l+2 =>
    have : ¬ l+2+1 ≤ 2 := by omega
    simp only [readWalk, this, false_and, if_false]

/-! ### Running one step -/

variable {s : Machine}

theorem presentEntry_run {table : Nat} {index : Fin 512} {message : String}
    (h : PageTableEntry.isPresent ⟨s.mem table index⟩ = true) :
    presentEntry table index message s = (.ok ⟨s.mem table index⟩, s) := by
  rw [presentEntry, Fallible.bind_of_ok (readEntry_run table index),
    Fallible.bind_of_ok (Fallible.require_run_pos _ h s)]
  rfl

theorem presentEntry_absent {table : Nat} {index : Fin 512} {message : String}
    (h : PageTableEntry.isPresent ⟨s.mem table index⟩ = false) :
    presentEntry table index message s = (.error (.err message), s) := by
  rw [presentEntry, Fallible.bind_of_ok (readEntry_run table index),
    Fallible.bind_of_error (Fallible.require_run_neg _ (by simp [h]) s)]

theorem ifEmpty_run {table : Nat} {action : Op Unit} (h : ∀ i, s.mem table i = 0) :
    ifEmpty table action s = action s := by
  rw [ifEmpty, if_pos (isPageTableEmpty_iff.mpr h)]

theorem ifEmpty_skip {table : Nat} {action : Op Unit} {i : Fin 512} (h : s.mem table i ≠ 0) :
    ifEmpty table action s = (.ok (), s) := by
  rw [ifEmpty, if_neg (fun he => h (isPageTableEmpty_iff.mp he i))]

theorem readWalk_crash {α : Type} (out : Nat → PageTableEntry → α) (l : Nat) {phys : BitVec 64}
    (h : ¬ phys.toNat < 2^32) : readWalk v out l phys s = (.error .crash, s) := by
  cases l with
  | zero => exact Fallible.bind_of_error (tableAt_crash h)
  | succ l =>
    rw [readWalk_succ]
    exact Fallible.bind_of_error (tableAt_crash h)

theorem remapWalk_crash (l : Nat) {phys : BitVec 64} (h : ¬ phys.toNat < 2^32) :
    remapWalk v p flags l phys s = (.error .crash, s) := by
  cases l <;> exact Fallible.bind_of_error (tableAt_crash h)

/-- A read ends in `t` as in `s`: with the same value, or with an error in both. -/
def SameOutcome {α : Type} (x : Op α) (s t : Machine) : Prop :=
  (∀ a, (x t).1 = .ok a ↔ (x s).1 = .ok a) ∧
    ((∃ message, (x t).1 = .error (.err message)) ↔ ∃ message, (x s).1 = .error (.err message))

end Nafuraito.Memory.Machine

namespace Nafuraito.Memory
open Nafuraito.Library
open PageTableEntry (kind)

/-! ### Well-formed hierarchies -/

namespace PagingManager
variable (m : PagingManager)

/-- `f` is a table of the hierarchy, at a level. -/
abbrev Table (mem : Frames) (level f : Nat) : Prop :=
  TableTree.Reach kind mem m.mode.top m.rootFrame level f

/-- The walk of `v` comes to table `f` at a level. -/
abbrev Walk (mem : Frames) (v : VirtAddr) (level f : Nat) : Prop :=
  TableTree.Path kind mem m.mode.top m.rootFrame v.index level f

/-- The leaf entry some indices lead to, with its level. -/
abbrev lookup (mem : Frames) (idx : Nat → Fin 512) : Option (Nat × BitVec 64) :=
  TableTree.lookup kind mem idx m.mode.top m.rootFrame

/-- The leaf entry `v` is read through. -/
abbrev leaf (mem : Frames) (v : VirtAddr) : Option (Nat × BitVec 64) := m.lookup mem v.index

/-- The links form a tree, and each leads to a non-zero table frame below 4 GiB. -/
structure WellFormed (mem : Frames) : Prop where
  tree : TableTree.IsTree kind mem m.mode.top m.rootFrame
  target : ∀ {l f g : Nat} {i : Fin 512}, m.Table mem (l+1) f → kind (l+1) (mem f i) = .link g →
    g ≠ 0 ∧ g < 2^20

/-- The walk of `v` ends in no leaf above the page table. -/
def NoHugeLeaf (mem : Frames) (v : VirtAddr) : Prop := ∀ l e, m.leaf mem v = some (l, e) → l = 0

variable {m : PagingManager} {mem : Frames}

theorem WellFormed.target_lt (h : m.WellFormed mem) {l f : Nat} {i : Fin 512}
    (hf : m.Table mem (l+1) f) {g : Nat} (hk : kind (l+1) (mem f i) = .link g) :
    (PageTableEntry.address ⟨mem f i⟩).toNat < 2^32 := by
  have h₁ := (h.target hf hk).2
  have h₂ := PageTableEntry.address_eq ⟨mem f i⟩
  obtain ⟨_, _, _, rfl⟩ := PageTableEntry.kind_link.mp hk
  omega

/-- Memory that differs in no table has the same hierarchy. -/
theorem WellFormed.of_same (h : m.WellFormed mem) {mem' : Frames}
    (hsame : ∀ l f, m.Table mem l f → mem' f = mem f) :
    m.WellFormed mem' ∧ (∀ l f, m.Table mem' l f ↔ m.Table mem l f) ∧ ∀ idx, m.lookup mem' idx = m.lookup mem idx := by
  have hkind {l f : Nat} (i : Fin 512) (hf : m.Table mem (l+1) f) :
      kind (l+1) (mem' f i) = kind (l+1) (mem f i) := by rw [hsame _ f hf]
  refine ⟨⟨h.tree.of_same hkind, fun hf hk => ?_⟩, fun l f => TableTree.reach_same_iff hkind, fun idx =>
    TableTree.lookup_congr fun l f hp => by rw [hsame l f hp.reach]⟩
  have hf := TableTree.reach_to_same hkind hf
  exact h.target hf ((hkind _ hf).symm.trans hk)

/-- A read walk finds the leaf the tree has for the address, and fails if it has none. -/
theorem WellFormed.readWalk_run (h : m.WellFormed mem) {α : Type} {v : VirtAddr}
    (out : Nat → PageTableEntry → α) {s : Machine} (hm : s.mem = mem) {l : Nat} {phys : BitVec 64}
    (hp : m.Walk mem v l (phys.toNat/4096)) (hlt : phys.toNat < 2^32) :
    (∃ k e, m.leaf mem v = some (k, e) ∧ Machine.readWalk v out l phys s = (.ok (out k ⟨e⟩), s)) ∨
      (m.leaf mem v = none ∧ ∃ message, Machine.readWalk v out l phys s = (.error (.err message), s)) := by
  subst hm
  induction l generalizing phys with
  | zero =>
    rw [Machine.readWalk, Fallible.bind_of_ok (Machine.tableAt_run hlt)]
    cases hpr : PageTableEntry.isPresent ⟨s.mem (phys.toNat/4096) (v.index 0)⟩ with
    | false =>
      rw [Fallible.bind_of_error (Machine.presentEntry_absent hpr)]
      exact .inr ⟨TableTree.lookup_of_absent hp (PageTableEntry.kind_absent.mpr hpr), _, rfl⟩
    | true =>
      rw [Fallible.bind_of_ok (Machine.presentEntry_run hpr)]
      refine .inl ⟨0, _, TableTree.lookup_of_leaf hp ?_, rfl⟩
      simp [kind, hpr]
  | succ l ih =>
    rw [Machine.readWalk_succ, Fallible.bind_of_ok (Machine.tableAt_run hlt)]
    cases hpr : PageTableEntry.isPresent ⟨s.mem (phys.toNat/4096) (v.index (l+1))⟩ with
    | false =>
      rw [Fallible.bind_of_error (Machine.presentEntry_absent hpr)]
      exact .inr ⟨TableTree.lookup_of_absent hp (PageTableEntry.kind_absent.mpr hpr), _, rfl⟩
    | true =>
      rw [Fallible.bind_of_ok (Machine.presentEntry_run hpr)]
      by_cases hh : l+1 ≤ 2 ∧ PageTableEntry.isHuge ⟨s.mem (phys.toNat/4096) (v.index (l+1))⟩ = true
      · rw [if_pos hh]
        refine .inl ⟨l+1, _, TableTree.lookup_of_leaf hp ?_, rfl⟩
        simp [kind, hpr, hh]
      · rw [if_neg hh]
        have hk := PageTableEntry.kind_link.mpr ⟨hpr, Nat.succ_ne_zero l, hh, rfl⟩
        exact ih (h.target_lt hp.reach hk) (.step hp hk)

theorem requireCanonical_run {v : VirtAddr} {mode : PagingMode} (h : v.isCanonical mode = true)
    (s : Machine) : Machine.requireCanonical mode v s = (.ok (), s) := by
  cases mode <;> exact Fallible.require_run_pos _ h s

theorem requireCanonical_fails {v : VirtAddr} {mode : PagingMode} (h : ¬ v.isCanonical mode = true) :
    ∃ message, ∀ s, Machine.requireCanonical mode v s = (.error (.err message), s) := by
  cases mode <;> exact ⟨_, Fallible.require_run_neg _ h⟩

theorem requireCanonical_ok {v : VirtAddr} {mode : PagingMode} {s t : Machine}
    (h : Machine.requireCanonical mode v s = (.ok (), t)) : v.isCanonical mode = true ∧ t = s := by
  cases mode <;> exact Fallible.require_ok h

/-- A `map_page` that returns `Ok` passed its checks, and its walk did all but the flush. -/
theorem mapPage_ok {s t : Machine} (hm : s.paging = some m) {v : VirtAddr} {p : PhysAddr} {flags : PageTableFlags}
    (h : Machine.mapPage v p flags s = (.ok (), t)) : p.isAligned = true ∧ v.isCanonical m.mode = true ∧
      ∃ u, Machine.mapWalk v p flags m.mode.top m.rootTablePhys s = (.ok (), u) ∧
        t = u.addLog (.invlpg v.addr) := by
  rw [Machine.mapPage, Fallible.bind_of_ok (Machine.getPagingManager_run hm)] at h
  obtain ⟨_, s₁, h₁, hrest⟩ := Fallible.bind_ok h
  obtain ⟨hp, rfl⟩ := Fallible.require_ok h₁
  obtain ⟨_, s₂, h₂, hlast⟩ := Fallible.bind_ok hrest
  obtain ⟨hv, rfl⟩ := requireCanonical_ok h₂
  obtain ⟨_, u, hwalk, hflush⟩ := Fallible.bind_ok hlast
  rw [Machine.mapLevels_eq] at hwalk
  exact ⟨hp, hv, u, hwalk, (Prod.mk.inj hflush).2.symm⟩

/-- `translate_address` on a canonical address gives the address of its leaf, or fails. -/
theorem WellFormed.translate_run {s : Machine} (h : m.WellFormed s.mem) (hm : s.paging = some m)
    (hroot : m.rootTablePhys.toNat < 2^32) {v : VirtAddr} (hv : v.isCanonical m.mode = true) :
    (∃ l e, m.leaf s.mem v = some (l, e) ∧
      Machine.translateAddress v s = (.ok (Machine.leafAddress v l ⟨e⟩), s)) ∨
      (m.leaf s.mem v = none ∧ ∃ message, Machine.translateAddress v s = (.error (.err message), s)) := by
  rw [Machine.translateAddress, Fallible.bind_of_ok (Machine.getPagingManager_run hm),
    Fallible.bind_of_ok (requireCanonical_run hv s), Machine.readLevels_eq]
  exact h.readWalk_run (Machine.leafAddress v) rfl .root hroot

section Readers
variable {s t : Machine} {w : VirtAddr}

/-- The walk both readers share, with what they return for a leaf. -/
private def readWith {α : Type} (out : Nat → PageTableEntry → α) (w : VirtAddr) : Machine.Op α := do
  let manager ← Machine.getPagingManager
  Machine.requireCanonical manager.mode w
  Machine.readLevels manager w out

private theorem readWith_same {α : Type} (out : Nat → PageTableEntry → α) (hm : s.paging = some m)
    (hm' : t.paging = some m) (hwf : m.WellFormed s.mem) (hwf' : m.WellFormed t.mem)
    (hl : m.leaf t.mem w = m.leaf s.mem w) : Machine.SameOutcome (readWith out w) s t := by
  have hrun {u : Machine} (hu : u.paging = some m) : readWith out w u =
      (Machine.requireCanonical m.mode w >>= fun _ => Machine.readLevels m w out) u := by
    rw [readWith, Fallible.bind_of_ok (Machine.getPagingManager_run hu)]
  rw [Machine.SameOutcome, hrun hm, hrun hm']
  by_cases hw : w.isCanonical m.mode = true
  · rw [Fallible.bind_of_ok (requireCanonical_run hw s), Fallible.bind_of_ok (requireCanonical_run hw t),
      Machine.readLevels_eq]
    by_cases hroot : m.rootTablePhys.toNat < 2^32
    · rcases hwf.readWalk_run out (s := s) rfl .root hroot with ⟨l, e, h₁, h₂⟩ | ⟨h₁, msg, h₂⟩ <;>
        rcases hwf'.readWalk_run out (s := t) rfl .root hroot with ⟨l', e', h₁', h₂'⟩ | ⟨h₁', msg', h₂'⟩ <;>
        rw [h₁, h₁'] at hl
      · obtain ⟨rfl, rfl⟩ := Prod.mk.inj (Option.some.inj hl)
        rw [h₂, h₂']
        exact ⟨fun _ => Iff.rfl, Iff.rfl⟩
      · cases hl
      · cases hl
      · rw [h₂, h₂']
        exact ⟨fun _ => by simp, iff_of_true ⟨_, rfl⟩ ⟨_, rfl⟩⟩
    · rw [Machine.readWalk_crash w out _ hroot, Machine.readWalk_crash w out _ hroot]
      exact ⟨fun _ => Iff.rfl, Iff.rfl⟩
  · obtain ⟨message, he⟩ := requireCanonical_fails hw
    rw [Fallible.bind_of_error (he s), Fallible.bind_of_error (he t)]
    exact ⟨fun _ => Iff.rfl, Iff.rfl⟩

/-- An address with the same leaf translates as before and has the flags it had. -/
theorem readers_same (hm : s.paging = some m) (hm' : t.paging = some m) (hwf : m.WellFormed s.mem)
    (hwf' : m.WellFormed t.mem) (hl : m.leaf t.mem w = m.leaf s.mem w) :
    Machine.SameOutcome (Machine.translateAddress w) s t ∧ Machine.SameOutcome (Machine.getPageFlags w) s t :=
  ⟨readWith_same (Machine.leafAddress w) hm hm' hwf hwf' hl, readWith_same (fun _ e => e.flags) hm hm' hwf hwf' hl⟩

end Readers

end PagingManager
end Nafuraito.Memory
