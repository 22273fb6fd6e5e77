import Nafuraito.Memory.CowSteps
import Nafuraito.Memory.Footprint

/-! Runs of copy-on-write calls and writes: pages stay isolated where every share finds a
reference count that covers the source. -/
namespace Nafuraito.Memory
open Nafuraito.Library

inductive CowAction where
  | share (src dst : VirtAddr)
  | clone (srcStart dstStart : VirtAddr) (size : BitVec 64)
  | fault (v : VirtAddr)
  | unshare (v : VirtAddr)
  | write (v : VirtAddr) (change : (Fin 512 → BitVec 64) → Fin 512 → BitVec 64)

namespace CowAction
open Machine (clonePageCow)

def run : CowAction → Machine.Op Unit
  | share src dst => Machine.sharePageCow src dst
  | clone srcStart dstStart size => Machine.cloneRangeCow srcStart dstStart size
  | fault v => Machine.handleCowFault v
  | unshare v => Machine.unshareCowPage v
  | write v change => Machine.writePage v change

def pageCount (size : BitVec 64) : Nat := (size + 4095#64).toNat/4096

variable (m : PagingManager)

/-- The pages whose contents an action may change. -/
def touched : CowAction → Set m.Page
  | share _ dst => {m.pageOf dst}
  | clone _ dstStart size => {k | ∃ i < pageCount size, k = m.pageOf (dstStart.plus (i*4096))}
  | fault _ | unshare _ => ∅
  | write v _ => {m.pageOf v}

/-- The pages an action is given. -/
def pages : CowAction → Set m.Page
  | share src dst => {m.pageOf src, m.pageOf dst}
  | clone srcStart dstStart size => {k | ∃ i < pageCount size,
      k = m.pageOf (srcStart.plus (i*4096)) ∨ k = m.pageOf (dstStart.plus (i*4096))}
  | fault v | unshare v | write v _ => {m.pageOf v}

/-- Each share that the rounds of a clone come to is counted. -/
def CloneCounted (srcStart dstStart : VirtAddr) : Nat → Nat → Machine → Prop
  | _, 0, _ => True
  | i, n+1, s => PagingManager.ShareCounted (srcStart.plus (i*4096)) s ∧
    ∀ t, clonePageCow srcStart dstStart i s = (.ok (), t) → CloneCounted srcStart dstStart (i+1) n t

/-- The condition of an action on the state before it: shares are counted. -/
def Counted : CowAction → Machine → Prop
  | share src _, s => PagingManager.ShareCounted src s
  | clone srcStart dstStart size, s => CloneCounted srcStart dstStart 0 (pageCount size) s
  | _, _ => True

end CowAction

namespace PagingManager
variable {m : PagingManager} {P : Set m.Page} {s s₀ t : Machine} {v : VirtAddr}

/-- The machines reached from `s₀` by actions on the pages `P`, each returning anything, whose
shares all find a counted source. -/
inductive CowRun (m : PagingManager) (P : Set m.Page) (s₀ : Machine) : List CowAction → Machine → Prop where
  | start : CowRun m P s₀ [] s₀
  | step {as : List CowAction} {s : Machine} (a : CowAction) : CowRun m P s₀ as s → a.pages m ⊆ P →
      a.Counted s → CowRun m P s₀ (as ++ [a]) (a.run s).2

/-- A round leaves the machine as sharing its page does: that fails too where nothing is mapped. -/
theorem clonePageCow_snd (srcStart dstStart : VirtAddr) (i : Nat) (s : Machine) :
    (Machine.clonePageCow srcStart dstStart i s).2 =
      (Machine.sharePageCow (srcStart.plus (i*4096)) (dstStart.plus (i*4096)) s).2 := by
  have hsame := Machine.translateAddress_snd (srcStart.plus (i*4096)) s
  rw [Machine.clonePageCow, Machine.sharePageCow]
  rcases htr : Machine.translateAddress (srcStart.plus (i*4096)) s with ⟨er | phys, t⟩ <;>
    rw [htr] at hsame <;> obtain rfl : t = s := hsame
  · rw [Fallible.bind_of_error htr]
    rcases Machine.tryOk_error htr with hnone | hcrash
    · rw [Fallible.bind_of_ok hnone]
      rfl
    · rw [Fallible.bind_of_error hcrash]
  · rw [Fallible.bind_of_ok (Machine.tryOk_ok htr)]

private theorem clonePageCow_kept {srcStart dstStart : VirtAddr} {i : Nat} (h : m.DataPages P s)
    (ha : ∀ f, (m.sharing P s).Private f) (hsrc : m.pageOf (srcStart.plus (i*4096)) ∈ P)
    (hdst : m.pageOf (dstStart.plus (i*4096)) ∈ P) (hcounted : ShareCounted (srcStart.plus (i*4096)) s) :
    m.Kept P {m.pageOf (dstStart.plus (i*4096))} s (Machine.clonePageCow srcStart dstStart i s).2 := by
  rw [clonePageCow_snd]
  exact (sharePageCow_kept h ha hsrc hdst hcounted).1

private theorem cloneRounds_kept {srcStart dstStart : VirtAddr} {n i : Nat} (h : m.DataPages P s)
    (ha : ∀ f, (m.sharing P s).Private f)
    (hpages : ∀ j, i ≤ j → j < i+n → m.pageOf (srcStart.plus (j*4096)) ∈ P ∧ m.pageOf (dstStart.plus (j*4096)) ∈ P)
    (hcounted : CowAction.CloneCounted srcStart dstStart i n s) :
    m.Kept P {k | ∃ j, i ≤ j ∧ j < i+n ∧ k = m.pageOf (dstStart.plus (j*4096))} s
      (Fallible.forRange (Machine.clonePageCow srcStart dstStart) i n s).2 := by
  induction n generalizing i s with
  | zero => exact .refl h ha
  | succ n ih =>
    obtain ⟨hnow, hlater⟩ := hcounted
    obtain ⟨hsrc, hdst⟩ := hpages i (Nat.le_refl i) (by omega)
    have hone := clonePageCow_kept h ha hsrc hdst hnow
    have hsub : {m.pageOf (dstStart.plus (i*4096))} ⊆ {k | ∃ j, i ≤ j ∧ j < i+(n+1) ∧
        k = m.pageOf (dstStart.plus (j*4096))} := by
      rintro _ rfl
      exact ⟨i, Nat.le_refl i, by omega, rfl⟩
    rw [Fallible.forRange]
    refine Fallible.bind_snd (P := m.Kept P _ s) (hone.mono hsub) fun _ t hrun ht => ht.trans ?_ (Set.Subset.refl _)
    refine (ih ht.pages ht.alone (fun j hj hlt => hpages j (by omega) (by omega)) (hlater t hrun)).mono ?_
    rintro _ ⟨j, hj, hlt, rfl⟩
    exact ⟨j, by omega, by omega, rfl⟩

/-- One action: what is read changes through the pages it is meant for only. -/
theorem action_kept (h : m.DataPages P s) (ha : ∀ f, (m.sharing P s).Private f) (a : CowAction)
    (hpages : a.pages m ⊆ P) (hcounted : a.Counted s) : m.Kept P (a.touched m) s (a.run s).2 := by
  cases a with
  | share src dst => exact (sharePageCow_kept h ha (hpages (.inl rfl)) (hpages (.inr rfl)) hcounted).1
  | clone srcStart dstStart size =>
    refine (cloneRounds_kept h ha (fun j _ hj => ?_) hcounted).mono ?_
    · exact ⟨hpages ⟨j, by omega, .inl rfl⟩, hpages ⟨j, by omega, .inr rfl⟩⟩
    · rintro _ ⟨j, _, hj, rfl⟩
      exact ⟨j, by omega, rfl⟩
  | fault v => exact handleCowFault_kept h ha (hpages rfl)
  | unshare v => exact unshareCowPage_kept h ha (hpages rfl)
  | write v change => exact writePage_kept h ha (hpages rfl) change

theorem CowRun.kept {as : List CowAction} (hr : CowRun m P s as t) (h : m.DataPages P s)
    (ha : ∀ f, (m.sharing P s).Private f) : m.Kept P {k | ∃ a ∈ as, k ∈ a.touched m} s t := by
  induction hr with
  | start => exact .refl h ha
  | step a _ hpages hcounted ih =>
    refine (ih.mono ?_).trans ((action_kept ih.pages ih.alone a hpages hcounted).mono ?_) (Set.Subset.refl _)
    · rintro k ⟨b, hb, hk⟩
      exact ⟨b, List.mem_append_left _ hb, hk⟩
    · exact fun k hk => ⟨a, by simp, hk⟩

/-- Reading a data page gives its content. -/
theorem loadPage_iff (h : m.DataPages P s) (hv : m.pageOf v ∈ P) (words : Fin 512 → BitVec 64) :
    (Machine.loadPage v s).1 = .ok words ↔ m.rootTablePhys.toNat < 2^32 ∧ v.isCanonical m.mode = true ∧
      m.contentOf s (m.pageOf v) = some words := by
  rw [Machine.loadPage]
  rcases readers_run h.paging h.wellFormed (h.noHugeLeaf hv) with ⟨e, he, hroot, hcan, htr, -⟩ | ⟨hnone, ⟨er, htr⟩, -⟩
  · rw [Fallible.bind_of_ok htr, contentOf, frameOf_of_entry he, Fallible.get_bind_run, physToFrameIndex_leaf]
    simp only [Fallible.pure_run, Except.ok.injEq, hroot, hcan, Option.map_some, Option.some.injEq, true_and]
  · rw [Fallible.bind_of_error htr]
    constructor
    · intro h
      cases h
    · rintro ⟨hroot, hcan, hc⟩
      rw [contentOf, frameOf, hnone hroot hcan] at hc
      cases hc

/-- Before the page is mapped: frame 9 is used, and every frame is counted `count` times. -/
def unmappedMachine (count : BitVec 32) : Machine := { smallMachine with
  pmm := some { tenFrames with bitmap := fun i => if i = 0 then 0x03#8 else 0xFE#8, freeFrames := 7 }
  refcounts := fun _ => count }

/-- The page at 4 MiB is mapped to frame 9. -/
def cowMachine (count : BitVec 32) : Machine :=
  (Machine.mapPage ⟨0x400000#64⟩ ⟨0x9000#64⟩ ⟨3#64⟩ (unmappedMachine count)).2

/-- That page and the next one. -/
def twoPages : Set smallPaging.Page := {smallPaging.pageOf ⟨0x400000#64⟩, smallPaging.pageOf ⟨0x401000#64⟩}

theorem unmapped_entry (count : BitVec 32) (k : smallPaging.Page) :
    smallPaging.entryOf (unmappedMachine count).mem k = none :=
  TableTree.lookup_of_absent .root (PageTableEntry.kind_zero _)

theorem unmapped_table {count : BitVec 32} {l f : Nat} (h : smallPaging.Table (unmappedMachine count).mem l f) :
    f = 1 := (table_of_empty (fun _ _ => PageTableEntry.kind_zero _) h).2

theorem unmapped_pages (count : BitVec 32) : smallPaging.DataPages twoPages (unmappedMachine count) where
  paging := rfl
  wellFormed := wellFormed_of_empty fun _ _ => PageTableEntry.kind_zero _
  used l f hf := by
    rw [unmapped_table hf]
    exact PhysicalMemoryManager.not_free_iff.mpr (by decide)
  small k _ l e he := by
    rw [unmapped_entry] at he
    cases he
  data k _ f hf := by
    rw [frameOf, unmapped_entry] at hf
    cases hf
  bits f hf := Nat.lt_trans (PhysicalMemoryManager.freeIn_some.mp hf).1 (by decide)

private theorem cowMachine_pages (count : BitVec 32) (hok : (Machine.mapPage ⟨0x400000#64⟩ ⟨0x9000#64⟩ ⟨3#64⟩
      (unmappedMachine count)).1 = .ok ()) :
    smallPaging.DataPages twoPages (cowMachine count) ∧ smallPaging.frameOf (cowMachine count) =
      Function.update (fun _ => none) (smallPaging.pageOf ⟨0x400000#64⟩) (some 9) := by
  have h := unmapped_pages count
  have hpresent : (PageTableFlags.mk 3#64).raw.getLsbD 0 = true := by decide
  rcases mapPage_pages (v := ⟨0x400000#64⟩) (p := ⟨0x9000#64⟩) h.paging h.wellFormed h.used
    (h.noHugeLeaf (.inl rfl)) hpresent with ⟨t, hrun, hr⟩ | ⟨e, t, hrun, -⟩
  · have ht : cowMachine count = t := by rw [cowMachine, hrun]
    have hframe : (PageTableEntry.of (PhysAddr.mk 0x9000#64).addr ⟨3#64⟩).frame = 9 := by decide
    rw [ht]
    refine ⟨h.update hr ⟨fun l hl => ?_, PhysicalMemoryManager.not_free_iff.mpr ?_⟩, ?_⟩
    · have h1 := unmapped_table hl
      rw [hframe] at h1
      cases h1
    · rw [hframe]
      decide
    · rw [hr.frameOf_update, hframe]
      congr 1
      funext k
      rw [frameOf, unmapped_entry]
      rfl
  · rw [hrun] at hok
    cases hok

end PagingManager
end Nafuraito.Memory
