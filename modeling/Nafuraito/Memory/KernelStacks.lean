import Mathlib.Data.Set.Card
import Nafuraito.Memory.BootHierarchy
import Nafuraito.Memory.GuardPages

/-! Which kernel stacks are guarded on the tables of the bootloader: those past its 4 GiB of 2 MiB
pages. Below, the guard page lies in a mapped page and the stack's own pages are never mapped. -/
namespace Nafuraito.Memory
open Nafuraito.Library
open PhysicalMemoryManager (FreeIn takeTableFrame takeTableFrame_takes)

/-! ### The registry -/

namespace GuardRegistry
variable {r : GuardRegistry} {addr other : BitVec 64}

theorem isGuardPage_iff : r.isGuardPage addr = true ↔
    ∃ i : Fin MAX_GUARD_PAGES, i.val < r.count ∧ r.pages i = addr &&& ~~~offsetMask := by
  simp [isGuardPage]

theorem registerGuardPage_self (h : r.count < MAX_GUARD_PAGES) :
    (r.registerGuardPage addr).2.isGuardPage addr = true := by
  rw [registerGuardPage, dif_pos h, isGuardPage_iff]
  exact ⟨⟨r.count, h⟩, Nat.lt_succ_self _, Function.update_self ..⟩

theorem registerGuardPage_keeps (h : r.isGuardPage addr = true) :
    (r.registerGuardPage other).2.isGuardPage addr = true := by
  rw [registerGuardPage]
  split
  · rename_i hlt
    obtain ⟨i, hi, hpage⟩ := isGuardPage_iff.mp h
    refine isGuardPage_iff.mpr ⟨i, Nat.lt_succ_of_lt hi, ?_⟩
    have hne : i ≠ ⟨r.count, hlt⟩ := fun he => absurd (congrArg Fin.val he) (Nat.ne_of_lt hi)
    exact (Function.update_of_ne hne ..).trans hpage
  · exact h

end GuardRegistry

namespace Kernel
open Boot (Boots)
open PagingManager (Small)

/-- What a call returned, and the number of pages it was asked for. -/
structure KernelStack where
  top : BitVec 64
  pages : BitVec 64

namespace KernelStack

/-- The page directly below the stack. -/
def guard (st : KernelStack) : VirtAddr := ⟨st.top - (st.pages + 1) * 4096⟩

def page (st : KernelStack) (i : Nat) : VirtAddr := ⟨st.guard.addr + 4096 + BitVec.ofNat 64 (4096*i)⟩

end KernelStack

/-- Where the next slot starts. -/
def nextBase (k : Kernel) : BitVec 64 := KERNEL_STACK_AREA_BASE + k.nextStackOffset

/-- The slot ends below the half of the addresses that is not canonical; and fewer frames are free than
the stack has pages, or the slot lies past 4 GiB and the registry has a free entry. -/
def Guardable (stackPages : BitVec 64) (k : Kernel) : Prop :=
  k.nextBase.toNat + 4096*(stackPages.toNat+1) ≤ 0x800000000000 ∧
    ({f | FreeIn k.machine.pmm f}.ncard < stackPages.toNat ∨
      (0x100000000 ≤ k.nextBase.toNat ∧ k.guards.count < MAX_GUARD_PAGES))

/-- The kernels reached by guardable calls that return, with the stacks they returned. -/
inductive StackRun (k₀ : Kernel) : List KernelStack → Kernel → Prop where
  | start : StackRun k₀ [] k₀
  | failed {live : List KernelStack} {k k' : Kernel} {stackPages : BitVec 64} : StackRun k₀ live k →
      Guardable stackPages k → allocateKernelStack stackPages k = (.ok 0, k') → StackRun k₀ live k'
  | stack {live : List KernelStack} {k k' : Kernel} {stackPages top : BitVec 64} : StackRun k₀ live k →
      Guardable stackPages k → allocateKernelStack stackPages k = (.ok top, k') → top ≠ 0 →
      StackRun k₀ (⟨top, stackPages⟩ :: live) k'

variable {mode : PagingMode} {s t : Machine} {a b i n : Nat} {v : VirtAddr}

/-! ### One page -/

/-- Past 4 GiB nothing is mapped from `a` on, and before that the tables are still the loader's. -/
structure StackArea (mode : PagingMode) (a : Nat) (s : Machine) : Prop where
  boots : a < 0x100000000 → Boots mode s
  shows : (Boot.pagingManager mode).Shows s ((Boot.pagingManager mode).entryOf s.mem)
  fresh : ∀ v : VirtAddr, v.SignExtended mode → ¬ v.addr.toNat < 0x100000000 → a ≤ v.addr.toNat →
    (Boot.pagingManager mode).entryOf s.mem ((Boot.pagingManager mode).pageOf v) = none

/-- Frames were taken, and pages below the one of `a` kept their entries. -/
structure Later (mode : PagingMode) (a : Nat) (s t : Machine) : Prop where
  free : ∀ f, FreeIn t.pmm f → FreeIn s.pmm f
  entries : ∀ v : VirtAddr, v.SignExtended mode → ¬ v.addr.toNat < 0x100000000 → v.addr.toNat/4096 < a/4096 →
    (Boot.pagingManager mode).entryOf t.mem ((Boot.pagingManager mode).pageOf v) =
      (Boot.pagingManager mode).entryOf s.mem ((Boot.pagingManager mode).pageOf v)

theorem StackArea.of_boots (h : Boots mode s) : StackArea mode a s :=
  ⟨fun _ => h, h.shows, fun _ hv hhigh _ => h.entryOf_high hv hhigh⟩

theorem StackArea.mono (h : StackArea mode a s) (hab : a ≤ b) : StackArea mode b s :=
  ⟨fun hb => h.boots (by omega), h.shows, fun v hv hhigh hle => h.fresh v hv hhigh (by omega)⟩

theorem Later.refl : Later mode a s s := ⟨fun _ h => h, fun _ _ _ _ => rfl⟩

theorem Later.trans {u : Machine} (h : Later mode a s t) (h' : Later mode b t u) (hab : a ≤ b) : Later mode a s u where
  free f hf := h.free f (h'.free f hf)
  entries v hv hhigh hlt :=
    (h'.entries v hv hhigh (Nat.lt_of_lt_of_le hlt (Nat.div_le_div_right hab))).trans (h.entries v hv hhigh hlt)

theorem Later.of_boots (h : Boots mode s) (h' : Boots mode t) (hfree : ∀ f, FreeIn t.pmm f → FreeIn s.pmm f) :
    Later mode a s t :=
  ⟨hfree, fun _ hv hhigh _ => (h'.entryOf_high hv hhigh).trans (h.entryOf_high hv hhigh).symm⟩

/-- What a round leaves: the area past the page, and on success a frame that was free. -/
structure PageRun (mode : PagingMode) (a : Nat) (s : Machine) (r : Except Stop Bool × Machine) : Prop where
  area : StackArea mode (a+4096) r.2
  later : Later mode a s r.2
  backed : r.1 = .ok true → ∃ f, FreeIn s.pmm f ∧ ¬ FreeIn r.2.pmm f ∧ (¬ a < 0x100000000 →
    (Boot.pagingManager mode).frameOf r.2 ((Boot.pagingManager mode).pageOf ⟨BitVec.ofNat 64 a⟩) = some f)

theorem stackFlags_bits : PageTableEntry.FlagBits stackFlags ∧ stackFlags.raw.getLsbD 0 = true := by decide

/-- The frame the loop maps, from what the allocator gave. -/
theorem frame_of_taken {phys : Nat} (hmod : phys % 4096 = 0) (hlt : phys/4096 < 2^40) :
    (PageTableEntry.of (BitVec.ofNat 64 phys) stackFlags).frame = phys/4096 ∧
      (PhysAddr.mk (BitVec.ofNat 64 phys)).isAligned = true := by
  have hphys : (BitVec.ofNat 64 phys).toNat = phys := by
    rw [BitVec.toNat_ofNat]
    omega
  refine ⟨?_, ?_⟩
  · rw [PageTableEntry.frame, PageTableEntry.of_address (by omega) (by omega) stackFlags_bits.1, hphys]
  · rw [PhysAddr.isAligned_iff, hphys, hmod]

/-- In the tables of the loader the entry goes into a data frame, and nothing is mapped. -/
private theorem mapStackPage_low (h : Boots mode s) (hlow : a < 0x100000000)
    (hbits : ∀ f, FreeIn s.pmm f → f < 2^40) : PageRun mode a s (mapStackPage (BitVec.ofNat 64 a) s) ∧
      ((takeTableFrame s.pmm).1 ≠ 0 → (mapStackPage (BitVec.ofNat 64 a) s).1 = .ok true) := by
  have htakes := takeTableFrame_takes s.pmm
  have htaken : Boots mode { s with pmm := (takeTableFrame s.pmm).2 } :=
    ⟨h.paging, h.identity, fun f h₁ h₂ hf => h.used f h₁ h₂ (htakes.free f hf)⟩
  have halloc : allocStackFrame s = (.ok (takeTableFrame s.pmm).1, { s with pmm := (takeTableFrame s.pmm).2 }) := rfl
  rw [mapStackPage, Fallible.bind_of_ok halloc]
  by_cases hphys : (takeTableFrame s.pmm).1 = 0
  · rw [if_pos hphys]
    exact ⟨⟨.of_boots htaken, .of_boots h htaken htakes.free, fun hok => by cases hok⟩, fun hne => absurd hphys hne⟩
  · rw [if_neg hphys]
    obtain ⟨hmod, hfree, hused⟩ := htakes.taken hphys
    have haddr : (VirtAddr.mk (BitVec.ofNat 64 a)).addr.toNat = a := Nat.mod_eq_of_lt (by omega)
    have hmap := htaken.mapPage_low (v := ⟨BitVec.ofNat 64 a⟩) (by rw [haddr]; exact hlow)
      (frame_of_taken hmod (hbits _ hfree)).2 stackFlags
    have hmapped := Machine.tryOk_ok hmap
    have hdone := htaken.setWord ((VirtAddr.mk (BitVec.ofNat 64 a)).addr.toNat/2^21)
      ((VirtAddr.mk (BitVec.ofNat 64 a)).index 0)
      (PageTableEntry.of (BitVec.ofNat 64 (takeTableFrame s.pmm).1) stackFlags).raw
    rw [Fallible.bind_of_ok hmapped]
    exact ⟨⟨.of_boots ⟨hdone.paging, hdone.identity, hdone.used⟩,
      .of_boots h ⟨hdone.paging, hdone.identity, hdone.used⟩ htakes.free,
      fun _ => ⟨_, hfree, hused, fun hhigh => absurd hlow hhigh⟩⟩, fun _ => rfl⟩

theorem signExtended_of_lt {v : VirtAddr} {mode : PagingMode} (h : v.addr.toNat < 0x800000000000) :
    v.SignExtended mode := by
  cases mode <;> simp only [VirtAddr.SignExtended] <;> omega

/-- Past 4 GiB the page gets an entry of its own. -/
private theorem mapStackPage_high (h : StackArea mode a s) (hhigh : ¬ a < 0x100000000) (hlt : a < 0x800000000000)
    (hbits : ∀ f, FreeIn s.pmm f → f < 2^40) : PageRun mode a s (mapStackPage (BitVec.ofNat 64 a) s) := by
  have htakes := takeTableFrame_takes s.pmm
  have hshows := h.shows.taken htakes.free
  have haddr : (VirtAddr.mk (BitVec.ofNat 64 a)).addr.toNat = a := Nat.mod_eq_of_lt (by omega)
  have hv : (VirtAddr.mk (BitVec.ofNat 64 a)).SignExtended mode := signExtended_of_lt (by rwa [haddr])
  have hnone := h.fresh _ hv (by rwa [haddr]) (Nat.le_of_eq haddr.symm)
  have hsmall : Small ((Boot.pagingManager mode).entryOf s.mem)
      ((Boot.pagingManager mode).pageOf ⟨BitVec.ofNat 64 a⟩) := by
    intro l e he
    rw [hnone] at he
    cases he
  have hother {w : VirtAddr} (hw : w.SignExtended mode) (hne : w.addr.toNat/4096 ≠ a/4096) :
      (Boot.pagingManager mode).pageOf w ≠ (Boot.pagingManager mode).pageOf ⟨BitVec.ofNat 64 a⟩ := by
    intro he
    refine hne ((hw.page_eq hv fun k hk => ?_).trans (by rw [haddr]))
    exact congrFun he ⟨k, Nat.lt_succ_of_le hk⟩
  have hsame {u : Machine} (hu : (Boot.pagingManager mode).Shows u ((Boot.pagingManager mode).entryOf s.mem))
      (hfree : ∀ f, FreeIn u.pmm f → FreeIn s.pmm f) : StackArea mode (a+4096) u ∧ Later mode a s u := by
    refine ⟨⟨fun hlow => absurd hlow (by omega), ⟨hu.paging, hu.wellFormed, hu.used, rfl⟩, fun w hw hwhigh hle => ?_⟩,
      hfree, fun w hw hwhigh hwlt => by rw [hu.entries]⟩
    rw [hu.entries]
    exact h.fresh w hw hwhigh (by omega)
  have halloc : allocStackFrame s = (.ok (takeTableFrame s.pmm).1, { s with pmm := (takeTableFrame s.pmm).2 }) := rfl
  rw [mapStackPage, Fallible.bind_of_ok halloc]
  by_cases hphys : (takeTableFrame s.pmm).1 = 0
  · rw [if_pos hphys]
    obtain ⟨harea, hlater⟩ := hsame hshows htakes.free
    exact ⟨harea, hlater, fun hok => by cases hok⟩
  · rw [if_neg hphys]
    obtain ⟨hmod, hfree, hused⟩ := htakes.taken hphys
    rcases hshows.mapPage hsmall (p := ⟨BitVec.ofNat 64 (takeTableFrame s.pmm).1⟩) stackFlags_bits.2 with
      ⟨t, hrun, hfewer, ht⟩ | ⟨er, t, hrun, hfewer, ht⟩
    · rw [Fallible.bind_of_ok (Machine.tryOk_ok hrun)]
      refine ⟨⟨fun hlow => absurd hlow (by omega), ⟨ht.paging, ht.wellFormed, ht.used, rfl⟩, fun w hw hwhigh hle => ?_⟩,
        ⟨fun f hf => htakes.free f (hfewer f hf), fun w hw hwhigh hwlt => ?_⟩,
        fun _ => ⟨_, hfree, fun hf => hused (hfewer _ hf), fun _ => ?_⟩⟩
      · change (Boot.pagingManager mode).entryOf t.mem _ = none
        rw [ht.entries, Function.update_of_ne (hother hw (by omega))]
        exact h.fresh w hw hwhigh (by omega)
      · change (Boot.pagingManager mode).entryOf t.mem _ = _
        rw [ht.entries, Function.update_of_ne (hother hw (by omega))]
      · change (Boot.pagingManager mode).frameOf t _ = _
        rw [PagingManager.frameOf, ht.entries, Function.update_self]
        exact congrArg some (frame_of_taken hmod (hbits _ hfree)).1
    · obtain ⟨harea, hlater⟩ := hsame ht fun f hf => htakes.free f (hfewer f hf)
      rcases Machine.tryOk_error hrun with htry | htry
      · rw [Fallible.bind_of_ok htry]
        exact ⟨harea, hlater, fun hok => by cases hok⟩
      · rw [Fallible.bind_of_error htry]
        exact ⟨harea, hlater, fun hok => by cases hok⟩

/-- Either way. -/
theorem mapStackPage_run (h : StackArea mode a s) (hlt : a < 0x800000000000) (hbits : ∀ f, FreeIn s.pmm f → f < 2^40) :
    PageRun mode a s (mapStackPage (BitVec.ofNat 64 a) s) := by
  by_cases hlow : a < 0x100000000
  · exact (mapStackPage_low (h.boots hlow) hlow hbits).1
  · exact mapStackPage_high h hlow hlt hbits

/-! ### The loop -/

/-- What the loop leaves: the area past its pages, and on success a frame for each. -/
structure PagesRun (mode : PagingMode) (base i n : Nat) (s : Machine) (r : Except Stop Bool × Machine) : Prop where
  area : StackArea mode (base+4096*(i+n+1)) r.2
  later : Later mode (base+4096*(i+1)) s r.2
  backed : r.1 = .ok true → ∃ frame : Nat → Nat, (∀ j, i ≤ j → j < i+n →
    FreeIn s.pmm (frame j) ∧ ¬ FreeIn r.2.pmm (frame j) ∧ (¬ base < 0x100000000 → (Boot.pagingManager mode).frameOf r.2
      ((Boot.pagingManager mode).pageOf ⟨BitVec.ofNat 64 (base+4096*(j+1))⟩) = some (frame j))) ∧
    ∀ j j', i ≤ j → j < j' → j' < i+n → frame j ≠ frame j'

theorem stackPage_eq (base : BitVec 64) (i : Nat) :
    base + 4096 + BitVec.ofNat 64 (4096*i) = BitVec.ofNat 64 (base.toNat+4096*(i+1)) := by
  refine BitVec.eq_of_toNat_eq ?_
  have h : (4096 : BitVec 64).toNat = 4096 := rfl
  rw [BitVec.toNat_add, BitVec.toNat_add, BitVec.toNat_ofNat, BitVec.toNat_ofNat, h]
  omega

theorem frameOf_later (h : Later mode b s t) (hhigh : ¬ a < 0x100000000) (hlt : a < 0x800000000000)
    (hab : a/4096 < b/4096) :
    (Boot.pagingManager mode).frameOf t ((Boot.pagingManager mode).pageOf ⟨BitVec.ofNat 64 a⟩) =
      (Boot.pagingManager mode).frameOf s ((Boot.pagingManager mode).pageOf ⟨BitVec.ofNat 64 a⟩) := by
  have haddr : (VirtAddr.mk (BitVec.ofNat 64 a)).addr.toNat = a := Nat.mod_eq_of_lt (by omega)
  have hv : (VirtAddr.mk (BitVec.ofNat 64 a)).SignExtended mode := signExtended_of_lt (by rwa [haddr])
  rw [PagingManager.frameOf, PagingManager.frameOf, h.entries _ hv (by rwa [haddr]) (by rwa [haddr])]

private theorem pageEnd_le (base i n : Nat) : base+4096*(i+1)+4096 ≤ base+4096*(i+(n+1)+1) := by omega

private theorem pageStart_le (base i : Nat) : base+4096*(i+1) ≤ base+4096*(i+1+1) := by omega

theorem mapStackPages_run {base : BitVec 64} (h : StackArea mode (base.toNat+4096*(i+1)) s)
    (hlt : base.toNat+4096*(i+n+1) ≤ 0x800000000000) (hbits : ∀ f, FreeIn s.pmm f → f < 2^40) :
    PagesRun mode base.toNat i n s (mapStackPages base i n s) := by
  induction n generalizing i s with
  | zero =>
    refine ⟨h, .refl, fun _ => ⟨fun _ => 0, fun j hj hlt => absurd hlt (by omega), fun j j' hj hlt hlt' => ?_⟩⟩
    exact absurd hlt' (by omega)
  | succ n ih =>
    have hone := mapStackPage_run h (by omega) hbits
    have hlast : i+1+n = i+(n+1) := by omega
    rw [mapStackPages, stackPage_eq]
    rcases hrun : mapStackPage (BitVec.ofNat 64 (base.toNat+4096*(i+1))) s with ⟨er | _ | _, t⟩ <;> rw [hrun] at hone
    · rw [Fallible.bind_of_error hrun]
      exact ⟨hone.area.mono (pageEnd_le _ _ _), hone.later, fun hok => by cases hok⟩
    · rw [Fallible.bind_of_ok hrun]
      exact ⟨hone.area.mono (pageEnd_le _ _ _), hone.later, fun hok => by cases hok⟩
    · rw [Fallible.bind_of_ok hrun]
      have harea := hone.area
      rw [Nat.add_assoc, ← Nat.mul_succ] at harea
      obtain ⟨harea', hlater', hbacked⟩ := ih harea (hlast ▸ hlt) fun f hf => hbits f (hone.later.free f hf)
      obtain ⟨f, hfree, hused, hmapped⟩ := hone.backed rfl
      refine ⟨by rwa [← hlast], hone.later.trans hlater' (pageStart_le _ _), fun hok => ?_⟩
      obtain ⟨frame, hframe, hinj⟩ := hbacked hok
      refine ⟨Function.update frame i f, fun j hj hjlt => ?_, fun j j' hj hjlt hjlt' => ?_⟩
      · rcases Nat.eq_or_lt_of_le hj with rfl | hlt
        · rw [Function.update_self]
          refine ⟨hfree, fun hf => hused (hlater'.free f hf), fun hhigh => ?_⟩
          exact (frameOf_later hlater' (by omega) (by omega) (by omega)).trans (hmapped (by omega))
        · rw [Function.update_of_ne (by omega)]
          obtain ⟨h₁, h₂, h₃⟩ := hframe j (by omega) (by omega)
          exact ⟨hone.later.free _ h₁, h₂, h₃⟩
      · rw [Function.update_of_ne (by omega : j' ≠ i)]
        obtain ⟨hfree', -⟩ := hframe j' (by omega) (by omega)
        rcases Nat.eq_or_lt_of_le hj with rfl | hlt
        · rw [Function.update_self]
          rintro rfl
          exact hused hfree'
        · rw [Function.update_of_ne (by omega)]
          exact hinj j j' (by omega) hjlt (by omega)

/-- A loop that finds a frame for each page had that many. -/
theorem le_free_frames {p : Option PhysicalMemoryManager} {frame : Nat → Nat} (hfree : ∀ j < n, FreeIn p (frame j))
    (hinj : ∀ j j', j < j' → j' < n → frame j ≠ frame j') : n ≤ {f | FreeIn p f}.ncard := by
  have hfinite : {f | FreeIn p f}.Finite :=
    (Set.finite_Iio (2^52)).subset fun f hf => PhysicalMemoryManager.freeIn_lt hf
  have hcard : (Finset.range n : Set Nat).ncard = n := by rw [Set.ncard_coe_finset, Finset.card_range]
  have hon : Set.InjOn frame (Finset.range n : Set Nat) := by
    intro j hj j' hj' he
    have hj : j < n := Finset.mem_range.mp hj
    have hj' : j' < n := Finset.mem_range.mp hj'
    rcases Nat.lt_trichotomy j j' with h | h | h
    · exact absurd he (hinj j j' h hj')
    · exact h
    · exact absurd he.symm (hinj j' j h hj)
  rw [← hcard, ← hon.ncard_image]
  refine Set.ncard_le_ncard ?_ hfinite
  rintro _ ⟨j, hj, rfl⟩
  exact hfree j (Finset.mem_range.mp hj)

/-! ### A call -/

variable {k k' k₀ : Kernel} {stackPages top : BitVec 64}

theorem slotSize_toNat (h : 4096*(stackPages.toNat+1) ≤ 0x800000000000) :
    ((stackPages + 1) * 4096).toNat = 4096*(stackPages.toNat+1) := by
  have h₁ : (1 : BitVec 64).toNat = 1 := rfl
  have h₂ : (4096 : BitVec 64).toNat = 4096 := rfl
  rw [BitVec.toNat_mul, BitVec.toNat_add, h₁, h₂]
  omega

/-- What a call that returns leaves; if it returns a stack, its slot lies past 4 GiB, its guard page is
registered, and each page has a frame that was free. -/
structure CallRun (mode : PagingMode) (stackPages : BitVec 64) (k : Kernel) (top : BitVec 64) (k' : Kernel) :
    Prop where
  area : StackArea mode k'.nextBase.toNat k'.machine
  later : Later mode (k.nextBase.toNat+4096) k.machine k'.machine
  guards : k'.guards = (k.guards.registerGuardPage k.nextBase).2
  next : k'.nextBase.toNat = k.nextBase.toNat+4096*(stackPages.toNat+1)
  stack : top ≠ 0 → top = k.nextBase + (stackPages + 1) * 4096 ∧ ¬ k.nextBase.toNat < 0x100000000 ∧
    k.guards.count < MAX_GUARD_PAGES ∧ ∃ frame : Nat → Nat, (∀ j < stackPages.toNat,
      FreeIn k.machine.pmm (frame j) ∧ ¬ FreeIn k'.machine.pmm (frame j) ∧
      (Boot.pagingManager mode).frameOf k'.machine ((Boot.pagingManager mode).pageOf
        ⟨BitVec.ofNat 64 (k.nextBase.toNat+4096*(j+1))⟩) = some (frame j)) ∧
      ∀ j j', j < j' → j' < stackPages.toNat → frame j ≠ frame j'

theorem nextBase_eq (k : Kernel) : KERNEL_STACK_AREA_BASE + k.nextStackOffset = k.nextBase := rfl

/-- The loop decides what is returned, and leaves the machine. -/
theorem allocateKernelStack_eq (stackPages : BitVec 64) (k : Kernel) : allocateKernelStack stackPages k =
    ((mapStackPages k.nextBase 0 stackPages.toNat k.machine).1.map fun mapped =>
      if mapped then k.nextBase + (stackPages + 1) * 4096 else 0,
    ⟨(mapStackPages k.nextBase 0 stackPages.toNat k.machine).2, (k.guards.registerGuardPage k.nextBase).2,
      k.nextStackOffset + (stackPages + 1) * 4096⟩) := by
  simp only [allocateKernelStack, onMachine, Fallible.zoom, nextBase_eq]
  rcases mapStackPages k.nextBase 0 stackPages.toNat k.machine with ⟨er | _ | _, t⟩ <;> rfl

theorem allocateKernelStack_mapped (h : (mapStackPages k.nextBase 0 stackPages.toNat k.machine).1 = .ok true) :
    allocateKernelStack stackPages k =
      (.ok (k.nextBase + (stackPages + 1) * 4096), (allocateKernelStack stackPages k).2) := by
  rw [allocateKernelStack_eq, h]
  rfl

theorem allocateKernelStack_failed (h : (mapStackPages k.nextBase 0 stackPages.toNat k.machine).1 = .ok false) :
    allocateKernelStack stackPages k = (.ok 0, (allocateKernelStack stackPages k).2) := by
  rw [allocateKernelStack_eq, h]
  rfl

theorem allocateKernelStack_nextBase (stackPages : BitVec 64) (k : Kernel) :
    (allocateKernelStack stackPages k).2.nextBase = k.nextBase + (stackPages + 1) * 4096 := by
  rw [allocateKernelStack_eq]
  exact (BitVec.add_assoc ..).symm

theorem allocateKernelStack_guards (stackPages : BitVec 64) (k : Kernel) :
    (allocateKernelStack stackPages k).2.guards = (k.guards.registerGuardPage k.nextBase).2 := by
  rw [allocateKernelStack_eq]

theorem allocateKernelStack_run (h : StackArea mode k.nextBase.toNat k.machine) (hg : Guardable stackPages k)
    (hbits : ∀ f, FreeIn k.machine.pmm f → f < 2^40) (hrun : allocateKernelStack stackPages k = (.ok top, k')) :
    CallRun mode stackPages k top k' := by
  obtain ⟨hend, hroom⟩ := hg
  have hslot : ((stackPages + 1) * 4096).toNat = 4096*(stackPages.toNat+1) :=
    slotSize_toNat (Nat.le_trans (Nat.le_add_left ..) hend)
  have hstart : k.nextBase.toNat ≤ k.nextBase.toNat+4096*(0+1) := Nat.le_add_right ..
  have hend' : k.nextBase.toNat+4096*(0+stackPages.toNat+1) ≤ 0x800000000000 := by rwa [Nat.zero_add]
  obtain ⟨harea, hlater, hbacked⟩ := mapStackPages_run (h.mono hstart) hend' hbits
  have hnext : (KERNEL_STACK_AREA_BASE + (k.nextStackOffset + (stackPages + 1) * 4096)).toNat =
      k.nextBase.toNat+4096*(stackPages.toNat+1) := by
    rw [← BitVec.add_assoc, BitVec.toNat_add, hslot]
    exact Nat.mod_eq_of_lt (Nat.lt_of_le_of_lt hend (by decide))
  rw [Nat.zero_add, ← hnext] at harea
  rw [allocateKernelStack_eq] at hrun
  rcases hr : mapStackPages k.nextBase 0 stackPages.toNat k.machine with ⟨er | _ | _, t⟩ <;>
    rw [hr] at harea hlater hbacked hrun <;> cases hrun
  · exact ⟨harea, hlater, rfl, hnext, fun hne => absurd rfl hne⟩
  · obtain ⟨frame, hframe, hinj⟩ := hbacked rfl
    have hpages : stackPages.toNat ≤ {f | FreeIn k.machine.pmm f}.ncard :=
      le_free_frames (fun j hj => (hframe j (Nat.zero_le j) (by omega)).1) fun j j' hlt hlt' =>
        hinj j j' (Nat.zero_le j) hlt (by omega)
    obtain ⟨hhigh, hcount⟩ := hroom.resolve_left (Nat.not_lt.mpr hpages)
    have hbase : ¬ k.nextBase.toNat < 0x100000000 := Nat.not_lt.mpr hhigh
    refine ⟨harea, hlater, rfl, hnext, fun _ => ⟨rfl, hbase, hcount, frame, fun j hj => ?_, fun j j' hlt hlt' => ?_⟩⟩
    · obtain ⟨h₁, h₂, h₃⟩ := hframe j (Nat.zero_le j) (by omega)
      exact ⟨h₁, h₂, h₃ hbase⟩
    · exact hinj j j' (Nat.zero_le j) hlt (by omega)

/-! ### Runs -/

/-- What holds of the stacks a run has returned. -/
structure Guarded (mode : PagingMode) (k₀ k : Kernel) (live : List KernelStack) : Prop where
  area : StackArea mode k.nextBase.toNat k.machine
  free : ∀ f, FreeIn k.machine.pmm f → FreeIn k₀.machine.pmm f
  slots : ∀ st ∈ live, ¬ st.guard.addr.toNat < 0x100000000 ∧
    st.guard.addr.toNat+4096*(st.pages.toNat+1) ≤ k.nextBase.toNat ∧
    st.guard.addr.toNat+4096*(st.pages.toNat+1) ≤ 0x800000000000
  registered : ∀ st ∈ live, k.guards.isGuardPage st.guard.addr = true
  unmapped : ∀ st ∈ live,
    (Boot.pagingManager mode).entryOf k.machine.mem ((Boot.pagingManager mode).pageOf st.guard) = none
  backed : ∀ st ∈ live, ∀ j < st.pages.toNat, ∃ f,
    (Boot.pagingManager mode).frameOf k.machine ((Boot.pagingManager mode).pageOf (st.page j)) = some f ∧
      FreeIn k₀.machine.pmm f ∧ ¬ FreeIn k.machine.pmm f
  distinct : (live.map KernelStack.guard).Nodup
  apart : ∀ st ∈ live, ∀ st' ∈ live, ∀ j < st.pages.toNat, ∀ j' < st'.pages.toNat,
    (Boot.pagingManager mode).frameOf k.machine ((Boot.pagingManager mode).pageOf (st.page j)) =
      (Boot.pagingManager mode).frameOf k.machine ((Boot.pagingManager mode).pageOf (st'.page j')) → st = st' ∧ j = j'

theorem KernelStack.page_eq (st : KernelStack) (j : Nat) :
    st.page j = ⟨BitVec.ofNat 64 (st.guard.addr.toNat+4096*(j+1))⟩ := by
  rw [KernelStack.page, stackPage_eq]

variable {live : List KernelStack} {st : KernelStack}

private theorem pageInSlot (a : Nat) {j n : Nat} (hj : j < n) : a+4096*(j+1)+4096 ≤ a+4096*(n+1) := by omega

/-- The pages of a stack keep their frames. -/
private theorem Guarded.frameOf (h : Guarded mode k₀ k live) (hc : CallRun mode stackPages k top k') (hst : st ∈ live)
    {j : Nat} (hj : j < st.pages.toNat) :
    (Boot.pagingManager mode).frameOf k'.machine ((Boot.pagingManager mode).pageOf (st.page j)) =
      (Boot.pagingManager mode).frameOf k.machine ((Boot.pagingManager mode).pageOf (st.page j)) := by
  obtain ⟨hhigh, hbelow, hend⟩ := h.slots st hst
  have hpage := pageInSlot st.guard.addr.toNat hj
  rw [st.page_eq]
  exact frameOf_later hc.later (by omega) (by omega) (by omega)

/-- Whatever a call returns, the stacks before it stay guarded. -/
private theorem Guarded.call (h : Guarded mode k₀ k live) (hc : CallRun mode stackPages k top k') :
    Guarded mode k₀ k' live where
  area := hc.area
  free f hf := h.free f (hc.later.free f hf)
  slots st hst := by
    obtain ⟨hhigh, hbelow, hend⟩ := h.slots st hst
    exact ⟨hhigh, hbelow.trans (hc.next ▸ Nat.le_add_right ..), hend⟩
  registered st hst := by
    rw [hc.guards]
    exact GuardRegistry.registerGuardPage_keeps (h.registered st hst)
  unmapped st hst := by
    obtain ⟨hhigh, hbelow, hend⟩ := h.slots st hst
    have hlt : st.guard.addr.toNat < 0x800000000000 := Nat.lt_of_lt_of_le (by omega) hend
    rw [hc.later.entries _ (signExtended_of_lt hlt) hhigh (by omega)]
    exact h.unmapped st hst
  backed st hst j hj := by
    obtain ⟨f, hf, hfree, hused⟩ := h.backed st hst j hj
    exact ⟨f, (h.frameOf hc hst hj).trans hf, hfree, fun hf => hused (hc.later.free f hf)⟩
  distinct := h.distinct
  apart st hst st' hst' j hj j' hj' he := by
    rw [h.frameOf hc hst hj, h.frameOf hc hst' hj'] at he
    exact h.apart st hst st' hst' j hj j' hj' he

/-- And a stack it returns is guarded too. -/
private theorem Guarded.add (h : Guarded mode k₀ k live) (hc : CallRun mode stackPages k top k') (hne : top ≠ 0)
    (hend : k.nextBase.toNat+4096*(stackPages.toNat+1) ≤ 0x800000000000) :
    Guarded mode k₀ k' (⟨top, stackPages⟩ :: live) := by
  have hold := h.call hc
  obtain ⟨rfl, hhigh, hcount, frame, hframe, hinj⟩ := hc.stack hne
  have hguard : (KernelStack.mk (k.nextBase + (stackPages + 1) * 4096) stackPages).guard = ⟨k.nextBase⟩ :=
    congrArg VirtAddr.mk (BitVec.add_sub_cancel _ _)
  have hpage (j : Nat) : (KernelStack.mk (k.nextBase + (stackPages + 1) * 4096) stackPages).page j =
      ⟨BitVec.ofNat 64 (k.nextBase.toNat+4096*(j+1))⟩ := by
    rw [KernelStack.page_eq, hguard]
  have hslot : k.nextBase.toNat < k.nextBase.toNat+4096*(stackPages.toNat+1) := by omega
  have hlt : (VirtAddr.mk k.nextBase).addr.toNat < 0x800000000000 := Nat.lt_of_lt_of_le hslot hend
  -- a new frame was free, one of an older stack was not
  have hother {st' : KernelStack} (hst' : st' ∈ live) {j j' : Nat} (hj : j < stackPages.toNat)
      (hj' : j' < st'.pages.toNat) :
      (Boot.pagingManager mode).frameOf k'.machine ((Boot.pagingManager mode).pageOf (st'.page j')) ≠
        some (frame j) := by
    intro he
    obtain ⟨f, hf, -, hused⟩ := h.backed st' hst' j' hj'
    rw [h.frameOf hc hst' hj', hf] at he
    exact hused (Option.some.inj he ▸ (hframe j hj).1)
  refine ⟨hc.area, hold.free, ?_, ?_, ?_, ?_, ?_, ?_⟩
  · rintro st (_ | ⟨_, hst⟩)
    · rw [hguard]
      exact ⟨hhigh, Nat.le_of_eq hc.next.symm, hend⟩
    · exact hold.slots st hst
  · rintro st (_ | ⟨_, hst⟩)
    · rw [hguard, hc.guards]
      exact GuardRegistry.registerGuardPage_self hcount
    · exact hold.registered st hst
  · rintro st (_ | ⟨_, hst⟩)
    · rw [hguard, hc.later.entries _ (signExtended_of_lt hlt) hhigh (by dsimp only; omega)]
      exact h.area.fresh _ (signExtended_of_lt hlt) hhigh (Nat.le_refl _)
    · exact hold.unmapped st hst
  · rintro st (_ | ⟨_, hst⟩) j hj
    · obtain ⟨h₁, h₂, h₃⟩ := hframe j hj
      exact ⟨frame j, by rw [hpage, h₃], h.free _ h₁, h₂⟩
    · exact hold.backed st hst j hj
  · rw [List.map_cons, List.nodup_cons, hguard]
    refine ⟨fun hmem => ?_, h.distinct⟩
    obtain ⟨st, hst, he⟩ := List.mem_map.mp hmem
    have hbelow := (h.slots st hst).2.1
    rw [he] at hbelow
    dsimp only at hbelow
    omega
  · rintro st (_ | ⟨_, hst⟩) st' (_ | ⟨_, hst'⟩) j hj j' hj' he
    · refine ⟨rfl, ?_⟩
      rw [hpage, hpage, (hframe j hj).2.2, (hframe j' hj').2.2] at he
      have he := Option.some.inj he
      rcases Nat.lt_trichotomy j j' with hjj | hjj | hjj
      · exact absurd he (hinj j j' hjj hj')
      · exact hjj
      · exact absurd he.symm (hinj j' j hjj hj)
    · rw [hpage, (hframe j hj).2.2] at he
      exact absurd he.symm (hother hst' hj hj')
    · rw [hpage, (hframe j' hj').2.2] at he
      exact absurd he (hother hst hj' hj)
    · exact hold.apart st hst st' hst' j hj j' hj' he

theorem StackRun.guarded (hr : StackRun k₀ live k) (h : Boots mode k₀.machine)
    (hbits : ∀ f, FreeIn k₀.machine.pmm f → f < 2^40) : Guarded mode k₀ k live := by
  induction hr with
  | start => exact ⟨.of_boots h, fun _ hf => hf, nofun, nofun, nofun, nofun, .nil, nofun⟩
  | failed _ hg hrun ih =>
    exact ih.call (allocateKernelStack_run ih.area hg (fun f hf => hbits f (ih.free f hf)) hrun)
  | stack _ hg hrun hne ih =>
    exact ih.add (allocateKernelStack_run ih.area hg (fun f hf => hbits f (ih.free f hf)) hrun) hne hg.1

/-- On the tables of the bootloader, every stack a run of guardable calls returns keeps a guard page
that is registered and not mapped, and its pages have frames of their own, taken from the allocator. -/
theorem stackRun_guarded (mode : PagingMode) (c : Boot.Cpu) (hm : k₀.machine.paging = some (Boot.pagingManager mode))
    (hmem : ∀ f, 0x10 ≤ f → f < 0x10 + Boot.tableCount mode → k₀.machine.mem f = (Boot.setupPaging mode c).frames f)
    (hused : ∀ f, 0x10 ≤ f → f < 0x10 + Boot.tableCount mode → ¬ FreeIn k₀.machine.pmm f)
    (hbits : ∀ f, FreeIn k₀.machine.pmm f → f < 2^40) (hr : StackRun k₀ live k) :
    (∀ st ∈ live, k.guards.isGuardPage st.guard.addr = true ∧
      ∃ message, Machine.translateAddress st.guard k.machine = (.error (.err message), k.machine)) ∧
    (∀ st ∈ live, ∀ j < st.pages.toNat, ∃ f,
      (Boot.pagingManager mode).frameOf k.machine ((Boot.pagingManager mode).pageOf (st.page j)) = some f ∧
        FreeIn k₀.machine.pmm f ∧ ¬ FreeIn k.machine.pmm f) ∧
    (live.map KernelStack.guard).Nodup ∧
    ∀ st ∈ live, ∀ st' ∈ live, ∀ j < st.pages.toNat, ∀ j' < st'.pages.toNat,
      (Boot.pagingManager mode).frameOf k.machine ((Boot.pagingManager mode).pageOf (st.page j)) =
        (Boot.pagingManager mode).frameOf k.machine ((Boot.pagingManager mode).pageOf (st'.page j')) →
      st = st' ∧ j = j' := by
  have h := hr.guarded ⟨hm, (Boot.setupPaging_identity mode c).of_same hmem, hused⟩ hbits
  refine ⟨fun st hst => ⟨h.registered st hst, ?_⟩, h.backed, h.distinct, h.apart⟩
  obtain ⟨-, -, hend⟩ := h.slots st hst
  have hlt : st.guard.addr.toNat < 0x800000000000 := Nat.lt_of_lt_of_le (by omega) hend
  have hshows := h.area.shows
  have hnone := h.unmapped st hst
  rw [← PagingManager.leaf_eq_entryOf] at hnone
  rcases hshows.wellFormed.translate_run hshows.paging (by cases mode <;> decide)
    (signExtended_of_lt hlt).canonical with ⟨l, e, he, -⟩ | ⟨-, herr⟩
  · rw [hnone] at he
    cases he
  · exact herr

/-! ### The stacks from 32 MiB on -/

/-- A slot that ends below 4 GiB changes no table: its guard page stays in a 2 MiB page. -/
theorem lowStack_unguarded (h : Boots mode k.machine) (hlow : k.nextBase.toNat+4096*(stackPages.toNat+1) < 0x100000000)
    (hbits : ∀ f, FreeIn k.machine.pmm f → f < 2^40) (hrun : allocateKernelStack stackPages k = (.ok top, k')) :
    Machine.translateAddress ⟨k.nextBase⟩ k'.machine = (.ok ⟨k.nextBase⟩, k'.machine) := by
  have hend : k.nextBase.toNat+4096*(0+stackPages.toNat+1) < 0x100000000 := by rwa [Nat.zero_add]
  have hboots := (mapStackPages_run (.of_boots h) (Nat.le_trans (Nat.le_of_lt hend) (by decide)) hbits).area.boots hend
  have hbase : k.nextBase.toNat < 0x100000000 := Nat.lt_of_le_of_lt (Nat.le_add_right ..) hlow
  rw [allocateKernelStack_eq] at hrun
  have hmachine : k'.machine = (mapStackPages k.nextBase 0 stackPages.toNat k.machine).2 :=
    congrArg (fun r => r.2.machine) hrun.symm
  rw [hmachine]
  exact (hboots.identity.translateAddress_run hboots.paging ⟨k.nextBase⟩).1 hbase

/-- The kernel on the identity tables, before the first stack. -/
def bootKernel (pmm : Option PhysicalMemoryManager) : Kernel :=
  ⟨{ Boot.afterBoot .fourLevel with pmm := pmm }, .empty, 0⟩

private theorem bootKernel_boots {pmm : Option PhysicalMemoryManager} (h : ∀ f, FreeIn pmm f → f < 0x10) :
    Boots .fourLevel (bootKernel pmm).machine :=
  ⟨rfl, Boot.setupPaging_identity .fourLevel _, fun f hf _ hfree => absurd (h f hfree) (Nat.not_lt.mpr hf)⟩

/-- A stack of one page, with a frame for it: it is returned, and its guard page is mapped. -/
private theorem firstStack {pmm : Option PhysicalMemoryManager} (h : ∀ f, FreeIn pmm f → f < 0x10)
    (htake : (takeTableFrame pmm).1 ≠ 0) : ∃ k', allocateKernelStack 1 (bootKernel pmm) = (.ok 0x2002000#64, k') ∧
      k'.guards.isGuardPage 0x2000000#64 = true ∧
      Machine.translateAddress ⟨0x2000000#64⟩ k'.machine = (.ok ⟨0x2000000#64⟩, k'.machine) := by
  have hboots := bootKernel_boots h
  have hbits (f : Nat) (hf : FreeIn pmm f) : f < 2^40 := Nat.lt_trans (h f hf) (by decide)
  have hpage := (mapStackPage_low hboots (a := 0x2001000) (by decide) hbits).2 htake
  have hbase : (bootKernel pmm).nextBase = 0x2000000#64 := rfl
  have hone : (1 : BitVec 64).toNat = 1 := rfl
  have hround : (mapStackPages (bootKernel pmm).nextBase 0 (1 : BitVec 64).toNat (bootKernel pmm).machine).1 =
      .ok true := by
    have hrun : mapStackPage (0x2000000#64 + 4096 + BitVec.ofNat 64 (4096*0)) (bootKernel pmm).machine =
        (.ok true, _) := Fallible.run_of_fst hpage
    rw [hbase, hone, mapStackPages, Fallible.bind_of_ok hrun]
    rfl
  have hrun := allocateKernelStack_mapped hround
  have htop : 0x2000000#64 + (1 + 1) * 4096 = 0x2002000#64 := by decide
  have hlow : (bootKernel pmm).nextBase.toNat+4096*((1 : BitVec 64).toNat+1) < 0x100000000 := by
    rw [hbase, hone]
    decide
  have hunguarded := lowStack_unguarded hboots hlow hbits hrun
  rw [hbase] at hrun hunguarded
  rw [htop] at hrun
  refine ⟨_, hrun, ?_, hunguarded⟩
  rw [allocateKernelStack_guards, hbase]
  exact GuardRegistry.registerGuardPage_self (show GuardRegistry.empty.count < MAX_GUARD_PAGES by decide)

theorem firstStack_unguarded : ∃ k',
    allocateKernelStack 1 (bootKernel (some PagingManager.tenFrames)) = (.ok 0x2002000#64, k') ∧
      k'.guards.isGuardPage 0x2000000#64 = true ∧
      Machine.translateAddress ⟨0x2000000#64⟩ k'.machine = (.ok ⟨0x2000000#64⟩, k'.machine) :=
  firstStack (fun _ hf => Nat.lt_trans (PhysicalMemoryManager.freeIn_some.mp hf).1 (by decide)) (by decide)

/-- Without a frame a call for 4 GiB fails, and the next stack, of no pages, is guarded. -/
theorem stackRun_guarded_empty : ∃ k, allocateKernelStack 0 (allocateKernelStack 0x100000 (bootKernel none)).2 =
      (.ok 0x102002000#64, k) ∧ k.guards.isGuardPage 0x102001000#64 = true ∧
    ∃ message, Machine.translateAddress ⟨0x102001000#64⟩ k.machine = (.error (.err message), k.machine) := by
  have hnone (f : Nat) : ¬ FreeIn none f := PhysicalMemoryManager.not_freeIn_none f
  have hno : {f | FreeIn (bootKernel none).machine.pmm f} = ∅ := Set.eq_empty_iff_forall_notMem.mpr hnone
  have hbase : (bootKernel none).nextBase = 0x2000000#64 := rfl
  have hpages : (0x100000 : BitVec 64).toNat = 0xFFFFF+1 := rfl
  have hfails : (mapStackPages (bootKernel none).nextBase 0 (0x100000 : BitVec 64).toNat (bootKernel none).machine).1 =
      .ok false := by
    rw [hpages]
    rfl
  have hfirst := allocateKernelStack_failed hfails
  have hbase' : (allocateKernelStack 0x100000 (bootKernel none)).2.nextBase = 0x102001000#64 := by
    rw [allocateKernelStack_nextBase, hbase]
    decide
  have hcount : (allocateKernelStack 0x100000 (bootKernel none)).2.guards.count = 1 := by
    rw [allocateKernelStack_guards]
    rfl
  have hsecond : allocateKernelStack 0 (allocateKernelStack 0x100000 (bootKernel none)).2 = _ :=
    allocateKernelStack_mapped rfl
  have htop : 0x102001000#64 + (0 + 1) * 4096 = 0x102002000#64 := by decide
  rw [hbase', htop] at hsecond
  obtain ⟨k, hk⟩ : ∃ k, allocateKernelStack 0 (allocateKernelStack 0x100000 (bootKernel none)).2 =
      (.ok 0x102002000#64, k) := ⟨_, hsecond⟩
  have hrun : StackRun (bootKernel none) [⟨0x102002000#64, 0⟩] k := by
    refine .stack (.failed .start ⟨?_, .inl ?_⟩ hfirst) ⟨?_, .inr ⟨?_, ?_⟩⟩ hk (by decide)
    · rw [hbase]
      decide
    · rw [hno, Set.ncard_empty]
      decide
    · rw [hbase']
      decide
    · rw [hbase']
      decide
    · rw [hcount]
      decide
  obtain ⟨hguards, -⟩ := stackRun_guarded .fourLevel _ rfl (fun _ _ _ => rfl) (fun f _ _ => hnone f)
    (fun f hf => absurd hf (hnone f)) hrun
  obtain ⟨h₁, h₂⟩ := hguards _ (.head _)
  exact ⟨k, hk, h₁, h₂⟩

end Kernel
end Nafuraito.Memory
