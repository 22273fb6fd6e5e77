import Nafuraito.Memory.DemandPages
import Nafuraito.Memory.MapFailure
import Nafuraito.Memory.MunmapEffect
import Nafuraito.Memory.RegionSplits

/-! What the calls of demand paging leave behind where they fail: a fault does not give its frame back, and `munmap`
neither maps its pages again nor puts its regions back. -/
namespace Nafuraito.Memory
open Nafuraito.Library
open PhysicalMemoryManager (FreeIn usedFrames)

namespace Machine
variable {s t u : Machine} {region : VmRegion} {pageBase : BitVec 64} {addr : Nat}

/-- The registry and the leaf entries are as before. -/
structure SameMappings (s t : Machine) : Prop where
  regions : t.regions = s.regions
  leaves : ∀ m : PagingManager, s.paging = some m → ∀ v, m.leaf t.mem v = m.leaf s.mem v

/-- So are the used frames. -/
structure Unchanged (s t : Machine) : Prop extends SameMappings s t where
  frames : t.pmm.map usedFrames = s.pmm.map usedFrames

theorem SameMappings.refl (s : Machine) : SameMappings s s := ⟨rfl, fun _ _ _ => rfl⟩

theorem Unchanged.refl (s : Machine) : Unchanged s s := ⟨.refl s, rfl⟩

theorem Taken.not_unchanged {f : Nat} (h : s.Taken t f) : ¬ Unchanged s t := by
  obtain ⟨⟨p, hp, hfree⟩, hused⟩ := h
  intro hsame
  have hframes := hsame.frames
  rw [hp, Option.map_some] at hframes
  obtain ⟨q, hq, hsets⟩ := Option.map_eq_some_iff.mp hframes
  rw [hq] at hused
  have hmem : f ∈ usedFrames q := PhysicalMemoryManager.not_free_iff.mp hused
  rw [hsets] at hmem
  exact PhysicalMemoryManager.not_free_iff.mpr hmem (PhysicalMemoryManager.freeIn_some.mpr hfree)

/-! ### The steps after the allocation -/

/-- The frame lies in the identity window, and the file offset of the page is a number of 64 bits. -/
structure Fillable (region : VmRegion) (pageBase : BitVec 64) (addr : Nat) : Prop where
  window : addr ≠ 0 ∧ addr < 0x8000000
  offset : ∀ file, region.backing = .fileBacked file →
    region.start ≤ pageBase ∧ file.fileOffset.toNat + (pageBase - region.start).toNat < 2^64

private theorem readBytes_cases (region : VmRegion) (pageBase : BitVec 64) :
    (∃ bytes, readBytes region pageBase = .ok bytes ∧ ∀ file, region.backing = .fileBacked file →
      region.start ≤ pageBase ∧ file.fileOffset.toNat + (pageBase - region.start).toNat < 2^64) ∨
    (∃ message, readBytes region pageBase = .error (.err message)) ∧ ∃ file, region.backing = .fileBacked file ∧
      ¬ (region.start ≤ pageBase ∧ file.fileOffset.toNat + (pageBase - region.start).toNat < 2^64) := by
  rw [readBytes]
  cases hbacking : region.backing with
  | zeroFill => exact .inl ⟨_, rfl, fun file h => by cases h⟩
  | fileBacked file =>
    dsimp only
    rcases region.faultOffset_cases file pageBase with ⟨offset, he, hle, hoffset⟩ | ⟨⟨message, he⟩, hno⟩ <;> rw [he]
    · refine .inl ⟨_, rfl, fun other ho => ?_⟩
      rw [← BackingKind.fileBacked.inj ho, ← hoffset]
      exact ⟨hle, offset.isLt⟩
    · exact .inr ⟨⟨message, rfl⟩, file, rfl, hno⟩

/-- A frame that can be filled is; else that fails. It writes nothing but memory. -/
private theorem fillFrame_cases (haddr : addr < 2^64) (s : Machine) :
    ∃ r mem, fillFrame region pageBase (BitVec.ofNat 64 addr) s = (r, { s with mem := mem }) ∧
      (Fillable region pageBase addr ∧ r = .ok () ∨
        ¬ Fillable region pageBase addr ∧ ∃ message, r = .error (.err message)) := by
  have hnat : (BitVec.ofNat 64 addr).toNat = addr := by rw [BitVec.toNat_ofNat, Nat.mod_eq_of_lt haddr]
  have hwindow : InWindow (BitVec.ofNat 64 addr) ↔ addr ≠ 0 ∧ addr < 0x8000000 := by
    rw [InWindow, hnat, ne_eq, ← BitVec.toNat_inj, hnat]
    exact Iff.rfl
  rw [fillFrame_eq]
  by_cases hin : InWindow (BitVec.ofNat 64 addr)
  swap
  · rw [if_neg hin]
    exact ⟨_, s.mem, rfl, .inr ⟨fun h => hin (hwindow.mpr h.window), _, rfl⟩⟩
  rw [if_pos hin]
  rcases readBytes_cases region pageBase with ⟨bytes, he, hok⟩ | ⟨⟨message, he⟩, file, hbacking, hno⟩ <;> rw [he]
  · exact ⟨_, _, rfl, .inl ⟨⟨hwindow.mp hin, hok⟩, rfl⟩⟩
  · exact ⟨_, _, rfl, .inr ⟨fun h => hno (h.offset file hbacking), message, rfl⟩⟩

/-! ### The fault -/

private theorem allocFrame_cases (s : Machine) : (∃ e, allocFrame s = (.error e, s)) ∨
    ∃ addr pmm, allocFrame s = (.ok addr, { s with pmm := pmm }) ∧ addr < 2^64 ∧
      FreeIn s.pmm (addr/4096) ∧ ¬ FreeIn pmm (addr/4096) := by
  rw [allocFrame]
  cases hp : s.pmm with
  | none => exact .inl ⟨_, rfl⟩
  | some p =>
    dsimp only
    rcases hrun : PhysicalMemoryManager.allocFrame p with ⟨e | addr, q⟩
    · obtain rfl := PhysicalMemoryManager.allocFrame_error hrun
      exact .inl ⟨e, by rw [← hp]⟩
    · obtain ⟨f, rfl, hfree, -, rfl⟩ := PhysicalMemoryManager.allocFrame_ok hrun
      have hf : f*4096/4096 = f := Nat.mul_div_cancel f (by decide)
      have hlt := PhysicalMemoryManager.freeIn_lt (PhysicalMemoryManager.freeIn_some.mpr hfree)
      refine .inr ⟨_, _, rfl, by omega, ?_, ?_⟩
      · rw [hf]
        exact PhysicalMemoryManager.freeIn_some.mpr hfree
      · rw [hf, PhysicalMemoryManager.freeIn_some]
        intro hfree'
        have hbit := hfree'.2
        rw [PhysicalMemoryManager.test_taking, decide_eq_true rfl, Bool.true_or] at hbit
        cases hbit

/-- Once a frame is taken for the fault, no later step fails: the frame can be filled, and `map_page` then returns
no error. -/
def Completes (faultAddr : VirtAddr) (errorCode : BitVec 64) (s : Machine) : Prop :=
  ∀ region addr u, errorCode &&& 1#64 = 0 → s.regions.findRegion faultAddr.addr = some region →
    allocFrame s = (.ok addr, u) → Fillable region (alignDown faultAddr.addr) addr ∧
      ∀ message, (mapPage ⟨alignDown faultAddr.addr⟩ ⟨BitVec.ofNat 64 addr⟩ (region.flags.set PageTableFlags.PRESENT)
        (fillFrame region (alignDown faultAddr.addr) (BitVec.ofNat 64 addr) u).2).1 ≠ .error (.err message)

/-- A fault that fails leaves everything as it was exactly if it does not fail after it took its frame. -/
theorem handleDemandPageFault_unchanged_iff (faultAddr : VirtAddr) (errorCode : BitVec 64) (s : Machine) :
    (∀ message t, handleDemandPageFault faultAddr errorCode s = (.error (.err message), t) → Unchanged s t) ↔
      Completes faultAddr errorCode s := by
  rw [Completes, handleDemandPageFault]
  by_cases hcode : errorCode &&& 1#64 = 0
  swap
  · rw [Fallible.bind_of_error (Fallible.require_run_neg _ hcode s)]
    refine ⟨fun _ region addr u hc => absurd hc hcode, fun _ message t h => ?_⟩
    obtain rfl := (Prod.mk.inj h).2
    exact .refl s
  rw [Fallible.bind_of_ok (Fallible.require_run_pos _ hcode s), Fallible.get_bind_run]
  cases hregion : s.regions.findRegion faultAddr.addr with
  | none =>
    refine ⟨fun _ region addr u _ hr => (by cases hr), fun _ message t h => ?_⟩
    obtain rfl := (Prod.mk.inj h).2
    exact .refl s
  | some region =>
    rw [Fallible.okOr_some, Fallible.pure_bind_run]
    rcases allocFrame_cases s with ⟨e, halloc⟩ | ⟨addr, pmm, halloc, haddr, hfree, hused⟩
    · have hrun : Fallible.mapError (fun _ => Stop.err "Failed to allocate frame") allocFrame s =
          (.error (.err "Failed to allocate frame"), s) := by
        rw [Fallible.mapError, halloc]
        rfl
      rw [Fallible.bind_of_error hrun]
      refine ⟨fun _ region' addr u _ _ hok => ?_, fun _ message t h => ?_⟩
      · cases halloc.symm.trans hok
      · obtain rfl := (Prod.mk.inj h).2
        exact .refl s
    · have hrun : Fallible.mapError (fun _ => Stop.err "Failed to allocate frame") allocFrame s =
          (.ok addr, { s with pmm := pmm }) := by
        rw [Fallible.mapError, halloc]
        rfl
      obtain ⟨r, mem, hfill, ⟨hfits, rfl⟩ | ⟨hnot, message, rfl⟩⟩ := fillFrame_cases haddr { s with pmm := pmm }
      · rw [Fallible.bind_of_ok hrun, Fallible.bind_of_ok hfill]
        rcases hmap : mapPage ⟨alignDown faultAddr.addr⟩ ⟨BitVec.ofNat 64 addr⟩
          (region.flags.set PageTableFlags.PRESENT) { s with pmm := pmm, mem := mem } with ⟨r, t⟩
        by_cases herr : ∃ message, r = .error (.err message)
        · obtain ⟨message, rfl⟩ := herr
          have htaken : s.Taken t (addr/4096) := ⟨hfree, fun hf => hused ((PagingManager.mapPage_links hmap).free _ hf)⟩
          refine ⟨fun h => absurd (h message t rfl) htaken.not_unchanged, fun h => ?_⟩
          have hno := (h region addr _ hcode rfl halloc).2 message
          rw [hfill, hmap] at hno
          exact absurd rfl hno
        · refine ⟨fun _ region' addr' u _ hr hok => ?_, fun _ message t' h => ?_⟩
          · obtain rfl := Option.some.inj hr
            obtain ⟨haddr', rfl⟩ := Prod.mk.inj (halloc.symm.trans hok)
            obtain rfl := Except.ok.inj haddr'
            rw [hfill, hmap]
            exact ⟨hfits, fun message hr => herr ⟨message, hr⟩⟩
          · exact absurd ⟨message, (Prod.mk.inj h).1⟩ herr
      · have htaken : s.Taken { s with pmm := pmm, mem := mem } (addr/4096) := ⟨hfree, hused⟩
        rw [Fallible.bind_of_ok hrun, Fallible.bind_of_error hfill]
        exact ⟨fun h => absurd (h message _ rfl) htaken.not_unchanged,
          fun h => absurd (h region addr _ hcode rfl halloc).1 hnot⟩

/-! ### Out of frames -/

/-- A region over one page, and one free frame. -/
def onePageRegion : Machine := { PagingManager.oneFreeMachine with regions := PagingManager.onePageRegistry }

/-- The last frame goes to the page, none is left for a table, and the frame is lost. -/
theorem onePageRegion_leaks : ∃ message t, handleDemandPageFault ⟨0x400000#64⟩ 0 onePageRegion =
    (.error (.err message), t) ∧ t.pmm.map usedFrames ≠ onePageRegion.pmm.map usedFrames := by
  have hbefore : onePageRegion.pmm.map (·.isFrameUsed (2*4096)) = some false := by decide
  have hafter : (handleDemandPageFault ⟨0x400000#64⟩ 0 onePageRegion).2.pmm.map (·.isFrameUsed (2*4096)) =
      some true := by decide +kernel
  have hfails : (handleDemandPageFault ⟨0x400000#64⟩ 0 onePageRegion).1 =
      .error (.err "Failed to allocate page table frame") := by decide +kernel
  exact ⟨_, _, Fallible.run_of_fst hfails, PhysicalMemoryManager.usedFrames_ne hbefore hafter⟩

end Machine

/-! ### `munmap` -/

namespace PagingManager
open Machine (Admits ComesTo SameMappings pageAddr releasePage)
variable {m : PagingManager} {s t : Machine} {start : VirtAddr} {size lo hi : BitVec 64}

/-- Past its checks nothing fails: no page the loop comes to is one that `unmap_page` or `free_frame` returns an error
for, and where the loop goes through there is a slot for each region that is split. -/
def MunmapCompletes (start : VirtAddr) (size : BitVec 64) (s : Machine) : Prop :=
  (∀ p u, ComesTo start size s p u → ∀ message, (releasePage (pageAddr p) u).1 ≠ .error (.err message)) ∧
    ∀ lo hi t, Admits start size lo hi s → Machine.releasePages lo hi s = (.ok (), t) → s.regions.SplitsFit lo hi

/-- The loop fails where a round does. -/
private theorem comesTo_fails {p : Nat} {u : Machine} (hu : ComesTo start size s p u)
    (hadmits : Admits start size lo hi s) {message : String}
    (h : (releasePage (pageAddr p) u).1 = .error (.err message)) :
    ∃ t, Machine.releasePages lo hi s = (.error (.err message), t) := by
  obtain ⟨lo', hi', hadmits', hlo, hhi, hrun⟩ := hu
  obtain ⟨rfl, rfl⟩ := hadmits.range.unique hadmits'.range
  refine ⟨(releasePage (pageAddr p) u).2,
    Fallible.forRange_error_iff.mpr ⟨p - lo'.toNat/4096, u, by omega, hrun, ?_⟩⟩
  rw [show lo'.toNat/4096 + (p - lo'.toNat/4096) = p by omega]
  exact Prod.ext h rfl

/-- Every slot is taken, the first by a region of three pages, of which the middle one is mapped. -/
def crowdedMachine : Machine :=
  { (Machine.mapPage ⟨0x401000#64⟩ ⟨0x8000#64⟩ ⟨3#64⟩
      { smallMachine with pmm := some (tenFrames.taking 8 tenFrames.zones) }).2 with
    regions := fun i => if i.val = 0 then some ⟨0x400000#64, 0x403000#64, ⟨3#64⟩, .zeroFill⟩
      else some ⟨BitVec.ofNat 64 (0x1000000 + i*0x1000), BitVec.ofNat 64 (0x1001000 + i*0x1000), ⟨3#64⟩, .zeroFill⟩ }

end PagingManager
end Nafuraito.Memory
