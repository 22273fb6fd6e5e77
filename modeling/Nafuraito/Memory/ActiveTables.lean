import Nafuraito.Memory.BootTables
import Nafuraito.Memory.FrameAccounting
import Nafuraito.Memory.FrameInitCount
import Nafuraito.Memory.FrameInitExact
import Nafuraito.Memory.FrameOwnership
import Nafuraito.Memory.UefiMap

/-! The page tables the kernel takes over from its loader, and whether the frame allocator hands them out. -/
namespace Nafuraito.Memory
open Nafuraito.Library
open PhysicalMemoryManager (ClientRun Offered Reserved)

private theorem rootTable_aligned (rootTablePhys : BitVec 64) : (rootTablePhys &&& ~~~offsetMask).toNat % 4096 = 0 := by
  rw [Words.and_not_toNat offsetMask_bits]
  omega

/-- `paging_init` takes CR3 without its control bits; the mode is the one the CPU is in. -/
def pagingInit (mode : PagingMode) (rootTablePhys : BitVec 64) : PagingManager :=
  ⟨mode, rootTablePhys &&& ~~~offsetMask, rootTable_aligned rootTablePhys⟩

/-- The two ways to the kernel, with what each loader found in memory. The BIOS loader builds the tables
itself; the UEFI loader leaves CR3 and the firmware's tables alone. -/
inductive BootPath where
  | bios (c : Boot.Cpu) (bytes : Bytes) (memoryMapAddr : Nat)
  | uefi (descs : List EfiMemoryDescriptor) (bytes : Bytes) (cr3 : BitVec 64) (tables : Frames)

namespace BootPath

/-- The map the kernel parses. -/
def memoryMap : BootPath → MemoryMap
  | bios _ bytes addr => .parse bytes addr
  | uefi descs bytes _ _ => .parse (convertUefiMapToE820 descs bytes).2 uefiE820MapAddr

def cr3 : BootPath → BitVec 64
  | bios _ _ _ => Boot.pagingRootAddr
  | uefi _ _ cr3 _ => cr3

def frames (mode : PagingMode) : BootPath → Frames
  | bios c _ _ => (Boot.setupPaging mode c).frames
  | uefi _ _ _ tables => tables

/-- Frame `f` is a table of the hierarchy `paging_init` takes over. -/
def Table (b : BootPath) (mode : PagingMode) (f : Nat) : Prop :=
  ∃ level, (pagingInit mode b.cr3).Table (b.frames mode) level f

/-- What is assumed of firmware: its tables lie in boot-services data. -/
def Firmware (b : BootPath) (mode : PagingMode) : Prop := match b with
  | bios _ _ _ => True
  | uefi descs _ _ _ => ∀ f, b.Table mode f → ∃ d ∈ descs, d.efiType = efiBootServicesData ∧
      frameBytes f ⊆ Set.Ico d.physicalStart.toNat (d.physicalStart.toNat + d.numberOfPages.toNat*4096)

/-- On the UEFI path each tracked table that a usable entry offers lies in a reserved region. -/
def Kept (b : BootPath) (mode : PagingMode) : Prop := match b with
  | bios _ _ _ => True
  | uefi _ _ _ _ => ∀ f, b.Table mode f → f < b.memoryMap.totalFrames → Offered b.memoryMap f →
      ∀ base, b.memoryMap.bitmapBase = some base → Reserved b.memoryMap base f

/-- No client that frees only what it holds is ever given a table. -/
def NeverHandedOut (b : BootPath) (mode : PagingMode) (s₀ : PhysicalMemoryManager) : Prop :=
  ∀ s live, ClientRun s₀ s live → ∀ a ∈ live, ∀ f, a.Holds f → ¬ b.Table mode f

end BootPath

/-! ### The tables of the BIOS loader -/

namespace Boot
open PageTableEntry (kind frame)

theorem kind_linkTo {level f g : Nat} (hf : f < 2^20) (h : kind level (linkTo f) = .link g) : g = f := by
  obtain ⟨_, _, _, rfl⟩ := PageTableEntry.kind_link.mp h
  rw [frame, linkTo_address hf, BitVec.toNat_ofNat, Nat.mod_eq_of_lt (by omega), Nat.mul_div_cancel_left _ (by decide)]

theorem kind_empty {level g : Nat} : ¬ kind level 0 = .link g := by
  rw [PageTableEntry.kind_zero]
  exact nofun

/-- The tables of the identity hierarchy are its `n + 5` frames, none of them a page table. -/
theorem Identity.table_frames {n level f : Nat} {mem : Frames} (h : Identity n mem) (hn : n < 0x100)
    (hf : TableTree.Reach kind mem (2+n) 0x10 level f) :
    (∃ j ≤ n, level = 2+(n-j) ∧ f = 0x10+j) ∨ (level = 1 ∧ ∃ g < 4, f = 0x11+n+g) := by
  induction hf with
  | root => exact .inl ⟨0, Nat.zero_le n, rfl, rfl⟩
  | @link l f i g _ hk ih =>
    rcases ih with ⟨j, hj, hl, rfl⟩ | ⟨hl, g', hg', rfl⟩
    · rcases Nat.eq_or_lt_of_le hj with rfl | hlt
      · rw [h.pdpt i] at hk
        split at hk
        · obtain rfl := kind_linkTo (by omega) hk
          exact .inr ⟨by omega, i.val, ‹_›, rfl⟩
        · exact absurd hk kind_empty
      · rw [h.upper j hlt i] at hk
        split at hk
        · obtain rfl := kind_linkTo (by omega) hk
          exact .inl ⟨j+1, hlt, by omega, by omega⟩
        · exact absurd hk kind_empty
    · obtain rfl : l = 0 := by omega
      rw [h.directory g' hg' i] at hk
      obtain ⟨_, _, hleaf, _⟩ := PageTableEntry.kind_link.mp hk
      exact absurd ⟨by decide, hugeLeaf_huge _⟩ hleaf

end Boot

/-- Every table of the BIOS loader lies in the first MiB. -/
theorem BootPath.bios_table_lt {c : Boot.Cpu} {bytes : Bytes} {addr : Nat} {mode : PagingMode} {f : Nat}
    (h : (bios c bytes addr).Table mode f) : f < 256 := by
  obtain ⟨level, hreach⟩ := h
  change TableTree.Reach _ (Boot.setupPaging mode c).frames mode.top
    (pagingInit mode Boot.pagingRootAddr).rootFrame level f at hreach
  have hidentity := Boot.setupPaging_identity mode c
  have hroot : (pagingInit mode Boot.pagingRootAddr).rootFrame = 0x10 := by
    cases mode <;> decide
  rw [hroot] at hreach
  have htop : mode.top = 2 + Boot.above mode := by cases mode <;> rfl
  have habove : Boot.above mode ≤ 2 := by cases mode <;> decide
  rw [htop] at hreach
  rcases hidentity.table_frames (by omega) hreach with ⟨j, hj, _, rfl⟩ | ⟨_, g, hg, rfl⟩ <;> omega

/-! ### Which frames a client can be given -/

namespace PhysicalMemoryManager

/-- A frame a client holds was free at the start. -/
theorem ClientRun.held_free {s₀ s : PhysicalMemoryManager} {live : List Allocation} (hr : ClientRun s₀ s live)
    {a : Allocation} (ha : a ∈ live) {f : Nat} (hf : a.Holds f) : s₀.Free f :=
  (hr.owned.held a ha f hf).1

/-- While the counter is right, `alloc_frame` over and over hands out each free frame. -/
theorem clientRun_handsOut {s₀ s : PhysicalMemoryManager} {live : List Allocation} (hr : ClientRun s₀ s live)
    (h : Accounting s) {f : Nat} (hf : s.Free f) :
    ∃ t live', ClientRun s₀ t live' ∧ ∃ a ∈ live', a.Holds f := by
  induction hn : s.freeFrames generalizing s live with
  | zero => exact absurd (h.free_pos hf) (by omega)
  | succ n ih =>
    obtain ⟨r, t, hcall⟩ : ∃ r t, allocFrame s = (r, t) := ⟨_, _, rfl⟩
    cases r with
    | error e =>
      rcases allocFrame_fails h.hint hcall with hzero | hnone
      · omega
      · exact absurd hf (hnone f)
    | ok addr =>
      have hnext := ClientRun.allocFrame hr hcall
      obtain ⟨g, rfl, hg, _, rfl⟩ := allocFrame_ok hcall
      by_cases hfg : f = g
      · subst hfg
        refine ⟨_, _, hnext, _, List.mem_cons_self, ?_⟩
        simp [Allocation.Holds]
      · have htaken := h.taking hg s.zones
        have hcount : (s.taking g s.zones).freeFrames = n := by
          have hle := h.free_le
          have htotal := s.total_le
          change u64Sub s.freeFrames 1 = n
          rw [u64Sub_of_le (by omega) (by omega)]
          omega
        exact ih hnext htaken ⟨hf.1, by rw [test_taking, decide_eq_false hfg, hf.2]; rfl⟩ hcount

/-- The state `init` leaves is in order if its counter is. -/
theorem init_accounting {m : MemoryMap} {mem : Bytes} {s : PhysicalMemoryManager} (h : init m mem = .ok s)
    (hcount : s.freeFrames = (Bitmap.clearBits s.bitmap 0 s.totalFrames).card) {f : Nat} (hf : s.Free f) :
    Accounting s where
  counted := hcount
  phantom _ h₁ h₂ := init_phantom h h₁ h₂
  hint := by
    obtain ⟨_, _, _, _, hlast, _⟩ := init_ok h
    rw [hlast]
    exact Nat.zero_lt_of_lt (index_lt_size hf.1)

end PhysicalMemoryManager

/-! ### The hand-over -/

namespace BootPath
open PhysicalMemoryManager (init_ok init_free_iff init_accounting)
variable {b : BootPath} {mode : PagingMode} {mem : Bytes} {s₀ : PhysicalMemoryManager}

/-- No table of a kept hierarchy is free once `init` is through. -/
private theorem Kept.not_free (h : b.Kept mode) (hi : PhysicalMemoryManager.init b.memoryMap mem = .ok s₀) {f : Nat}
    (hf : b.Table mode f) : ¬ s₀.Free f := by
  obtain ⟨base, hb, _⟩ := init_ok hi
  rw [init_free_iff hi hb]
  rintro ⟨hlt, hoffered, hfree⟩
  apply hfree
  cases b with
  | bios c bytes addr =>
    have hlow := bios_table_lt hf
    exact ⟨(0, 0x100000/4096), by simp [MemoryMap.reservations], Nat.zero_le f, hlow.trans_le (by decide)⟩
  | uefi => exact h f hf hlt hoffered base hb

private theorem kept_of_not_free (hi : PhysicalMemoryManager.init b.memoryMap mem = .ok s₀)
    (h : ∀ f, b.Table mode f → ¬ s₀.Free f) : b.Kept mode := by
  cases b with
  | bios => trivial
  | uefi =>
    intro f hf hlt hoffered base hb
    by_contra hreserved
    exact h f hf ((init_free_iff hi hb f).mpr ⟨hlt, hoffered, hreserved⟩)

/-- A kept hierarchy is never handed out, in whatever order frames are allocated and freed; and where the
counter `init` leaves is right, only a kept one is not. -/
theorem neverHandedOut_of_kept (hi : PhysicalMemoryManager.init b.memoryMap mem = .ok s₀) :
    (b.Kept mode → b.NeverHandedOut mode s₀) ∧
    (s₀.freeFrames = (Bitmap.clearBits s₀.bitmap 0 s₀.totalFrames).card →
      b.NeverHandedOut mode s₀ → b.Kept mode) := by
  constructor
  · intro h s live hr a ha f hheld hf
    exact h.not_free hi hf (hr.held_free ha hheld)
  · intro hcount h
    apply kept_of_not_free hi
    intro f hf hfree
    obtain ⟨t, live, hr, a, ha, hheld⟩ := 
      PhysicalMemoryManager.clientRun_handsOut .start (init_accounting hi hcount hfree) hfree
    exact h t live hr a ha f hheld hf

end BootPath

/-! ### Two hand-overs from firmware -/

namespace BootPath
open PhysicalMemoryManager (init init_ok init_of_base init_free_iff onesMemory offers offered offeredBy reserved strays)
open PageTableEntry (kind kind_link)

/-- A root whose first entry links the next frame, a table of four 1 GiB pages. -/
def firmwareTables (root : Nat) : Frames := fun f i =>
  if f = root then if i.val = 0 then Boot.linkTo (root+1) else 0
  else if f = root+1 then if i.val < 4 then Boot.hugeLeaf (i.val*2^30) else 0
  else 0

private theorem firmwareTables_reach {root level f : Nat} (hroot : root+1 < 2^20)
    (h : TableTree.Reach kind (firmwareTables root) 3 root level f) :
    (level = 3 ∧ f = root) ∨ (level = 2 ∧ f = root+1) := by
  induction h with
  | root => exact .inl ⟨rfl, rfl⟩
  | @link l f i g _ hk ih =>
    rcases ih with ⟨hl, rfl⟩ | ⟨hl, rfl⟩
    · rw [firmwareTables, if_pos rfl] at hk
      split at hk
      · exact .inr ⟨by omega, Boot.kind_linkTo hroot hk⟩
      · exact absurd hk Boot.kind_empty
    · rw [firmwareTables, if_neg (by omega), if_pos rfl] at hk
      split at hk
      · obtain ⟨_, _, hleaf, _⟩ := kind_link.mp hk
        exact absurd ⟨by omega, Boot.hugeLeaf_huge _⟩ hleaf
      · exact absurd hk Boot.kind_empty

/-- The firmware's tables from frame 0xB01 on, in sixteen pages of boot-services data from 11 MiB on. -/
def highTables : BootPath :=
  .uefi [⟨efiBootServicesData, 0xB00000, 16⟩] onesMemory 0xB01000 (firmwareTables 0xB01)

/-- The firmware's tables from frame 0x90 on, in two pages of boot-services data. -/
def lowTables : BootPath :=
  .uefi [⟨efiConventionalMemory, 0xB00000, 16⟩, ⟨efiBootServicesData, 0x90000, 2⟩] onesMemory 0x90018
    (firmwareTables 0x90)

private theorem highTables_table {f : Nat} (h : highTables.Table .fourLevel f) : f = 0xB01 ∨ f = 0xB02 := by
  obtain ⟨level, hreach⟩ := h
  have hroot : (pagingInit .fourLevel highTables.cr3).rootFrame = 0xB01 := by decide
  rw [PagingManager.Table, hroot] at hreach
  rcases firmwareTables_reach (by decide) hreach with ⟨_, rfl⟩ | ⟨_, rfl⟩
  · exact .inl rfl
  · exact .inr rfl

private theorem lowTables_table {f : Nat} (h : lowTables.Table .fourLevel f) : f = 0x90 ∨ f = 0x91 := by
  obtain ⟨level, hreach⟩ := h
  have hroot : (pagingInit .fourLevel lowTables.cr3).rootFrame = 0x90 := by decide
  rw [PagingManager.Table, hroot] at hreach
  rcases firmwareTables_reach (by decide) hreach with ⟨_, rfl⟩ | ⟨_, rfl⟩
  · exact .inl rfl
  · exact .inr rfl

private theorem highTables_map : highTables.memoryMap = ⟨0x7000, [⟨0xB00000, 16*4096, 1, 1⟩]⟩ := by
  have hentries : highTables.memoryMap.entries = _ := parse_converted onesMemory (by decide) (by decide)
  exact congrArg (MemoryMap.mk 0x7000) hentries

private theorem lowTables_map : lowTables.memoryMap =
    ⟨0x7000, [⟨0xB00000, 16*4096, 1, 1⟩, ⟨0x90000, 2*4096, 1, 1⟩]⟩ := by
  have hentries : lowTables.memoryMap.entries = _ := parse_converted onesMemory (by decide) (by decide)
  exact congrArg (MemoryMap.mk 0x7000) hentries

/-- The low tables are kept. -/
theorem neverHandedOut_lowTables : ∃ s₀, init lowTables.memoryMap onesMemory = .ok s₀ ∧
    lowTables.NeverHandedOut .fourLevel s₀ := by
  have hb : lowTables.memoryMap.bitmapBase = some 0xB00000 := by
    rw [lowTables_map]
    decide
  obtain ⟨s₀, hi⟩ := init_of_base (by rw [lowTables_map]; decide) hb onesMemory
  refine ⟨s₀, hi, (neverHandedOut_of_kept hi).1 fun f hf _ _ base _ => ?_⟩
  have hlow : f < 0x100000/4096 := by
    rcases lowTables_table hf with rfl | rfl <;> decide
  exact ⟨(0, 0x100000/4096), by simp [MemoryMap.reservations], Nat.zero_le f, hlow⟩

private theorem highTables_base : highTables.memoryMap.bitmapBase = some 0xB00000 := by
  rw [highTables_map]
  decide

/-- Fifteen frames are free, the tables among them, and the counter says so. -/
private theorem highTables_init {s₀ : PhysicalMemoryManager} (hi : init highTables.memoryMap onesMemory = .ok s₀) :
    s₀.Free 0xB01 ∧ s₀.freeFrames = (Bitmap.clearBits s₀.bitmap 0 s₀.totalFrames).card := by
  have hb := highTables_base
  constructor
  · rw [init_free_iff hi hb, highTables_map]
    refine ⟨by decide, ⟨_, List.mem_cons_self, by decide, by decide, by decide⟩, ?_⟩
    rw [Reserved]
    decide
  · obtain ⟨hfree, hclear⟩ := PhysicalMemoryManager.init_counts hi hb (by rw [highTables_map]; decide)
    have hstrays : strays highTables.memoryMap 0xB00000 onesMemory = ∅ := by
      apply Finset.filter_false_of_mem
      rintro f _ ⟨_, hclear⟩
      have hones : Bitmap.test onesMemory f = true := Bitmap.bitOn_full (Nat.mod_lt f (by decide))
      rw [hones] at hclear
      cases hclear
    have hoffers : offers highTables.memoryMap = (offered highTables.memoryMap).card := by
      rw [highTables_map]
      simp [offers, offered]
    rw [hfree, hclear, hstrays, hoffers, Finset.card_empty, Nat.add_zero]

/-- Some client is given the root of the firmware's tables. -/
theorem highTables_handedOut : ¬ ∀ (b : BootPath) (mode : PagingMode) (mem : Bytes) (s₀ : PhysicalMemoryManager),
    b.Firmware mode → init b.memoryMap mem = .ok s₀ → b.NeverHandedOut mode s₀ := by
  intro h
  obtain ⟨s₀, hi⟩ := init_of_base (by rw [highTables_map]; decide) highTables_base onesMemory
  have hfirmware : highTables.Firmware .fourLevel := by
    intro f hf
    refine ⟨_, List.mem_cons_self, rfl, ?_⟩
    rw [frameBytes_subset]
    rcases highTables_table hf with rfl | rfl <;> decide
  obtain ⟨hfree, hcount⟩ := highTables_init hi
  obtain ⟨t, live, hr, a, ha, hheld⟩ :=
    PhysicalMemoryManager.clientRun_handsOut .start (PhysicalMemoryManager.init_accounting hi hcount hfree) hfree
  have hroot : (pagingInit .fourLevel highTables.cr3).rootFrame = 0xB01 := by decide
  refine h highTables .fourLevel onesMemory s₀ hfirmware hi t live hr a ha 0xB01 hheld ⟨3, ?_⟩
  rw [PagingManager.Table, hroot]
  exact .root

end BootPath
end Nafuraito.Memory
