import Nafuraito.Memory.DemandPages
import Nafuraito.Memory.MapUnmap

/-! What a page holds after a demand fault: zeros, or the bytes of the file from the place of the page on, with zeros
past the end of the file. -/
namespace Nafuraito.Memory
open Nafuraito.Library
open PageTableEntry (FlagBits)
open PhysicalMemoryManager (FreeIn)
open Slots (At)

/-! ### Bytes of a frame -/

/-- Byte `k` of a word. -/
def byteOf (word : BitVec 64) (k : Nat) : Byte := (word >>> (8*k)).setWidth 8

/-- Byte `i` of a frame. -/
def frameByte (mem : Frames) (f i : Nat) : Byte :=
  byteOf (mem f ⟨i/8 % 512, Nat.mod_lt _ (Nat.zero_lt_succ _)⟩) (i%8)

private theorem byteOf_zero (word : BitVec 64) (b : Byte) : byteOf (word <<< 8 ||| b.setWidth 64) 0 = b := by
  ext j hj
  simp only [byteOf, Nat.mul_zero, BitVec.ushiftRight_zero, BitVec.getElem_setWidth, BitVec.getLsbD_or,
    BitVec.getLsbD_shiftLeft, BitVec.getLsbD_setWidth]
  simp [show j < 64 by omega, hj]

private theorem byteOf_succ (word : BitVec 64) (b : Byte) {k : Nat} (hk : k < 7) :
    byteOf (word <<< 8 ||| b.setWidth 64) (k+1) = byteOf word k := by
  ext j hj
  have hlt : 8*(k+1)+j < 64 := by omega
  have hge : ¬ 8*(k+1)+j < 8 := by omega
  have hbyte : b.getLsbD (8*(k+1)+j) = false := BitVec.getLsbD_of_ge _ _ (by omega)
  simp only [byteOf, BitVec.getElem_setWidth, BitVec.getLsbD_ushiftRight, BitVec.getLsbD_or, BitVec.getLsbD_shiftLeft,
    BitVec.getLsbD_setWidth]
  rw [show 8*(k+1)+j-8 = 8*k+j by omega]
  simp [hlt, hge, hbyte]

/-- The bytes put together into words are read back. -/
theorem byteOf_pageOfBytes (bytes : List Byte) (i : Fin 512) {k : Nat} (hk : k < 8) :
    byteOf (Machine.pageOfBytes bytes i) k = bytes.getD (8*i+k) 0 := by
  have hfold (f : Nat → Byte) (n first : Nat) (hn : n ≤ 8) (hk : k < n) : byteOf ((List.range' first n).foldr
      (fun k word => word <<< 8 ||| (f k).setWidth 64) 0) k = f (first+k) := by
    induction n generalizing first k with
    | zero => omega
    | succ n ih =>
      rw [List.range'_succ, List.foldr_cons]
      cases k with
      | zero => exact byteOf_zero _ _
      | succ k =>
        rw [byteOf_succ _ _ (by omega), ih (by omega) (first+1) (by omega) (by omega), Nat.add_right_comm,
          Nat.add_assoc]
  rw [Machine.pageOfBytes, List.range_eq_range', hfold (fun k => bytes.getD (8*i+k) 0) 8 0 le_rfl hk, Nat.zero_add]

theorem frameByte_pageOfBytes {mem : Frames} {f : Nat} {bytes : List Byte} (h : mem f = Machine.pageOfBytes bytes)
    {i : Nat} (hi : i < 4096) : frameByte mem f i = bytes.getD i 0 := by
  have hval : 8*(i/8 % 512) + i%8 = i := by omega
  rw [frameByte, h, byteOf_pageOfBytes _ _ (Nat.mod_lt _ (by decide)), hval]

/-! ### What is read -/

/-- The callback of a file stores exactly the bytes asked for. -/
def FileBacking.Reads (file : FileBacking) (content : Nat → Byte) : Prop := ∀ (offset : BitVec 64) (len : Nat),
  offset.toNat + len ≤ file.fileSize.toNat →
    file.readAt file.ctx offset len = (List.range len).map fun k => content (offset.toNat + k)

/-- Byte `i` of a page of the region: a byte of the file below its size, else 0. -/
def VmRegion.pageByte (region : VmRegion) (content : Nat → Byte) (page : BitVec 64) (i : Nat) : Byte :=
  match region.backing with
  | .zeroFill => 0
  | .fileBacked file =>
    let position := file.fileOffset.toNat + (page.toNat - region.start.toNat) + i
    if position < file.fileSize.toNat then content position else 0

private theorem pageBytes_getD {file : FileBacking} {content : Nat → Byte} (h : file.Reads content)
    (offset : BitVec 64) {i : Nat} (hi : i < 4096) : (file.pageBytes offset).getD i 0 =
      if offset.toNat + i < file.fileSize.toNat then content (offset.toNat + i) else 0 := by
  rw [FileBacking.pageBytes]
  by_cases hlt : offset < file.fileSize
  · have hle : offset.toNat ≤ file.fileSize.toNat := Nat.le_of_lt hlt
    have hsub := BitVec.toNat_sub_of_le (BitVec.le_def.mpr hle)
    have hmin : min 4096 (file.fileSize - offset).toNat ≤ (file.fileSize - offset).toNat := Nat.min_le_right _ _
    have hiff : i < min 4096 (file.fileSize - offset).toNat ↔ offset.toNat + i < file.fileSize.toNat := by
      rw [lt_min_iff]
      omega
    rw [if_pos hlt]
    dsimp only
    rw [h offset _ (by omega), List.take_of_length_le (by rw [List.length_map, List.length_range]),
      List.getD_eq_getElem?_getD, List.getElem?_map]
    by_cases hin : offset.toNat + i < file.fileSize.toNat
    · rw [if_pos hin, List.getElem?_range (hiff.mpr hin)]
      rfl
    · rw [if_neg hin, List.getElem?_eq_none (by rw [List.length_range]; exact not_lt.mp fun h => hin (hiff.mp h))]
      rfl
  · have hout : ¬ offset.toNat + i < file.fileSize.toNat := fun h => hlt (BitVec.lt_def.mpr (by omega))
    rw [if_neg hlt, if_neg hout, List.getD_nil]

namespace Machine

theorem readBytes_getD {region : VmRegion} {page : BitVec 64} {bytes : List Byte} {content : Nat → Byte}
    (h : readBytes region page = .ok bytes) (hreads : ∀ file, region.backing = .fileBacked file → file.Reads content)
    {i : Nat} (hi : i < 4096) : bytes.getD i 0 = region.pageByte content page i := by
  rw [readBytes] at h
  rw [VmRegion.pageByte]
  cases hbacking : region.backing with
  | zeroFill =>
    rw [hbacking] at h
    rw [← Except.ok.inj h, List.getD_nil]
  | fileBacked file =>
    rw [hbacking] at h
    dsimp only at h ⊢
    rcases region.faultOffset_cases file page with ⟨offset, he, hle, hoffset⟩ | ⟨⟨message, he⟩, -⟩ <;> rw [he] at h
    · rw [BitVec.toNat_sub_of_le hle] at hoffset
      rw [← Except.ok.inj h, pageBytes_getD (hreads file hbacking) offset hi, hoffset]
    · cases h

end Machine

/-! ### The fault -/

namespace PagingManager
variable {m : PagingManager} {s t : Machine} {region : VmRegion} {content : Nat → Byte} {v : VirtAddr}

/-- From `s` to `t` the page of `v` came to be mapped to frame `f` as a page of the region. -/
structure Populated (m : PagingManager) (region : VmRegion) (content : Nat → Byte) (v : VirtAddr) (s t : Machine)
    (f : Nat) : Prop where
  fresh : FreeIn s.pmm f
  entry : m.leaf t.mem v =
    some (0, (PageTableEntry.of (BitVec.ofNat 64 (f*4096)) (region.flags.set PageTableFlags.PRESENT)).raw)
  translated : ∀ o < 4096, Machine.translateAddress (v.page.plus o) t =
    (.ok ((PhysAddr.mk (BitVec.ofNat 64 (f*4096))).plus o), t)
  bytes : ∀ i < 4096, frameByte t.mem f i = region.pageByte content v.page.addr i

/-- A demand fault that returns `Ok` maps the page, which was not mapped, to a frame that was free, with the flags of
the region and its contents. -/
theorem handleDemandPageFault_populates (hrun : Machine.RegistryRun s) (hm : s.paging = some m)
    (hwf : m.WellFormed s.mem) (hu : m.TablesUsed s) {i : Fin 64} (hi : s.regions i = some region)
    (hbits : FlagBits region.flags) (hin : v.addr.toNat ∈ region.span) (hnone : m.leaf s.mem v = none)
    (hreads : ∀ file, region.backing = .fileBacked file → file.Reads content) {errorCode : BitVec 64}
    (hok : Machine.handleDemandPageFault v errorCode s = (.ok (), t)) : ∃ f, m.Populated region content v s t f := by
  have hfound : s.regions.findRegion v.addr = some region := (Regions.findRegion_iff hrun.ok).mpr ⟨i, hi, hin⟩
  rcases Machine.handleDemandPageFault_run v errorCode s with ⟨e, pmm, -, he⟩ | ⟨r, pmm, addr, words, hr, htook, hmap⟩
  · cases he.symm.trans hok
  obtain rfl : region = r := Option.some.inj (hfound.symm.trans hr)
  rcases hmap with ⟨e, he⟩ | ⟨⟨bytes, hread, rfl⟩, he⟩
  · cases he.symm.trans hok
  have hmapped := he.symm.trans hok
  obtain ⟨hfill, htable⟩ := filled_relinked hwf hu htook (Machine.pageOfBytes bytes)
  have hpaging := hfill.paging.trans hm
  have hpage : v.page.addr.toNat/4096 = v.addr.toNat/4096 := by
    have := alignDown_toNat v.addr
    change (alignDown v.addr).toNat/4096 = _
    omega
  have hsame (mem : Frames) : m.leaf mem v.page = m.leaf mem v := by rw [leaf, leaf, VirtAddr.index_eq hpage]
  have hbefore : m.leaf (Machine.filled s pmm addr (Machine.pageOfBytes bytes)).mem v.page = none := by
    rw [hsame, leaf_eq_entryOf, hfill.entries, ← leaf_eq_entryOf, hnone]
  have hflags : FlagBits (region.flags.set PageTableFlags.PRESENT) := hbits.or (by decide)
  have haddr : addr = BitVec.ofNat 64 (addr.toNat/4096*4096) := by
    have := htook.aligned
    rw [← BitVec.toNat_inj, BitVec.toNat_ofNat]
    omega
  have hleaf := noHugeLeaf_of_unmapped hbefore
  obtain ⟨-, hcanonical, -⟩ := mapPage_ok hpaging hmapped
  have hr : m.Relinked (Machine.filled s pmm addr (Machine.pageOfBytes bytes)) t
      (Function.update (m.entryOf (Machine.filled s pmm addr (Machine.pageOfBytes bytes)).mem) (m.pageOf v.page)
        (some (0, (PageTableEntry.of addr (region.flags.set PageTableFlags.PRESENT)).raw))) := by
    rcases mapPage_pages hpaging hfill.wellFormed hfill.used hleaf (p := ⟨addr⟩) (Machine.set_present region.flags) with
      ⟨t', he', hr⟩ | ⟨e, t', he', -⟩
    · obtain rfl := (Prod.mk.inj (he'.symm.trans hmapped)).2
      exact hr
    · cases he'.symm.trans hmapped
  have hlow := htook.low
  refine ⟨addr.toNat/4096, htook.taken.1, ?_, fun o ho => ?_, fun i hi => ?_⟩
  · rw [← haddr, ← hsame, leaf_eq_entryOf, hr.entries, Function.update_self]
  · have htwice : v.page.page = v.page := by
      have hone := alignDown_toNat v.addr
      have htwo := alignDown_toNat (alignDown v.addr)
      have hidem : alignDown (alignDown v.addr) = alignDown v.addr := BitVec.toNat_inj.mp (by omega)
      exact congrArg VirtAddr.mk hidem
    rw [← haddr, ← htwice]
    exact (mapPage_exact hpaging hfill.wellFormed hleaf hcanonical htook.aligned (by change addr.toNat < _; omega)
      (Machine.set_present _) hflags (hfill.used.fresh _) hmapped).1 o ho
  · have hfilled : (Machine.filled s pmm addr (Machine.pageOfBytes bytes)).mem (addr.toNat/4096) =
        Machine.pageOfBytes bytes := Function.update_self _ _ _
    have hkept := (hr.rest (addr.toNat/4096) htable htook.taken.2).trans hfilled
    rw [frameByte_pageOfBytes hkept hi]
    exact Machine.readBytes_getD hread hreads hi

/-- A file of one page and five bytes, byte `k` of it being `k` modulo 256. -/
def countingFile : FileBacking :=
  ⟨0, fun _ offset len => (List.range len).map fun k => BitVec.ofNat 8 (offset.toNat + k), 0, 0x1005#64⟩

/-- It is mapped at 4 MiB. -/
def countingMachine : Machine := (Machine.mmapFile ⟨0x400000#64⟩ 0x2000#64 ⟨3#64⟩ countingFile smallMachine).2

/-- A fault in the second page: five bytes of the file, then zeros. -/
theorem countingMachine_populates : ∃ f t, Machine.handleDemandPageFault ⟨0x401234#64⟩ 0 countingMachine = (.ok (), t) ∧
    smallPaging.Populated ⟨0x400000#64, 0x402000#64, ⟨3#64⟩, .fileBacked countingFile⟩ (BitVec.ofNat 8)
      ⟨0x401234#64⟩ countingMachine t f ∧ frameByte t.mem f 4 = 4 ∧ frameByte t.mem f 5 = 0 := by
  have hrun : Machine.RegistryRun countingMachine := .mmapFile _ _ _ _ (.start fun _ => rfl)
  have hok : (Machine.handleDemandPageFault ⟨0x401234#64⟩ 0 countingMachine).1 = .ok () := by decide +kernel
  have hreads : countingFile.Reads (BitVec.ofNat 8) := fun _ _ _ => rfl
  obtain ⟨f, hf⟩ : ∃ f, smallPaging.Populated ⟨0x400000#64, 0x402000#64, ⟨3#64⟩, .fileBacked countingFile⟩
      (BitVec.ofNat 8) ⟨0x401234#64⟩ countingMachine
      (Machine.handleDemandPageFault ⟨0x401234#64⟩ 0 countingMachine).2 f :=
    handleDemandPageFault_populates hrun rfl smallMachine_wellFormed smallMachine_used (i := 0) rfl (by decide)
      ⟨by decide, by decide⟩ (smallMachine_unmapped _) (fun _ h => BackingKind.fileBacked.inj h ▸ hreads)
      (Fallible.run_of_fst hok)
  exact ⟨f, _, Fallible.run_of_fst hok, hf, (hf.bytes 4 (by decide)).trans (by decide),
    (hf.bytes 5 (by decide)).trans (by decide)⟩

/-- With flags that have address bits set the page is not mapped to the frame that was filled. -/
theorem addressBits_elsewhere : Machine.RegistryRun
      (Machine.mmap ⟨0x400000#64⟩ 0x1000#64 ⟨0xF003#64⟩ .zeroFill smallMachine).2 ∧
    ∃ t, Machine.handleDemandPageFault ⟨0x400000#64⟩ 0
        (Machine.mmap ⟨0x400000#64⟩ 0x1000#64 ⟨0xF003#64⟩ .zeroFill smallMachine).2 = (.ok (), t) ∧
      (Machine.translateAddress ⟨0x400000#64⟩ t).1 = .ok ⟨0xF000#64⟩ ∧
      ¬ FreeIn (Machine.mmap ⟨0x400000#64⟩ 0x1000#64 ⟨0xF003#64⟩ .zeroFill smallMachine).2.pmm 15 := by
  have hok : (Machine.handleDemandPageFault ⟨0x400000#64⟩ 0
    (Machine.mmap ⟨0x400000#64⟩ 0x1000#64 ⟨0xF003#64⟩ .zeroFill smallMachine).2).1 = .ok () := by decide +kernel
  exact ⟨.mmap _ _ _ _ (.start fun _ => rfl), _, Fallible.run_of_fst hok, by decide +kernel,
    PhysicalMemoryManager.not_free_iff.mpr (by decide)⟩

end PagingManager
end Nafuraito.Memory
