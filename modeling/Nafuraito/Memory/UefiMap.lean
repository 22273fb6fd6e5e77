import Nafuraito.Library.LittleEndian
import Nafuraito.Memory.MemoryMap

/-! The memory map as the UEFI loader writes it and as the kernel parses it. The bytes are those of physical
memory; the descriptors are what the firmware's own buffer holds. -/
namespace Nafuraito.Memory
open Nafuraito.Library

/-! ### The loader -/

/-- The fields of an `EFI_MEMORY_DESCRIPTOR` that the loader reads. -/
structure EfiMemoryDescriptor where
  efiType : BitVec 32
  physicalStart : BitVec 64
  numberOfPages : BitVec 64
  deriving DecidableEq, Repr

def efiLoaderCode : BitVec 32 := 1
def efiLoaderData : BitVec 32 := 2
def efiBootServicesCode : BitVec 32 := 3
def efiBootServicesData : BitVec 32 := 4
def efiConventionalMemory : BitVec 32 := 7
def efiUnusableMemory : BitVec 32 := 8
def efiACPIReclaimMemory : BitVec 32 := 9
def efiACPIMemoryNVS : BitVec 32 := 10

/-- Boot-services memory becomes usable; so does persistent memory, type 14. -/
def efiTypeToE820 (efiType : BitVec 32) : Nat :=
  if efiType = efiConventionalMemory ∨ efiType = efiLoaderCode ∨ efiType = efiLoaderData then 1
  else if efiType = efiBootServicesCode ∨ efiType = efiBootServicesData then 1
  else if efiType = efiACPIReclaimMemory then 3
  else if efiType = efiACPIMemoryNVS then 4
  else if efiType = efiUnusableMemory then 5
  else if efiType = 14 then 1
  else 2

/-- `UEFI_E820_MAP_ADDR`. -/
def uefiE820MapAddr : Nat := 0x7000

/-- `MAX_E820_ENTRIES`. -/
def maxE820Entries : Nat := 256

def writeEntry (mem : Bytes) (a : Nat) (e : E820Entry) : Bytes :=
  writeLE (writeLE (writeLE (writeLE mem a 8 e.base) (a+8) 8 e.length) (a+16) 4 e.regionType) (a+20) 4 e.acpiExtended

/-- The entry written for a descriptor; the product of its length wraps. -/
def convertDescriptor (d : EfiMemoryDescriptor) : E820Entry :=
  ⟨d.physicalStart.toNat, u64 (d.numberOfPages.toNat * 4096), efiTypeToE820 d.efiType, 1⟩

/-- The loop of `convert_uefi_map_to_e820` over the descriptors left, with the entries written so far. -/
def convertLoop : List EfiMemoryDescriptor → Nat → Bytes → Nat × Bytes
  | [], count, mem => (count, mem)
  | d :: descs, count, mem =>
    if count < maxE820Entries then
      if d.numberOfPages = 0 then convertLoop descs count mem
      else convertLoop descs (count+1) (writeEntry mem (uefiE820MapAddr + 24*count) (convertDescriptor d))
    else (count, mem)

/-- The buffer is zeroed first; an entry of type 0 ends the list. -/
def convertUefiMapToE820 (descs : List EfiMemoryDescriptor) (mem : Bytes) : Nat × Bytes :=
  let zeroed : Bytes := fun i =>
    if uefiE820MapAddr ≤ i ∧ i < uefiE820MapAddr + (maxE820Entries+1)*24 then 0#8 else mem i
  let written := convertLoop descs 0 zeroed
  (written.1, writeEntry written.2 (uefiE820MapAddr + 24*written.1) ⟨0, 0, 0, 0⟩)

/-! ### The kernel -/

def readEntry (mem : Bytes) (a : Nat) : E820Entry :=
  ⟨readLE mem a 8, readLE mem (a+8) 8, readLE mem (a+16) 4, readLE mem (a+20) 4⟩

namespace MemoryMap

/-- The `while` loop of `parse`; the first argument is `MAX_MEMORY_ENTRIES - count`. -/
def countEntries (mem : Bytes) (addr : Nat) : Nat → Nat → Nat
  | 0, count => count
  | n+1, count =>
    let entry := readEntry mem (u64 (addr + 24*count))
    if entry.regionType < 1 ∨ 5 < entry.regionType then count
    else if entry.length = 0 then count
    else countEntries mem addr n (count+1)

/-- The entries are read from memory again whenever the map is asked for one. -/
def parse (mem : Bytes) (addr : Nat) : MemoryMap where
  entriesPtr := addr
  entries := (List.range (countEntries mem addr maxMemoryEntries 0)).map fun i =>
    readEntry mem (u64 (addr + 24*i))

end MemoryMap

/-! ### One entry -/

theorem readLE_lt (mem : Bytes) (a n : Nat) : readLE mem a n < 256^n := by
  induction n generalizing a with
  | zero => exact Nat.one_pos
  | succ n ih =>
    have hrest := ih (a+1)
    have hbyte : (mem a).toNat < 256 := (mem a).isLt
    rw [readLE, Nat.pow_succ]
    omega

private theorem readEntry_congr {mem mem' : Bytes} {a : Nat} (h : ∀ i, a ≤ i → i < a+24 → mem' i = mem i) :
    readEntry mem' a = readEntry mem a := by
  rw [readEntry, readEntry, readLE_congr fun i h₁ h₂ => h i (by omega) (by omega),
    readLE_congr fun i h₁ h₂ => h i (by omega) (by omega), readLE_congr fun i h₁ h₂ => h i (by omega) (by omega),
    readLE_congr fun i h₁ h₂ => h i (by omega) (by omega)]

theorem writeEntry_other (mem : Bytes) {a i : Nat} (e : E820Entry) (h : i < a ∨ a+24 ≤ i) :
    writeEntry mem a e i = mem i := by
  rw [writeEntry, writeLE_other (by omega), writeLE_other (by omega), writeLE_other (by omega),
    writeLE_other (by omega)]

/-- An entry whose fields fit their widths is read back as it was written. -/
theorem readEntry_writeEntry (mem : Bytes) (a : Nat) {e : E820Entry} (hb : e.base < 2^64) (hl : e.length < 2^64)
    (ht : e.regionType < 2^32) (hf : e.acpiExtended < 2^32) : readEntry (writeEntry mem a e) a = e := by
  have hbase : readLE (writeEntry mem a e) a 8 = e.base := by
    rw [writeEntry, readLE_writeLE_other (by omega), readLE_writeLE_other (by omega),
      readLE_writeLE_other (by omega), readLE_writeLE]
    exact Nat.mod_eq_of_lt hb
  have hlength : readLE (writeEntry mem a e) (a+8) 8 = e.length := by
    rw [writeEntry, readLE_writeLE_other (by omega), readLE_writeLE_other (by omega), readLE_writeLE]
    exact Nat.mod_eq_of_lt hl
  have htype : readLE (writeEntry mem a e) (a+16) 4 = e.regionType := by
    rw [writeEntry, readLE_writeLE_other (by omega), readLE_writeLE]
    exact Nat.mod_eq_of_lt ht
  have hflags : readLE (writeEntry mem a e) (a+20) 4 = e.acpiExtended := by
    rw [writeEntry, readLE_writeLE]
    exact Nat.mod_eq_of_lt hf
  rw [readEntry, hbase, hlength, htype, hflags]

private theorem readEntry_writeEntry_other (mem : Bytes) {a k : Nat} (e : E820Entry) (h : k+24 ≤ a ∨ a+24 ≤ k) :
    readEntry (writeEntry mem a e) k = readEntry mem k :=
  readEntry_congr fun _ _ _ => writeEntry_other mem e (by omega)

theorem efiTypeToE820_range (efiType : BitVec 32) : 1 ≤ efiTypeToE820 efiType ∧ efiTypeToE820 efiType ≤ 5 := by
  unfold efiTypeToE820
  split_ifs <;> decide

private theorem readEntry_convertDescriptor (mem : Bytes) (a : Nat) (d : EfiMemoryDescriptor) :
    readEntry (writeEntry mem a (convertDescriptor d)) a = convertDescriptor d := by
  have htype := (efiTypeToE820_range d.efiType).2
  have hlt : efiTypeToE820 d.efiType < 2^32 := by omega
  exact readEntry_writeEntry mem a d.physicalStart.isLt (u64_lt _) hlt (show 1 < 2^32 by decide)

/-! ### The loops -/

/-- The descriptors the loader does not skip. -/
def nonEmpty (descs : List EfiMemoryDescriptor) : List EfiMemoryDescriptor :=
  descs.filter fun d => d.numberOfPages ≠ 0

/-- The loop writes the entries of the non-empty descriptors one behind the other. -/
private theorem convertLoop_spec (descs : List EfiMemoryDescriptor) (count : Nat) (mem : Bytes)
    (h : count + (nonEmpty descs).length ≤ maxE820Entries) :
    (convertLoop descs count mem).1 = count + (nonEmpty descs).length ∧
    (∀ i < count, readEntry (convertLoop descs count mem).2 (uefiE820MapAddr + 24*i) =
      readEntry mem (uefiE820MapAddr + 24*i)) ∧
    ∀ i d, (nonEmpty descs)[i]? = some d →
      readEntry (convertLoop descs count mem).2 (uefiE820MapAddr + 24*(count+i)) = convertDescriptor d := by
  induction descs generalizing count mem with
  | nil => simp [convertLoop, nonEmpty]
  | cons d descs ih =>
    rw [convertLoop]
    by_cases hempty : d.numberOfPages = 0
    · have hskip : nonEmpty (d :: descs) = nonEmpty descs := List.filter_cons_of_neg (by simp [hempty])
      rw [hskip] at h ⊢
      by_cases hroom : count < maxE820Entries
      · rw [if_pos hroom, if_pos hempty]
        exact ih count mem h
      · rw [if_neg hroom]
        have hnone : nonEmpty descs = [] := List.eq_nil_of_length_eq_zero (by omega)
        simp [hnone]
    · have hkeep : nonEmpty (d :: descs) = d :: nonEmpty descs := List.filter_cons_of_pos (decide_eq_true hempty)
      rw [hkeep, List.length_cons] at h ⊢
      rw [if_pos (by omega), if_neg hempty]
      obtain ⟨hcount, hbefore, hafter⟩ := ih (count+1)
        (writeEntry mem (uefiE820MapAddr + 24*count) (convertDescriptor d)) (by omega)
      refine ⟨by omega, fun i hi => ?_, fun i d' hd => ?_⟩
      · rw [hbefore i (by omega), readEntry_writeEntry_other _ _ (by omega)]
      · cases i with
        | zero =>
          obtain rfl : d = d' := by simpa using hd
          exact (hbefore count (Nat.lt_succ_self count)).trans (readEntry_convertDescriptor mem _ d)
        | succ i =>
          rw [Nat.add_comm i 1, ← Nat.add_assoc]
          exact hafter i d' (by simpa using hd)

namespace MemoryMap

theorem countEntries_le (mem : Bytes) (addr n count : Nat) : countEntries mem addr n count ≤ count + n := by
  induction n generalizing count with
  | zero => exact le_rfl
  | succ n ih =>
    have hnext := ih (count+1)
    rw [countEntries]
    split
    · omega
    · split <;> omega

/-- No parsed map has more than `MAX_MEMORY_ENTRIES` entries. -/
theorem parse_length_le (mem : Bytes) (addr : Nat) : (parse mem addr).entries.length ≤ maxMemoryEntries := by
  have hle := countEntries_le mem addr maxMemoryEntries 0
  rw [parse, List.length_map, List.length_range]
  omega

/-- Every length of a parsed map is a 64-bit number. -/
theorem parse_length_lt {mem : Bytes} {addr : Nat} {e : E820Entry} (he : e ∈ (parse mem addr).entries) :
    e.length < 2^64 := by
  obtain ⟨i, _, rfl⟩ := List.mem_map.mp he
  exact readLE_lt mem _ 8

/-- The scan passes the good entries and stops at the first that is not. -/
private theorem countEntries_eq {mem : Bytes} {addr stop n count : Nat} (hcount : count ≤ stop)
    (hn : stop ≤ count + n)
    (hgood : ∀ i < stop, 1 ≤ (readEntry mem (u64 (addr + 24*i))).regionType ∧
      (readEntry mem (u64 (addr + 24*i))).regionType ≤ 5 ∧ (readEntry mem (u64 (addr + 24*i))).length ≠ 0)
    (hstop : (readEntry mem (u64 (addr + 24*stop))).regionType = 0) : countEntries mem addr n count = stop := by
  induction n generalizing count with
  | zero =>
    rw [countEntries]
    omega
  | succ n ih =>
    rw [countEntries]
    rcases Nat.eq_or_lt_of_le hcount with rfl | hlt
    · rw [if_pos (.inl (by omega))]
    · obtain ⟨h₁, h₂, h₃⟩ := hgood count hlt
      rw [if_neg (by omega), if_neg h₃]
      exact ih hlt (by omega)

end MemoryMap

/-! ### The hand-over -/

/-- A descriptor as the kernel should see it. -/
def EfiMemoryDescriptor.entry (d : EfiMemoryDescriptor) : E820Entry :=
  ⟨d.physicalStart.toNat, d.numberOfPages.toNat * 4096, efiTypeToE820 d.efiType, 1⟩

private theorem convertDescriptor_entry {d : EfiMemoryDescriptor} (h : d.numberOfPages.toNat < 2^52) :
    convertDescriptor d = d.entry := by
  rw [convertDescriptor, EfiMemoryDescriptor.entry, u64_of_lt (by omega)]

private theorem entryAddr {i : Nat} (h : i ≤ maxMemoryEntries) :
    u64 (uefiE820MapAddr + 24*i) = uefiE820MapAddr + 24*i := by
  unfold maxMemoryEntries at h
  unfold uefiE820MapAddr
  exact u64_of_lt (by omega)

/-- A map that fits is parsed back entry by entry. -/
theorem parse_converted {descs : List EfiMemoryDescriptor} (mem : Bytes)
    (hlen : (nonEmpty descs).length ≤ maxMemoryEntries)
    (hpages : ∀ d ∈ nonEmpty descs, d.numberOfPages.toNat < 2^52) :
    (MemoryMap.parse (convertUefiMapToE820 descs mem).2 uefiE820MapAddr).entries =
      (nonEmpty descs).map EfiMemoryDescriptor.entry := by
  have hmax : (nonEmpty descs).length ≤ maxE820Entries := hlen.trans (by decide)
  obtain ⟨hcount, _, hwritten⟩ := convertLoop_spec descs 0 (fun i =>
    if uefiE820MapAddr ≤ i ∧ i < uefiE820MapAddr + (maxE820Entries+1)*24 then 0#8 else mem i) (by omega)
  rw [Nat.zero_add] at hcount
  -- the sentinel lies behind the entries
  have hentry : ∀ i d, (nonEmpty descs)[i]? = some d →
      readEntry (convertUefiMapToE820 descs mem).2 (u64 (uefiE820MapAddr + 24*i)) = d.entry := by
    intro i d hd
    have hi : i < (nonEmpty descs).length := (List.getElem?_eq_some_iff.mp hd).1
    have hread := hwritten i d hd
    rw [Nat.zero_add] at hread
    rw [entryAddr (by omega), convertUefiMapToE820]
    dsimp only
    rw [readEntry_writeEntry_other _ _ (by omega), hread]
    exact convertDescriptor_entry (hpages d (List.mem_of_getElem? hd))
  have hsentinel : (readEntry (convertUefiMapToE820 descs mem).2
      (u64 (uefiE820MapAddr + 24*(nonEmpty descs).length))).regionType = 0 := by
    rw [entryAddr hlen, convertUefiMapToE820]
    dsimp only
    rw [hcount, readEntry_writeEntry _ _ (by decide) (by decide) (by decide) (by decide)]
  have hscan : MemoryMap.countEntries (convertUefiMapToE820 descs mem).2 uefiE820MapAddr maxMemoryEntries 0 =
      (nonEmpty descs).length := by
    refine MemoryMap.countEntries_eq (Nat.zero_le _) (by omega) (fun i hi => ?_) hsentinel
    have hd := List.getElem?_eq_getElem hi
    rw [hentry i _ hd]
    obtain ⟨h₁, h₂⟩ := efiTypeToE820_range (nonEmpty descs)[i].efiType
    refine ⟨h₁, h₂, ?_⟩
    have hkept := (List.mem_filter.mp (List.mem_of_getElem? hd)).2
    have hpos : (nonEmpty descs)[i].numberOfPages.toNat ≠ 0 := by
      intro hzero
      simp [BitVec.eq_of_toNat_eq (x := (nonEmpty descs)[i].numberOfPages) (y := 0) hzero] at hkept
    change (nonEmpty descs)[i].numberOfPages.toNat * 4096 ≠ 0
    omega
  rw [MemoryMap.parse, hscan]
  apply List.ext_getElem?
  intro i
  rw [List.getElem?_map, List.getElem?_map]
  by_cases hi : i < (nonEmpty descs).length
  · have hd := List.getElem?_eq_getElem hi
    rw [List.getElem?_range hi, hd]
    exact congrArg some (hentry i _ hd)
  · rw [List.getElem?_eq_none (by simpa using hi), List.getElem?_eq_none (by omega)]
    rfl

/-- The kernel sees the loader's map exactly if there are at most 64 non-empty descriptors and each
length fits 64 bits. -/
theorem parse_convert_iff (descs : List EfiMemoryDescriptor) (mem : Bytes) :
    (MemoryMap.parse (convertUefiMapToE820 descs mem).2 uefiE820MapAddr).entries =
      (nonEmpty descs).map EfiMemoryDescriptor.entry ↔
    (nonEmpty descs).length ≤ maxMemoryEntries ∧ ∀ d ∈ nonEmpty descs, d.numberOfPages.toNat < 2^52 := by
  constructor
  · intro h
    constructor
    · rw [← List.length_map (f := EfiMemoryDescriptor.entry), ← h]
      exact MemoryMap.parse_length_le _ _
    · intro d hd
      have hmem := List.mem_map_of_mem (f := EfiMemoryDescriptor.entry) hd
      rw [← h] at hmem
      have hlt : d.numberOfPages.toNat * 4096 < 2^64 := MemoryMap.parse_length_lt hmem
      omega
  · rintro ⟨hlen, hpages⟩
    exact parse_converted mem hlen hpages

/-- One page from 1 MiB on, listed 65 times over. -/
def sixtyFive : List EfiMemoryDescriptor := List.replicate 65 ⟨efiConventionalMemory, 0x100000, 1⟩

/-- Of 65 entries the kernel sees at most 64. -/
theorem parse_convert_truncated : ¬ ∀ (descs : List EfiMemoryDescriptor) (mem : Bytes),
    (nonEmpty descs).length ≤ maxE820Entries →
    (MemoryMap.parse (convertUefiMapToE820 descs mem).2 uefiE820MapAddr).entries =
      (nonEmpty descs).map EfiMemoryDescriptor.entry := by
  intro h
  have hlen : (nonEmpty sixtyFive).length = 65 := by decide
  have hentries := congrArg List.length (h sixtyFive (fun _ => 0#8) (by rw [hlen]; decide))
  have hle := MemoryMap.parse_length_le (convertUefiMapToE820 sixtyFive fun _ => 0#8).2 uefiE820MapAddr
  rw [hentries, List.length_map, hlen] at hle
  exact absurd hle (by decide)

end Nafuraito.Memory
