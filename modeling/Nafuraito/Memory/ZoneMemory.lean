import Nafuraito.Memory.MemoryMap

/-! The memory of a map by zone: every usable entry is clipped to the zone, and the clipped
lengths are summed with wrap-around. -/
namespace Nafuraito.Memory

namespace E820Entry

/-- Start and length of the part of an entry that lies in a zone. -/
def zoneOverlap (e : E820Entry) (zone : MemoryZone) : Option (Nat × Nat) :=
  let zoneStart := zone.startAddress
  let zoneEnd := zone.endAddress
  let entryStart := e.base
  let entryEnd := e.endAddr
  if entryStart ≥ zoneEnd ∨ entryEnd ≤ zoneStart then none
  else
    let overlapStart := max entryStart zoneStart
    let overlapEnd := min entryEnd zoneEnd
    some (overlapStart, u64Sub overlapEnd overlapStart)

/-- The bytes of an entry that a zone's sum counts. -/
def zoneBytes (e : E820Entry) (zone : MemoryZone) : Nat := ((e.zoneOverlap zone).map (·.2)).getD 0

theorem zoneBytes_eq (e : E820Entry) (zone : MemoryZone) :
    e.zoneBytes zone = min e.endAddr zone.endAddress - max e.base zone.startAddress := by
  have hend : e.endAddr = min (e.base + e.length) (2^64-1) := rfl
  have hzone : zone.startAddress ≤ zone.endAddress ∧ zone.endAddress ≤ 2^64-1 := by
    cases zone <;> decide
  simp only [zoneBytes, zoneOverlap]
  split
  · simp only [Option.map_none, Option.getD_none]
    omega
  · simp only [Option.map_some, Option.getD_some]
    apply u64Sub_of_le <;> omega

/-- The zones cut `[0, 2^64-1)` up, so an entry's pieces add up to its length. -/
theorem zoneBytes_sum {e : E820Entry} (h : e.base + e.length < 2^64) :
    e.zoneBytes .dma + e.zoneBytes .dma32 + e.zoneBytes .normal = e.length := by
  have hend : e.endAddr = e.base + e.length := Nat.min_eq_left (by omega)
  simp only [zoneBytes_eq, hend, MemoryZone.startAddress, MemoryZone.endAddress, dmaZoneEnd, dma32ZoneEnd]
  omega

theorem zoneOverlap_highMem (e : E820Entry) : e.zoneOverlap .highMem = none := by
  have hend : e.endAddr ≤ 2^64-1 := Nat.min_le_right _ _
  exact if_pos (Or.inr hend)

end E820Entry

namespace MemoryMap

def totalUsableMemory (m : MemoryMap) : Nat :=
  m.entries.foldl (fun total e => if e.isUsable then u64 (total + e.length) else total) 0

/-- One round of the loop of `zone_memory`. -/
def addZone (zone : MemoryZone) (total : Nat) (e : E820Entry) : Nat :=
  if e.isUsable then
    match e.zoneOverlap zone with
    | some (_, length) => u64 (total + length)
    | none => total
  else total

def zoneMemory (m : MemoryMap) (zone : MemoryZone) : Nat := m.entries.foldl (addZone zone) 0

theorem addZone_eq (zone : MemoryZone) (total : Nat) (e : E820Entry) :
    addZone zone total e % 2^64 = (total + if e.isUsable then e.zoneBytes zone else 0) % 2^64 := by
  unfold addZone E820Entry.zoneBytes
  split
  · cases e.zoneOverlap zone with
    | none => simp
    | some piece => simp [u64]
  · rfl

/-- One round keeps the three sums together equal to the total. -/
private theorem addZone_total {e : E820Entry} (h : e.base + e.length < 2^64) {a b c total : Nat}
    (hsum : (a + b + c) % 2^64 = total % 2^64) :
    (addZone .dma a e + addZone .dma32 b e + addZone .normal c e) % 2^64 =
      (if e.isUsable then u64 (total + e.length) else total) % 2^64 := by
  have hd := addZone_eq .dma a e
  have hd32 := addZone_eq .dma32 b e
  have hn := addZone_eq .normal c e
  have hlength := E820Entry.zoneBytes_sum h
  by_cases hu : e.isUsable
  · simp only [if_pos hu, u64] at *
    omega
  · simp only [if_neg hu] at *
    omega

private theorem zones_fold {es : List E820Entry} (h : ∀ e ∈ es, e.base + e.length < 2^64) {a b c d : Nat}
    (hsum : (a + b + c) % 2^64 = d % 2^64) :
    (es.foldl (addZone .dma) a + es.foldl (addZone .dma32) b + es.foldl (addZone .normal) c) % 2^64 =
      es.foldl (fun total e => if e.isUsable then u64 (total + e.length) else total) d % 2^64 := by
  induction es generalizing a b c d with
  | nil => exact hsum
  | cons e es ih =>
    simp only [List.foldl_cons]
    apply ih fun e' he => h e' (List.mem_cons_of_mem e he)
    exact addZone_total (h e List.mem_cons_self) hsum

theorem totalUsableMemory_lt (m : MemoryMap) : m.totalUsableMemory < 2^64 := by
  unfold totalUsableMemory
  apply List.foldlRecOn (motive := (· < 2^64)) m.entries _ (by decide)
  intro total htotal e _
  split
  · exact u64_lt _
  · exact htotal

theorem zoneMemory_highMem (m : MemoryMap) : m.zoneMemory .highMem = 0 := by
  unfold zoneMemory
  apply List.foldlRecOn (motive := (· = 0)) m.entries _ rfl
  intro total htotal e _
  rw [addZone, E820Entry.zoneOverlap_highMem]
  simpa using htotal

/-- The three zones partition the usable memory of every map whose ends do not wrap. -/
theorem zoneMemory_partition {m : MemoryMap} (h : ∀ e ∈ m.entries, e.base + e.length < 2^64) :
    (m.zoneMemory .dma + m.zoneMemory .dma32 + m.zoneMemory .normal) % 2^64 = m.totalUsableMemory ∧
      m.zoneMemory .highMem = 0 := by
  refine ⟨?_, zoneMemory_highMem m⟩
  have hfold := zones_fold (a := 0) (b := 0) (c := 0) (d := 0) h rfl
  rwa [← totalUsableMemory, Nat.mod_eq_of_lt m.totalUsableMemory_lt] at hfold

/-- One entry across both boundaries of the 32-bit zone, one below it. -/
def straddling : MemoryMap := ⟨0x7000, [⟨0x800000, 2^33, 1, 0⟩, ⟨0, 0x9FC00, 1, 0⟩]⟩

theorem straddling_partition :
    (straddling.zoneMemory .dma + straddling.zoneMemory .dma32 + straddling.zoneMemory .normal) % 2^64 =
      straddling.totalUsableMemory ∧ straddling.zoneMemory .highMem = 0 :=
  zoneMemory_partition (by decide)

end MemoryMap
end Nafuraito.Memory
