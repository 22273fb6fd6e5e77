import Nafuraito.Library.Fallible
import Nafuraito.Pci.Config

/-! The two walks along a function's capability list: the search for an id and the iterator. -/
namespace Nafuraito.Pci
open Nafuraito.Library

structure Capability where
  id : BitVec 8
  offset : BitVec 8
  deriving DecidableEq, Repr

structure CapabilityIterator where
  addr : PciAddress
  nextOffset : BitVec 8
  iterations : BitVec 8

namespace CapabilityIterator
variable (c : ConfigSpace)

def new (addr : PciAddress) : Option CapabilityIterator :=
  if pciConfigRead16 c addr pciStatus &&& pciStatusCapabilitiesList = 0 then none
  else some ⟨addr, pciConfigRead8 c addr pciCapabilitiesPtr &&& 0xFC, 0⟩

/-- The end, `None`, is the only error. -/
def next : Fallible CapabilityIterator Unit Capability := do
  let it ← Fallible.get
  if it.nextOffset = 0 ∨ it.iterations ≥ 48 then Fallible.throw ()
  else do
    let capHeader := pciConfigRead16 c it.addr it.nextOffset
    Fallible.modify fun it =>
      { it with iterations := it.iterations + 1, nextOffset := ((capHeader >>> 8) &&& 0xFC).setWidth 8 }
    pure ⟨(capHeader &&& 0xFF).setWidth 8, it.nextOffset⟩

end CapabilityIterator

/-- The loop of `pci_find_capability` as it is written, with the number of rounds it runs: it stands at an offset
after so many iterations. -/
inductive FindLoop (c : ConfigSpace) (addr : PciAddress) (capId : BitVec 8) :
    BitVec 8 → Nat → Nat → Option (BitVec 8) → Prop
  | exit {capOffset : BitVec 8} {iterations : Nat} (h : ¬ (capOffset ≠ 0 ∧ iterations < 48)) :
      FindLoop c addr capId capOffset iterations 0 none
  | found {capOffset : BitVec 8} {iterations : Nat} (h : capOffset ≠ 0 ∧ iterations < 48)
      (hid : (pciConfigRead16 c addr capOffset &&& 0xFF).setWidth 8 = capId) :
      FindLoop c addr capId capOffset iterations 1 (some capOffset)
  | next {capOffset : BitVec 8} {iterations rounds : Nat} {r : Option (BitVec 8)} (h : capOffset ≠ 0 ∧ iterations < 48)
      (hid : (pciConfigRead16 c addr capOffset &&& 0xFF).setWidth 8 ≠ capId)
      (hrest : FindLoop c addr capId (((pciConfigRead16 c addr capOffset >>> 8) &&& 0xFC).setWidth 8) (iterations+1)
        rounds r) :
      FindLoop c addr capId capOffset iterations (rounds+1) r

variable (c : ConfigSpace) (addr : PciAddress)

/-- The first capabilities from an offset on. -/
def capabilitiesFrom : Nat → BitVec 8 → List Capability
  | 0, _ => []
  | n+1, capOffset =>
    if capOffset = 0 then []
    else
      let capHeader := pciConfigRead16 c addr capOffset
      ⟨(capHeader &&& 0xFF).setWidth 8, capOffset⟩ ::
        capabilitiesFrom n (((capHeader >>> 8) &&& 0xFC).setWidth 8)

variable {c addr} {capId capOffset : BitVec 8}

theorem length_capabilitiesFrom (n : Nat) : (capabilitiesFrom c addr n capOffset).length ≤ n := by
  induction n generalizing capOffset with
  | zero => exact Nat.le_refl 0
  | succ n ih =>
    rw [capabilitiesFrom]
    split_ifs
    · exact Nat.zero_le _
    · exact Nat.succ_le_succ ih

theorem walkCapabilities_eq (n : Nat) : walkCapabilities c addr capId n capOffset =
    ((capabilitiesFrom c addr n capOffset).find? fun cap => cap.id == capId).map Capability.offset := by
  induction n generalizing capOffset with
  | zero => rfl
  | succ n ih =>
    rw [walkCapabilities, capabilitiesFrom]
    by_cases hzero : capOffset = 0
    · rw [if_pos hzero, if_pos hzero]
      rfl
    rw [if_neg hzero, if_neg hzero]
    dsimp only
    by_cases hid : (pciConfigRead16 c addr capOffset &&& 0xFF).setWidth 8 = capId
    · rw [if_pos hid, List.find?_cons, hid, beq_self_eq_true]
      rfl
    · rw [if_neg hid, ih, List.find?_cons, beq_false_of_ne hid]

/-- The loop ends, after no more rounds than are left to it, with what the walk returns. -/
theorem findLoop_walk (capOffset : BitVec 8) {n iterations : Nat} (hn : iterations+n = 48) :
    ∃ rounds ≤ n, FindLoop c addr capId capOffset iterations rounds (walkCapabilities c addr capId n capOffset) := by
  induction n generalizing iterations capOffset with
  | zero => exact ⟨0, Nat.le_refl 0, .exit (by omega)⟩
  | succ n ih =>
    rw [walkCapabilities]
    by_cases hzero : capOffset = 0
    · rw [if_pos hzero]
      exact ⟨0, Nat.zero_le _, .exit fun h => h.1 hzero⟩
    rw [if_neg hzero]
    dsimp only
    have hround : capOffset ≠ 0 ∧ iterations < 48 := ⟨hzero, by omega⟩
    split_ifs with hid
    · exact ⟨1, by omega, .found hround hid⟩
    · have hnext : iterations+1+n = 48 := by omega
      obtain ⟨rounds, hle, hrest⟩ := ih (((pciConfigRead16 c addr capOffset >>> 8) &&& 0xFC).setWidth 8) hnext
      exact ⟨rounds+1, by omega, .next hround hid hrest⟩

/-- The iterator yields the capabilities that are left to it, and ends. -/
theorem yields_capabilitiesFrom {n : Nat} {it : CapabilityIterator} (hn : it.iterations.toNat+n = 48) :
    Fallible.Yields (CapabilityIterator.next c) it (capabilitiesFrom c it.addr n it.nextOffset) () := by
  induction n generalizing it with
  | zero =>
    have hend : it.nextOffset = 0 ∨ it.iterations ≥ 48 := .inr (BitVec.le_def.mpr (by change 48 ≤ _; omega))
    exact .stop (t := it) (by rw [CapabilityIterator.next, Fallible.get_bind_run, if_pos hend]; rfl)
  | succ n ih =>
    rw [capabilitiesFrom]
    by_cases hzero : it.nextOffset = 0
    · rw [if_pos hzero]
      exact .stop (t := it) (by rw [CapabilityIterator.next, Fallible.get_bind_run, if_pos (.inl hzero)]; rfl)
    · have hround : ¬ (it.nextOffset = 0 ∨ it.iterations ≥ 48) := by
        rintro (h | h)
        · exact hzero h
        · have := BitVec.le_def.mp h
          change 48 ≤ _ at this
          omega
      rw [if_neg hzero]
      refine .next (by rw [CapabilityIterator.next, Fallible.get_bind_run, if_neg hround]; rfl) (ih ?_)
      dsimp only
      rw [BitVec.toNat_add]
      change (it.iterations.toNat+1)%256+n = 48
      omega

/-- The search returns the offset of the first capability with the id that the iterator yields, where there is an
iterator, and both end within 48 rounds. -/
theorem pciFindCapability_eq_iterator (c : ConfigSpace) (addr : PciAddress) (capId : BitVec 8) :
    match CapabilityIterator.new c addr with
    | none => pciFindCapability c addr capId = none
    | some it =>
      (∃ rounds ≤ 48, FindLoop c addr capId (pciConfigRead8 c addr pciCapabilitiesPtr &&& 0xFC) 0 rounds
        (pciFindCapability c addr capId)) ∧
      ∃ items : List Capability, Fallible.Yields (CapabilityIterator.next c) it items () ∧ items.length ≤ 48 ∧
        pciFindCapability c addr capId = (items.find? fun cap => cap.id == capId).map Capability.offset := by
  by_cases hlist : pciConfigRead16 c addr pciStatus &&& pciStatusCapabilitiesList = 0
  · rw [CapabilityIterator.new, pciFindCapability, if_pos hlist, if_pos hlist]
  · rw [CapabilityIterator.new, pciFindCapability, if_neg hlist, if_neg hlist]
    exact ⟨findLoop_walk _ rfl, _, yields_capabilitiesFrom (n := 48) rfl, length_capabilitiesFrom 48,
      walkCapabilities_eq 48⟩

end Nafuraito.Pci
