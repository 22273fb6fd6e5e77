import Nafuraito.Library.Chains
import Nafuraito.Pci.Config

/-! The enumeration of the PCI buses. It follows the secondary bus numbers it reads from bridges, and returns
exactly if none of the buses it comes to lies on a cycle of bridges. -/
namespace Nafuraito.Pci
open Nafuraito.Library

/-- `MAX_PCI_DEVICES`, the length of the table of devices found. -/
def maxPciDevices : Nat := 256

section Enumerate
variable (c : ConfigSpace)

/-- The call for the secondary bus of a bridge is the argument `enumerateBus`. -/
def pciEnumerateFunction (enumerateBus : BitVec 8 → List PciDevice → Option (List PciDevice))
    (bus device function : BitVec 8) (devices : List PciDevice) : Option (List PciDevice) :=
  match PciDevice.read c (.new bus device function) with
  | none => some devices
  | some dev =>
    let devices := if devices.length < maxPciDevices then devices ++ [dev] else devices
    if dev.classCode = 0x06 ∧ dev.subclass = 0x04 then
      enumerateBus (pciConfigRead8 c (.new bus device function) 0x19) devices
    else some devices

def pciEnumerateDevice (enumerateBus : BitVec 8 → List PciDevice → Option (List PciDevice))
    (bus device : BitVec 8) (devices : List PciDevice) : Option (List PciDevice) :=
  if PciDevice.existsAt c (.new bus device 0) then do
    let devices ← pciEnumerateFunction c enumerateBus bus device 0 devices
    if pciConfigRead8 c (.new bus device 0) pciHeaderType &&& pciHeaderTypeMultiFunction ≠ 0 then
      (List.range' 1 7).foldlM (fun devices function =>
        if PciDevice.existsAt c (.new bus device (BitVec.ofNat 8 function)) then
          pciEnumerateFunction c enumerateBus bus device (BitVec.ofNat 8 function) devices
        else some devices) devices
    else some devices
  else some devices

/-- The first argument is how many calls of this function may be nested; `none` means that it was too few. -/
def pciEnumerateBus : Nat → BitVec 8 → List PciDevice → Option (List PciDevice)
  | 0, _, _ => none
  | depth+1, bus, devices =>
    (List.range 32).foldlM (fun devices device =>
      pciEnumerateDevice c (pciEnumerateBus depth) bus (BitVec.ofNat 8 device) devices) devices

/-- The devices found; their number is what `pci_enumerate` returns. -/
def pciEnumerate (depth : Nat) : Option (List PciDevice) :=
  if pciConfigRead8 c (.new 0 0 0) pciHeaderType &&& pciHeaderTypeMultiFunction ≠ 0 then
    (List.range 8).foldlM (fun devices function =>
      if PciDevice.existsAt c (.new 0 0 (BitVec.ofNat 8 function)) then
        pciEnumerateBus c depth (BitVec.ofNat 8 function) devices
      else some devices) []
  else pciEnumerateBus c depth 0 []

/-! ### Bridges -/

/-- The functions of a device that the enumeration looks at. -/
def Visits (bus : BitVec 8) (device function : Nat) : Prop :=
  PciDevice.existsAt c (.new bus (BitVec.ofNat 8 device) 0) ∧ (function = 0 ∨
    pciConfigRead8 c (.new bus (BitVec.ofNat 8 device) 0) pciHeaderType &&& pciHeaderTypeMultiFunction ≠ 0 ∧
      PciDevice.existsAt c (.new bus (BitVec.ofNat 8 device) (BitVec.ofNat 8 function)))

/-- The function is a bridge between PCI buses, and its secondary bus is `secondary`. -/
def BridgeAt (addr : PciAddress) (secondary : BitVec 8) : Prop :=
  PciDevice.existsAt c addr ∧ pciConfigRead8 c addr pciClass = 0x06 ∧ pciConfigRead8 c addr pciSubclass = 0x04 ∧
    pciConfigRead8 c addr 0x19 = secondary

/-- A bridge that is visited on `bus` leads to `secondary`. -/
def Bridge (bus secondary : BitVec 8) : Prop :=
  ∃ device < 32, ∃ function < 8, Visits c bus device function ∧
    BridgeAt c (.new bus (BitVec.ofNat 8 device) (BitVec.ofNat 8 function)) secondary

/-- The buses the enumeration starts with: one for each function of a multi-function host bridge, or bus 0. -/
def StartsAt (bus : BitVec 8) : Prop :=
  if pciConfigRead8 c (.new 0 0 0) pciHeaderType &&& pciHeaderTypeMultiFunction ≠ 0 then
    ∃ function < 8, PciDevice.existsAt c (.new 0 0 (BitVec.ofNat 8 function)) ∧ bus = BitVec.ofNat 8 function
  else bus = 0

/-- No bus that the enumeration comes to leads back to itself. -/
def Acyclic : Prop := ∀ bus, StartsAt c bus → ¬ ReachesCycle (Bridge c) bus

end Enumerate

/-! ### What returns -/

/-- A loop returns if each of its rounds does, where this does not depend on what the rounds before it left. -/
private theorem foldlM_returns {α σ : Type} {step : σ → α → Option σ} {good : α → Prop}
    (h : ∀ s x, (step s x).isSome ↔ good x) (xs : List α) (s : σ) :
    (xs.foldlM step s).isSome ↔ ∀ x ∈ xs, good x := by
  induction xs generalizing s with
  | nil => simp
  | cons x xs ih =>
    rw [List.foldlM_cons, List.forall_mem_cons, ← h s x]
    cases step s x with
    | none => simp
    | some t => simpa using ih t

section Returns
variable {c : ConfigSpace} {enumerateBus : BitVec 8 → List PciDevice → Option (List PciDevice)}
variable {good : BitVec 8 → Prop} (hbus : ∀ bus devices, (enumerateBus bus devices).isSome ↔ good bus)
include hbus

private theorem pciEnumerateFunction_returns (bus device function : BitVec 8) (devices : List PciDevice) :
    (pciEnumerateFunction c enumerateBus bus device function devices).isSome ↔
      ∀ secondary, BridgeAt c (.new bus device function) secondary → good secondary := by
  rw [pciEnumerateFunction, PciDevice.read]
  by_cases hvendor : pciConfigRead16 c (.new bus device function) pciVendorId = pciVendorIdInvalid
  · simp [hvendor, BridgeAt, PciDevice.existsAt]
  · simp only [if_neg hvendor]
    by_cases hclass : pciConfigRead8 c (.new bus device function) pciClass = 0x06 ∧
        pciConfigRead8 c (.new bus device function) pciSubclass = 0x04
    · rw [if_pos hclass, hbus]
      constructor
      · rintro hgood secondary ⟨_, _, _, rfl⟩
        exact hgood
      · intro h
        exact h _ ⟨by simpa [PciDevice.existsAt] using hvendor, hclass.1, hclass.2, rfl⟩
    · rw [if_neg hclass]
      simp only [Option.isSome_some, true_iff]
      rintro secondary ⟨_, h₁, h₂, _⟩
      exact absurd ⟨h₁, h₂⟩ hclass

private theorem guarded_returns (bus device : BitVec 8) (devices : List PciDevice) (function : Nat) :
    (if PciDevice.existsAt c (.new bus device (BitVec.ofNat 8 function)) then
        pciEnumerateFunction c enumerateBus bus device (BitVec.ofNat 8 function) devices
      else some devices).isSome ↔
      (PciDevice.existsAt c (.new bus device (BitVec.ofNat 8 function)) → ∀ secondary,
        BridgeAt c (.new bus device (BitVec.ofNat 8 function)) secondary → good secondary) := by
  split
  · rename_i hex
    rw [pciEnumerateFunction_returns hbus]
    simp [hex]
  · rename_i hex
    simp [hex]

private theorem pciEnumerateDevice_returns (bus : BitVec 8) (device : Nat) (devices : List PciDevice) :
    (pciEnumerateDevice c enumerateBus bus (BitVec.ofNat 8 device) devices).isSome ↔
      ∀ function < 8, Visits c bus device function → ∀ secondary,
        BridgeAt c (.new bus (BitVec.ofNat 8 device) (BitVec.ofNat 8 function)) secondary → good secondary := by
  rw [pciEnumerateDevice]
  by_cases hex : PciDevice.existsAt c (.new bus (BitVec.ofNat 8 device) 0)
  · rw [if_pos hex]
    have hfirst := pciEnumerateFunction_returns (c := c) hbus bus (BitVec.ofNat 8 device) 0 devices
    cases hrun : pciEnumerateFunction c enumerateBus bus (BitVec.ofNat 8 device) 0 devices with
    | none =>
      rw [hrun] at hfirst
      constructor
      · intro h
        cases h
      · intro h
        exact absurd (hfirst.mpr (h 0 (by decide) ⟨hex, .inl rfl⟩)) (by simp)
    | some devices' =>
      have hzero := hfirst.mp (by rw [hrun]; rfl)
      rw [Option.bind_eq_bind, Option.bind_some]
      split
      · rename_i hmulti
        rw [foldlM_returns (guarded_returns hbus bus (BitVec.ofNat 8 device))]
        constructor
        · intro h function hfunction hvisits
          rcases hvisits.2 with rfl | ⟨_, hthere⟩
          · exact hzero
          · rcases Nat.eq_zero_or_pos function with rfl | hpos
            · exact hzero
            · exact h function (List.mem_range'_1.mpr (by omega)) hthere
        · intro h function hmem hthere
          rw [List.mem_range'_1] at hmem
          exact h function (by omega) ⟨hex, .inr ⟨hmulti, hthere⟩⟩
      · rename_i hsingle
        simp only [Option.isSome_some, true_iff]
        intro function _ hvisits
        rcases hvisits.2 with rfl | ⟨hmulti, _⟩
        · exact hzero
        · exact absurd hmulti hsingle
  · rw [if_neg hex]
    simp only [Option.isSome_some, true_iff]
    exact fun _ _ hvisits => absurd hvisits.1 hex

end Returns

section Buses
variable (c : ConfigSpace)

/-- With `depth` nested calls a bus is done exactly if no chain of `depth` bridges starts there. -/
theorem pciEnumerateBus_returns_iff (depth : Nat) (bus : BitVec 8) (devices : List PciDevice) :
    (pciEnumerateBus c depth bus devices).isSome ↔ ¬ Chain (Bridge c) depth bus := by
  induction depth generalizing bus devices with
  | zero => simp [pciEnumerateBus, Chain]
  | succ depth ih =>
    rw [pciEnumerateBus, foldlM_returns fun devices device => pciEnumerateDevice_returns ih bus device devices]
    simp only [List.mem_range, Chain, Bridge]
    constructor
    · rintro h ⟨secondary, ⟨device, hdevice, function, hfunction, hvisits, hbridge⟩, hchain⟩
      exact h device hdevice function hfunction hvisits secondary hbridge hchain
    · intro h device hdevice function hfunction hvisits secondary hbridge hchain
      exact h ⟨secondary, ⟨device, hdevice, function, hfunction, hvisits, hbridge⟩, hchain⟩

private theorem pciEnumerate_chain_iff (depth : Nat) :
    (pciEnumerate c depth).isSome ↔ ∀ bus, StartsAt c bus → ¬ Chain (Bridge c) depth bus := by
  rw [pciEnumerate]
  unfold StartsAt
  split
  · have hround : ∀ devices (function : Nat),
        (if PciDevice.existsAt c (.new 0 0 (BitVec.ofNat 8 function)) then
          pciEnumerateBus c depth (BitVec.ofNat 8 function) devices else some devices).isSome ↔
        (PciDevice.existsAt c (.new 0 0 (BitVec.ofNat 8 function)) →
          ¬ Chain (Bridge c) depth (BitVec.ofNat 8 function)) := by
      intro devices function
      split
      · rename_i hex
        rw [pciEnumerateBus_returns_iff]
        exact ⟨fun h _ => h, fun h => h hex⟩
      · rename_i hex
        exact ⟨fun _ h => absurd h hex, fun _ => rfl⟩
    rw [foldlM_returns hround]
    constructor
    · rintro h bus ⟨function, hfunction, hex, rfl⟩
      exact h function (List.mem_range.mpr hfunction) hex
    · intro h function hfunction hex
      exact h _ ⟨function, List.mem_range.mp hfunction, hex, rfl⟩
  · rw [pciEnumerateBus_returns_iff]
    exact ⟨fun h bus hbus => hbus ▸ h, fun h => h 0 rfl⟩

/-- The enumeration returns, with at most 256 nested calls for a bus, exactly if no bus it comes to leads
back to itself; else it does not return, however deep the calls may be nested. -/
theorem pciEnumerate_returns_iff :
    ((pciEnumerate c 256).isSome ↔ Acyclic c) ∧ ((∃ depth, (pciEnumerate c depth).isSome) ↔ Acyclic c) := by
  have hbuses : Function.Injective (BitVec.toFin : BitVec 8 → Fin 256) := fun _ _ h => BitVec.eq_of_toFin_eq h
  have hdeep : (pciEnumerate c 256).isSome ↔ Acyclic c := by
    rw [pciEnumerate_chain_iff]
    exact forall₂_congr fun bus _ => not_congr (reachesCycle_iff_chain hbuses).symm
  refine ⟨hdeep, ?_, fun h => ⟨256, hdeep.mpr h⟩⟩
  rintro ⟨depth, hdepth⟩ bus hstart hcycle
  exact (pciEnumerate_chain_iff c depth).mp hdepth bus hstart (hcycle.chain depth)

end Buses

/-- One function only, a bridge whose secondary bus number was left 0. -/
def unnumberedBridge : ConfigSpace := fun addr offset =>
  if addr = .new 0 0 0 then
    if offset = 0x00 then 0x12348086 else if offset = 0x08 then 0x06040000 else 0
  else 0xFFFFFFFF

/-- The bridge leads from bus 0 to bus 0: the enumeration does not return. -/
theorem unnumberedBridge_loops : ¬ ∃ depth, (pciEnumerate unnumberedBridge depth).isSome := by
  rintro ⟨depth, hreturns⟩
  have hbridge : Bridge unnumberedBridge 0 0 :=
    ⟨0, by decide, 0, by decide, ⟨by decide, .inl rfl⟩, by decide, by decide, by decide, by decide⟩
  have hcycle : ReachesCycle (Bridge unnumberedBridge) 0 := ⟨0, .refl, .single hbridge⟩
  have hstart : StartsAt unnumberedBridge 0 := by
    rw [StartsAt, if_neg (by decide)]
  rw [pciEnumerate_chain_iff] at hreturns
  exact hreturns 0 hstart (hcycle.chain depth)

end Nafuraito.Pci
