import Mathlib.Logic.Function.Basic
import Mathlib.Tactic.IntervalCases

/-! PCI configuration space through the address and data ports, and what the kernel reads of a function there. -/
namespace Nafuraito.Pci

/-- Five bits of device and three of function, as `PciAddress::new` masks them. -/
structure PciAddress where
  bus : BitVec 8
  device : BitVec 5
  function : BitVec 3
  deriving DecidableEq, Repr

def PciAddress.new (bus device function : BitVec 8) : PciAddress :=
  ⟨bus, device.setWidth 5, function.setWidth 3⟩

/-- The doubleword the data port shows for each address and each aligned offset written to the address port. -/
abbrev ConfigSpace := PciAddress → BitVec 8 → BitVec 32

def pciVendorId : BitVec 8 := 0x00
def pciDeviceId : BitVec 8 := 0x02
def pciCommand : BitVec 8 := 0x04
def pciStatus : BitVec 8 := 0x06
def pciRevisionId : BitVec 8 := 0x08
def pciProgIf : BitVec 8 := 0x09
def pciSubclass : BitVec 8 := 0x0A
def pciClass : BitVec 8 := 0x0B
def pciHeaderType : BitVec 8 := 0x0E
def pciCapabilitiesPtr : BitVec 8 := 0x34
def pciVendorIdInvalid : BitVec 16 := 0xFFFF
def pciCommandInterruptDisable : BitVec 16 := 1 <<< 10
def pciStatusCapabilitiesList : BitVec 16 := 1 <<< 4
def pciCapIdMsi : BitVec 8 := 0x05
def pciCapIdMsix : BitVec 8 := 0x11
def pciHeaderTypeMultiFunction : BitVec 8 := 0x80

def pciConfigRead32 (c : ConfigSpace) (addr : PciAddress) (offset : BitVec 8) : BitVec 32 :=
  c addr (offset &&& 0xFC)

def pciConfigRead16 (c : ConfigSpace) (addr : PciAddress) (offset : BitVec 8) : BitVec 16 :=
  ((pciConfigRead32 c addr offset >>> ((offset &&& 2) * 8)) &&& 0xFFFF).setWidth 16

def pciConfigRead8 (c : ConfigSpace) (addr : PciAddress) (offset : BitVec 8) : BitVec 8 :=
  ((pciConfigRead32 c addr offset >>> ((offset &&& 3) * 8)) &&& 0xFF).setWidth 8

def pciConfigWrite32 (c : ConfigSpace) (addr : PciAddress) (offset : BitVec 8) (value : BitVec 32) : ConfigSpace :=
  Function.update c addr (Function.update (c addr) (offset &&& 0xFC) value)

/-- The doubleword around the two bytes is read and written back. -/
def pciConfigWrite16 (c : ConfigSpace) (addr : PciAddress) (offset : BitVec 8) (value : BitVec 16) : ConfigSpace :=
  let shift := (offset &&& 2) * 8
  let data := pciConfigRead32 c addr offset
  let mask := ~~~((0xFFFF : BitVec 32) <<< shift)
  pciConfigWrite32 c addr offset ((data &&& mask) ||| (value.setWidth 32 <<< shift))

/-- The rounds of `pci_find_capability` that are left. -/
def walkCapabilities (c : ConfigSpace) (addr : PciAddress) (capId : BitVec 8) : Nat → BitVec 8 → Option (BitVec 8)
  | 0, _ => none
  | n+1, capOffset =>
    if capOffset = 0 then none
    else
      let capHeader := pciConfigRead16 c addr capOffset
      if (capHeader &&& 0xFF).setWidth 8 = capId then some capOffset
      else walkCapabilities c addr capId n (((capHeader >>> 8) &&& 0xFC).setWidth 8)

/-- At most 48 capabilities are looked at, so a list that loops ends the search. -/
def pciFindCapability (c : ConfigSpace) (addr : PciAddress) (capId : BitVec 8) : Option (BitVec 8) :=
  if pciConfigRead16 c addr pciStatus &&& pciStatusCapabilitiesList = 0 then none
  else walkCapabilities c addr capId 48 (pciConfigRead8 c addr pciCapabilitiesPtr &&& 0xFC)

structure PciDevice where
  address : PciAddress
  vendorId : BitVec 16
  deviceId : BitVec 16
  classCode : BitVec 8
  subclass : BitVec 8
  progIf : BitVec 8
  revisionId : BitVec 8
  headerType : BitVec 8
  msiCapOffset : BitVec 8
  msixCapOffset : BitVec 8
  deriving DecidableEq, Repr

namespace PciDevice

def existsAt (c : ConfigSpace) (addr : PciAddress) : Bool :=
  pciConfigRead16 c addr pciVendorId != pciVendorIdInvalid

def read (c : ConfigSpace) (addr : PciAddress) : Option PciDevice :=
  let vendorId := pciConfigRead16 c addr pciVendorId
  if vendorId = pciVendorIdInvalid then none
  else some
    { address := addr
      vendorId := vendorId
      deviceId := pciConfigRead16 c addr pciDeviceId
      classCode := pciConfigRead8 c addr pciClass
      subclass := pciConfigRead8 c addr pciSubclass
      progIf := pciConfigRead8 c addr pciProgIf
      revisionId := pciConfigRead8 c addr pciRevisionId
      headerType := pciConfigRead8 c addr pciHeaderType
      msiCapOffset := (pciFindCapability c addr pciCapIdMsi).getD 0
      msixCapOffset := (pciFindCapability c addr pciCapIdMsix).getD 0 }

def supportsMsi (device : PciDevice) : Bool := device.msiCapOffset != 0

def supportsMsix (device : PciDevice) : Bool := device.msixCapOffset != 0

end PciDevice

/-! ### Reading what was written -/

variable {c : ConfigSpace} {addr addr' : PciAddress} {offset offset' : BitVec 8}

/-- A write reaches no register of another function. -/
@[simp] theorem pciConfigWrite32_other (h : addr' ≠ addr) (value : BitVec 32) :
    pciConfigWrite32 c addr offset value addr' = c addr' := Function.update_of_ne h _ _

@[simp] theorem pciConfigWrite16_other (h : addr' ≠ addr) (value : BitVec 16) :
    pciConfigWrite16 c addr offset value addr' = c addr' := pciConfigWrite32_other h _

theorem pciConfigRead32_write32_other (h : offset' &&& 0xFC ≠ offset &&& 0xFC) (value : BitVec 32) :
    pciConfigRead32 (pciConfigWrite32 c addr offset value) addr offset' = pciConfigRead32 c addr offset' := by
  rw [pciConfigRead32, pciConfigWrite32, Function.update_self, Function.update_of_ne h]
  rfl

theorem pciConfigRead16_write32_other (h : offset' &&& 0xFC ≠ offset &&& 0xFC) (value : BitVec 32) :
    pciConfigRead16 (pciConfigWrite32 c addr offset value) addr offset' = pciConfigRead16 c addr offset' := by
  rw [pciConfigRead16, pciConfigRead32_write32_other h]
  rfl

theorem pciConfigRead16_write16_other (h : offset' &&& 0xFC ≠ offset &&& 0xFC) (value : BitVec 16) :
    pciConfigRead16 (pciConfigWrite16 c addr offset value) addr offset' = pciConfigRead16 c addr offset' :=
  pciConfigRead16_write32_other h _

private theorem word_in_dword (d : BitVec 32) (v : BitVec 16) {shift : BitVec 8} (h : shift = 0 ∨ shift = 16) :
    ((((d &&& ~~~((0xFFFF : BitVec 32) <<< shift)) ||| (v.setWidth 32 <<< shift)) >>> shift) &&& 0xFFFF).setWidth 16
      = v := by
  ext i hi
  rcases h with rfl | rfl <;> interval_cases i <;> simp

/-- A word that was written is read back. -/
theorem pciConfigRead16_write16 (value : BitVec 16) :
    pciConfigRead16 (pciConfigWrite16 c addr offset value) addr offset = value := by
  have hshift : ∀ offset : BitVec 8, (offset &&& 2) * 8 = 0 ∨ (offset &&& 2) * 8 = 16 := by decide
  rw [pciConfigRead16, pciConfigRead32, pciConfigWrite16, pciConfigWrite32, Function.update_self, Function.update_self]
  exact word_in_dword _ _ (hshift offset)

end Nafuraito.Pci
