import Nafuraito.Pci.Config

/-! Message signalled interrupts: the messages, the programming of a function's MSI capability or MSI-X table,
and the allocator of vectors. -/
namespace Nafuraito.Pci

def msiControl : BitVec 8 := 0x02
def msiMessageAddressLow : BitVec 8 := 0x04
def msiMessageAddressHigh : BitVec 8 := 0x08
def msiMessageData32 : BitVec 8 := 0x08
def msiMessageData64 : BitVec 8 := 0x0C
def msiControlEnable : BitVec 16 := 0x0001
def msiControlMmcMask : BitVec 16 := 0x000E
def msiControlMmeMask : BitVec 16 := 0x0070
def msiControl64bit : BitVec 16 := 0x0080
def msixControl : BitVec 8 := 0x02
def msixControlTableSizeMask : BitVec 16 := 0x07FF
def msixControlFuncMask : BitVec 16 := 0x4000
def msixControlEnable : BitVec 16 := 0x8000
def msixEntryVectorCtrlMask : BitVec 32 := 1
def msiAddressBase : BitVec 32 := 0xFEE00000
def msiAddressRedirectHint : BitVec 32 := 8
def msiAddressDestModeLogical : BitVec 32 := 4
def msiDataLevelAssert : BitVec 16 := 0x4000
def msiDataTriggerLevel : BitVec 16 := 0x8000

/-! ### Messages -/

inductive MsiDeliveryMode where
  | fixed | lowestPriority | smi | nmi | init | extInt
  deriving DecidableEq, Repr

/-- The discriminants of the enumeration. -/
def MsiDeliveryMode.code : MsiDeliveryMode → BitVec 16
  | fixed => 0b000
  | lowestPriority => 0b001
  | smi => 0b010
  | nmi => 0b100
  | init => 0b101
  | extInt => 0b111

inductive MsiDestinationMode where
  | physical | logical
  deriving DecidableEq, Repr

inductive MsiTriggerMode where
  | edge | level
  deriving DecidableEq, Repr

structure MsiMessage where
  vector : BitVec 8
  destId : BitVec 8
  deliveryMode : MsiDeliveryMode
  destMode : MsiDestinationMode
  triggerMode : MsiTriggerMode
  redirectHint : Bool
  deriving DecidableEq, Repr

namespace MsiMessage

def new (vector destId : BitVec 8) : MsiMessage := ⟨vector, destId, .fixed, .physical, .edge, false⟩

def addressLow (message : MsiMessage) : BitVec 32 :=
  let addr := msiAddressBase ||| (message.destId.setWidth 32 <<< 12)
  let addr := if message.redirectHint then addr ||| msiAddressRedirectHint else addr
  if message.destMode = .logical then addr ||| msiAddressDestModeLogical else addr

def addressHigh (_ : MsiMessage) : BitVec 32 := 0

def data (message : MsiMessage) : BitVec 16 :=
  let data := message.vector.setWidth 16 ||| (message.deliveryMode.code <<< 8)
  if message.triggerMode = .level then (data ||| msiDataTriggerLevel) ||| msiDataLevelAssert else data

end MsiMessage

/-! ### The MSI capability -/

structure MsiCapability where
  offset : BitVec 8
  maxVectors : BitVec 8
  is64bit : Bool
  deriving DecidableEq, Repr

def MsiCapability.read (c : ConfigSpace) (addr : PciAddress) (offset : BitVec 8) : MsiCapability :=
  let control := pciConfigRead16 c addr (offset + msiControl)
  let mmc := ((control &&& msiControlMmcMask) >>> 1).setWidth 8
  ⟨offset, 1#8 <<< mmc, control &&& msiControl64bit ≠ 0⟩

/-- Address and data of a message into the registers of the capability. -/
def writeMessage (c : ConfigSpace) (addr : PciAddress) (offset : BitVec 8) (is64bit : Bool)
    (message : MsiMessage) : ConfigSpace :=
  let c := pciConfigWrite32 c addr (offset + msiMessageAddressLow) message.addressLow
  if is64bit then
    let c := pciConfigWrite32 c addr (offset + msiMessageAddressHigh) message.addressHigh
    pciConfigWrite16 c addr (offset + msiMessageData64) message.data
  else pciConfigWrite16 c addr (offset + msiMessageData32) message.data

def disableLegacyInterrupts (c : ConfigSpace) (addr : PciAddress) : ConfigSpace :=
  pciConfigWrite16 c addr pciCommand (pciConfigRead16 c addr pciCommand ||| pciCommandInterruptDisable)

def msiEnableSingle (c : ConfigSpace) (device : PciDevice) (message : MsiMessage) : Bool × ConfigSpace :=
  if device.msiCapOffset = 0 then (false, c)
  else
    let offset := device.msiCapOffset
    let addr := device.address
    let control := pciConfigRead16 c addr (offset + msiControl)
    let is64bit := control &&& msiControl64bit ≠ 0
    let control := control &&& ~~~msiControlEnable
    let c := pciConfigWrite16 c addr (offset + msiControl) control
    let c := disableLegacyInterrupts c addr
    let c := writeMessage c addr offset is64bit message
    let control := control &&& ~~~msiControlMmeMask
    (true, pciConfigWrite16 c addr (offset + msiControl) (control ||| msiControlEnable))

/-- `u8::next_power_of_two`, with the 0 it gives above 128 in a build without overflow checks. -/
def nextPowerOfTwo (n : BitVec 8) : BitVec 8 :=
  match (List.range 8).find? fun k => n.toNat ≤ 2^k with
  | some k => 1 <<< k
  | none => 0

/-- `u8::trailing_zeros`. -/
def trailingZeros (n : BitVec 8) : BitVec 8 :=
  BitVec.ofNat 8 (((List.range 8).find? fun k => n.getLsbD k).getD 8)

/-- The number of messages `msi_enable_multi` enables. -/
def enabledVectors (requested maxVectors : BitVec 8) : BitVec 8 :=
  let vectors := if requested ≤ maxVectors then requested else maxVectors
  let vectors := nextPowerOfTwo vectors
  if vectors ≤ 32 then vectors else 32

def msiEnableMulti (c : ConfigSpace) (device : PciDevice) (baseMessage : MsiMessage)
    (requestedVectors : BitVec 8) : BitVec 8 × ConfigSpace :=
  if device.msiCapOffset = 0 then (0, c)
  else
    let offset := device.msiCapOffset
    let addr := device.address
    let cap := MsiCapability.read c addr offset
    let vectors := enabledVectors requestedVectors cap.maxVectors
    let mme := trailingZeros vectors
    let control := pciConfigRead16 c addr (offset + msiControl)
    let control := control &&& ~~~msiControlEnable
    let c := pciConfigWrite16 c addr (offset + msiControl) control
    let c := disableLegacyInterrupts c addr
    let c := writeMessage c addr offset cap.is64bit baseMessage
    let control := control &&& ~~~msiControlMmeMask
    let control := control ||| (mme.setWidth 16 <<< 4)
    (vectors, pciConfigWrite16 c addr (offset + msiControl) (control ||| msiControlEnable))

/-! ### The MSI-X table -/

structure MsixTableEntry where
  addressLow : BitVec 32
  addressHigh : BitVec 32
  data : BitVec 32
  vectorCtrl : BitVec 32
  deriving DecidableEq, Repr

def MsixTableEntry.fromMessage (msg : MsiMessage) : MsixTableEntry :=
  ⟨msg.addressLow, msg.addressHigh, msg.data.setWidth 32, 0⟩

def MsixTableEntry.fromMessageMasked (msg : MsiMessage) : MsixTableEntry :=
  ⟨msg.addressLow, msg.addressHigh, msg.data.setWidth 32, 1⟩

/-- Configuration space, the MSI-X tables the functions show behind their BARs, and `NEXT_VECTOR`. -/
structure Machine where
  config : ConfigSpace
  tables : PciAddress → Nat → MsixTableEntry
  nextVector : BitVec 8

/-- What `MsixController::new` made of a function: the function whose table it reaches, and the table's size. -/
structure MsixController where
  owner : PciAddress
  tableSize : BitVec 16
  deriving DecidableEq, Repr

/-- The controller of a function that has an MSI-X capability. -/
def MsixController.new (c : ConfigSpace) (device : PciDevice) : MsixController where
  owner := device.address
  tableSize := (pciConfigRead16 c device.address (device.msixCapOffset + msixControl) &&& msixControlTableSizeMask) + 1

def msixEnable (c : ConfigSpace) (device : PciDevice) : ConfigSpace :=
  if device.msixCapOffset = 0 then c
  else
    let addr := device.address
    let c := disableLegacyInterrupts c addr
    let control := pciConfigRead16 c addr (device.msixCapOffset + msixControl)
    pciConfigWrite16 c addr (device.msixCapOffset + msixControl)
      (control ||| (msixControlEnable ||| msixControlFuncMask))

def msixSetFunctionMask (c : ConfigSpace) (device : PciDevice) (masked : Bool) : ConfigSpace :=
  if device.msixCapOffset = 0 then c
  else
    let control := pciConfigRead16 c device.address (device.msixCapOffset + msixControl)
    pciConfigWrite16 c device.address (device.msixCapOffset + msixControl)
      (if masked then control ||| msixControlFuncMask else control &&& ~~~msixControlFuncMask)

def msixWriteEntry (tables : PciAddress → Nat → MsixTableEntry) (controller : MsixController) (index : Nat)
    (entry : MsixTableEntry) : PciAddress → Nat → MsixTableEntry :=
  if index ≥ controller.tableSize.toNat then tables
  else Function.update tables controller.owner (Function.update (tables controller.owner) index entry)

def msixConfigureVector (tables : PciAddress → Nat → MsixTableEntry) (controller : MsixController) (index : Nat)
    (message : MsiMessage) (masked : Bool) : PciAddress → Nat → MsixTableEntry :=
  msixWriteEntry tables controller index
    (if masked then .fromMessageMasked message else .fromMessage message)

/-! ### Devices and vectors -/

/-- MSI-X where the function has it and the caller passes a controller, else MSI. -/
def configureDeviceInterrupts (m : Machine) (device : PciDevice) (messages : List MsiMessage)
    (msixController : Option MsixController) : Nat × Machine :=
  match (if device.supportsMsix then msixController else none) with
  | some controller =>
    let config := msixEnable m.config device
    let count := min messages.length controller.tableSize.toNat
    let tables := (messages.take count).zipIdx.foldl
      (fun tables msg => msixConfigureVector tables controller msg.2 msg.1 false) m.tables
    (count, { m with config := msixSetFunctionMask config device false, tables := tables })
  | none =>
    match (if device.supportsMsi then messages else []) with
    | [] => (0, m)
    | [message] =>
      let enabled := msiEnableSingle m.config device message
      (if enabled.1 then 1 else 0, { m with config := enabled.2 })
    | message :: _ =>
      let enabled := msiEnableMulti m.config device message (BitVec.ofNat 8 messages.length)
      (enabled.1.toNat, { m with config := enabled.2 })

/-- The vectors from the result on; the second part is `NEXT_VECTOR` afterwards. -/
def allocateVectors (nextVector count : BitVec 8) : Option (BitVec 8 × BitVec 8) :=
  if 256 ≤ nextVector.toNat + count.toNat ∨ 224 < (nextVector + count).toNat then none
  else some (nextVector, nextVector + count)

def createMsiMessages (baseVector count targetCpu : BitVec 8) : List MsiMessage :=
  (List.range 32).map fun i =>
    if i < min count.toNat 32 then .new (baseVector + BitVec.ofNat 8 i) targetCpu else .new 0 0

end Nafuraito.Pci
