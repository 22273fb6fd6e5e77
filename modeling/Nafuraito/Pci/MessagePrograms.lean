import Nafuraito.Library.Accesses
import Nafuraito.Pci.MsiVectors

/-! The routines for message signalled interrupts, access by access. -/
namespace Nafuraito.Pci
open Nafuraito.Library

/-! ### Accesses -/

/-- The doublewords of an entry, in their order. -/
inductive EntryField where
  | addressLow | addressHigh | data | vectorCtrl
  deriving DecidableEq, Repr

namespace MsixTableEntry

def get (entry : MsixTableEntry) : EntryField → BitVec 32
  | .addressLow => entry.addressLow
  | .addressHigh => entry.addressHigh
  | .data => entry.data
  | .vectorCtrl => entry.vectorCtrl

def set (entry : MsixTableEntry) (value : BitVec 32) : EntryField → MsixTableEntry
  | .addressLow => { entry with addressLow := value }
  | .addressHigh => { entry with addressHigh := value }
  | .data => { entry with data := value }
  | .vectorCtrl => { entry with vectorCtrl := value }

end MsixTableEntry

/-- An access to the configuration space of a function or to its table in memory. -/
inductive FunctionAccess where
  | read16 (offset : BitVec 8)
  | read32 (offset : BitVec 8)
  | write16 (offset : BitVec 8) (value : BitVec 16)
  | write32 (offset : BitVec 8) (value : BitVec 32)
  | readEntry (index : Nat) (field : EntryField)
  | writeEntry (index : Nat) (field : EntryField) (value : BitVec 32)

abbrev FunctionAccess.Answer : FunctionAccess → Type
  | read16 _ => BitVec 16
  | read32 _ | readEntry _ _ => BitVec 32
  | _ => Unit

def access (addr : PciAddress) : (a : FunctionAccess) → Machine → a.Answer × Machine
  | .read16 offset, m => (pciConfigRead16 m.config addr offset, m)
  | .read32 offset, m => (pciConfigRead32 m.config addr offset, m)
  | .write16 offset value, m => ((), { m with config := pciConfigWrite16 m.config addr offset value })
  | .write32 offset value, m => ((), { m with config := pciConfigWrite32 m.config addr offset value })
  | .readEntry index field, m => ((m.tables addr index).get field, m)
  | .writeEntry index field value, m =>
    let table := Function.update (m.tables addr) index ((m.tables addr index).set value field)
    ((), { m with tables := Function.update m.tables addr table })

abbrev Driver := Accesses FunctionAccess FunctionAccess.Answer

/-! ### The routines -/

namespace Driver

def read16 (offset : BitVec 8) : Driver (BitVec 16) := Accesses.perform (FunctionAccess.read16 offset)

def read32 (offset : BitVec 8) : Driver (BitVec 32) := Accesses.perform (FunctionAccess.read32 offset)

def write16 (offset : BitVec 8) (value : BitVec 16) : Driver Unit :=
  Accesses.perform (FunctionAccess.write16 offset value)

def write32 (offset : BitVec 8) (value : BitVec 32) : Driver Unit :=
  Accesses.perform (FunctionAccess.write32 offset value)

def readEntry (index : Nat) (field : EntryField) : Driver (BitVec 32) :=
  Accesses.perform (FunctionAccess.readEntry index field)

def writeEntry (index : Nat) (field : EntryField) (value : BitVec 32) : Driver Unit :=
  Accesses.perform (FunctionAccess.writeEntry index field value)

def updateCommand (change : BitVec 16 → BitVec 16) : Driver Unit := do
  let cmd ← read16 pciCommand
  write16 pciCommand (change cmd)

def disableLegacyInterrupts : Driver Unit := updateCommand (· ||| pciCommandInterruptDisable)

def enableLegacyInterrupts : Driver Unit := updateCommand (· &&& ~~~pciCommandInterruptDisable)

def writeMessage (offset : BitVec 8) (is64bit : Bool) (message : MsiMessage) : Driver Unit := do
  write32 (offset + msiMessageAddressLow) message.addressLow
  if is64bit then do
    write32 (offset + msiMessageAddressHigh) message.addressHigh
    write16 (offset + msiMessageData64) message.data
  else write16 (offset + msiMessageData32) message.data

/-- Control off, legacy interrupts off, the message, control on. -/
def program (offset : BitVec 8) (is64bit : Bool) (message : MsiMessage) (off on : BitVec 16) : Driver Unit := do
  write16 (offset + msiControl) off
  disableLegacyInterrupts
  writeMessage offset is64bit message
  write16 (offset + msiControl) on

def msiEnableSingle (device : PciDevice) (message : MsiMessage) : Driver Bool :=
  if device.msiCapOffset = 0 then pure false
  else do
    let offset := device.msiCapOffset
    let control ← read16 (offset + msiControl)
    let is64bit := control &&& msiControl64bit ≠ 0
    let control := control &&& ~~~msiControlEnable
    program offset is64bit message control (control &&& ~~~msiControlMmeMask ||| msiControlEnable)
    pure true

/-- `MsiCapability::read`. -/
def readCapability (offset : BitVec 8) : Driver MsiCapability := do
  let control ← read16 (offset + msiControl)
  let mmc := ((control &&& msiControlMmcMask) >>> 1).setWidth 8
  pure ⟨offset, 1#8 <<< mmc, control &&& msiControl64bit ≠ 0⟩

def msiEnableMulti (device : PciDevice) (baseMessage : MsiMessage) (requestedVectors : BitVec 8) :
    Driver (BitVec 8) :=
  if device.msiCapOffset = 0 then pure 0
  else do
    let offset := device.msiCapOffset
    let cap ← readCapability offset
    let vectors := enabledVectors requestedVectors cap.maxVectors
    let mme := trailingZeros vectors
    let control ← read16 (offset + msiControl)
    let control := control &&& ~~~msiControlEnable
    program offset cap.is64bit baseMessage control
      (control &&& ~~~msiControlMmeMask ||| (mme.setWidth 16 <<< 4) ||| msiControlEnable)
    pure vectors

def msiDisable (device : PciDevice) : Driver Bool :=
  if device.msiCapOffset = 0 then pure false
  else do
    let offset := device.msiCapOffset
    let control ← read16 (offset + msiControl)
    write16 (offset + msiControl) (control &&& ~~~msiControlEnable)
    enableLegacyInterrupts
    pure true

def msixEnable (device : PciDevice) : Driver Bool :=
  if device.msixCapOffset = 0 then pure false
  else do
    let offset := device.msixCapOffset
    disableLegacyInterrupts
    let control ← read16 (offset + msixControl)
    write16 (offset + msixControl) (control ||| (msixControlEnable ||| msixControlFuncMask))
    pure true

def msixDisable (device : PciDevice) : Driver Bool :=
  if device.msixCapOffset = 0 then pure false
  else do
    let offset := device.msixCapOffset
    let control ← read16 (offset + msixControl)
    write16 (offset + msixControl) (control &&& ~~~msixControlEnable)
    enableLegacyInterrupts
    pure true

def msixSetFunctionMask (device : PciDevice) (masked : Bool) : Driver Bool :=
  if device.msixCapOffset = 0 then pure false
  else do
    let offset := device.msixCapOffset
    let control ← read16 (offset + msixControl)
    write16 (offset + msixControl)
      (if masked then control ||| msixControlFuncMask else control &&& ~~~msixControlFuncMask)
    pure true

def msixWriteEntry (controller : MsixController) (index : Nat) (entry : MsixTableEntry) : Driver Bool :=
  if index ≥ controller.tableSize.toNat then pure false
  else do
    writeEntry index .addressLow entry.addressLow
    writeEntry index .addressHigh entry.addressHigh
    writeEntry index .data entry.data
    writeEntry index .vectorCtrl entry.vectorCtrl
    pure true

def msixConfigureVector (controller : MsixController) (index : Nat) (message : MsiMessage) (masked : Bool) :
    Driver Bool :=
  msixWriteEntry controller index (if masked then .fromMessageMasked message else .fromMessage message)

/-- `msix_mask_vector` and `msix_unmask_vector`. -/
def updateVectorCtrl (controller : MsixController) (index : Nat) (change : BitVec 32 → BitVec 32) : Driver Bool :=
  if index ≥ controller.tableSize.toNat then pure false
  else do
    let ctrl ← readEntry index .vectorCtrl
    writeEntry index .vectorCtrl (change ctrl)
    pure true

def msixMaskVector (controller : MsixController) (index : Nat) : Driver Bool :=
  updateVectorCtrl controller index (· ||| msixEntryVectorCtrlMask)

def msixUnmaskVector (controller : MsixController) (index : Nat) : Driver Bool :=
  updateVectorCtrl controller index (· &&& ~~~msixEntryVectorCtrlMask)

def configureDeviceInterrupts (device : PciDevice) (messages : List MsiMessage)
    (msixController : Option MsixController) : Driver Nat :=
  match if device.supportsMsix then msixController else none with
  | some controller => do
    let _ ← msixEnable device
    let count := min messages.length controller.tableSize.toNat
    (messages.take count).zipIdx.forM fun msg => do let _ ← msixConfigureVector controller msg.2 msg.1 false
    let _ ← msixSetFunctionMask device false
    pure count
  | none =>
    match if device.supportsMsi then messages else [] with
    | [] => pure 0
    | [message] => do
      let enabled ← msiEnableSingle device message
      pure (if enabled then 1 else 0)
    | message :: _ => do
      let allocated ← msiEnableMulti device message (BitVec.ofNat 8 messages.length)
      pure allocated.toNat

/-! ### What they come to -/

section Run
variable (device : PciDevice) (m : Machine)

theorem run_writeMessage (addr : PciAddress) (offset : BitVec 8) (is64bit : Bool) (message : MsiMessage) :
    (writeMessage offset is64bit message).run (access addr) m =
      ((), { m with config := Pci.writeMessage m.config addr offset is64bit message }) := by
  cases is64bit <;> rfl

theorem run_msiEnableSingle (message : MsiMessage) :
    (msiEnableSingle device message).run (access device.address) m =
      ((Pci.msiEnableSingle m.config device message).1,
        { m with config := (Pci.msiEnableSingle m.config device message).2 }) := by
  rw [msiEnableSingle, Pci.msiEnableSingle]
  split
  · rfl
  · simp only [program, Accesses.run_bind, run_writeMessage]
    rfl

theorem run_msiEnableMulti (baseMessage : MsiMessage) (requestedVectors : BitVec 8) :
    (msiEnableMulti device baseMessage requestedVectors).run (access device.address) m =
      ((Pci.msiEnableMulti m.config device baseMessage requestedVectors).1,
        { m with config := (Pci.msiEnableMulti m.config device baseMessage requestedVectors).2 }) := by
  rw [msiEnableMulti, Pci.msiEnableMulti]
  split
  · rfl
  · simp only [program, Accesses.run_bind, run_writeMessage]
    rfl

theorem run_msixEnable : (msixEnable device).run (access device.address) m =
    (decide (device.msixCapOffset ≠ 0), { m with config := Pci.msixEnable m.config device }) := by
  rw [msixEnable, Pci.msixEnable]
  by_cases hcap : device.msixCapOffset = 0
  · simp [hcap]
  · rw [if_neg hcap, if_neg hcap, decide_eq_true hcap]
    rfl

theorem run_msixSetFunctionMask (masked : Bool) : (msixSetFunctionMask device masked).run (access device.address) m =
    (decide (device.msixCapOffset ≠ 0), { m with config := Pci.msixSetFunctionMask m.config device masked }) := by
  rw [msixSetFunctionMask, Pci.msixSetFunctionMask]
  by_cases hcap : device.msixCapOffset = 0
  · simp [hcap]
  · rw [if_neg hcap, if_neg hcap, decide_eq_true hcap]
    rfl

variable {controller : MsixController} {device}

theorem run_msixWriteEntry (howner : controller.owner = device.address) (index : Nat) (entry : MsixTableEntry) :
    (msixWriteEntry controller index entry).run (access device.address) m =
      (decide (index < controller.tableSize.toNat),
        { m with tables := Pci.msixWriteEntry m.tables controller index entry }) := by
  rw [msixWriteEntry, Pci.msixWriteEntry]
  by_cases hindex : index ≥ controller.tableSize.toNat
  · rw [if_pos hindex, if_pos hindex, decide_eq_false (Nat.not_lt.mpr hindex)]
    rfl
  · rw [if_neg hindex, if_neg hindex, decide_eq_true (Nat.not_le.mp hindex), howner]
    simp [writeEntry, access, MsixTableEntry.set]

theorem run_configureVectors (howner : controller.owner = device.address) (messages : List (MsiMessage × Nat)) :
    (messages.forM fun msg => do let _ ← msixConfigureVector controller msg.2 msg.1 false).run
        (access device.address) m =
      ((), { m with
        tables := messages.foldl (fun tables msg => Pci.msixConfigureVector tables controller msg.2 msg.1 false)
          m.tables }) := by
  induction messages generalizing m with
  | nil => rfl
  | cons msg messages ih =>
    rw [Accesses.forM_cons, Accesses.run_bind, Accesses.run_bind, msixConfigureVector, run_msixWriteEntry m howner]
    exact ih _

/-- The accesses come to the configuration of the whole function. -/
theorem run_configureDeviceInterrupts {msixController : Option MsixController}
    (howner : ∀ controller ∈ msixController, controller.owner = device.address) (messages : List MsiMessage) :
    (configureDeviceInterrupts device messages msixController).run (access device.address) m =
      Pci.configureDeviceInterrupts m device messages msixController := by
  have howner' : ∀ controller ∈ (if device.supportsMsix then msixController else none),
      controller.owner = device.address := by
    intro controller hmem
    split at hmem
    · exact howner controller hmem
    · cases hmem
  rw [configureDeviceInterrupts, Pci.configureDeviceInterrupts]
  generalize (if device.supportsMsix then msixController else none) = chosen at howner'
  generalize (if device.supportsMsi then messages else []) = sent
  cases chosen with
  | some controller =>
    simp only [Accesses.run_bind, run_msixEnable, run_configureVectors _ (howner' controller rfl),
      run_msixSetFunctionMask]
    rfl
  | none =>
    rcases sent with - | ⟨message, - | ⟨_, _⟩⟩
    · rfl
    · simp only [Accesses.run_bind, run_msiEnableSingle]
      rfl
    · simp only [Accesses.run_bind, run_msiEnableMulti]
      rfl

end Run
end Driver
end Nafuraito.Pci
