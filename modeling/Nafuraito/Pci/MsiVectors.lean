import Nafuraito.Pci.Msi
import Mathlib.Data.Set.Basic
import Mathlib.Order.Interval.Set.Basic

/-! Which vectors a function can deliver once it was configured, and when these are its own. -/
namespace Nafuraito.Pci

/-! ### What a function delivers -/

def is64bit (c : ConfigSpace) (device : PciDevice) : Bool :=
  pciConfigRead16 c device.address (device.msiCapOffset + msiControl) &&& msiControl64bit ≠ 0

/-- The data register of the MSI capability. -/
def messageData (c : ConfigSpace) (device : PciDevice) : BitVec 16 :=
  pciConfigRead16 c device.address
    (device.msiCapOffset + if is64bit c device then msiMessageData64 else msiMessageData32)

/-- The logarithm of the number of messages enabled. -/
def enabledLog (c : ConfigSpace) (device : PciDevice) : Nat :=
  ((pciConfigRead16 c device.address (device.msiCapOffset + msiControl) &&& msiControlMmeMask) >>> 4).toNat

/-- The rule for several messages: the low bits of the data become the message number. -/
def messageVector (data log number : Nat) : Nat := (data / 2^log * 2^log + number) % 256

def deliversMsi (m : Machine) (device : PciDevice) : Set Nat :=
  {v | device.msiCapOffset ≠ 0 ∧
    pciConfigRead16 m.config device.address (device.msiCapOffset + msiControl) &&& msiControlEnable ≠ 0 ∧
    ∃ number < 2^enabledLog m.config device,
      v = messageVector (messageData m.config device).toNat (enabledLog m.config device) number}

/-- Every entry that is not masked sends its own data. -/
def deliversMsix (m : Machine) (device : PciDevice) : Set Nat :=
  {v | device.msixCapOffset ≠ 0 ∧
    pciConfigRead16 m.config device.address (device.msixCapOffset + msixControl) &&& msixControlEnable ≠ 0 ∧
    pciConfigRead16 m.config device.address (device.msixCapOffset + msixControl) &&& msixControlFuncMask = 0 ∧
    ∃ index < (MsixController.new m.config device).tableSize.toNat,
      (m.tables device.address index).vectorCtrl &&& msixEntryVectorCtrlMask = 0 ∧
      v = (m.tables device.address index).data.toNat % 256}

/-- The vectors a function can deliver. -/
def delivers (m : Machine) (device : PciDevice) : Set Nat := deliversMsi m device ∪ deliversMsix m device

/-! ### Functions as PCI has them -/

/-- The registers of a capability of `length` bytes are aligned and lie behind the header. -/
def Placed (offset : BitVec 8) (length : Nat) : Prop :=
  offset.toNat % 4 = 0 ∧ 0x40 ≤ offset.toNat ∧ offset.toNat + length ≤ 256

instance (offset : BitVec 8) (length : Nat) : Decidable (Placed offset length) :=
  inferInstanceAs (Decidable (_ ∧ _ ∧ _))

def msiLength (c : ConfigSpace) (device : PciDevice) : Nat := if is64bit c device then 16 else 12

/-- The capabilities of a function lie in its configuration space and not in each other. -/
structure WellPlaced (c : ConfigSpace) (device : PciDevice) : Prop where
  msi : device.msiCapOffset ≠ 0 → Placed device.msiCapOffset (msiLength c device)
  msix : device.msixCapOffset ≠ 0 → Placed device.msixCapOffset 12
  apart : device.msiCapOffset ≠ 0 → device.msixCapOffset ≠ 0 →
    device.msiCapOffset.toNat + msiLength c device ≤ device.msixCapOffset.toNat ∨
      device.msixCapOffset.toNat + 12 ≤ device.msiCapOffset.toNat

/-- A function as a reset leaves it: neither capability is enabled, every entry of the table is masked. -/
structure Idle (m : Machine) (device : PciDevice) : Prop where
  msi : device.msiCapOffset ≠ 0 →
    pciConfigRead16 m.config device.address (device.msiCapOffset + msiControl) &&& msiControlEnable = 0
  msix : device.msixCapOffset ≠ 0 →
    pciConfigRead16 m.config device.address (device.msixCapOffset + msixControl) &&& msixControlEnable = 0
  masked : ∀ index, (m.tables device.address index).vectorCtrl &&& msixEntryVectorCtrlMask ≠ 0

/-- Two machines that show the same of a function. -/
def SameFunction (m m' : Machine) (addr : PciAddress) : Prop :=
  m'.config addr = m.config addr ∧ m'.tables addr = m.tables addr

section Same
variable {m m' : Machine} {device : PciDevice} (h : SameFunction m m' device.address)
include h

private theorem SameFunction.read16 (offset : BitVec 8) :
    pciConfigRead16 m'.config device.address offset = pciConfigRead16 m.config device.address offset := by
  rw [pciConfigRead16, pciConfigRead16, pciConfigRead32, pciConfigRead32, h.1]

private theorem SameFunction.is64bit : is64bit m'.config device = is64bit m.config device := by
  rw [Pci.is64bit, Pci.is64bit, h.read16]

theorem SameFunction.delivers : delivers m' device = delivers m device := by
  simp only [Pci.delivers, deliversMsi, deliversMsix, messageData, enabledLog, h.is64bit, MsixController.new, h.read16,
    h.2]

theorem SameFunction.wellPlaced (hw : WellPlaced m.config device) : WellPlaced m'.config device := by
  have hlength : msiLength m'.config device = msiLength m.config device := by
    rw [msiLength, msiLength, h.is64bit]
  refine ⟨?_, hw.msix, ?_⟩
  · rw [hlength]
    exact hw.msi
  · rw [hlength]
    exact hw.apart

theorem SameFunction.idle (hi : Idle m device) : Idle m' device where
  msi hm := by
    rw [h.read16]
    exact hi.msi hm
  msix hm := by
    rw [h.read16]
    exact hi.msix hm
  masked index := by
    rw [h.2]
    exact hi.masked index

end Same

/-! ### Registers apart -/

private theorem aligned_toNat : ∀ x : BitVec 8, (x &&& 0xFC).toNat = x.toNat / 4 * 4 := by decide

/-- Offsets in different doublewords. -/
theorem dword_ne {x y : BitVec 8} (h : x.toNat / 4 ≠ y.toNat / 4) : x &&& 0xFC ≠ y &&& 0xFC := by
  intro he
  have := congrArg BitVec.toNat he
  rw [aligned_toNat, aligned_toNat] at this
  omega

theorem offset_toNat {offset k : BitVec 8} (h : offset.toNat + k.toNat < 256) :
    (offset + k).toNat = offset.toNat + k.toNat := by
  rw [BitVec.toNat_add]
  exact Nat.mod_eq_of_lt h

section Registers
variable {c : ConfigSpace} {addr : PciAddress} {offset : BitVec 8} {is64 : Bool}

/-- The configuration space `msi_enable_single` and `msi_enable_multi` leave: control off, legacy interrupts off,
the message, control on. -/
private def programmed (c : ConfigSpace) (addr : PciAddress) (offset : BitVec 8) (is64 : Bool) (message : MsiMessage)
    (off on : BitVec 16) : ConfigSpace :=
  pciConfigWrite16 (writeMessage (disableLegacyInterrupts (pciConfigWrite16 c addr (offset + msiControl) off) addr)
    addr offset is64 message) addr (offset + msiControl) on

private theorem programmed_control (message : MsiMessage) (off on : BitVec 16) :
    pciConfigRead16 (programmed c addr offset is64 message off on) addr (offset + msiControl) = on :=
  pciConfigRead16_write16 on

private theorem writeMessage_data (message : MsiMessage) :
    pciConfigRead16 (writeMessage c addr offset is64 message) addr
    (offset + if is64 then msiMessageData64 else msiMessageData32) = message.data := by
  cases is64 <;> exact pciConfigRead16_write16 _

private theorem programmed_data (hplaced : Placed offset (if is64 then 16 else 12)) (message : MsiMessage)
    (off on : BitVec 16) : pciConfigRead16 (programmed c addr offset is64 message off on) addr
      (offset + if is64 then msiMessageData64 else msiMessageData32) = message.data := by
  obtain ⟨halign, _, hfits⟩ := hplaced
  have hcontrol : msiControl.toNat = 2 := rfl
  have hdata : (if is64 then msiMessageData64 else msiMessageData32).toNat = if is64 then 12 else 8 := by
    cases is64 <;> rfl
  rw [programmed, pciConfigRead16_write16_other, writeMessage_data]
  apply dword_ne
  cases is64 <;> simp only [if_true, if_false, Bool.false_eq_true] at hfits hdata ⊢ <;>
    rw [offset_toNat (by omega), offset_toNat (by omega)] <;> omega

/-- Registers outside the capability and the header stay as they are. -/
private theorem programmed_other (hplaced : Placed offset (if is64 then 16 else 12)) {x : BitVec 8}
    (hx : 0x40 ≤ x.toNat) (hapart : x.toNat / 4 < offset.toNat / 4 ∨
      offset.toNat + (if is64 then 16 else 12) ≤ x.toNat) (message : MsiMessage) (off on : BitVec 16) :
    pciConfigRead16 (programmed c addr offset is64 message off on) addr x = pciConfigRead16 c addr x := by
  obtain ⟨halign, _, hfits⟩ := hplaced
  have hlength : (if is64 then 16 else 12) % 4 = 0 := by cases is64 <;> rfl
  have hin (k : BitVec 8) (hk : k.toNat < if is64 then 16 else 12) : x &&& 0xFC ≠ (offset + k) &&& 0xFC := by
    apply dword_ne
    rw [offset_toNat (by omega)]
    omega
  have hcommand : x &&& 0xFC ≠ pciCommand &&& 0xFC := by
    apply dword_ne
    have : pciCommand.toNat = 4 := rfl
    omega
  have hcontrol : x &&& 0xFC ≠ (offset + msiControl) &&& 0xFC := hin _ (by cases is64 <;> decide)
  have hlow : x &&& 0xFC ≠ (offset + msiMessageAddressLow) &&& 0xFC := hin _ (by cases is64 <;> decide)
  have hhigh : x &&& 0xFC ≠ (offset + msiMessageAddressHigh) &&& 0xFC := hin _ (by cases is64 <;> decide)
  rw [programmed, pciConfigRead16_write16_other hcontrol, writeMessage]
  cases is64 with
  | true =>
    have hdata : x &&& 0xFC ≠ (offset + msiMessageData64) &&& 0xFC := hin _ (by decide)
    simp only [if_true]
    rw [pciConfigRead16_write16_other hdata, pciConfigRead16_write32_other hhigh, pciConfigRead16_write32_other hlow,
      disableLegacyInterrupts, pciConfigRead16_write16_other hcommand, pciConfigRead16_write16_other hcontrol]
  | false =>
    simp only [Bool.false_eq_true, if_false]
    rw [pciConfigRead16_write16_other (show x &&& 0xFC ≠ (offset + msiMessageData32) &&& 0xFC from hhigh),
      pciConfigRead16_write32_other hlow, disableLegacyInterrupts, pciConfigRead16_write16_other hcommand,
      pciConfigRead16_write16_other hcontrol]

private theorem programmed_function {addr' : PciAddress} (h : addr' ≠ addr) (message : MsiMessage)
    (off on : BitVec 16) :
    programmed c addr offset is64 message off on addr' = c addr' := by
  rw [programmed, pciConfigWrite16_other h, writeMessage]
  cases is64 <;> simp [h, disableLegacyInterrupts]

end Registers

/-! ### Counts and control words -/

private theorem nextPowerOfTwo_log : ∀ v : BitVec 8, 1 ≤ v.toNat → v.toNat ≤ 32 →
    (if nextPowerOfTwo v ≤ 32 then nextPowerOfTwo v else 32).toNat =
      2^(trailingZeros (if nextPowerOfTwo v ≤ 32 then nextPowerOfTwo v else 32)).toNat ∧
    (trailingZeros (if nextPowerOfTwo v ≤ 32 then nextPowerOfTwo v else 32)).toNat ≤ 5 := by
  decide

private theorem maxVectors_pos (c : ConfigSpace) (addr : PciAddress) (offset : BitVec 8) :
    1 ≤ (MsiCapability.read c addr offset).maxVectors.toNat := by
  have hshift : ∀ k : BitVec 8, k.toNat ≤ 7 → 1 ≤ (1#8 <<< k).toNat := by decide
  apply hshift
  have hmask : (pciConfigRead16 c addr (offset + msiControl) &&& msiControlMmcMask).toNat ≤ 14 := by
    rw [BitVec.toNat_and]
    exact Nat.and_le_right
  rw [BitVec.toNat_setWidth, BitVec.toNat_ushiftRight, Nat.shiftRight_eq_div_pow]
  omega

/-- The number enabled is a power of two up to 32. -/
theorem enabledVectors_log {requested maxVectors : BitVec 8} (h₁ : 1 ≤ requested.toNat) (h₂ : requested.toNat ≤ 32)
    (hmax : 1 ≤ maxVectors.toNat) : (enabledVectors requested maxVectors).toNat =
      2^(trailingZeros (enabledVectors requested maxVectors)).toNat ∧
    (trailingZeros (enabledVectors requested maxVectors)).toNat ≤ 5 := by
  rw [enabledVectors]
  split
  · exact nextPowerOfTwo_log _ h₁ h₂
  · rename_i hgt
    rw [BitVec.le_def] at hgt
    exact nextPowerOfTwo_log _ hmax (by omega)

/-- The control word written last, with the logarithm of the number of messages. -/
def controlOn (control : BitVec 16) (log : BitVec 8) : BitVec 16 :=
  (((control &&& ~~~msiControlEnable) &&& ~~~msiControlMmeMask) ||| (log.setWidth 16 <<< 4)) ||| msiControlEnable

private theorem controlOn_enable (control : BitVec 16) (log : BitVec 8) :
    controlOn control log &&& msiControlEnable ≠ 0 := by
  intro h
  have hbit := congrArg (BitVec.getLsbD · 0) h
  simp [controlOn, msiControlEnable] at hbit

private theorem log_cases {log : BitVec 8} (h : log.toNat ≤ 5) :
    log = 0 ∨ log = 1 ∨ log = 2 ∨ log = 3 ∨ log = 4 ∨ log = 5 := by
  revert log
  decide

private theorem controlOn_log (control : BitVec 16) {log : BitVec 8} (h : log.toNat ≤ 5) :
    ((controlOn control log &&& msiControlMmeMask) >>> 4).toNat = log.toNat := by
  have hfield : (controlOn control log &&& msiControlMmeMask) >>> 4 = log.setWidth 16 := by
    rcases log_cases h with rfl | rfl | rfl | rfl | rfl | rfl <;> ext i hi <;> interval_cases i <;>
      simp [controlOn, msiControlEnable, msiControlMmeMask]
  rw [hfield, BitVec.toNat_setWidth]
  exact Nat.mod_eq_of_lt (by omega)

theorem controlOn_64bit (control : BitVec 16) {log : BitVec 8} (h : log.toNat ≤ 5) :
    controlOn control log &&& msiControl64bit = control &&& msiControl64bit := by
  rcases log_cases h with rfl | rfl | rfl | rfl | rfl | rfl <;> ext i hi <;> interval_cases i <;>
    simp [controlOn, msiControlEnable, msiControlMmeMask, msiControl64bit]

theorem data_new (vector cpu : BitVec 8) : (MsiMessage.new vector cpu).data.toNat = vector.toNat := by
  have hdata : (MsiMessage.new vector cpu).data = vector.setWidth 16 := by
    simp [MsiMessage.new, MsiMessage.data, MsiDeliveryMode.code]
  rw [hdata, BitVec.toNat_setWidth]
  exact Nat.mod_eq_of_lt (by omega)

/-! ### MSI -/

/-- The vectors of `2^log` messages with the given data. -/
def messageVectors (data log : Nat) : Set Nat := {v | ∃ number < 2^log, v = messageVector data log number}

/-- They are those from `base` on exactly if `base` is a multiple of their number and there are no more than
there are vectors. -/
theorem messageVectors_subset_iff {base count log : Nat} (hlog : log ≤ 5) (hend : base + count ≤ 224)
    (hpos : 1 ≤ count) : messageVectors base log ⊆ Set.Ico base (base + count) ↔ 2^log ∣ base ∧ 2^log ≤ count := by
  have hle : 2^log ≤ 2^5 := Nat.pow_le_pow_right (by decide) hlog
  have hone : 0 < 2^log := Nat.two_pow_pos log
  have hdown := Nat.div_mul_le_self base (2^log)
  have hvector (number : Nat) (h : number < 2^log) : messageVector base log number = base / 2^log * 2^log + number :=
    Nat.mod_eq_of_lt (by omega)
  constructor
  · intro hsub
    obtain ⟨hlow, _⟩ := hsub ⟨0, hone, rfl⟩
    obtain ⟨_, hhigh⟩ := hsub ⟨2^log - 1, by omega, rfl⟩
    rw [hvector 0 hone] at hlow
    rw [hvector _ (by omega)] at hhigh
    exact ⟨Dvd.intro_left (base / 2^log) (by omega), by omega⟩
  · rintro ⟨hdvd, hcount⟩ v ⟨number, hnumber, rfl⟩
    rw [hvector number hnumber, Nat.div_mul_cancel hdvd]
    exact ⟨by omega, by omega⟩

private theorem deliversMsix_idle {m : Machine} {device : PciDevice}
    (h : device.msixCapOffset ≠ 0 →
      pciConfigRead16 m.config device.address (device.msixCapOffset + msixControl) &&& msixControlEnable = 0) :
    deliversMsix m device = ∅ := by
  rw [Set.eq_empty_iff_forall_notMem]
  rintro v ⟨hcap, hon, _⟩
  exact hon (h hcap)

private theorem deliversMsi_idle {m : Machine} {device : PciDevice}
    (h : device.msiCapOffset ≠ 0 →
      pciConfigRead16 m.config device.address (device.msiCapOffset + msiControl) &&& msiControlEnable = 0) :
    deliversMsi m device = ∅ := by
  rw [Set.eq_empty_iff_forall_notMem]
  rintro v ⟨hcap, hon, _⟩
  exact hon (h hcap)

theorem Idle.delivers {m : Machine} {device : PciDevice} (h : Idle m device) : delivers m device = ∅ := by
  rw [Pci.delivers, deliversMsi_idle h.msi, deliversMsix_idle h.msix, Set.union_empty]

/-- What a function delivers whose MSI capability was programmed with one of the messages of the kernel. -/
private theorem programmed_delivers {m m' : Machine} {device : PciDevice} (hcap : device.msiCapOffset ≠ 0)
    (hplaced : WellPlaced m.config device) (hidle : Idle m device) (vector cpu : BitVec 8) (off : BitVec 16)
    {log : BitVec 8} (hlog : log.toNat ≤ 5)
    (hm : m'.config = programmed m.config device.address device.msiCapOffset (is64bit m.config device)
      (.new vector cpu) off
      (controlOn (pciConfigRead16 m.config device.address (device.msiCapOffset + msiControl)) log)) :
    delivers m' device = messageVectors vector.toNat log.toNat := by
  have hmsi := hplaced.msi hcap
  rw [msiLength] at hmsi
  have hcontrol : pciConfigRead16 m'.config device.address (device.msiCapOffset + msiControl) =
      controlOn (pciConfigRead16 m.config device.address (device.msiCapOffset + msiControl)) log := by
    rw [hm, programmed_control]
  have h64 : is64bit m'.config device = is64bit m.config device := by
    rw [is64bit, is64bit, hcontrol, controlOn_64bit _ hlog]
  have hdata : (messageData m'.config device).toNat = vector.toNat := by
    rw [messageData, h64, ← data_new vector cpu, hm]
    exact congrArg BitVec.toNat (programmed_data hmsi _ _ _)
  have hlog' : enabledLog m'.config device = log.toNat := by
    rw [enabledLog, hcontrol, controlOn_log _ hlog]
  have hmsix : deliversMsix m' device = ∅ := by
    apply deliversMsix_idle
    intro hx
    obtain ⟨halign, hheader, hfits⟩ := hplaced.msix hx
    have hoffset : (device.msixCapOffset + msixControl).toNat = device.msixCapOffset.toNat + 2 :=
      offset_toNat (by change _ + 2 < 256; omega)
    have hapart := hplaced.apart hcap hx
    rw [msiLength] at hapart
    rw [hm, programmed_other hmsi (by omega) (by omega)]
    exact hidle.msix hx
  rw [Pci.delivers, hmsix, Set.union_empty]
  ext v
  simp only [deliversMsi, hcontrol, hdata, hlog', Set.mem_ofPred_eq, messageVectors]
  exact ⟨fun h => h.2.2, fun h => ⟨hcap, controlOn_enable _ _, h⟩⟩

/-! ### MSI-X -/

/-- Each entry of the table is as before or holds one of the messages, and no other table changes. -/
private theorem writeEntries (controller : MsixController) (messages : List MsiMessage) (first : Nat)
    (tables : PciAddress → Nat → MsixTableEntry) :
    (∀ index, ((messages.zipIdx first).foldl
        (fun tables msg => msixConfigureVector tables controller msg.2 msg.1 false) tables) controller.owner index =
          tables controller.owner index ∨
      ∃ msg ∈ messages, ((messages.zipIdx first).foldl
        (fun tables msg => msixConfigureVector tables controller msg.2 msg.1 false) tables) controller.owner index =
          .fromMessage msg) ∧
    ∀ addr ≠ controller.owner, ((messages.zipIdx first).foldl
      (fun tables msg => msixConfigureVector tables controller msg.2 msg.1 false) tables) addr = tables addr := by
  induction messages generalizing first tables with
  | nil => exact ⟨fun _ => .inl rfl, fun _ _ => rfl⟩
  | cons msg messages ih =>
    rw [List.zipIdx_cons, List.foldl_cons]
    obtain ⟨hentry, hother⟩ := ih (first+1) (msixConfigureVector tables controller first msg false)
    constructor
    · intro index
      rcases hentry index with hsame | ⟨msg', hmem, hnew⟩
      · rw [hsame, msixConfigureVector, msixWriteEntry]
        split
        · exact .inl rfl
        · rw [Function.update_self]
          by_cases hindex : index = first
          · rw [hindex, Function.update_self]
            exact .inr ⟨msg, List.mem_cons_self, rfl⟩
          · rw [Function.update_of_ne hindex]
            exact .inl rfl
      · exact .inr ⟨msg', List.mem_cons_of_mem _ hmem, hnew⟩
    · intro addr haddr
      rw [hother addr haddr, msixConfigureVector, msixWriteEntry]
      split
      · rfl
      · exact Function.update_of_ne haddr _ _

/-- Enabling MSI-X leaves the MSI capability alone. -/
private theorem msixEnable_msi {c : ConfigSpace} {device : PciDevice} (hplaced : WellPlaced c device)
    (hmsi : device.msiCapOffset ≠ 0) :
    pciConfigRead16 (msixSetFunctionMask (msixEnable c device) device false) device.address
      (device.msiCapOffset + msiControl) =
    pciConfigRead16 c device.address (device.msiCapOffset + msiControl) := by
  rw [msixSetFunctionMask, msixEnable]
  by_cases hx : device.msixCapOffset = 0
  · rw [if_pos hx, if_pos hx]
  · obtain ⟨halign, hheader, hfits⟩ := hplaced.msi hmsi
    obtain ⟨halign', hheader', hfits'⟩ := hplaced.msix hx
    have hapart := hplaced.apart hmsi hx
    have hlength : 12 ≤ msiLength c device := by
      rw [msiLength]
      split <;> omega
    have hoffset : (device.msiCapOffset + msiControl).toNat = device.msiCapOffset.toNat + 2 :=
      offset_toNat (by change _ + 2 < 256; omega)
    have hoffset' : (device.msixCapOffset + msixControl).toNat = device.msixCapOffset.toNat + 2 :=
      offset_toNat (by change _ + 2 < 256; omega)
    have hcontrol : (device.msiCapOffset + msiControl) &&& 0xFC ≠ (device.msixCapOffset + msixControl) &&& 0xFC :=
      dword_ne (by omega)
    have hcommand : (device.msiCapOffset + msiControl) &&& 0xFC ≠ pciCommand &&& 0xFC := by
      apply dword_ne
      have : pciCommand.toNat = 4 := rfl
      omega
    rw [if_neg hx, if_neg hx, pciConfigRead16_write16_other hcontrol, pciConfigRead16_write16_other hcontrol,
      disableLegacyInterrupts, pciConfigRead16_write16_other hcommand]

/-! ### One device -/

/-- One device set up: how many vectors, for which CPU, and whether its MSI-X controller is passed. -/
structure Setup where
  device : PciDevice
  count : BitVec 8
  cpu : BitVec 8
  withController : Bool

/-- `configure_device_interrupts` with the first `count` of the messages made for the vectors from `base` on. -/
def Setup.configure (m : Machine) (r : Setup) (base : BitVec 8) : Machine :=
  (configureDeviceInterrupts m r.device ((createMsiMessages base r.count r.cpu).take r.count.toNat)
    (if r.withController then some (.new m.config r.device) else none)).2

/-- MSI is what will be programmed. -/
def Setup.UsesMsi (r : Setup) : Prop :=
  ¬ (r.device.supportsMsix = true ∧ r.withController = true) ∧ r.device.supportsMsi = true

/-- The number of messages `msi_enable_multi` will enable. -/
def Setup.enabled (c : ConfigSpace) (r : Setup) : Nat :=
  (enabledVectors r.count (MsiCapability.read c r.device.address r.device.msiCapOffset).maxVectors).toNat

/-- Where several messages go through MSI, their number divides the base and is at most the count. -/
def Setup.Fits (c : ConfigSpace) (r : Setup) (base : BitVec 8) : Prop :=
  r.UsesMsi → r.count ≠ 1 → r.enabled c ∣ base.toNat ∧ r.enabled c ≤ r.count.toNat

/-- The vectors allocated. -/
def Setup.range (r : Setup) (base : BitVec 8) : Set Nat := Set.Ico base.toNat (base.toNat + r.count.toNat)

private theorem messages_take {count : BitVec 8} (h : count.toNat ≤ 32) (base cpu : BitVec 8) :
    (createMsiMessages base count cpu).take count.toNat =
      (List.range count.toNat).map fun i => MsiMessage.new (base + BitVec.ofNat 8 i) cpu := by
  rw [createMsiMessages, ← List.map_take, List.take_range, Nat.min_eq_left h]
  apply List.map_congr_left
  intro i hi
  rw [if_pos (List.mem_range.mp hi)]

section Step
variable {m : Machine} {r : Setup} {base : BitVec 8}

private theorem configure_eq (h : r.count.toNat ≤ 32) (base : BitVec 8) : r.configure m base =
    (configureDeviceInterrupts m r.device
      ((List.range r.count.toNat).map fun i => MsiMessage.new (base + BitVec.ofNat 8 i) r.cpu)
      (if r.withController then some (.new m.config r.device) else none)).2 := by
  rw [Setup.configure, messages_take h]

/-- Through MSI-X a device delivers vectors of its messages only. -/
private theorem configure_msix (hcount : r.count.toNat ≤ 32) (hend : base.toNat + r.count.toNat ≤ 224)
    (hplaced : WellPlaced m.config r.device) (hidle : Idle m r.device) (hmsix : r.device.supportsMsix = true)
    (hcontroller : r.withController = true) : delivers (r.configure m base) r.device ⊆ r.range base := by
  rw [configure_eq hcount base, configureDeviceInterrupts, if_pos hmsix, if_pos hcontroller]
  dsimp only
  set messages := (List.range r.count.toNat).map fun i => MsiMessage.new (base + BitVec.ofNat 8 i) r.cpu with hmessages
  intro v hv
  rcases hv with ⟨hcap, hon, _⟩ | ⟨_, _, _, index, _, hunmasked, rfl⟩
  · dsimp only at hon
    rw [msixEnable_msi hplaced hcap] at hon
    exact absurd (hidle.msi hcap) hon
  · obtain ⟨hentry, _⟩ := writeEntries (.new m.config r.device)
      (messages.take (min messages.length (MsixController.new m.config r.device).tableSize.toNat)) 0 m.tables
    rcases hentry index with hsame | ⟨msg, hmem, hnew⟩
    · dsimp only at hunmasked
      rw [show (MsixController.new m.config r.device).owner = r.device.address from rfl] at hsame
      rw [hsame] at hunmasked
      exact absurd hunmasked (hidle.masked index)
    · rw [show (MsixController.new m.config r.device).owner = r.device.address from rfl] at hnew
      dsimp only
      rw [hnew]
      obtain ⟨i, hi, rfl⟩ := List.mem_map.mp (List.mem_of_mem_take hmem)
      rw [List.mem_range] at hi
      have hvector : (base + BitVec.ofNat 8 i).toNat = base.toNat + i := by
        rw [BitVec.toNat_add, BitVec.toNat_ofNat]
        omega
      have hdata : (MsixTableEntry.fromMessage (.new (base + BitVec.ofNat 8 i) r.cpu)).data.toNat = base.toNat + i := by
        rw [MsixTableEntry.fromMessage, BitVec.toNat_setWidth, data_new, hvector]
        exact Nat.mod_eq_of_lt (by omega)
      rw [hdata, Nat.mod_eq_of_lt (by omega)]
      exact ⟨by omega, by omega⟩

private theorem configure_none (hcount : r.count.toNat ≤ 32)
    (hmsix : ¬ (r.device.supportsMsix = true ∧ r.withController = true)) (hmsi : r.device.supportsMsi = false) :
    r.configure m base = m := by
  rw [configure_eq hcount base, configureDeviceInterrupts]
  have hcontroller : (if r.device.supportsMsix then
      (if r.withController then some (MsixController.new m.config r.device) else none) else none) = none := by
    split
    · split
      · exact absurd ⟨‹_›, ‹_›⟩ hmsix
      · rfl
    · rfl
  rw [hcontroller]
  simp [hmsi]

/-- Through MSI a device delivers the vectors the rule makes of the base. -/
private theorem configure_msi (base : BitVec 8) (hpos : 1 ≤ r.count.toNat) (hcount : r.count.toNat ≤ 32)
    (hplaced : WellPlaced m.config r.device) (hidle : Idle m r.device) (hmsi : r.UsesMsi) :
    ∃ log ≤ 5, 2^log = (if r.count = 1 then 1 else r.enabled m.config) ∧
      delivers (r.configure m base) r.device = messageVectors base.toNat log := by
  have hcap : r.device.msiCapOffset ≠ 0 := by simpa [PciDevice.supportsMsi] using hmsi.2
  have hcontroller : (if r.device.supportsMsix then
      (if r.withController then some (MsixController.new m.config r.device) else none) else none) = none := by
    split
    · split
      · exact absurd ⟨‹_›, ‹_›⟩ hmsi.1
      · rfl
    · rfl
  obtain ⟨n, hn⟩ : ∃ n, r.count.toNat = n+1 := ⟨r.count.toNat - 1, by omega⟩
  have hconfigure := configure_eq (m := m) (r := r) hcount base
  rw [configureDeviceInterrupts, hcontroller, if_pos hmsi.2, hn, List.range_succ_eq_map, List.map_cons] at hconfigure
  rw [show base + BitVec.ofNat 8 0 = base from by simp] at hconfigure
  cases n with
  | zero =>
    have hone : r.count = 1 := BitVec.eq_of_toNat_eq hn
    refine ⟨(0 : BitVec 8).toNat, by decide, by rw [if_pos hone]; rfl, ?_⟩
    simp only [List.range_zero, List.map_nil] at hconfigure
    have hlog : controlOn (pciConfigRead16 m.config r.device.address (r.device.msiCapOffset + msiControl)) 0 =
        ((pciConfigRead16 m.config r.device.address (r.device.msiCapOffset + msiControl) &&& ~~~msiControlEnable) &&&
          ~~~msiControlMmeMask) ||| msiControlEnable := by
      simp [controlOn]
    apply programmed_delivers hcap hplaced hidle base r.cpu _ (by decide)
    rw [hconfigure, msiEnableSingle, if_neg hcap, hlog]
    rfl
  | succ n =>
    have hmany : r.count ≠ 1 := by
      intro h
      rw [h] at hn
      cases hn
    obtain ⟨hlog, hle⟩ := enabledVectors_log hpos hcount
      (maxVectors_pos m.config r.device.address r.device.msiCapOffset)
    refine ⟨_, hle, by rw [if_neg hmany]; exact hlog.symm, ?_⟩
    apply programmed_delivers hcap hplaced hidle base r.cpu _ hle
    have hlength : BitVec.ofNat 8 (n+1+1) = r.count := by
      rw [← hn, BitVec.ofNat_toNat]
      simp
    rw [hconfigure, List.range_succ_eq_map]
    simp only [List.map_cons, List.length_cons, List.length_map, List.length_range, hlength]
    rw [msiEnableMulti, if_neg hcap]
    rfl

/-- A device that was set up delivers its own vectors exactly if its messages fit. -/
theorem configure_own_iff (hpos : 1 ≤ r.count.toNat) (hcount : r.count.toNat ≤ 32)
    (hend : base.toNat + r.count.toNat ≤ 224) (hplaced : WellPlaced m.config r.device) (hidle : Idle m r.device) :
    delivers (r.configure m base) r.device ⊆ r.range base ↔ r.Fits m.config base := by
  by_cases hmsix : r.device.supportsMsix = true ∧ r.withController = true
  · exact iff_of_true (configure_msix hcount hend hplaced hidle hmsix.1 hmsix.2) fun h => absurd hmsix h.1
  · cases hmsi : r.device.supportsMsi with
    | false =>
      rw [configure_none hcount hmsix hmsi, hidle.delivers]
      refine iff_of_true (Set.empty_subset _) fun h => ?_
      rw [h.2] at hmsi
      cases hmsi
    | true =>
      obtain ⟨log, hlog, hpow, hdelivers⟩ := configure_msi base hpos hcount hplaced hidle ⟨hmsix, hmsi⟩
      rw [hdelivers, Setup.range, messageVectors_subset_iff hlog hend hpos, hpow]
      by_cases hone : r.count = 1
      · rw [if_pos hone]
        exact iff_of_true ⟨one_dvd _, hpos⟩ fun _ h => absurd hone h
      · rw [if_neg hone]
        exact ⟨fun h _ _ => h, fun h => h ⟨hmsix, hmsi⟩ hone⟩

/-- Setting one device up leaves every other function as it was. -/
private theorem configure_other {addr : PciAddress} (h : addr ≠ r.device.address) :
    SameFunction m (r.configure m base) addr := by
  rw [Setup.configure, configureDeviceInterrupts]
  split
  · rename_i controller hcontroller
    have howner : controller.owner = r.device.address := by
      split at hcontroller
      · split at hcontroller
        · obtain rfl := Option.some.inj hcontroller
          rfl
        · cases hcontroller
      · cases hcontroller
    refine ⟨?_, (writeEntries controller _ 0 m.tables).2 addr (howner ▸ h)⟩
    dsimp only
    rw [msixSetFunctionMask, msixEnable]
    split <;> simp [h, disableLegacyInterrupts]
  · split
    · exact ⟨rfl, rfl⟩
    · refine ⟨?_, rfl⟩
      dsimp only
      rw [msiEnableSingle]
      split
      · rfl
      · exact programmed_function h _ _ _
    · refine ⟨?_, rfl⟩
      dsimp only
      rw [msiEnableMulti]
      split
      · rfl
      · exact programmed_function h _ _ _

private theorem configure_nextVector : (r.configure m base).nextVector = m.nextVector := by
  rw [Setup.configure, configureDeviceInterrupts]
  split
  · rfl
  · split <;> rfl

end Step

/-! ### All devices -/

/-- The devices set up one after the other; the first part lists those that got vectors, with their bases. -/
def setUpAll : List Setup → Machine → List (Setup × BitVec 8) × Machine
  | [], m => ([], m)
  | r :: rs, m =>
    match allocateVectors m.nextVector r.count with
    | none => setUpAll rs m
    | some (base, nextVector) =>
      let rest := setUpAll rs (r.configure { m with nextVector := nextVector } base)
      ((r, base) :: rest.1, rest.2)

/-- No vector is in two of the ranges. -/
def Apart (g g' : Setup × BitVec 8) : Prop := ∀ v ∈ g.1.range g.2, v ∉ g'.1.range g'.2

/-- A request that a caller may make for a function: 1 to 32 vectors, and the function is as PCI has it after a
reset. -/
structure Setup.Ready (m : Machine) (r : Setup) : Prop where
  pos : 1 ≤ r.count.toNat
  count : r.count.toNat ≤ 32
  placed : WellPlaced m.config r.device
  idle : Idle m r.device

theorem allocateVectors_some {nextVector count base next : BitVec 8}
    (h : allocateVectors nextVector count = some (base, next)) :
    base = nextVector ∧ next.toNat = base.toNat + count.toNat ∧ base.toNat + count.toNat ≤ 224 := by
  rw [allocateVectors] at h
  split at h
  · cases h
  · rename_i hroom
    obtain ⟨rfl, rfl⟩ := Prod.mk.inj (Option.some.inj h)
    have hsum : (nextVector + count).toNat = nextVector.toNat + count.toNat := by
      rw [BitVec.toNat_add]
      omega
    exact ⟨rfl, hsum, by omega⟩

private theorem SameFunction.fits {m m' : Machine} {r : Setup} (h : SameFunction m m' r.device.address)
    (base : BitVec 8) : r.Fits m'.config base ↔ r.Fits m.config base := by
  simp only [Setup.Fits, Setup.enabled, MsiCapability.read, pciConfigRead16, pciConfigRead32, h.1]

private theorem SameFunction.trans {m₁ m₂ m₃ : Machine} {addr : PciAddress} (h : SameFunction m₁ m₂ addr)
    (h' : SameFunction m₂ m₃ addr) : SameFunction m₁ m₃ addr := ⟨h'.1.trans h.1, h'.2.trans h.2⟩

private theorem SameFunction.ready {m m' : Machine} {r : Setup} (h : SameFunction m m' r.device.address)
    (hr : r.Ready m) : r.Ready m' := ⟨hr.pos, hr.count, h.wellPlaced hr.placed, h.idle hr.idle⟩

/-- What the whole sequence leaves: other functions as they were, ranges in ascending order, and each device
judged by what it was before. -/
private theorem setUpAll_spec (rs : List Setup) {m : Machine}
    (hdistinct : rs.Pairwise fun r r' => r.device.address ≠ r'.device.address) (hready : ∀ r ∈ rs, r.Ready m) :
    (∀ addr, (∀ r ∈ rs, r.device.address ≠ addr) → SameFunction m (setUpAll rs m).2 addr) ∧
    (∀ g ∈ (setUpAll rs m).1, g.1 ∈ rs ∧ m.nextVector.toNat ≤ g.2.toNat) ∧
    (setUpAll rs m).1.Pairwise Apart ∧
    ∀ g ∈ (setUpAll rs m).1, (delivers (setUpAll rs m).2 g.1.device ⊆ g.1.range g.2 ↔ g.1.Fits m.config g.2) := by
  induction rs generalizing m with
  | nil => exact ⟨fun _ _ => ⟨rfl, rfl⟩, by simp [setUpAll], .nil, by simp [setUpAll]⟩
  | cons r rs ih =>
    obtain ⟨hfirst, hrest⟩ := List.pairwise_cons.mp hdistinct
    rw [setUpAll]
    cases halloc : allocateVectors m.nextVector r.count with
    | none =>
      obtain ⟨h₁, h₂, h₃, h₄⟩ := ih hrest fun r' hr' => hready r' (List.mem_cons_of_mem _ hr')
      refine ⟨fun addr haddr => h₁ addr fun r' hr' => haddr r' (List.mem_cons_of_mem _ hr'), ?_, h₃, h₄⟩
      exact fun g hg => ⟨List.mem_cons_of_mem _ (h₂ g hg).1, (h₂ g hg).2⟩
    | some alloc =>
      obtain ⟨base, next⟩ := alloc
      obtain ⟨hbase, hnext, hend⟩ := allocateVectors_some halloc
      have hr := hready r List.mem_cons_self
      set m₁ : Machine := { m with nextVector := next } with hm₁
      have hstep {addr : PciAddress} (h : addr ≠ r.device.address) : SameFunction m (r.configure m₁ base) addr :=
        configure_other (m := m₁) h
      have hnextVector : (r.configure m₁ base).nextVector = next := configure_nextVector
      have hbase' : base.toNat = m.nextVector.toNat := congrArg BitVec.toNat hbase
      have hready' : ∀ r' ∈ rs, r'.Ready (r.configure m₁ base) := fun r' hr' =>
        (hstep (hfirst r' hr').symm).ready (hready r' (List.mem_cons_of_mem _ hr'))
      obtain ⟨h₁, h₂, h₃, h₄⟩ := ih hrest hready'
      rw [hnextVector] at h₂
      have hkept : SameFunction (r.configure m₁ base) (setUpAll rs (r.configure m₁ base)).2 r.device.address :=
        h₁ _ fun r' hr' => (hfirst r' hr').symm
      refine ⟨?_, ?_, ?_, ?_⟩
      · intro addr haddr
        exact (hstep (haddr r List.mem_cons_self).symm).trans
          (h₁ addr fun r' hr' => haddr r' (List.mem_cons_of_mem _ hr'))
      · intro g hg
        rcases List.mem_cons.mp hg with rfl | hg
        · exact ⟨List.mem_cons_self, hbase ▸ le_rfl⟩
        · exact ⟨List.mem_cons_of_mem _ (h₂ g hg).1, by have := (h₂ g hg).2; omega⟩
      · refine List.pairwise_cons.mpr ⟨?_, h₃⟩
        intro g hg v hv hv'
        have := (h₂ g hg).2
        obtain ⟨_, hhigh⟩ := hv
        obtain ⟨hlow, _⟩ := hv'
        dsimp only at hhigh
        omega
      · intro g hg
        rcases List.mem_cons.mp hg with rfl | hg
        · rw [hkept.delivers]
          exact configure_own_iff (m := m₁) hr.pos hr.count hend hr.placed ⟨hr.idle.msi, hr.idle.msix, hr.idle.masked⟩
        · rw [h₄ g hg]
          exact (hstep (hfirst g.1 (h₂ g hg).1).symm).fits g.2

/-- Every device delivers only vectors of its own range, and no two ranges meet, exactly if each device that got
vectors fits: the second always holds, the first where the messages enabled are no more than the vectors and
their number divides the base. -/
theorem setUpAll_own_iff (rs : List Setup) {m : Machine}
    (hdistinct : rs.Pairwise fun r r' => r.device.address ≠ r'.device.address) (hready : ∀ r ∈ rs, r.Ready m) :
    ((∀ g ∈ (setUpAll rs m).1, delivers (setUpAll rs m).2 g.1.device ⊆ g.1.range g.2) ∧
      (setUpAll rs m).1.Pairwise Apart) ↔ ∀ g ∈ (setUpAll rs m).1, g.1.Fits m.config g.2 := by
  obtain ⟨_, _, hapart, hown⟩ := setUpAll_spec rs hdistinct hready
  constructor
  · rintro ⟨h, _⟩ g hg
    exact (hown g hg).mp (h g hg)
  · intro h
    exact ⟨fun g hg => (hown g hg).mpr (h g hg), hapart⟩

/-- Functions with a 64-bit MSI capability for two messages at 0x50 and nothing else. -/
def twoMessages : Machine where
  config := fun _ offset => if offset = 0x50 then 0x00820005 else 0
  tables := fun _ _ => ⟨0, 0, 0, 1⟩
  nextVector := 48

/-- A request for function 0 of a device of `twoMessages` on bus 0. -/
def twoMessagesSetup (device : BitVec 5) (count : BitVec 8) : Setup where
  device := ⟨⟨0, device, 0⟩, 0x8086, 0x1234, 0, 0, 0, 0, 0, 0x50, 0⟩
  count := count
  cpu := 0
  withController := false

private theorem twoMessages_ready (device : BitVec 5) {count : BitVec 8} (h₁ : 1 ≤ count.toNat)
    (h₂ : count.toNat ≤ 32) : (twoMessagesSetup device count).Ready twoMessages := by
  have h64 : is64bit twoMessages.config (twoMessagesSetup device count).device = true := by
    change is64bit twoMessages.config (twoMessagesSetup 0 0).device = true
    decide
  refine ⟨h₁, h₂, ⟨fun _ => ?_, fun h => absurd rfl h, fun _ h => absurd rfl h⟩,
    ⟨fun _ => ?_, fun h => absurd rfl h, fun _ => (show (1#32) &&& 1 ≠ 0 by decide)⟩⟩
  · rw [msiLength, h64]
    change Placed 0x50 16
    decide
  · change pciConfigRead16 twoMessages.config ⟨0, 0, 0⟩ (0x50 + msiControl) &&& msiControlEnable = 0
    decide

theorem setUpAll_own_twoMessages :
    ((∀ g ∈ (setUpAll [twoMessagesSetup 3 2, twoMessagesSetup 4 2] twoMessages).1,
      delivers (setUpAll [twoMessagesSetup 3 2, twoMessagesSetup 4 2] twoMessages).2 g.1.device ⊆ g.1.range g.2) ∧
      (setUpAll [twoMessagesSetup 3 2, twoMessagesSetup 4 2] twoMessages).1.Pairwise Apart) ↔
    ∀ g ∈ (setUpAll [twoMessagesSetup 3 2, twoMessagesSetup 4 2] twoMessages).1, g.1.Fits twoMessages.config g.2 := by
  apply setUpAll_own_iff
  · simp [twoMessagesSetup]
  · simp only [List.mem_cons, List.not_mem_nil, or_false, forall_eq_or_imp, forall_eq]
    exact ⟨twoMessages_ready 3 (by decide) (by decide), twoMessages_ready 4 (by decide) (by decide)⟩

/-- One vector for the first device, two for the second: with base 49 the second delivers vector 48. -/
theorem setUpAll_shared : ¬ ∀ (rs : List Setup) (m : Machine),
    (rs.Pairwise fun r r' => r.device.address ≠ r'.device.address) → (∀ r ∈ rs, r.Ready m) →
    ∀ g ∈ (setUpAll rs m).1, delivers (setUpAll rs m).2 g.1.device ⊆ g.1.range g.2 := by
  intro h
  have hdistinct : [twoMessagesSetup 3 1, twoMessagesSetup 4 2].Pairwise
      fun r r' => r.device.address ≠ r'.device.address := by simp [twoMessagesSetup]
  have hready : ∀ r ∈ [twoMessagesSetup 3 1, twoMessagesSetup 4 2], r.Ready twoMessages := by
    simp only [List.mem_cons, List.not_mem_nil, or_false, forall_eq_or_imp, forall_eq]
    exact ⟨twoMessages_ready 3 (by decide) (by decide), twoMessages_ready 4 (by decide) (by decide)⟩
  have hmem : (twoMessagesSetup 4 2, 49#8) ∈ (setUpAll [twoMessagesSetup 3 1, twoMessagesSetup 4 2] twoMessages).1 :=
    List.mem_cons_of_mem _ List.mem_cons_self
  obtain ⟨_, _, _, hown⟩ := setUpAll_spec _ hdistinct hready
  have hfits := (hown _ hmem).mp (h _ _ hdistinct hready _ hmem) ⟨by decide, by decide⟩ (by decide)
  have henabled : (twoMessagesSetup 4 2).enabled twoMessages.config = 2 := by decide
  rw [henabled] at hfits
  exact absurd hfits.1 (by decide)

end Nafuraito.Pci
