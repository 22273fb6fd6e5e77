import Nafuraito.Pci.MessageRuns

/-! A function signals by its pin or by messages, never by both at once. -/
namespace Nafuraito.Pci
open Nafuraito.Library

/-- Legacy interrupts are not disabled. -/
def PinsOn (m : Machine) (device : PciDevice) : Prop :=
  pciConfigRead16 m.config device.address pciCommand &&& pciCommandInterruptDisable = 0

instance (m : Machine) (device : PciDevice) : Decidable (PinsOn m device) := inferInstanceAs (Decidable (_ = _))

/-- The MSI-X capability is on, masked or not. -/
def MsixEnabled (c : ConfigSpace) (device : PciDevice) : Prop :=
  device.msixCapOffset ≠ 0 ∧
    pciConfigRead16 c device.address (device.msixCapOffset + msixControl) &&& msixControlEnable ≠ 0

/-- Where the pin is on, both capabilities are off. -/
def Exclusive (m : Machine) (device : PciDevice) : Prop :=
  PinsOn m device → ¬ MsiOn m.config device ∧ ¬ MsixEnabled m.config device

/-- A call that turns one capability off finds the other one off. -/
def Call.Alone (device : PciDevice) (m : Machine) : Call → Prop
  | msiDisable => device.msiCapOffset ≠ 0 → ¬ MsixEnabled m.config device
  | msixDisable => device.msixCapOffset ≠ 0 → ¬ MsiOn m.config device
  | _ => True

def AllAlone (device : PciDevice) (controller : MsixController) : List Call → Machine → Prop
  | [], _ => True
  | call :: calls, m => call.Alone device m ∧ AllAlone device controller calls (call.after device controller m)

/-! ### Writes -/

section Writes
variable {device : PciDevice} {m t : Machine} {x : BitVec 8}

theorem pinsOn_write32 (hx : pciCommand &&& 0xFC ≠ x &&& 0xFC) (value : BitVec 32) :
    PinsOn { t with config := pciConfigWrite32 t.config device.address x value } device ↔ PinsOn t device := by
  rw [PinsOn, pciConfigRead16_write32_other hx, PinsOn]

theorem pinsOn_congr (h : t.config = m.config) : PinsOn t device ↔ PinsOn m device := by rw [PinsOn, PinsOn, h]

theorem Exclusive.congr (hm : Exclusive m device) (h : t.config = m.config) : Exclusive t device := by
  intro hpins
  rw [h]
  exact hm ((pinsOn_congr h).mp hpins)

theorem Exclusive.of_pins (h : ¬ PinsOn t device) : Exclusive t device := fun hpins => absurd hpins h

theorem pins_disabled (command : BitVec 16) : ¬ PinsOn { t with
      config := pciConfigWrite16 t.config device.address pciCommand (command ||| pciCommandInterruptDisable) }
    device := by
  rw [PinsOn, pciConfigRead16_write16]
  intro h
  have := congrArg (·.getLsbD 10) h
  simp [pciCommandInterruptDisable] at this

theorem pins_enabled (command : BitVec 16) : PinsOn { t with
      config := pciConfigWrite16 t.config device.address pciCommand (command &&& ~~~pciCommandInterruptDisable) }
    device := by
  rw [PinsOn, pciConfigRead16_write16]
  exact cleared _ _

theorem msixEnabled_iff (hplaced : WellPlaced m.config device) (h : SameMsix device m t) :
    MsixEnabled t.config device ↔ MsixEnabled m.config device := by
  refine and_congr_right fun hcap => ?_
  rw [h.control hplaced hcap]

theorem msiOn_iff (hplaced : WellPlaced m.config device) (h : SameMsi device m t) :
    MsiOn t.config device ↔ MsiOn m.config device := by
  refine and_congr_right fun hcap => ?_
  rw [h.control hplaced hcap]

variable (hplaced : WellPlaced m.config device)
include hplaced

theorem msixControl_ne_command (hcap : device.msixCapOffset ≠ 0) :
    pciCommand &&& 0xFC ≠ (device.msixCapOffset + msixControl) &&& 0xFC :=
  ne_command (hplaced.msix hcap) (by decide)

theorem msixControl_pins (hcap : device.msixCapOffset ≠ 0) (h : ¬ PinsOn t device) (control : BitVec 16) :
    ¬ PinsOn { t with
      config := pciConfigWrite16 t.config device.address (device.msixCapOffset + msixControl) control } device :=
  fun hpins => h ((pinsOn_write32 (msixControl_ne_command hplaced hcap) _).mp hpins)

theorem msiRegister_ne_command (hcap : device.msiCapOffset ≠ 0) {k : BitVec 8} (hk : k.toNat < 12) :
    pciCommand &&& 0xFC ≠ (device.msiCapOffset + k) &&& 0xFC :=
  ne_command (hplaced.msi hcap) (lt_of_lt_of_le hk (twelve_le_msiLength _ _))

/-- MSI off, while the rest stays. -/
theorem Exclusive.msiOff (h : Exclusive m device) (hcap : device.msiCapOffset ≠ 0) (control : BitVec 16) :
    Exclusive { m with
      config := pciConfigWrite16 m.config device.address (device.msiCapOffset + msiControl)
        (control &&& ~~~msiControlEnable) } device := by
  have hoff := programming_off hplaced hcap (cleared control msiControlEnable)
  intro hpins
  refine ⟨hoff.off, fun hmsix => (h ?_).2 ((msixEnabled_iff hplaced hoff.same).mp hmsix)⟩
  exact (pinsOn_write32 (msiRegister_ne_command hplaced hcap (by decide)) _).mp hpins

/-- MSI-X off, while the rest stays. -/
theorem Exclusive.msixOff (h : Exclusive m device) (hcap : device.msixCapOffset ≠ 0) (control : BitVec 16) :
    Exclusive { m with
      config := pciConfigWrite16 m.config device.address (device.msixCapOffset + msixControl)
        (control &&& ~~~msixControlEnable) } device := by
  have hoff := SameMsi.filling hplaced hcap (fun _ => SameRange.refl) (.inl (cleared control msixControlEnable))
  intro hpins
  refine ⟨fun hmsi => (h ?_).1 ((msiOn_iff hplaced hoff.same).mp hmsi), fun hmsix => ?_⟩
  · exact (pinsOn_write32 (msixControl_ne_command hplaced hcap) _).mp hpins
  · rw [MsixEnabled, pciConfigRead16_write16] at hmsix
    exact hmsix.2 (cleared control msixControlEnable)

/-- The function mask does not turn anything on. -/
theorem Exclusive.functionMask (h : Exclusive m device) (hcap : device.msixCapOffset ≠ 0) (masked : Bool) :
    Exclusive { m with
      config := pciConfigWrite16 m.config device.address (device.msixCapOffset + msixControl)
        (if masked then
          pciConfigRead16 m.config device.address (device.msixCapOffset + msixControl) ||| msixControlFuncMask
        else
          pciConfigRead16 m.config device.address (device.msixCapOffset + msixControl) &&& ~~~msixControlFuncMask) }
      device := by
  have hbit (control : BitVec 16) : (if masked then control ||| msixControlFuncMask
      else control &&& ~~~msixControlFuncMask) &&& msixControlEnable = control &&& msixControlEnable := by
    cases masked <;> ext i hi <;> interval_cases i <;> simp [msixControlFuncMask, msixControlEnable]
  intro hpins
  have hexclusive := h ((pinsOn_write32 (msixControl_ne_command hplaced hcap) _).mp hpins)
  constructor
  · exact fun hmsi => hexclusive.1 ((msiOn_iff hplaced
      (SameMsi.write32 hplaced (fun _ => SameRange.refl) (msixControl_outside hplaced hcap) _)).mp hmsi)
  · rw [MsixEnabled, pciConfigRead16_write16, hbit]
    exact hexclusive.2

end Writes

/-! ### Calls -/

section Calls
variable {device : PciDevice} {controller : MsixController} {m t : Machine}

theorem exclusive_disableLegacyInterrupts (h : Exclusive t device) :
    Accesses.Always (access device.address) (Exclusive · device) (fun _ t => ¬ PinsOn t device)
      Driver.disableLegacyInterrupts t :=
  ⟨h, .of_pins (pins_disabled _), pins_disabled _⟩

variable (hplaced : WellPlaced m.config device)
include hplaced

/-- The registers of the message do not touch the pin. -/
theorem exclusive_writeMessage (hcap : device.msiCapOffset ≠ 0) (message : MsiMessage)
    (h : ¬ PinsOn t device) :
    Accesses.Always (access device.address) (Exclusive · device) (fun _ t => ¬ PinsOn t device)
      (Driver.writeMessage device.msiCapOffset (is64bit m.config device) message) t := by
  have hregister {t : Machine} (h : ¬ PinsOn t device) {k : BitVec 8} (hk : k.toNat < 12) (value : BitVec 32) :
      ¬ PinsOn { t with config := pciConfigWrite32 t.config device.address (device.msiCapOffset + k) value } device :=
    fun hpins => h ((pinsOn_write32 (msiRegister_ne_command hplaced hcap hk) _).mp hpins)
  have hlow := hregister h (k := msiMessageAddressLow) (by decide) message.addressLow
  rw [Driver.writeMessage, Accesses.always_bind]
  refine ⟨.of_pins hlow, ?_⟩
  split
  · rename_i h64
    have hhigh := hregister hlow (k := msiMessageAddressHigh) (by decide)
      message.addressHigh
    have hlast : pciCommand &&& 0xFC ≠ (device.msiCapOffset + msiMessageData64) &&& 0xFC := by
      refine ne_command (hplaced.msi hcap) ?_
      rw [msiLength, if_pos h64]
      decide
    exact ⟨.of_pins hhigh, .of_pins (mt (pinsOn_write32 hlast _).mp hhigh), mt (pinsOn_write32 hlast _).mp hhigh⟩
  · have hdata (value : BitVec 32) := hregister hlow (k := msiMessageData32) (by decide)
      value
    exact ⟨.of_pins (hdata _), hdata _⟩

theorem exclusive_program (hcap : device.msiCapOffset ≠ 0) (hm : Exclusive m device) (message : MsiMessage)
    (control on : BitVec 16) :
    Accesses.Always (access device.address) (Exclusive · device) (fun _ _ => True) (Driver.program device.msiCapOffset
      (is64bit m.config device) message (control &&& ~~~msiControlEnable) on) m := by
  have hoff := hm.msiOff hplaced hcap control
  have hlast {t : Machine} (h : ¬ PinsOn t device) : Accesses.Always (access device.address)
      (Exclusive · device) (fun _ _ => True) (Driver.write16 (device.msiCapOffset + msiControl) on) t :=
    ⟨.of_pins fun hpins => h ((pinsOn_write32 (msiRegister_ne_command hplaced hcap (by decide)) _).mp hpins), trivial⟩
  rw [Driver.program]
  refine Accesses.Always.bind (Q := fun _ t => Exclusive t device) ⟨hoff, hoff⟩ fun h => ?_
  refine (exclusive_disableLegacyInterrupts h).bind fun h => ?_
  refine (exclusive_writeMessage hplaced hcap message h).bind fun h => ?_
  exact hlast h

theorem exclusive_msiEnableSingle (hm : Exclusive m device) (message : MsiMessage) :
    Accesses.Always (access device.address) (Exclusive · device) (fun _ _ => True)
      (Driver.msiEnableSingle device message) m := by
  rw [Driver.msiEnableSingle]
  split
  · trivial
  · rename_i hcap
    exact ⟨hm, (exclusive_program hplaced hcap hm message _ _).bind fun _ => trivial⟩

theorem exclusive_msiEnableMulti (hm : Exclusive m device) (message : MsiMessage) (requested : BitVec 8) :
    Accesses.Always (access device.address) (Exclusive · device) (fun _ _ => True)
      (Driver.msiEnableMulti device message requested) m := by
  rw [Driver.msiEnableMulti]
  split
  · trivial
  · rename_i hcap
    exact ⟨hm, hm, (exclusive_program hplaced hcap hm message _ _).bind fun _ => trivial⟩

theorem exclusive_msixEnable (hcap : device.msixCapOffset ≠ 0) (hm : Exclusive m device) :
    Accesses.Always (access device.address) (Exclusive · device) (fun _ t => ¬ PinsOn t device)
      (Driver.msixEnable device) m := by
  rw [Driver.msixEnable, if_neg hcap]
  refine (exclusive_disableLegacyInterrupts hm).bind fun h => ?_
  have hlast := msixControl_pins hplaced hcap h
  exact ⟨.of_pins h, .of_pins (hlast _), hlast _⟩

theorem exclusive_msixSetFunctionMask (hm : Exclusive m device) (masked : Bool) :
    Accesses.Always (access device.address) (Exclusive · device) (fun _ _ => True)
      (Driver.msixSetFunctionMask device masked) m := by
  rw [Driver.msixSetFunctionMask]
  split
  · trivial
  · rename_i hcap
    exact ⟨hm, hm.functionMask hplaced hcap masked, trivial⟩

/-- Turning MSI off turns the pin on. -/
theorem exclusive_msiDisable_iff (hm : Exclusive m device) :
    Accesses.Always (access device.address) (Exclusive · device) (fun _ _ => True) (Driver.msiDisable device) m
      ↔ (device.msiCapOffset ≠ 0 → ¬ MsixEnabled m.config device) := by
  rw [Driver.msiDisable]
  by_cases hcap : device.msiCapOffset = 0
  · rw [if_pos hcap]
    exact iff_of_true trivial fun h => absurd hcap h
  rw [if_neg hcap]
  have hoff (control : BitVec 16) := programming_off hplaced hcap (cleared control msiControlEnable)
  have hlast (control command : BitVec 16) := (hoff control).command hplaced hcap command
  constructor
  · rintro ⟨-, -, -, hfinal, -⟩ - hmsix
    exact (hfinal (pins_enabled _)).2 ((msixEnabled_iff hplaced (hlast _ _).same).mpr hmsix)
  · intro h
    refine ⟨hm, hm.msiOff hplaced hcap _, hm.msiOff hplaced hcap _, fun _ => ⟨(hlast _ _).off, ?_⟩, trivial⟩
    exact fun hmsix => h hcap ((msixEnabled_iff hplaced (hlast _ _).same).mp hmsix)

/-- Turning MSI-X off turns the pin on. -/
theorem exclusive_msixDisable_iff (hm : Exclusive m device) :
    Accesses.Always (access device.address) (Exclusive · device) (fun _ _ => True) (Driver.msixDisable device) m
      ↔ (device.msixCapOffset ≠ 0 → ¬ MsiOn m.config device) := by
  rw [Driver.msixDisable]
  by_cases hcap : device.msixCapOffset = 0
  · rw [if_pos hcap]
    exact iff_of_true trivial fun h => absurd hcap h
  rw [if_neg hcap]
  have hoff (control : BitVec 16) :=
    SameMsi.filling hplaced hcap (fun _ => SameRange.refl) (.inl (cleared control msixControlEnable))
  have hlast (control command : BitVec 16) : SameMsi device m { m with
      config := pciConfigWrite16 (pciConfigWrite16 m.config device.address (device.msixCapOffset + msixControl)
        (control &&& ~~~msixControlEnable)) device.address pciCommand command } :=
    SameMsi.write32 (t := { m with config := _ }) hplaced (hoff control).same
      (fun hmsi => command_outside (hplaced.msi hmsi)) _
  have hread (control command : BitVec 16) : pciConfigRead16 (pciConfigWrite16 (pciConfigWrite16 m.config device.address
      (device.msixCapOffset + msixControl) control) device.address pciCommand command) device.address
      (device.msixCapOffset + msixControl) = control :=
    (pciConfigRead16_write16_other (msixControl_ne_command hplaced hcap).symm command).trans
      (pciConfigRead16_write16 control)
  constructor
  · rintro ⟨-, -, -, hfinal, -⟩ - hmsi
    exact (hfinal (pins_enabled _)).1 ((msiOn_iff hplaced (hlast _ _)).mpr hmsi)
  · intro h
    refine ⟨hm, hm.msixOff hplaced hcap _, hm.msixOff hplaced hcap _, fun _ => ⟨?_, ?_⟩, trivial⟩
    · exact fun hmsi => h hcap ((msiOn_iff hplaced (hlast _ _)).mp hmsi)
    · rintro ⟨-, hon⟩
      exact hon ((congrArg (· &&& msixControlEnable) (hread _ _)).trans (cleared _ _))

omit hplaced in
/-- The writes to the table leave the registers as they are. -/
theorem config_msixConfigureVector (index : Nat) (message : MsiMessage) (masked : Bool) :
    Accesses.Always (access device.address) (·.config = t.config) (fun _ t' => t'.config = t.config)
      (Driver.msixConfigureVector controller index message masked) t := by
  rw [Driver.msixConfigureVector, Driver.msixWriteEntry]
  split
  · rfl
  · exact ⟨rfl, rfl, rfl, rfl, rfl⟩

omit hplaced in
theorem exclusive_msixConfigureVectors (messages : List (MsiMessage × Nat)) (h : ¬ PinsOn t device) :
    Accesses.Always (access device.address) (Exclusive · device) (fun _ t => ¬ PinsOn t device)
      (messages.forM fun msg => do let _ ← Driver.msixConfigureVector controller msg.2 msg.1 false) t := by
  refine Accesses.always_forM messages (fun msg _ t ht => ?_) h
  refine Accesses.Always.bind (Q := fun _ t => ¬ PinsOn t device)
    ((config_msixConfigureVector msg.2 msg.1 false).mono (fun t' ht' => ?_) fun _ t' ht' => ?_) fun h => h
  · exact .of_pins (mt (pinsOn_congr ht').mp ht)
  · exact mt (pinsOn_congr ht').mp ht

omit hplaced in
theorem exclusive_updateVectorCtrl (hm : Exclusive m device) (index : Nat) (change : BitVec 32 → BitVec 32) :
    Accesses.Always (access device.address) (Exclusive · device) (fun _ _ => True)
      (Driver.updateVectorCtrl controller index change) m := by
  rw [Driver.updateVectorCtrl]
  split
  · trivial
  · exact ⟨hm, hm, trivial⟩

theorem exclusive_configureDeviceInterrupts (hm : Exclusive m device) (messages : List MsiMessage)
    (msixController : Option MsixController) :
    Accesses.Always (access device.address) (Exclusive · device) (fun _ _ => True)
      (Driver.configureDeviceInterrupts device messages msixController) m := by
  have hchosen := chosen_msix device msixController
  rw [Driver.configureDeviceInterrupts]
  generalize (if device.supportsMsix then msixController else none) = chosen at hchosen ⊢
  generalize (if device.supportsMsi then messages else []) = sent
  cases chosen with
  | some controller =>
    have hcap := hchosen controller rfl
    refine (exclusive_msixEnable hplaced hcap hm).bind fun h => ?_
    refine (exclusive_msixConfigureVectors _ h).bind fun h => ?_
    rw [Driver.msixSetFunctionMask, if_neg hcap]
    exact ⟨.of_pins h, .of_pins (msixControl_pins hplaced hcap h _), trivial⟩
  | none =>
    rcases sent with - | ⟨message, - | ⟨_, _⟩⟩
    · trivial
    · exact (exclusive_msiEnableSingle hplaced hm message).bind fun _ => trivial
    · exact (exclusive_msiEnableMulti hplaced hm message _).bind fun _ => trivial

/-- A call keeps pin and messages apart at every moment exactly if it turns no capability off while the other is on. -/
theorem Call.exclusive_iff (hm : Exclusive m device) (call : Call) :
    (∀ t ∈ (call.accesses device controller).moments (access device.address) m, Exclusive t device) ↔
      call.Alone device m := by
  have hmoments : (∀ t ∈ (call.accesses device controller).moments (access device.address) m,
      Exclusive t device) ↔ Accesses.Always (access device.address) (Exclusive · device)
        (fun _ _ => True) (call.accesses device controller) m := by
    rw [Accesses.always_iff, and_true]
  rw [hmoments]
  cases call <;> refine (Accesses.always_bind _ _).trans ?_
  case msiEnableSingle => exact iff_of_true (exclusive_msiEnableSingle hplaced hm _) trivial
  case msiEnableMulti => exact iff_of_true (exclusive_msiEnableMulti hplaced hm _ _) trivial
  case msiDisable => exact exclusive_msiDisable_iff hplaced hm
  case msixEnable =>
    refine iff_of_true ?_ trivial
    by_cases hcap : device.msixCapOffset = 0
    · rw [Driver.msixEnable, if_pos hcap]
      trivial
    · exact (exclusive_msixEnable hplaced hcap hm).mono (fun _ h => h) fun _ _ _ => trivial
  case msixDisable => exact exclusive_msixDisable_iff hplaced hm
  case msixSetFunctionMask => exact iff_of_true (exclusive_msixSetFunctionMask hplaced hm _) trivial
  case msixConfigureVector =>
    exact iff_of_true ((config_msixConfigureVector _ _ _).mono (fun _ h => hm.congr h) fun _ _ _ => trivial) trivial
  case configureDeviceInterrupts => exact iff_of_true (exclusive_configureDeviceInterrupts hplaced hm _ _) trivial
  case msixMaskVector => exact iff_of_true (exclusive_updateVectorCtrl hm _ _) trivial
  case msixUnmaskVector => exact iff_of_true (exclusive_updateVectorCtrl hm _ _) trivial

omit hplaced in
/-- A run keeps pin and messages apart at every moment exactly if each of its calls does. -/
theorem performAll_exclusive_iff (calls : List Call) (hplaced : WellPlaced m.config device)
    (hm : Exclusive m device) :
    (∀ t ∈ (performAll device controller calls).moments (access device.address) m, Exclusive t device) ↔
      AllAlone device controller calls m := by
  induction calls generalizing m with
  | nil => exact iff_of_true (fun _ ht => absurd ht List.not_mem_nil) trivial
  | cons call calls ih =>
    rw [performAll_cons, Accesses.moments_bind, List.forall_mem_append, call.exclusive_iff hplaced hm]
    refine and_congr_right fun halone => ih (call.wellPlaced hplaced) ?_
    -- the state after the call is the one before it or a moment of it
    rcases (call.accesses device controller).run_or_moment m with hsame | hmoment
    · rw [hsame]
      exact hm
    · exact (call.exclusive_iff hplaced hm).mpr halone _ hmoment

end Calls

/-- MSI takes over from MSI-X and is turned off again. -/
theorem performAll_exclusive_liveEntry :
    (∀ t ∈ (performAll liveEntryDevice ⟨liveEntryDevice.address, 1⟩
      [.msixDisable, .msiEnableSingle (.new 49 0), .msiDisable]).moments (access liveEntryDevice.address) liveEntry,
      Exclusive t liveEntryDevice) ↔
    AllAlone liveEntryDevice ⟨liveEntryDevice.address, 1⟩
      [.msixDisable, .msiEnableSingle (.new 49 0), .msiDisable] liveEntry := by
  apply performAll_exclusive_iff
  · exact liveEntry_wellPlaced
  · exact .of_pins (by decide)

end Nafuraito.Pci
