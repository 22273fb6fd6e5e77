import Nafuraito.Pci.MessagePrograms

/-! What a function can send while its registers are being written: no message is torn. -/
namespace Nafuraito.Pci
open Nafuraito.Library

/-! ### What a function can send -/

/-- A message on the bus: a write of `data`, with the halves of its address. -/
structure Sent where
  addressHigh : BitVec 32
  addressLow : BitVec 32
  data : BitVec 32
  deriving DecidableEq, Repr

def MsixTableEntry.sent (entry : MsixTableEntry) : Sent := ⟨entry.addressHigh, entry.addressLow, entry.data⟩

def MsixTableEntry.Masked (entry : MsixTableEntry) : Prop := entry.vectorCtrl &&& msixEntryVectorCtrlMask ≠ 0

instance (entry : MsixTableEntry) : Decidable entry.Masked := inferInstanceAs (Decidable (_ ≠ _))

/-- The function sends the messages of its MSI capability. -/
def MsiOn (c : ConfigSpace) (device : PciDevice) : Prop :=
  device.msiCapOffset ≠ 0 ∧ pciConfigRead16 c device.address (device.msiCapOffset + msiControl) &&& msiControlEnable ≠ 0

/-- The function sends the messages of its table. -/
def MsixOn (c : ConfigSpace) (device : PciDevice) : Prop :=
  device.msixCapOffset ≠ 0 ∧
    pciConfigRead16 c device.address (device.msixCapOffset + msixControl) &&& msixControlEnable ≠ 0 ∧
    pciConfigRead16 c device.address (device.msixCapOffset + msixControl) &&& msixControlFuncMask = 0

def msiAddressHigh (c : ConfigSpace) (device : PciDevice) : BitVec 32 :=
  if is64bit c device then pciConfigRead32 c device.address (device.msiCapOffset + msiMessageAddressHigh) else 0

def msiAddressLow (c : ConfigSpace) (device : PciDevice) : BitVec 32 :=
  pciConfigRead32 c device.address (device.msiCapOffset + msiMessageAddressLow)

/-- The low bits of the data become the message number. -/
def msiSends (m : Machine) (device : PciDevice) : Set Sent :=
  {s | MsiOn m.config device ∧ s.addressHigh = msiAddressHigh m.config device ∧
    s.addressLow = msiAddressLow m.config device ∧ ∃ number < 2^enabledLog m.config device, s.data.toNat =
      (messageData m.config device).toNat / 2^enabledLog m.config device * 2^enabledLog m.config device + number}

/-- The function sends the message of an entry. -/
def Live (m : Machine) (device : PciDevice) (index : Nat) : Prop :=
  MsixOn m.config device ∧ index < (MsixController.new m.config device).tableSize.toNat ∧
    ¬ (m.tables device.address index).Masked

def entrySends (m : Machine) (device : PciDevice) (index : Nat) : Set Sent :=
  {s | Live m device index ∧ s = (m.tables device.address index).sent}

def msixSends (m : Machine) (device : PciDevice) : Set Sent := {s | ∃ index, s ∈ entrySends m device index}

def sends (m : Machine) (device : PciDevice) : Set Sent := msiSends m device ∪ msixSends m device

/-- At every moment of the call, what the function can send it could send before or can send after. -/
def Whole {α : Type} (device : PciDevice) (call : Driver α) (m : Machine) : Prop :=
  ∀ t ∈ call.moments (access device.address) m,
    sends t device ⊆ sends m device ∪ sends (call.run (access device.address) m).2 device

/-! ### Registers that stay -/

/-- The registers of a range read as before. -/
def SameRange (addr : PciAddress) (offset : BitVec 8) (length : Nat) (c c' : ConfigSpace) : Prop :=
  ∀ x : BitVec 8, offset.toNat ≤ x.toNat → x.toNat < offset.toNat + length →
    pciConfigRead32 c' addr x = pciConfigRead32 c addr x

def Outside (x offset : BitVec 8) (length : Nat) : Prop :=
  x.toNat < offset.toNat ∨ offset.toNat + length ≤ x.toNat

section Ranges
variable {c c' c'' : ConfigSpace} {addr : PciAddress} {x offset : BitVec 8} {length : Nat}

theorem SameRange.refl : SameRange addr offset length c c := fun _ _ _ => rfl

theorem SameRange.trans (h : SameRange addr offset length c c') (h' : SameRange addr offset length c' c'') :
    SameRange addr offset length c c'' := fun x hfirst hlast => (h' x hfirst hlast).trans (h x hfirst hlast)

/-- The register at an offset in the range. -/
theorem SameRange.read32 (h : SameRange addr offset length c c') (hfits : offset.toNat + length ≤ 256)
    (hx : x.toNat < length) : pciConfigRead32 c' addr (offset + x) = pciConfigRead32 c addr (offset + x) := by
  have hoffset : (offset + x).toNat = offset.toNat + x.toNat := offset_toNat (by omega)
  exact h _ (by omega) (by omega)

theorem SameRange.read16 (h : SameRange addr offset length c c') (hfits : offset.toNat + length ≤ 256)
    (hx : x.toNat < length) : pciConfigRead16 c' addr (offset + x) = pciConfigRead16 c addr (offset + x) := by
  rw [pciConfigRead16, pciConfigRead16, h.read32 hfits hx]

theorem sameRange_write32 (halign : offset.toNat % 4 = 0) (hlength : length % 4 = 0) (hx : Outside x offset length)
    (value : BitVec 32) : SameRange addr offset length c (pciConfigWrite32 c addr x value) := by
  intro y hfirst hlast
  apply pciConfigRead32_write32_other
  apply dword_ne
  rcases hx with hx | hx <;> omega

end Ranges

/-- The MSI capability shows what it showed. -/
def SameMsi (device : PciDevice) (m t : Machine) : Prop :=
  device.msiCapOffset ≠ 0 → SameRange device.address device.msiCapOffset (msiLength m.config device) m.config t.config

/-- The MSI-X capability and its table show what they showed. -/
def SameMsix (device : PciDevice) (m t : Machine) : Prop :=
  (device.msixCapOffset ≠ 0 → SameRange device.address device.msixCapOffset 12 m.config t.config) ∧
    t.tables device.address = m.tables device.address

theorem twelve_le_msiLength (c : ConfigSpace) (device : PciDevice) : 12 ≤ msiLength c device := by
  rw [msiLength]
  split <;> decide

/-- The command register is in none of the doublewords of a capability. -/
theorem ne_command {offset k : BitVec 8} {length : Nat} (h : Placed offset length) (hk : k.toNat < length) :
    pciCommand &&& 0xFC ≠ (offset + k) &&& 0xFC := by
  obtain ⟨-, hheader, hfits⟩ := h
  have hfour : pciCommand.toNat = 4 := rfl
  apply dword_ne
  rw [offset_toNat (by omega)]
  omega

section Same
variable {device : PciDevice} {m t : Machine}

theorem SameMsi.control (hplaced : WellPlaced m.config device) (h : SameMsi device m t)
    (hcap : device.msiCapOffset ≠ 0) : pciConfigRead16 t.config device.address (device.msiCapOffset + msiControl) =
      pciConfigRead16 m.config device.address (device.msiCapOffset + msiControl) :=
  (h hcap).read16 (hplaced.msi hcap).2.2 (lt_of_lt_of_le (by decide) (twelve_le_msiLength _ _))

theorem SameMsix.control (hplaced : WellPlaced m.config device) (h : SameMsix device m t)
    (hcap : device.msixCapOffset ≠ 0) :
    pciConfigRead16 t.config device.address (device.msixCapOffset + msixControl) =
      pciConfigRead16 m.config device.address (device.msixCapOffset + msixControl) :=
  (h.1 hcap).read16 (hplaced.msix hcap).2.2 (by decide)

theorem SameMsi.sends (hplaced : WellPlaced m.config device) (h : SameMsi device m t) :
    msiSends t device = msiSends m device := by
  by_cases hcap : device.msiCapOffset = 0
  · simp [msiSends, MsiOn, hcap]
  have hfits := (hplaced.msi hcap).2.2
  have hbound := twelve_le_msiLength m.config device
  have hcontrol := h.control hplaced hcap
  have h64 : is64bit t.config device = is64bit m.config device := by rw [is64bit, is64bit, hcontrol]
  have hdata : messageData t.config device = messageData m.config device := by
    rw [messageData, messageData, h64]
    apply (h hcap).read16 hfits
    rw [msiLength]
    split <;> decide
  have hlow : msiAddressLow t.config device = msiAddressLow m.config device :=
    (h hcap).read32 hfits (lt_of_lt_of_le (by decide) hbound)
  have hhigh : msiAddressHigh t.config device = msiAddressHigh m.config device := by
    rw [msiAddressHigh, msiAddressHigh, h64, (h hcap).read32 hfits (lt_of_lt_of_le (by decide) hbound)]
  have hlog : enabledLog t.config device = enabledLog m.config device := by rw [enabledLog, enabledLog, hcontrol]
  simp only [msiSends, MsiOn, hcontrol, hdata, hlow, hhigh, hlog]

theorem SameMsix.sends (hplaced : WellPlaced m.config device) (h : SameMsix device m t) :
    msixSends t device = msixSends m device := by
  by_cases hcap : device.msixCapOffset = 0
  · simp [msixSends, entrySends, Live, MsixOn, hcap]
  have hcontrol := h.control hplaced hcap
  simp only [msixSends, entrySends, Live, MsixOn, MsixController.new, hcontrol, h.2]

theorem msiSends_off (h : ¬ MsiOn m.config device) : msiSends m device = ∅ :=
  Set.eq_empty_of_forall_notMem fun _ hs => h hs.1

theorem msixSends_off (h : ¬ MsixOn m.config device) : msixSends m device = ∅ :=
  Set.eq_empty_of_forall_notMem fun _ ⟨_, hs⟩ => h hs.1.1

/-- A part that is off or as before sends nothing new. -/
theorem sends_subset (hplaced : WellPlaced m.config device) (hmsi : ¬ MsiOn t.config device ∨ SameMsi device m t)
    (hmsix : ¬ MsixOn t.config device ∨ SameMsix device m t) : sends t device ⊆ sends m device := by
  apply Set.union_subset_union
  · rcases hmsi with hoff | hsame
    · rw [msiSends_off hoff]
      exact Set.empty_subset _
    · exact (hsame.sends hplaced).subset
  · rcases hmsix with hoff | hsame
    · rw [msixSends_off hoff]
      exact Set.empty_subset _
    · exact (hsame.sends hplaced).subset

end Same

/-! ### The message registers are written while the capability is off -/

section Program
variable {device : PciDevice} {m t : Machine} {S : Set Sent}

/-- What holds from the first write on until the last. -/
structure Programming (device : PciDevice) (m t : Machine) : Prop where
  off : ¬ MsiOn t.config device
  same : SameMsix device m t

theorem Programming.sends (hplaced : WellPlaced m.config device) (h : Programming device m t) :
    sends t device ⊆ sends m device := sends_subset hplaced (.inl h.off) (.inr h.same)

/-- A write to the header or the MSI capability leaves the MSI-X capability alone. -/
theorem SameMsix.write32 (hplaced : WellPlaced m.config device) (h : SameMsix device m t) {x : BitVec 8}
    (hx : device.msixCapOffset ≠ 0 → Outside x device.msixCapOffset 12) (value : BitVec 32) :
    SameMsix device m { t with config := pciConfigWrite32 t.config device.address x value } :=
  ⟨fun hcap => (h.1 hcap).trans (sameRange_write32 (hplaced.msix hcap).1 (by decide) (hx hcap) value), h.2⟩

theorem Programming.write32 (hplaced : WellPlaced m.config device) (h : Programming device m t) {x : BitVec 8}
    (hx : device.msixCapOffset ≠ 0 → Outside x device.msixCapOffset 12)
    (hcontrol : x &&& 0xFC ≠ (device.msiCapOffset + msiControl) &&& 0xFC) (value : BitVec 32) :
    Programming device m { t with config := pciConfigWrite32 t.config device.address x value } where
  off hon := by
    rw [MsiOn, pciConfigRead16_write32_other hcontrol.symm] at hon
    exact h.off hon
  same := h.same.write32 hplaced hx value

/-- The command register lies before both capabilities. -/
theorem command_outside {offset : BitVec 8} {length : Nat} (h : Placed offset length) :
    Outside pciCommand offset length := .inl (lt_of_lt_of_le (by decide) h.2.1)

variable (hplaced : WellPlaced m.config device) (hcap : device.msiCapOffset ≠ 0)
include hplaced hcap

theorem register_outside {k : BitVec 8} (hk : k.toNat < msiLength m.config device)
    (hmsix : device.msixCapOffset ≠ 0) : Outside (device.msiCapOffset + k) device.msixCapOffset 12 := by
  obtain ⟨-, -, hfits⟩ := hplaced.msi hcap
  rw [Outside, offset_toNat (by omega)]
  have := hplaced.apart hcap hmsix
  omega

theorem register_ne_control {k : BitVec 8} (hk : k.toNat < msiLength m.config device) (hfour : 4 ≤ k.toNat) :
    (device.msiCapOffset + k) &&& 0xFC ≠ (device.msiCapOffset + msiControl) &&& 0xFC := by
  obtain ⟨halign, -, hfits⟩ := hplaced.msi hcap
  have htwo : msiControl.toNat = 2 := rfl
  apply dword_ne
  rw [offset_toNat (by omega), offset_toNat (by omega)]
  omega

theorem Programming.register (h : Programming device m t) {k : BitVec 8} (hk : k.toNat < msiLength m.config device)
    (hfour : 4 ≤ k.toNat) (value : BitVec 32) : Programming device m
      { t with config := pciConfigWrite32 t.config device.address (device.msiCapOffset + k) value } :=
  h.write32 hplaced (register_outside hplaced hcap hk) (register_ne_control hplaced hcap hk hfour) value

theorem Programming.command (h : Programming device m t) (value : BitVec 16) : Programming device m
    { t with config := pciConfigWrite16 t.config device.address pciCommand value } := by
  have hcontrol := ne_command (k := msiControl) (hplaced.msi hcap)
    (lt_of_lt_of_le (by decide) (twelve_le_msiLength m.config device))
  exact h.write32 hplaced (fun hmsix => command_outside (hplaced.msix hmsix)) hcontrol _

/-- The first write turns the capability off. -/
theorem programming_off {off : BitVec 16} (hoff : off &&& msiControlEnable = 0) : Programming device m
    { m with config := pciConfigWrite16 m.config device.address (device.msiCapOffset + msiControl) off } where
  off hon := by
    rw [MsiOn, pciConfigRead16_write16] at hon
    exact hon.2 hoff
  same := by
    have hcontrol : msiControl.toNat < msiLength m.config device :=
      lt_of_lt_of_le (by decide) (twelve_le_msiLength _ _)
    exact SameMsix.write32 hplaced ⟨fun _ => SameRange.refl, rfl⟩ (register_outside hplaced hcap hcontrol) _

theorem Programming.disableLegacyInterrupts (h : Programming device m t) :
    Accesses.Always (access device.address) (Programming device m) (fun _ => Programming device m)
      Driver.disableLegacyInterrupts t := by
  rw [Driver.disableLegacyInterrupts, Driver.updateCommand, Accesses.always_bind]
  exact ⟨h, h.command hplaced hcap _, h.command hplaced hcap _⟩

theorem Programming.writeMessage (h : Programming device m t) (message : MsiMessage) :
    Accesses.Always (access device.address) (Programming device m) (fun _ => Programming device m)
      (Driver.writeMessage device.msiCapOffset (is64bit m.config device) message) t := by
  have hbound := twelve_le_msiLength m.config device
  have hlow := h.register hplaced hcap (k := msiMessageAddressLow) (lt_of_lt_of_le (by decide) hbound) (by decide)
    message.addressLow
  rw [Driver.writeMessage, Accesses.always_bind]
  refine ⟨hlow, ?_⟩
  split
  · rename_i h64
    have hlength : msiLength m.config device = 16 := if_pos h64
    have hhigh := hlow.register hplaced hcap (k := msiMessageAddressHigh) (by rw [hlength]; decide) (by decide)
      message.addressHigh
    have hdata (value : BitVec 32) := hhigh.register hplaced hcap (k := msiMessageData64) (by rw [hlength]; decide)
      (by decide) value
    exact ⟨hhigh, hdata _, hdata _⟩
  · have hdata (value : BitVec 32) := hlow.register hplaced hcap (k := msiMessageData32)
      (lt_of_lt_of_le (by decide) hbound) (by decide) value
    exact ⟨hdata _, hdata _⟩

theorem always_program {message : MsiMessage} {off on : BitVec 16} (hoff : off &&& msiControlEnable = 0)
    (hm : sends m device ⊆ S)
    (hlast : sends ((Driver.program device.msiCapOffset (is64bit m.config device) message off on).run
      (access device.address) m).2 device ⊆ S) :
    Accesses.Always (access device.address) (sends · device ⊆ S) (fun _ _ => True)
      (Driver.program device.msiCapOffset (is64bit m.config device) message off on) m := by
  have hcalm (t : Machine) (h : Programming device m t) : sends t device ⊆ S := (h.sends hplaced).trans hm
  have hfirst := programming_off hplaced hcap hoff
  rw [Driver.program] at hlast ⊢
  simp only [Accesses.run_bind] at hlast
  refine Accesses.Always.bind (Q := fun _ => Programming device m) ⟨hcalm _ hfirst, hfirst⟩ fun h => ?_
  refine ((h.disableLegacyInterrupts hplaced hcap).mono hcalm fun _ _ h => h).bind fun h => ?_
  refine ((h.writeMessage hplaced hcap message).mono hcalm fun _ _ h => h).bind fun _ => ?_
  exact ⟨hlast, trivial⟩

end Program

/-! ### The table is written while the function is masked -/

section Fill
variable {device : PciDevice} {m t : Machine} {S : Set Sent}

/-- What holds from the masking of the function until its unmasking. -/
structure Filling (device : PciDevice) (m t : Machine) : Prop where
  off : ¬ MsixOn t.config device
  same : SameMsi device m t

theorem Filling.sends (hplaced : WellPlaced m.config device) (h : Filling device m t) :
    sends t device ⊆ sends m device := sends_subset hplaced (.inr h.same) (.inl h.off)

theorem Filling.writeEntry (h : Filling device m t) (index : Nat) (field : EntryField) (value : BitVec 32) :
    Filling device m (access device.address (.writeEntry index field value) t).2 := ⟨h.off, h.same⟩

theorem Filling.msixConfigureVector (h : Filling device m t) (controller : MsixController) (index : Nat)
    (message : MsiMessage) (masked : Bool) :
    Accesses.Always (access device.address) (Filling device m) (fun _ => Filling device m)
      (Driver.msixConfigureVector controller index message masked) t := by
  rw [Driver.msixConfigureVector, Driver.msixWriteEntry]
  split
  · exact h
  · have hlow := h.writeEntry index .addressLow
    have hhigh := fun v => (hlow v).writeEntry index .addressHigh
    have hdata := fun v v' => (hhigh v v').writeEntry index .data
    have hctrl := fun v v' v'' => (hdata v v' v'').writeEntry index .vectorCtrl
    exact ⟨hlow _, hhigh _ _, hdata _ _ _, hctrl _ _ _ _, hctrl _ _ _ _⟩

theorem Filling.msixConfigureVectors (h : Filling device m t) (controller : MsixController)
    (messages : List (MsiMessage × Nat)) :
    Accesses.Always (access device.address) (Filling device m) (fun _ => Filling device m)
      (messages.forM fun msg => do let _ ← Driver.msixConfigureVector controller msg.2 msg.1 false) t := by
  refine Accesses.always_forM messages (fun msg _ t ht => ?_) h
  exact (ht.msixConfigureVector controller msg.2 msg.1 false).bind fun h => h

theorem SameMsi.write32 (hplaced : WellPlaced m.config device) (h : SameMsi device m t) {x : BitVec 8}
    (hx : device.msiCapOffset ≠ 0 → Outside x device.msiCapOffset (msiLength m.config device)) (value : BitVec 32) :
    SameMsi device m { t with config := pciConfigWrite32 t.config device.address x value } := by
  intro hcap
  have hlength : msiLength m.config device % 4 = 0 := by
    rw [msiLength]
    split <;> rfl
  exact (h hcap).trans (sameRange_write32 (hplaced.msi hcap).1 hlength (hx hcap) value)

variable (hplaced : WellPlaced m.config device)
include hplaced

/-- Neither capability shows a write to the command register. -/
theorem command_same (value : BitVec 16) :
    SameMsi device m { m with config := pciConfigWrite16 m.config device.address pciCommand value } ∧
      SameMsix device m { m with config := pciConfigWrite16 m.config device.address pciCommand value } :=
  ⟨SameMsi.write32 hplaced (fun _ => SameRange.refl) (fun hcap => command_outside (hplaced.msi hcap)) _,
    SameMsix.write32 hplaced ⟨fun _ => SameRange.refl, rfl⟩ (fun hcap => command_outside (hplaced.msix hcap)) _⟩

variable (hcap : device.msixCapOffset ≠ 0)
include hcap

theorem msixControl_outside (hmsi : device.msiCapOffset ≠ 0) :
    Outside (device.msixCapOffset + msixControl) device.msiCapOffset (msiLength m.config device) := by
  obtain ⟨-, -, hfits⟩ := hplaced.msix hcap
  have htwo : msixControl.toNat = 2 := rfl
  rw [Outside, offset_toNat (by omega)]
  have := hplaced.apart hmsi hcap
  omega

/-- A write to the control register that leaves the function off or masked. -/
theorem SameMsi.filling (h : SameMsi device m t) {control : BitVec 16}
    (hoff : control &&& msixControlEnable = 0 ∨ control &&& msixControlFuncMask ≠ 0) : Filling device m
      { t with
        config := pciConfigWrite16 t.config device.address (device.msixCapOffset + msixControl) control } where
  off hon := by
    rw [MsixOn, pciConfigRead16_write16] at hon
    rcases hoff with hoff | hoff
    · exact hon.2.1 hoff
    · exact hoff hon.2.2
  same := h.write32 hplaced (msixControl_outside hplaced hcap) _

end Fill

/-! ### The calls -/

section Calls
variable {device : PciDevice} {m : Machine} {S : Set Sent}

theorem cleared (control bit : BitVec 16) : control &&& ~~~bit &&& bit = 0 := by
  rw [BitVec.and_assoc, BitVec.and_comm (~~~bit)]
  simp

theorem whole_of_always {α : Type} {call : Driver α}
    (h : ∀ S : Set Sent, sends m device ⊆ S → sends (call.run (access device.address) m).2 device ⊆ S →
      Accesses.Always (access device.address) (sends · device ⊆ S) (fun _ _ => True) call m) : Whole device call m :=
  (Accesses.always_iff.mp (h _ Set.subset_union_left Set.subset_union_right)).1

theorem always_msiEnableSingle (hplaced : WellPlaced m.config device) (message : MsiMessage)
    (hm : sends m device ⊆ S)
    (hlast : sends ((Driver.msiEnableSingle device message).run (access device.address) m).2 device ⊆ S) :
    Accesses.Always (access device.address) (sends · device ⊆ S) (fun _ _ => True)
      (Driver.msiEnableSingle device message) m := by
  rw [Driver.msiEnableSingle] at hlast ⊢
  split
  · trivial
  · rename_i hcap
    rw [if_neg hcap] at hlast
    simp only [Accesses.run_bind] at hlast
    refine ⟨hm, ?_⟩
    exact (always_program hplaced hcap (cleared _ _) hm hlast).bind fun _ => trivial

theorem always_msiEnableMulti (hplaced : WellPlaced m.config device) (message : MsiMessage) (requested : BitVec 8)
    (hm : sends m device ⊆ S)
    (hlast : sends ((Driver.msiEnableMulti device message requested).run (access device.address) m).2 device ⊆ S) :
    Accesses.Always (access device.address) (sends · device ⊆ S) (fun _ _ => True)
      (Driver.msiEnableMulti device message requested) m := by
  rw [Driver.msiEnableMulti] at hlast ⊢
  split
  · trivial
  · rename_i hcap
    rw [if_neg hcap] at hlast
    simp only [Accesses.run_bind] at hlast
    refine ⟨hm, hm, ?_⟩
    exact (always_program hplaced hcap (cleared _ _) hm hlast).bind fun _ => trivial

/-- From the write that masks the function. -/
theorem always_msixEnable (hplaced : WellPlaced m.config device) (hcap : device.msixCapOffset ≠ 0) :
    Accesses.Always (access device.address) (sends · device ⊆ sends m device) (fun _ => Filling device m)
      (Driver.msixEnable device) m := by
  have hcommand (value : BitVec 16) := command_same hplaced value
  have hsends (value : BitVec 16) := sends_subset hplaced (.inr (hcommand value).1) (.inr (hcommand value).2)
  have hmasked (control : BitVec 16) :
      (control ||| (msixControlEnable ||| msixControlFuncMask)) &&& msixControlFuncMask ≠ 0 := by
    intro h
    have := congrArg (·.getLsbD 14) h
    simp [msixControlEnable, msixControlFuncMask] at this
  have hfilling (value control : BitVec 16) := (hcommand value).1.filling hplaced hcap (.inr (hmasked control))
  rw [Driver.msixEnable, if_neg hcap]
  exact ⟨subset_rfl, hsends _, hsends _, (hfilling _ _).sends hplaced, hfilling _ _⟩

theorem always_msixDisable (hplaced : WellPlaced m.config device) (hm : sends m device ⊆ S)
    (hlast : sends ((Driver.msixDisable device).run (access device.address) m).2 device ⊆ S) :
    Accesses.Always (access device.address) (sends · device ⊆ S) (fun _ _ => True) (Driver.msixDisable device) m := by
  rw [Driver.msixDisable] at hlast ⊢
  split
  · trivial
  · rename_i hcap
    rw [if_neg hcap] at hlast
    have hoff (control : BitVec 16) := ((SameMsi.filling hplaced hcap (fun _ => SameRange.refl)
      (.inl (cleared control msixControlEnable))).sends hplaced).trans hm
    exact ⟨hm, hoff _, hoff _, hlast, trivial⟩

theorem always_msiDisable (hplaced : WellPlaced m.config device) (hm : sends m device ⊆ S)
    (hlast : sends ((Driver.msiDisable device).run (access device.address) m).2 device ⊆ S) :
    Accesses.Always (access device.address) (sends · device ⊆ S) (fun _ _ => True) (Driver.msiDisable device) m := by
  rw [Driver.msiDisable] at hlast ⊢
  split
  · trivial
  · rename_i hcap
    rw [if_neg hcap] at hlast
    have hoff (control : BitVec 16) :=
      ((programming_off hplaced hcap (cleared control msiControlEnable)).sends hplaced).trans hm
    exact ⟨hm, hoff _, hoff _, hlast, trivial⟩

/-- A single write, after the register was read. -/
theorem always_msixSetFunctionMask (masked : Bool) (hm : sends m device ⊆ S)
    (hlast : sends ((Driver.msixSetFunctionMask device masked).run (access device.address) m).2 device ⊆ S) :
    Accesses.Always (access device.address) (sends · device ⊆ S) (fun _ _ => True)
      (Driver.msixSetFunctionMask device masked) m := by
  rw [Driver.msixSetFunctionMask] at hlast ⊢
  split
  · trivial
  · rename_i hcap
    rw [if_neg hcap] at hlast
    exact ⟨hm, hlast, trivial⟩

theorem always_updateVectorCtrl (controller : MsixController) (index : Nat) (change : BitVec 32 → BitVec 32)
    (hm : sends m device ⊆ S)
    (hlast : sends ((Driver.updateVectorCtrl controller index change).run (access device.address) m).2 device ⊆ S) :
    Accesses.Always (access device.address) (sends · device ⊆ S) (fun _ _ => True)
      (Driver.updateVectorCtrl controller index change) m := by
  rw [Driver.updateVectorCtrl] at hlast ⊢
  split
  · trivial
  · rename_i hindex
    rw [if_neg hindex] at hlast
    exact ⟨hm, hlast, trivial⟩

/-- MSI-X is chosen for functions that have it. -/
theorem chosen_msix (device : PciDevice) (msixController : Option MsixController) :
    ∀ controller ∈ (if device.supportsMsix then msixController else none), device.msixCapOffset ≠ 0 := by
  intro controller hmem
  split at hmem
  · rename_i hsupports
    simpa [PciDevice.supportsMsix] using hsupports
  · cases hmem

theorem always_configureDeviceInterrupts (hplaced : WellPlaced m.config device) (messages : List MsiMessage)
    (msixController : Option MsixController) (hm : sends m device ⊆ S)
    (hlast : sends ((Driver.configureDeviceInterrupts device messages msixController).run
      (access device.address) m).2 device ⊆ S) :
    Accesses.Always (access device.address) (sends · device ⊆ S) (fun _ _ => True)
      (Driver.configureDeviceInterrupts device messages msixController) m := by
  have hchosen := chosen_msix device msixController
  rw [Driver.configureDeviceInterrupts] at hlast ⊢
  generalize (if device.supportsMsix then msixController else none) = chosen at hchosen hlast ⊢
  generalize (if device.supportsMsi then messages else []) = sent at hlast ⊢
  cases chosen with
  | some controller =>
    have hcap := hchosen controller rfl
    have hcalm (t : Machine) (h : Filling device m t) : sends t device ⊆ S := (h.sends hplaced).trans hm
    simp only [Accesses.run_bind] at hlast
    refine ((always_msixEnable hplaced hcap).mono (fun _ h => h.trans hm) fun _ _ h => h).bind fun h => ?_
    refine ((h.msixConfigureVectors controller _).mono hcalm fun _ _ h => h).bind fun h => ?_
    exact (always_msixSetFunctionMask false (hcalm _ h) hlast).bind fun _ => trivial
  | none =>
    rcases sent with - | ⟨message, - | ⟨_, _⟩⟩
    · trivial
    · simp only [Accesses.run_bind] at hlast
      exact (always_msiEnableSingle hplaced message hm hlast).bind fun _ => trivial
    · simp only [Accesses.run_bind] at hlast
      exact (always_msiEnableMulti hplaced message _ hm hlast).bind fun _ => trivial

end Calls

/-! ### A single entry -/

/-- The machine with another entry in the table of a function. -/
def Machine.withEntry (m : Machine) (addr : PciAddress) (index : Nat) (entry : MsixTableEntry) : Machine :=
  { m with tables := Function.update m.tables addr (Function.update (m.tables addr) index entry) }

/-- The entry after each of the four writes that make it `new`. -/
def MsixTableEntry.between (old new : MsixTableEntry) : List MsixTableEntry :=
  [⟨new.addressLow, old.addressHigh, old.data, old.vectorCtrl⟩,
    ⟨new.addressLow, new.addressHigh, old.data, old.vectorCtrl⟩,
    ⟨new.addressLow, new.addressHigh, new.data, old.vectorCtrl⟩, new]

/-- At least two of the three doublewords of a message agree. -/
def Sent.NearlySame (old new : Sent) : Prop :=
  (new.addressLow = old.addressLow ∧ new.addressHigh = old.addressHigh) ∨
    (new.addressLow = old.addressLow ∧ new.data = old.data) ∨
    (new.addressHigh = old.addressHigh ∧ new.data = old.data)

instance (old new : Sent) : Decidable (old.NearlySame new) := inferInstanceAs (Decidable (_ ∨ _))

section Entry
variable {device : PciDevice} {m : Machine} {controller : MsixController} {index : Nat}

theorem moments_msixWriteEntry (hindex : index < controller.tableSize.toNat) (entry : MsixTableEntry) :
    (Driver.msixWriteEntry controller index entry).moments (access device.address) m =
      ((m.tables device.address index).between entry).map (m.withEntry device.address index) := by
  rw [Driver.msixWriteEntry, if_neg (Nat.not_le.mpr hindex)]
  simp [Driver.writeEntry, access, MsixTableEntry.set, MsixTableEntry.between, Machine.withEntry]

theorem run_msixWriteEntry_withEntry (hindex : index < controller.tableSize.toNat) (entry : MsixTableEntry) :
    ((Driver.msixWriteEntry controller index entry).run (access device.address) m).2 =
      m.withEntry device.address index entry := by
  rw [Driver.msixWriteEntry, if_neg (Nat.not_le.mpr hindex)]
  simp [Driver.writeEntry, access, MsixTableEntry.set, Machine.withEntry]

theorem mem_entrySends_withEntry {e : MsixTableEntry} {s : Sent} :
    s ∈ entrySends (m.withEntry device.address index e) device index ↔
      (MsixOn m.config device ∧ index < (MsixController.new m.config device).tableSize.toNat ∧ ¬ e.Masked) ∧
        s = e.sent := by
  simp [entrySends, Live, Machine.withEntry]

/-- Only the entry that changed can send something new. -/
theorem sends_withEntry (e : MsixTableEntry) : sends (m.withEntry device.address index e) device ⊆
    sends m device ∪ entrySends (m.withEntry device.address index e) device index := by
  rintro s (hmsi | ⟨index', hentry⟩)
  · exact .inl (.inl hmsi)
  · by_cases hindex : index' = index
    · exact .inr (hindex ▸ hentry)
    · simp only [entrySends, Live, Machine.withEntry, Function.update_self, Function.update_of_ne hindex] at hentry
      exact .inl (.inr ⟨index', hentry⟩)

theorem entrySends_subset : entrySends m device index ⊆ sends m device := fun _ hs => .inr ⟨index, hs⟩

/-- What an entry sends while it is rewritten it sent before or sends afterwards. -/
def WholeEntry (device : PciDevice) (controller : MsixController) (index : Nat) (message : MsiMessage) (masked : Bool)
    (m : Machine) : Prop :=
  ∀ t ∈ (Driver.msixConfigureVector controller index message masked).moments (access device.address) m,
    entrySends t device index ⊆ entrySends m device index ∪
      entrySends ((Driver.msixConfigureVector controller index message masked).run (access device.address) m).2
        device index

/-- A live entry gets the message it has, or one that differs in a single doubleword and is not to be masked. -/
def Rewritable (old : Sent) (message : MsiMessage) (masked : Bool) : Prop :=
  if masked then (MsixTableEntry.fromMessage message).sent = old
  else old.NearlySame (MsixTableEntry.fromMessage message).sent

theorem between_sent {old new : MsixTableEntry} (hold : ¬ old.Masked) :
    (∀ e ∈ old.between new, ¬ e.Masked → e.sent = old.sent ∨ ¬ new.Masked ∧ e.sent = new.sent) ↔
      if new.Masked then new.sent = old.sent else old.sent.NearlySame new.sent := by
  have hctrl (low high data : BitVec 32) : ¬ (⟨low, high, data, old.vectorCtrl⟩ : MsixTableEntry).Masked := hold
  simp only [MsixTableEntry.between, List.forall_mem_cons, hctrl, not_false_eq_true, true_implies,
    MsixTableEntry.sent, Sent.mk.injEq, Sent.NearlySame]
  split <;> rename_i hnew <;> simp only [hnew, not_true_eq_false, not_false_eq_true, false_and, true_and] <;> tauto

/-- While the function sends at all, an entry in between sends what the old or the new one sends. -/
theorem entrySends_between_iff {old new : MsixTableEntry} (hold : m.tables device.address index = old)
    (e : MsixTableEntry) : entrySends (m.withEntry device.address index e) device index ⊆
      entrySends m device index ∪ entrySends (m.withEntry device.address index new) device index ↔
    (MsixOn m.config device → index < (MsixController.new m.config device).tableSize.toNat → ¬ e.Masked →
      ¬ old.Masked ∧ e.sent = old.sent ∨ ¬ new.Masked ∧ e.sent = new.sent) := by
  have hown (s : Sent) : s ∈ entrySends m device index ↔
      (MsixOn m.config device ∧ index < (MsixController.new m.config device).tableSize.toNat ∧ ¬ old.Masked) ∧
        s = old.sent := by
    rw [← hold]
    rfl
  constructor
  · intro h hon hsize hmasked
    have hs := h (mem_entrySends_withEntry.mpr ⟨⟨hon, hsize, hmasked⟩, rfl⟩)
    rw [Set.mem_union, hown, mem_entrySends_withEntry] at hs
    rcases hs with ⟨⟨-, -, hlive⟩, hs⟩ | ⟨⟨-, -, hlive⟩, hs⟩
    · exact .inl ⟨hlive, hs⟩
    · exact .inr ⟨hlive, hs⟩
  · intro h s hs
    obtain ⟨⟨hon, hsize, hmasked⟩, rfl⟩ := mem_entrySends_withEntry.mp hs
    rw [Set.mem_union, hown, mem_entrySends_withEntry]
    rcases h hon hsize hmasked with ⟨hlive, hs⟩ | ⟨hlive, hs⟩
    · exact .inl ⟨⟨hon, hsize, hlive⟩, hs⟩
    · exact .inr ⟨⟨hon, hsize, hlive⟩, hs⟩

/-- The four writes tear no message exactly if the entry is not live or is rewritable. -/
theorem wholeEntry_iff (message : MsiMessage) (masked : Bool) :
    WholeEntry device controller index message masked m ↔
      (index < controller.tableSize.toNat → Live m device index →
        Rewritable (m.tables device.address index).sent message masked) := by
  by_cases hindex : index < controller.tableSize.toNat
  swap
  · have hnone : Driver.msixConfigureVector controller index message masked = pure false :=
      if_pos (Nat.not_lt.mp hindex)
    simp [WholeEntry, hnone, hindex]
  rw [WholeEntry, Driver.msixConfigureVector, moments_msixWriteEntry hindex, run_msixWriteEntry_withEntry hindex,
    List.forall_mem_map]
  have hnew : (if masked then MsixTableEntry.fromMessageMasked message else .fromMessage message).Masked ↔ masked := by
    cases masked <;> simp [MsixTableEntry.Masked, MsixTableEntry.fromMessage, MsixTableEntry.fromMessageMasked,
      msixEntryVectorCtrlMask]
  have hsent : (if masked then MsixTableEntry.fromMessageMasked message else .fromMessage message).sent =
      (MsixTableEntry.fromMessage message).sent := by
    cases masked <;> rfl
  rw [Rewritable, ← hsent]
  generalize (if masked then MsixTableEntry.fromMessageMasked message else .fromMessage message) = new at hnew
  simp only [entrySends_between_iff rfl, ← hnew]
  constructor
  · rintro h - ⟨hon, hsize, hold⟩
    refine (between_sent hold).mp fun e he hmasked => ?_
    rcases h e he hon hsize hmasked with ⟨-, hs⟩ | hs
    · exact .inl hs
    · exact .inr hs
  · intro h e he hon hsize hmasked
    by_cases hold : (m.tables device.address index).Masked
    · -- the first three writes leave the entry masked
      simp only [MsixTableEntry.between, List.mem_cons, List.not_mem_nil, or_false] at he
      rcases he with rfl | rfl | rfl | rfl
      · exact absurd hold hmasked
      · exact absurd hold hmasked
      · exact absurd hold hmasked
      · exact .inr ⟨hmasked, rfl⟩
    · rcases (between_sent hold).mpr (h hindex ⟨hon, hsize, hold⟩) e he hmasked with hs | hs
      · exact .inl ⟨hold, hs⟩
      · exact .inr hs

/-- Rewriting an entry is whole where it tears no message of that entry. -/
theorem WholeEntry.whole {message : MsiMessage} {masked : Bool}
    (h : WholeEntry device controller index message masked m) :
    Whole device (Driver.msixConfigureVector controller index message masked) m := by
  by_cases hindex : index < controller.tableSize.toNat
  swap
  · have hnone : Driver.msixConfigureVector controller index message masked = pure false :=
      if_pos (Nat.not_lt.mp hindex)
    simp [Whole, hnone]
  intro t ht
  have hentry := h t ht
  have hchanged : ∃ e, t = m.withEntry device.address index e := by
    rw [Driver.msixConfigureVector, moments_msixWriteEntry hindex] at ht
    obtain ⟨e, -, rfl⟩ := List.mem_map.mp ht
    exact ⟨e, rfl⟩
  obtain ⟨e, rfl⟩ := hchanged
  refine (sends_withEntry e).trans (Set.union_subset Set.subset_union_left (hentry.trans ?_))
  exact Set.union_subset_union entrySends_subset entrySends_subset

end Entry

end Nafuraito.Pci
