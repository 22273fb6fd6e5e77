import Nafuraito.Pci.MessageSafety

/-! Runs of the calls on message signalled interrupts: at every moment a function sends whole messages. -/
namespace Nafuraito.Pci
open Nafuraito.Library

/-! ### Runs of calls -/

/-- The calls on a function and its table. -/
inductive Call where
  | msiEnableSingle (message : MsiMessage)
  | msiEnableMulti (baseMessage : MsiMessage) (requestedVectors : BitVec 8)
  | msiDisable
  | msixEnable
  | msixDisable
  | msixSetFunctionMask (masked : Bool)
  | msixConfigureVector (index : Nat) (message : MsiMessage) (masked : Bool)
  | msixMaskVector (index : Nat)
  | msixUnmaskVector (index : Nat)
  | configureDeviceInterrupts (messages : List MsiMessage) (passed : Bool)

namespace Call
variable (device : PciDevice) (controller : MsixController)

/-- The accesses of a call, without its result. -/
def accesses : Call → Driver Unit
  | msiEnableSingle message => do let _ ← Driver.msiEnableSingle device message
  | msiEnableMulti baseMessage requestedVectors => do
    let _ ← Driver.msiEnableMulti device baseMessage requestedVectors
  | msiDisable => do let _ ← Driver.msiDisable device
  | msixEnable => do let _ ← Driver.msixEnable device
  | msixDisable => do let _ ← Driver.msixDisable device
  | msixSetFunctionMask masked => do let _ ← Driver.msixSetFunctionMask device masked
  | msixConfigureVector index message masked => do let _ ← Driver.msixConfigureVector controller index message masked
  | msixMaskVector index => do let _ ← Driver.msixMaskVector controller index
  | msixUnmaskVector index => do let _ ← Driver.msixUnmaskVector controller index
  | configureDeviceInterrupts messages passed => do
    let _ ← Driver.configureDeviceInterrupts device messages (if passed then some controller else none)

def after (call : Call) (m : Machine) : Machine := ((call.accesses device controller).run (access device.address) m).2

/-- A call that rewrites a live entry finds it rewritable. -/
def Allowed (m : Machine) : Call → Prop
  | msixConfigureVector index message masked => index < controller.tableSize.toNat → Live m device index →
      Rewritable (m.tables device.address index).sent message masked
  | _ => True

end Call

/-- A call that a value is thrown away of. -/
theorem whole_discard {α : Type} {device : PciDevice} {m : Machine} {call : Driver α} :
    Whole device (do let _ ← call) m ↔ Whole device call m := by
  simp [Whole, Accesses.moments_bind]

section Run
variable {device : PciDevice} {controller : MsixController} {m t : Machine}

/-- No call tears a message. -/
theorem Call.whole (hplaced : WellPlaced m.config device) (call : Call) (h : call.Allowed device controller m) :
    Whole device (call.accesses device controller) m := by
  cases call <;> refine whole_discard.mpr ?_
  case msixConfigureVector => exact (wholeEntry_iff _ _).mpr h |>.whole
  all_goals refine whole_of_always fun S hm hlast => ?_
  case msiEnableSingle => exact always_msiEnableSingle hplaced _ hm hlast
  case msiEnableMulti => exact always_msiEnableMulti hplaced _ _ hm hlast
  case msiDisable => exact always_msiDisable hplaced hm hlast
  case msixEnable =>
    by_cases hcap : device.msixCapOffset = 0
    · rw [Driver.msixEnable, if_pos hcap]
      trivial
    · exact (always_msixEnable hplaced hcap).mono (fun _ h => h.trans hm) fun _ _ _ => trivial
  case msixDisable => exact always_msixDisable hplaced hm hlast
  case msixSetFunctionMask => exact always_msixSetFunctionMask _ hm hlast
  case msixMaskVector => exact always_updateVectorCtrl controller _ _ hm hlast
  case msixUnmaskVector => exact always_updateVectorCtrl controller _ _ hm hlast
  case configureDeviceInterrupts => exact always_configureDeviceInterrupts hplaced _ _ hm hlast

/-- The capability says as before whether its addresses have 64 bits. -/
def SameWidth (device : PciDevice) (m t : Machine) : Prop :=
  device.msiCapOffset ≠ 0 → is64bit t.config device = is64bit m.config device

theorem SameWidth.wellPlaced (h : SameWidth device m t) (hplaced : WellPlaced m.config device) :
    WellPlaced t.config device := by
  have hlength (hcap : device.msiCapOffset ≠ 0) : msiLength t.config device = msiLength m.config device := by
    rw [msiLength, msiLength, h hcap]
  refine ⟨fun hcap => ?_, hplaced.msix, fun hcap hmsix => ?_⟩
  · rw [hlength hcap]
    exact hplaced.msi hcap
  · rw [hlength hcap]
    exact hplaced.apart hcap hmsix

theorem SameMsi.sameWidth (hplaced : WellPlaced m.config device) (h : SameMsi device m t) : SameWidth device m t := by
  intro hcap
  rw [is64bit, is64bit, h.control hplaced hcap]

theorem enabledVectors_log_le (requested maxVectors : BitVec 8) (hmax : maxVectors.toNat ≤ 128) :
    (trailingZeros (enabledVectors requested maxVectors)).toNat ≤ 5 := by
  have hall : ∀ v : BitVec 8, v.toNat ≤ 128 →
      (trailingZeros (if nextPowerOfTwo v ≤ 32 then nextPowerOfTwo v else 32)).toNat ≤ 5 := by decide
  rw [enabledVectors]
  apply hall
  split
  · rename_i hle
    exact le_trans (BitVec.le_def.mp hle) hmax
  · exact hmax

theorem sameWidth_msiEnableSingle (message : MsiMessage) :
    SameWidth device m ((Driver.msiEnableSingle device message).run (access device.address) m).2 := by
  intro hcap
  have hbit := controlOn_64bit (pciConfigRead16 m.config device.address (device.msiCapOffset + msiControl))
    (show (0#8).toNat ≤ 5 by decide)
  rw [Driver.run_msiEnableSingle, Pci.msiEnableSingle, if_neg hcap, is64bit, is64bit, ← hbit]
  dsimp only
  rw [pciConfigRead16_write16]
  simp [controlOn]

theorem sameWidth_msiEnableMulti (message : MsiMessage) (requested : BitVec 8) :
    SameWidth device m ((Driver.msiEnableMulti device message requested).run (access device.address) m).2 := by
  intro hcap
  have hmax : ∀ k : BitVec 8, (1#8 <<< k).toNat ≤ 128 := by decide
  have hbit := controlOn_64bit (pciConfigRead16 m.config device.address (device.msiCapOffset + msiControl))
    (enabledVectors_log_le requested (MsiCapability.read m.config device.address device.msiCapOffset).maxVectors
      (hmax _))
  rw [Driver.run_msiEnableMulti, Pci.msiEnableMulti, if_neg hcap, is64bit, is64bit, ← hbit]
  dsimp only
  rw [pciConfigRead16_write16, controlOn]

theorem sameWidth_msiDisable (hplaced : WellPlaced m.config device) :
    SameWidth device m ((Driver.msiDisable device).run (access device.address) m).2 := by
  intro hcap
  have hbit (control : BitVec 16) :
      control &&& ~~~msiControlEnable &&& msiControl64bit = control &&& msiControl64bit := by
    rw [BitVec.and_assoc]
    rfl
  have hcommand := (ne_command (k := msiControl) (hplaced.msi hcap)
    (lt_of_lt_of_le (by decide) (twelve_le_msiLength m.config device))).symm
  rw [Driver.msiDisable, if_neg hcap, is64bit, is64bit, ← hbit (pciConfigRead16 m.config device.address _)]
  exact congrArg (fun control : BitVec 16 => decide (control &&& msiControl64bit ≠ 0))
    ((pciConfigRead16_write16_other hcommand _).trans (pciConfigRead16_write16 _))

theorem sameMsi_msixSetFunctionMask (hplaced : WellPlaced m.config device) (h : SameMsi device m t) (masked : Bool) :
    SameMsi device m ((Driver.msixSetFunctionMask device masked).run (access device.address) t).2 := by
  rw [Driver.msixSetFunctionMask]
  split
  · exact h
  · rename_i hcap
    exact h.write32 hplaced (msixControl_outside hplaced hcap) _

theorem sameMsi_msixDisable (hplaced : WellPlaced m.config device) :
    SameMsi device m ((Driver.msixDisable device).run (access device.address) m).2 := by
  rw [Driver.msixDisable]
  split
  · exact fun _ => SameRange.refl
  · rename_i hcap
    refine SameMsi.write32 (t := { m with config := _ }) hplaced ?_
      (fun hcap => command_outside (hplaced.msi hcap)) _
    exact SameMsi.write32 hplaced (fun _ => SameRange.refl) (msixControl_outside hplaced hcap) _

/-- The table does not hold the registers. -/
theorem sameMsi_msixConfigureVector (index : Nat) (message : MsiMessage) (masked : Bool) : SameMsi device m
    ((Driver.msixConfigureVector controller index message masked).run (access device.address) m).2 := by
  by_cases hindex : index < controller.tableSize.toNat
  · rw [Driver.msixConfigureVector, run_msixWriteEntry_withEntry hindex]
    exact fun _ => SameRange.refl
  · rw [Driver.msixConfigureVector, Driver.msixWriteEntry, if_pos (Nat.not_lt.mp hindex)]
    exact fun _ => SameRange.refl

theorem sameMsi_updateVectorCtrl (index : Nat) (change : BitVec 32 → BitVec 32) :
    SameMsi device m ((Driver.updateVectorCtrl controller index change).run (access device.address) m).2 := by
  rw [Driver.updateVectorCtrl]
  split <;> exact fun _ => SameRange.refl

theorem sameWidth_configureDeviceInterrupts (hplaced : WellPlaced m.config device) (messages : List MsiMessage)
    (msixController : Option MsixController) : SameWidth device m
      ((Driver.configureDeviceInterrupts device messages msixController).run (access device.address) m).2 := by
  have hchosen := chosen_msix device msixController
  rw [Driver.configureDeviceInterrupts]
  generalize (if device.supportsMsix then msixController else none) = chosen at hchosen ⊢
  generalize (if device.supportsMsi then messages else []) = sent
  cases chosen with
  | some controller =>
    have hfilling := (Accesses.always_iff.mp (always_msixEnable hplaced (hchosen controller rfl))).2
    have hfilled := (Accesses.always_iff.mp (hfilling.msixConfigureVectors controller
      (messages.take (min messages.length controller.tableSize.toNat)).zipIdx)).2
    simp only [Accesses.run_bind]
    exact (sameMsi_msixSetFunctionMask hplaced hfilled.same false).sameWidth hplaced
  | none =>
    rcases sent with - | ⟨message, - | ⟨_, _⟩⟩
    · exact fun _ => rfl
    · simp only [Accesses.run_bind]
      exact sameWidth_msiEnableSingle message
    · simp only [Accesses.run_bind]
      exact sameWidth_msiEnableMulti message _

theorem Call.wellPlaced (hplaced : WellPlaced m.config device) (call : Call) :
    WellPlaced (call.after device controller m).config device := by
  refine SameWidth.wellPlaced ?_ hplaced
  rw [Call.after]
  cases call <;> simp only [Call.accesses, Accesses.run_bind, Accesses.run_pure]
  case msiEnableSingle => exact sameWidth_msiEnableSingle _
  case msiEnableMulti => exact sameWidth_msiEnableMulti _ _
  case msiDisable => exact sameWidth_msiDisable hplaced
  case msixEnable =>
    by_cases hcap : device.msixCapOffset = 0
    · rw [Driver.msixEnable, if_pos hcap]
      exact fun _ => rfl
    · exact (Accesses.always_iff.mp (always_msixEnable hplaced hcap)).2.same.sameWidth hplaced
  case msixDisable => exact (sameMsi_msixDisable hplaced).sameWidth hplaced
  case msixSetFunctionMask =>
    exact (sameMsi_msixSetFunctionMask hplaced (fun _ => SameRange.refl) _).sameWidth hplaced
  case msixConfigureVector => exact (sameMsi_msixConfigureVector _ _ _).sameWidth hplaced
  case msixMaskVector => exact (sameMsi_updateVectorCtrl _ _).sameWidth hplaced
  case msixUnmaskVector => exact (sameMsi_updateVectorCtrl _ _).sameWidth hplaced
  case configureDeviceInterrupts => exact sameWidth_configureDeviceInterrupts hplaced _ _

/-- A run of calls, access by access. -/
def performAll (device : PciDevice) (controller : MsixController) (calls : List Call) : Driver Unit :=
  calls.forM fun call => call.accesses device controller

/-- Each call is allowed where it starts. -/
def AllAllowed (device : PciDevice) (controller : MsixController) : List Call → Machine → Prop
  | [], _ => True
  | call :: calls, m =>
    call.Allowed device controller m ∧ AllAllowed device controller calls (call.after device controller m)

theorem performAll_cons (call : Call) (calls : List Call) : performAll device controller (call :: calls) =
    call.accesses device controller >>= fun _ => performAll device controller calls := rfl

/-- Whatever the function can send at a moment of a run, it can send between two calls. -/
theorem performAll_whole (calls : List Call) (hplaced : WellPlaced m.config device)
    (hallowed : AllAllowed device controller calls m) :
    ∀ t ∈ (performAll device controller calls).moments (access device.address) m, ∀ s ∈ sends t device,
      ∃ k ≤ calls.length, s ∈ sends ((performAll device controller (calls.take k)).run (access device.address) m).2
        device := by
  induction calls generalizing m with
  | nil => exact fun _ ht => absurd ht List.not_mem_nil
  | cons call calls ih =>
    intro t ht s hs
    rw [performAll_cons, Accesses.moments_bind, List.mem_append] at ht
    rcases ht with ht | ht
    · rcases call.whole hplaced hallowed.1 t ht hs with hs | hs
      · exact ⟨0, Nat.zero_le _, hs⟩
      · refine ⟨1, Nat.succ_le_succ (Nat.zero_le _), ?_⟩
        rw [List.take_succ_cons, List.take_zero, performAll_cons, Accesses.run_bind]
        exact hs
    · obtain ⟨k, hk, hs⟩ := ih (call.wellPlaced hplaced) hallowed.2 t ht s hs
      refine ⟨k+1, Nat.succ_le_succ hk, ?_⟩
      rw [List.take_succ_cons, performAll_cons, Accesses.run_bind]
      exact hs

end Run

/-- A function whose table has one live entry; its MSI capability and its pin are off. -/
def liveEntry : Machine where
  config := fun _ offset =>
    if offset = 0x04 then 0x400 else if offset = 0x50 then 0x00800005 else if offset = 0x70 then 0x80000011 else 0
  tables := fun _ _ => ⟨0xFEE00000, 0, 48, 0⟩
  nextVector := 48

def liveEntryDevice : PciDevice := ⟨⟨0, 3, 0⟩, 0x8086, 0x1234, 0, 0, 0, 0, 0, 0x50, 0x70⟩

theorem liveEntry_wellPlaced : WellPlaced liveEntry.config liveEntryDevice := by
  refine ⟨fun _ => ?_, fun _ => by decide, fun _ _ => .inl ?_⟩ <;> decide

/-- The entry gets another vector, and the function sends it before the call is over. -/
theorem performAll_whole_liveEntry : ∃ k ≤ 1, ⟨0, 0xFEE00000, 49⟩ ∈ sends
    ((performAll liveEntryDevice ⟨liveEntryDevice.address, 1⟩
      ([Call.msixConfigureVector 0 (.new 49 0) false].take k)).run (access liveEntryDevice.address) liveEntry).2
    liveEntryDevice := by
  refine performAll_whole [Call.msixConfigureVector 0 (.new 49 0) false] liveEntry_wellPlaced
    ⟨fun _ _ => ?_, trivial⟩ (liveEntry.withEntry liveEntryDevice.address 0 ⟨0xFEE00000, 0, 49, 0⟩) ?_ _ ?_
  · exact .inl ⟨by decide, by decide⟩
  · rw [performAll_cons, Accesses.moments_bind, Call.accesses, Accesses.moments_bind, Driver.msixConfigureVector,
      moments_msixWriteEntry (by decide)]
    refine List.mem_append_left _ (List.mem_append_left _ (List.mem_map.mpr ⟨_, ?_, rfl⟩))
    decide
  · refine .inr ⟨0, ⟨⟨by decide, ?_, ?_⟩, ?_, ?_⟩, rfl⟩ <;> decide

end Nafuraito.Pci
