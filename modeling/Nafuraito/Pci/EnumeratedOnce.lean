import Nafuraito.Pci.Enumeration
import Mathlib.Data.List.Nodup
import Mathlib.Data.Set.Card

/-! How often the enumeration records a function, on buses that form a tree under bus 0. -/
namespace Nafuraito.Pci
open Nafuraito.Library

section Topology
variable (c : ConfigSpace)

instance (bus : BitVec 8) (device function : Nat) : Decidable (Visits c bus device function) :=
  inferInstanceAs (Decidable (_ ∧ _))

/-- Function 0 of the device answers, and another function counts where the device is a multi-function one. -/
def Present (addr : PciAddress) : Prop := Visits c addr.bus addr.device.toNat addr.function.toNat

/-- A bus is the secondary bus of at most one bridge and bus 0 of none, and every bus with a function on it is reached
from bus 0. -/
structure TreeUnderBusZero : Prop where
  unique : ∀ addr addr' secondary, Present c addr → BridgeAt c addr secondary → Present c addr' →
    BridgeAt c addr' secondary → addr = addr'
  root : ∀ addr, Present c addr → ¬ BridgeAt c addr 0
  under : ∀ addr, Present c addr → Relation.ReflTransGen (Bridge c) 0 addr.bus

/-- Present, on a bus reached from bus 0. -/
def Reached (addr : PciAddress) : Prop := Present c addr ∧ Relation.ReflTransGen (Bridge c) 0 addr.bus

/-- The device 00:00 is a multi-function one. -/
def MultiFunctionHost : Prop :=
  pciConfigRead8 c (.new 0 0 0) pciHeaderType &&& pciHeaderTypeMultiFunction ≠ 0

/-- No bus is scanned a second time, or nothing is left to record then: the host bridge has one function; or there is
nothing on bus 0; or its function 0 is there and the table is full after bus 0, or no bus with the number of another of
its functions has a function on it. -/
def ScannedOnce : Prop :=
  ¬ MultiFunctionHost c ∨ (∀ addr, Present c addr → addr.bus ≠ 0) ∨
  PciDevice.existsAt c (.new 0 0 0) ∧ (Set.ncard {addr | Reached c addr} = maxPciDevices ∨
    ∀ function, 0 < function → function < 8 → PciDevice.existsAt c (.new 0 0 (BitVec.ofNat 8 function)) →
      ∀ addr, Present c addr → addr.bus ≠ BitVec.ofNat 8 function)

/-! ### The functions in the order of the scan -/

/-- The functions of a bus. -/
def busFunctions (bus : BitVec 8) : List PciAddress :=
  (List.range 32).flatMap fun device => ((List.range 8).filter fun function => Visits c bus device function).map
    fun function => .new bus (BitVec.ofNat 8 device) (BitVec.ofNat 8 function)

/-- The functions of a bus and, after each bridge, those behind it. -/
def listBus : Nat → BitVec 8 → List PciAddress
  | 0, _ => []
  | depth+1, bus => (busFunctions c bus).flatMap fun addr => addr ::
    if pciConfigRead8 c addr pciClass = 0x06 ∧ pciConfigRead8 c addr pciSubclass = 0x04 then
      listBus depth (pciConfigRead8 c addr 0x19)
    else []

def startBuses : List (BitVec 8) :=
  if pciConfigRead8 c (.new 0 0 0) pciHeaderType &&& pciHeaderTypeMultiFunction ≠ 0 then
    ((List.range 8).filter fun function =>
      PciDevice.existsAt c (.new 0 0 (BitVec.ofNat 8 function))).map (BitVec.ofNat 8)
  else [0]

end Topology

/-! ### What a run records -/

/-- The table after more functions: what goes past its end is dropped. -/
def limited (recorded more : List PciAddress) : List PciAddress :=
  recorded ++ more.take (maxPciDevices - recorded.length)

theorem limited_nil (recorded : List PciAddress) : limited recorded [] = recorded := by
  rw [limited, List.take_nil, List.append_nil]

theorem limited_append (recorded xs ys : List PciAddress) :
    limited (limited recorded xs) ys = limited recorded (xs ++ ys) := by
  rw [limited, limited, limited, List.append_assoc, List.take_append, List.length_append, List.length_take]
  congr 3
  omega

/-- Where it returns, the run adds the functions to the table. -/
def Records (run : List PciDevice → Option (List PciDevice)) (xs : List PciAddress) : Prop :=
  ∀ devices devices', run devices = some devices' →
    devices'.map PciDevice.address = limited (devices.map PciDevice.address) xs

namespace Records
variable {run next : List PciDevice → Option (List PciDevice)} {xs ys : List PciAddress}

theorem some : Records Option.some [] := by
  intro devices devices' h
  obtain rfl := Option.some.inj h
  exact (limited_nil _).symm

theorem bind (h : Records run xs) (hnext : Records next ys) :
    Records (fun devices => run devices >>= next) (xs ++ ys) := by
  intro devices devices' hrun
  obtain ⟨between, hfirst, hsecond⟩ := Option.bind_eq_some_iff.mp hrun
  rw [hnext between devices' hsecond, h devices between hfirst, limited_append]

theorem guarded {p : Prop} [Decidable p] (h : p → Records run xs) :
    Records (fun devices => if p then run devices else Option.some devices) (if p then xs else []) := by
  by_cases hp : p
  · simpa only [if_pos hp] using h hp
  · simpa only [if_neg hp] using Records.some

theorem foldlM {α : Type} {step : List PciDevice → α → Option (List PciDevice)} {ys : α → List PciAddress}
    (h : ∀ x, Records (fun devices => step devices x) (ys x)) (l : List α) :
    Records (fun devices => l.foldlM step devices) (l.flatMap ys) := by
  induction l with
  | nil => exact Records.some
  | cons x l ih =>
    simp only [List.foldlM_cons, List.flatMap_cons]
    exact (h x).bind ih

end Records

section Runs
variable {c : ConfigSpace}

/-- A function and, for a bridge, what its secondary bus has. -/
def withBehind (c : ConfigSpace) (behind : BitVec 8 → List PciAddress) (addr : PciAddress) : List PciAddress :=
  addr :: if pciConfigRead8 c addr pciClass = 0x06 ∧ pciConfigRead8 c addr pciSubclass = 0x04 then
    behind (pciConfigRead8 c addr 0x19)
  else []

section Bus
variable {enumerateBus : BitVec 8 → List PciDevice → Option (List PciDevice)} {behind : BitVec 8 → List PciAddress}
variable (hbus : ∀ bus, Records (enumerateBus bus) (behind bus))
include hbus

private theorem pciEnumerateFunction_records {bus device function : BitVec 8}
    (hex : PciDevice.existsAt c (.new bus device function)) :
    Records (pciEnumerateFunction c enumerateBus bus device function)
      (withBehind c behind (.new bus device function)) := by
  have hvendor : pciConfigRead16 c (.new bus device function) pciVendorId ≠ pciVendorIdInvalid := by
    simpa [PciDevice.existsAt] using hex
  have hone (dev : PciDevice) (devices : List PciDevice) :
      (if devices.length < maxPciDevices then devices ++ [dev] else devices).map PciDevice.address =
        limited (devices.map PciDevice.address) [dev.address] := by
    rw [limited, List.length_map]
    split_ifs with hroom
    · rw [List.take_of_length_le (by rw [List.length_singleton]; omega), List.map_append, List.map_singleton]
    · rw [Nat.sub_eq_zero_of_le (Nat.not_lt.mp hroom), List.take_zero, List.append_nil]
  intro devices devices' hrun
  rw [pciEnumerateFunction, PciDevice.read, if_neg hvendor] at hrun
  dsimp only at hrun
  rw [withBehind, ← List.singleton_append, ← limited_append]
  by_cases hbridge : pciConfigRead8 c (.new bus device function) pciClass = 0x06 ∧
      pciConfigRead8 c (.new bus device function) pciSubclass = 0x04
  · rw [if_pos hbridge] at hrun ⊢
    rw [hbus _ _ _ hrun, hone]
  · rw [if_neg hbridge] at hrun ⊢
    rw [← Option.some.inj hrun, hone, limited_nil]

omit hbus in
private theorem flatMap_filter {α β : Type} (p : α → Bool) (f : α → List β) (l : List α) :
    (l.filter p).flatMap f = l.flatMap fun x => if p x then f x else [] := by
  induction l with
  | nil => rfl
  | cons x l ih =>
    rw [List.filter_cons, List.flatMap_cons, ← ih]
    split_ifs <;> simp

private theorem pciEnumerateDevice_records (bus : BitVec 8) (device : Nat) :
    Records (pciEnumerateDevice c enumerateBus bus (BitVec.ofNat 8 device))
      (((List.range 8).filter fun function => Visits c bus device function).flatMap fun function =>
        withBehind c behind (.new bus (BitVec.ofNat 8 device) (BitVec.ofNat 8 function))) := by
  have hlist : ((List.range 8).filter fun function => Visits c bus device function).flatMap (fun function =>
      withBehind c behind (.new bus (BitVec.ofNat 8 device) (BitVec.ofNat 8 function))) =
      if PciDevice.existsAt c (.new bus (BitVec.ofNat 8 device) 0) then
        withBehind c behind (.new bus (BitVec.ofNat 8 device) 0) ++
          if pciConfigRead8 c (.new bus (BitVec.ofNat 8 device) 0) pciHeaderType &&& pciHeaderTypeMultiFunction ≠ 0 then
            (List.range' 1 7).flatMap fun function =>
              if PciDevice.existsAt c (.new bus (BitVec.ofNat 8 device) (BitVec.ofNat 8 function)) then
                withBehind c behind (.new bus (BitVec.ofNat 8 device) (BitVec.ofNat 8 function))
              else []
          else []
      else [] := by
    rw [flatMap_filter, show List.range 8 = 0 :: List.range' 1 7 from rfl, List.flatMap_cons]
    by_cases hex : PciDevice.existsAt c (.new bus (BitVec.ofNat 8 device) 0)
    · have hfirst : Visits c bus device 0 := ⟨hex, .inl rfl⟩
      rw [if_pos hex, if_pos (decide_eq_true hfirst)]
      congr 1
      split_ifs with hmulti
      · apply List.flatMap_congr
        intro function hmem
        have hne : function ≠ 0 := by
          rw [List.mem_range'_1] at hmem
          omega
        have hiff : Visits c bus device function ↔
            PciDevice.existsAt c (.new bus (BitVec.ofNat 8 device) (BitVec.ofNat 8 function)) :=
          ⟨fun h => (h.2.resolve_left hne).2, fun h => ⟨hex, .inr ⟨hmulti, h⟩⟩⟩
        exact if_congr (decide_eq_true_iff.trans hiff) rfl rfl
      · apply List.flatMap_eq_nil_iff.mpr
        intro function hmem
        have hnot : ¬ Visits c bus device function := by
          rw [List.mem_range'_1] at hmem
          rintro ⟨-, rfl | ⟨h, -⟩⟩
          · omega
          · exact hmulti h
        rw [if_neg (by rwa [decide_eq_true_iff])]
    · have hnot (function : Nat) : ¬ Visits c bus device function := fun h => hex h.1
      rw [if_neg hex, if_neg (by rw [decide_eq_true_iff]; exact hnot 0), List.nil_append]
      apply List.flatMap_eq_nil_iff.mpr
      intro function _
      rw [if_neg (by rw [decide_eq_true_iff]; exact hnot function)]
  rw [hlist]
  unfold pciEnumerateDevice
  refine Records.guarded fun hex => (pciEnumerateFunction_records hbus hex).bind ?_
  exact Records.guarded fun _ => Records.foldlM (fun function =>
    Records.guarded fun hthere => pciEnumerateFunction_records hbus hthere) _

end Bus

/-- The scan of a bus records its list. -/
theorem pciEnumerateBus_records (c : ConfigSpace) (depth : Nat) (bus : BitVec 8) :
    Records (pciEnumerateBus c depth bus) (listBus c depth bus) := by
  induction depth generalizing bus with
  | zero =>
    intro devices devices' h
    cases h
  | succ depth ih =>
    have hlist : listBus c (depth+1) bus = (List.range 32).flatMap fun device =>
        ((List.range 8).filter fun function => Visits c bus device function).flatMap fun function =>
          withBehind c (listBus c depth) (.new bus (BitVec.ofNat 8 device) (BitVec.ofNat 8 function)) := by
      rw [listBus, busFunctions, List.flatMap_assoc]
      simp only [List.flatMap_map]
      rfl
    rw [hlist]
    exact Records.foldlM (fun device => pciEnumerateDevice_records ih bus device) _

/-- The enumeration fills the table with the lists of the buses it starts with. -/
theorem pciEnumerate_records {depth : Nat} {devices : List PciDevice} (h : pciEnumerate c depth = some devices) :
    devices.map PciDevice.address = ((startBuses c).flatMap (listBus c depth)).take maxPciDevices := by
  have hstart (run : List PciDevice → Option (List PciDevice)) (xs : List PciAddress) (hrecords : Records run xs)
      (hrun : run [] = some devices) : devices.map PciDevice.address = xs.take maxPciDevices := hrecords _ _ hrun
  rw [pciEnumerate] at h
  rw [startBuses]
  split_ifs at h ⊢ with hmulti
  · rw [List.flatMap_map, flatMap_filter]
    exact hstart _ _ (Records.foldlM (fun function =>
      Records.guarded fun _ => pciEnumerateBus_records c depth (BitVec.ofNat 8 function)) _) h
  · rw [List.flatMap_cons, List.flatMap_nil, List.append_nil]
    exact hstart _ _ (pciEnumerateBus_records c depth 0) h

end Runs

/-! ### The list of a bus -/

section Lists
variable {c : ConfigSpace} {addr addr' : PciAddress} {bus secondary : BitVec 8}

private theorem new_eq (addr : PciAddress) :
    PciAddress.new addr.bus (BitVec.ofNat 8 addr.device.toNat) (BitVec.ofNat 8 addr.function.toNat) = addr := by
  have hdevice := addr.device.isLt
  have hfunction := addr.function.isLt
  rw [PciAddress.new]
  congr 1
  · apply BitVec.eq_of_toNat_eq
    rw [BitVec.toNat_setWidth, BitVec.toNat_ofNat]
    omega
  · apply BitVec.eq_of_toNat_eq
    rw [BitVec.toNat_setWidth, BitVec.toNat_ofNat]
    omega

private theorem new_places (bus : BitVec 8) {device function : Nat} (hdevice : device < 32) (hfunction : function < 8) :
    (PciAddress.new bus (BitVec.ofNat 8 device) (BitVec.ofNat 8 function)).device.toNat = device ∧
    (PciAddress.new bus (BitVec.ofNat 8 device) (BitVec.ofNat 8 function)).function.toNat = function := by
  rw [PciAddress.new]
  dsimp only
  rw [BitVec.toNat_setWidth, BitVec.toNat_ofNat, BitVec.toNat_setWidth, BitVec.toNat_ofNat]
  omega

theorem present_new {bus : BitVec 8} {device function : Nat} (hdevice : device < 32) (hfunction : function < 8) :
    Present c (.new bus (BitVec.ofNat 8 device) (BitVec.ofNat 8 function)) ↔ Visits c bus device function := by
  obtain ⟨hd, hf⟩ := new_places bus hdevice hfunction
  rw [Present, hd, hf]
  rfl

theorem Present.exists (h : Present c addr) : PciDevice.existsAt c addr := by
  obtain ⟨hex, hzero | ⟨-, hthere⟩⟩ := h
  · have := new_eq addr
    rw [hzero] at this
    rwa [← this]
  · rwa [new_eq] at hthere

theorem bridge_iff : Bridge c bus secondary ↔ ∃ addr, addr.bus = bus ∧ Present c addr ∧ BridgeAt c addr secondary := by
  constructor
  · rintro ⟨device, hdevice, function, hfunction, hvisits, hbridge⟩
    exact ⟨_, rfl, (present_new hdevice hfunction).mpr hvisits, hbridge⟩
  · rintro ⟨addr, rfl, hpresent, hbridge⟩
    exact ⟨_, addr.device.isLt, _, addr.function.isLt, hpresent, by rwa [new_eq]⟩

theorem mem_busFunctions : addr ∈ busFunctions c bus ↔ addr.bus = bus ∧ Present c addr := by
  simp only [busFunctions, List.mem_flatMap, List.mem_map, List.mem_filter, List.mem_range, decide_eq_true_iff]
  constructor
  · rintro ⟨device, hdevice, function, ⟨hfunction, hvisits⟩, rfl⟩
    exact ⟨rfl, (present_new hdevice hfunction).mpr hvisits⟩
  · rintro ⟨rfl, hpresent⟩
    exact ⟨_, addr.device.isLt, _, ⟨addr.function.isLt, hpresent⟩, new_eq addr⟩

theorem nodup_busFunctions (c : ConfigSpace) (bus : BitVec 8) : (busFunctions c bus).Nodup := by
  rw [busFunctions, List.nodup_flatMap]
  constructor
  · intro device hdevice
    refine (List.nodup_range.filter _).map_on fun function hmem function' hmem' heq => ?_
    rw [List.mem_filter, List.mem_range] at hmem hmem'
    rw [List.mem_range] at hdevice
    rw [← (new_places bus hdevice hmem.1).2, heq, (new_places bus hdevice hmem'.1).2]
  · refine List.nodup_range.pairwise_of_forall_ne fun device hdevice device' hdevice' hne => ?_
    intro addr hmem hmem'
    simp only [List.mem_map, List.mem_filter, List.mem_range] at hmem hmem' hdevice hdevice'
    obtain ⟨function, ⟨hfunction, -⟩, rfl⟩ := hmem
    obtain ⟨function', ⟨hfunction', -⟩, heq⟩ := hmem'
    apply hne
    rw [← (new_places bus hdevice hfunction).1, ← heq, (new_places bus hdevice' hfunction').1]

/-- A present function with the class of a bridge leads to its secondary bus. -/
private theorem bridgeAt_of_class (h : Present c addr)
    (hclass : pciConfigRead8 c addr pciClass = 0x06 ∧ pciConfigRead8 c addr pciSubclass = 0x04) :
    BridgeAt c addr (pciConfigRead8 c addr 0x19) :=
  ⟨h.exists, hclass.1, hclass.2, rfl⟩

theorem mem_withBehind {behind : BitVec 8 → List PciAddress} (h : Present c addr) :
    addr' ∈ withBehind c behind addr ↔
      addr' = addr ∨ ∃ secondary, BridgeAt c addr secondary ∧ addr' ∈ behind secondary := by
  rw [withBehind, List.mem_cons]
  refine or_congr_right ?_
  constructor
  · intro hmem
    split_ifs at hmem with hclass
    · exact ⟨_, bridgeAt_of_class h hclass, hmem⟩
    · cases hmem
  · rintro ⟨secondary, ⟨-, hclass, hsubclass, rfl⟩, hmem⟩
    rwa [if_pos ⟨hclass, hsubclass⟩]

theorem listBus_succ (depth : Nat) (bus : BitVec 8) :
    listBus c (depth+1) bus = (busFunctions c bus).flatMap (withBehind c (listBus c depth)) := rfl

theorem mem_listBus_succ {depth : Nat} : addr ∈ listBus c (depth+1) bus ↔ (addr.bus = bus ∧ Present c addr) ∨
    ∃ secondary, Bridge c bus secondary ∧ addr ∈ listBus c depth secondary := by
  simp only [listBus_succ, List.mem_flatMap, mem_busFunctions, bridge_iff]
  constructor
  · rintro ⟨bridge, ⟨hbus, hpresent⟩, hmem⟩
    rcases (mem_withBehind hpresent).mp hmem with rfl | ⟨secondary, hbridge, hbehind⟩
    · exact .inl ⟨hbus, hpresent⟩
    · exact .inr ⟨secondary, ⟨bridge, hbus, hpresent, hbridge⟩, hbehind⟩
  · rintro (⟨hbus, hpresent⟩ | ⟨secondary, ⟨bridge, hbus, hpresent, hbridge⟩, hbehind⟩)
    · exact ⟨addr, ⟨hbus, hpresent⟩, (mem_withBehind hpresent).mpr (.inl rfl)⟩
    · exact ⟨bridge, ⟨hbus, hpresent⟩, (mem_withBehind hpresent).mpr (.inr ⟨secondary, hbridge, hbehind⟩)⟩

/-- What a list holds is present and reached from its bus. -/
theorem listBus_reached {depth : Nat} (h : addr ∈ listBus c depth bus) :
    Present c addr ∧ Relation.ReflTransGen (Bridge c) bus addr.bus := by
  induction depth generalizing bus with
  | zero => cases h
  | succ depth ih =>
    rcases mem_listBus_succ.mp h with ⟨rfl, hpresent⟩ | ⟨secondary, hbridge, hmem⟩
    · exact ⟨hpresent, .refl⟩
    · obtain ⟨hpresent, hreached⟩ := ih hmem
      exact ⟨hpresent, .head hbridge hreached⟩

/-- With depth enough the list holds all that. -/
theorem mem_listBus {depth : Nat} (hchain : ¬ Chain (Bridge c) depth bus) : addr ∈ listBus c depth bus ↔
    Present c addr ∧ Relation.ReflTransGen (Bridge c) bus addr.bus := by
  refine ⟨listBus_reached, ?_⟩
  rintro ⟨hpresent, hreached⟩
  induction depth generalizing bus with
  | zero => exact absurd trivial hchain
  | succ depth ih =>
    rcases Relation.ReflTransGen.cases_head hreached with rfl | ⟨secondary, hbridge, hrest⟩
    · exact mem_listBus_succ.mpr (.inl ⟨rfl, hpresent⟩)
    · exact mem_listBus_succ.mpr (.inr ⟨secondary, hbridge,
        ih (fun h => hchain ⟨secondary, hbridge, h⟩) hrest⟩)

namespace TreeUnderBusZero
variable (h : TreeUnderBusZero c)
include h

theorem rooted : Rooted (Bridge c) 0 where
  unique a b s ha hb := by
    obtain ⟨addr, rfl, hpresent, hbridge⟩ := bridge_iff.mp ha
    obtain ⟨addr', rfl, hpresent', hbridge'⟩ := bridge_iff.mp hb
    rw [h.unique addr addr' s hpresent hbridge hpresent' hbridge']
  root a ha := by
    obtain ⟨addr, -, hpresent, hbridge⟩ := bridge_iff.mp ha
    exact h.root addr hpresent hbridge

theorem not_chain (bus : BitVec 8) : ¬ Chain (Bridge c) 256 bus := by
  intro hchain
  have hbuses : Function.Injective (BitVec.toFin : BitVec 8 → Fin 256) := fun _ _ heq => BitVec.eq_of_toFin_eq heq
  have hcycle := (reachesCycle_iff_chain hbuses).mpr hchain
  obtain ⟨next, hbridge, -⟩ := hcycle.step
  obtain ⟨addr, rfl, hpresent, -⟩ := bridge_iff.mp hbridge
  exact h.rooted.not_reachesCycle (h.under addr hpresent) hcycle

theorem acyclic : Acyclic c := fun bus _ hcycle => h.not_chain bus (hcycle.chain 256)

/-- A function is listed once: what is behind different bridges of a bus is apart, and apart from the bus. -/
theorem nodup_listBus {depth : Nat} (hbus : Relation.ReflTransGen (Bridge c) 0 bus) : (listBus c depth bus).Nodup := by
  induction depth generalizing bus with
  | zero => exact List.nodup_nil
  | succ depth ih =>
    have hbehind {bridge x : PciAddress} {secondary : BitVec 8} (hon : bridge.bus = bus) (hpresent : Present c bridge)
        (hbridge : BridgeAt c bridge secondary) (hx : x ∈ listBus c depth secondary) :
        Bridge c bus secondary ∧ Relation.ReflTransGen (Bridge c) secondary x.bus ∧ x.bus ≠ bus := by
      have hstep : Bridge c bus secondary := bridge_iff.mpr ⟨bridge, hon, hpresent, hbridge⟩
      refine ⟨hstep, (listBus_reached hx).2, fun heq => ?_⟩
      exact h.rooted.not_cycle hbus (.head' hstep (heq ▸ (listBus_reached hx).2))
    rw [listBus_succ, List.nodup_flatMap]
    constructor
    · intro bridge hmem
      obtain ⟨hon, hpresent⟩ := mem_busFunctions.mp hmem
      rw [withBehind]
      split_ifs with hclass
      · have hbridge := bridgeAt_of_class hpresent hclass
        refine List.nodup_cons.mpr ⟨fun hself => (hbehind hon hpresent hbridge hself).2.2 hon, ih ?_⟩
        exact hbus.tail (bridge_iff.mpr ⟨bridge, hon, hpresent, hbridge⟩)
      · exact List.nodup_singleton bridge
    · refine (nodup_busFunctions c bus).pairwise_of_forall_ne fun first hfirst second hsecond hne => ?_
      obtain ⟨hon, hpresent⟩ := mem_busFunctions.mp hfirst
      obtain ⟨hon', hpresent'⟩ := mem_busFunctions.mp hsecond
      intro x hx hx'
      rcases (mem_withBehind hpresent).mp hx with rfl | ⟨s, hbridge, hmem⟩
      · rcases (mem_withBehind hpresent').mp hx' with rfl | ⟨s', hbridge', hmem'⟩
        · exact hne rfl
        · exact (hbehind hon' hpresent' hbridge' hmem').2.2 hon
      · obtain ⟨hstep, hreach, hother⟩ := hbehind hon hpresent hbridge hmem
        rcases (mem_withBehind hpresent').mp hx' with rfl | ⟨s', hbridge', hmem'⟩
        · exact hother hon'
        · obtain ⟨hstep', hreach', -⟩ := hbehind hon' hpresent' hbridge' hmem'
          have hapart : s ≠ s' := by
            rintro rfl
            exact hne (h.unique _ _ _ hpresent hbridge hpresent' hbridge')
          exact h.rooted.children_apart hbus hstep hstep' hapart hreach hreach'

theorem mem_listBus_zero : addr ∈ listBus c 256 0 ↔ Reached c addr := mem_listBus (h.not_chain 0)

theorem length_listBus_zero : (listBus c 256 0).length = Set.ncard {addr | Reached c addr} := by
  have hset : {addr | Reached c addr} = ((listBus c 256 0).toFinset : Set PciAddress) := by
    ext addr
    rw [Set.mem_ofPred_eq, Finset.mem_coe, List.mem_toFinset, h.mem_listBus_zero]
  rw [hset, Set.ncard_coe_finset, List.toFinset_card_of_nodup (h.nodup_listBus .refl)]

/-- The list of a bus is empty exactly if there is nothing on the bus. -/
theorem listBus_eq_nil_iff (bus : BitVec 8) : listBus c 256 bus = [] ↔ ∀ addr, Present c addr → addr.bus ≠ bus := by
  rw [List.eq_nil_iff_forall_not_mem]
  constructor
  · rintro hnone addr hpresent rfl
    exact hnone addr ((mem_listBus (h.not_chain _)).mpr ⟨hpresent, .refl⟩)
  · intro hnone addr hmem
    obtain ⟨hpresent, hreached⟩ := listBus_reached hmem
    rcases Relation.ReflTransGen.cases_head hreached with rfl | ⟨next, hbridge, -⟩
    · exact hnone addr hpresent rfl
    · obtain ⟨bridge, hon, hthere, -⟩ := bridge_iff.mp hbridge
      exact hnone bridge hthere hon

end TreeUnderBusZero
end Lists

/-! ### Once -/

/-- Every present function on a bus reached from bus 0 is recorded exactly once. -/
def RecordedOnce (c : ConfigSpace) (devices : List PciDevice) : Prop :=
  ∀ addr, Reached c addr → (devices.map PciDevice.address).count addr = 1

section Once
variable {c : ConfigSpace} (h : TreeUnderBusZero c)
include h

/-- The list of bus 0 alone records every function once; more is recorded twice. -/
private theorem once_with_bus_zero {devices : List PciDevice} {more : List PciAddress}
    (hcount : Set.ncard {addr | Reached c addr} ≤ maxPciDevices)
    (hdevices : devices.map PciDevice.address = (listBus c 256 0 ++ more).take maxPciDevices)
    (hmore : ∀ addr ∈ more, Reached c addr) :
    RecordedOnce c devices ↔ Set.ncard {addr | Reached c addr} = maxPciDevices ∨ more = [] := by
  rw [← h.length_listBus_zero] at hcount ⊢
  have hnodup : (listBus c 256 0).Nodup := h.nodup_listBus Relation.ReflTransGen.refl
  have hfirst {addr : PciAddress} (hreached : Reached c addr) : (listBus c 256 0).count addr = 1 :=
    List.count_eq_one_of_mem hnodup (h.mem_listBus_zero.mpr hreached)
  have htail : more.take (maxPciDevices - (listBus c 256 0).length) = [] ↔
      (listBus c 256 0).length = maxPciDevices ∨ more = [] := by
    rw [List.take_eq_nil_iff]
    refine or_congr_left ?_
    omega
  rw [← htail]
  simp only [RecordedOnce, hdevices, List.take_append, List.take_of_length_le hcount, List.count_append]
  constructor
  · intro honce
    rw [List.eq_nil_iff_forall_not_mem]
    intro addr hmem
    have hreached := hmore addr (List.mem_of_mem_take hmem)
    have hone := honce addr hreached
    have hpos := List.count_pos_iff.mpr hmem
    rw [hfirst hreached] at hone
    omega
  · intro hnone addr hreached
    rw [hfirst hreached, hnone, List.count_nil]

/-- Without the list of bus 0 the functions on bus 0 are missing. -/
private theorem once_without_bus_zero {devices : List PciDevice} {starts : List (BitVec 8)}
    (hdevices : devices.map PciDevice.address = (starts.flatMap (listBus c 256)).take maxPciDevices)
    (hstarts : ∀ bus ∈ starts, bus ≠ 0) :
    RecordedOnce c devices ↔ ∀ addr, Present c addr → addr.bus ≠ 0 := by
  constructor
  · intro honce addr hpresent hzero
    have hone := honce addr ⟨hpresent, by rw [hzero]⟩
    have hmem : addr ∈ devices.map PciDevice.address := List.count_pos_iff.mp (by omega)
    rw [hdevices] at hmem
    obtain ⟨bus, hbus, hlisted⟩ := List.mem_flatMap.mp (List.mem_of_mem_take hmem)
    have hreached := (listBus_reached hlisted).2
    rw [hzero] at hreached
    rcases Relation.ReflTransGen.cases_tail hreached with heq | ⟨last, -, hbridge⟩
    · exact hstarts bus hbus heq.symm
    · exact h.rooted.root last hbridge
  · rintro hnone addr ⟨hpresent, hreached⟩
    rcases Relation.ReflTransGen.cases_head hreached with hzero | ⟨next, hbridge, -⟩
    · exact absurd hzero.symm (hnone addr hpresent)
    · obtain ⟨bridge, hon, hthere, -⟩ := bridge_iff.mp hbridge
      exact absurd hon (hnone bridge hthere)

/-- The functions other than 0 of the host bridge that are there. -/
private def otherStarts (c : ConfigSpace) : List (BitVec 8) :=
  ((List.range' 1 7).filter fun function =>
    PciDevice.existsAt c (.new 0 0 (BitVec.ofNat 8 function))).map (BitVec.ofNat 8)

omit h in
private theorem mem_otherStarts {bus : BitVec 8} : bus ∈ otherStarts c ↔ ∃ function, 0 < function ∧ function < 8 ∧
    PciDevice.existsAt c (.new 0 0 (BitVec.ofNat 8 function)) ∧ bus = BitVec.ofNat 8 function := by
  simp only [otherStarts, List.mem_map, List.mem_filter, List.mem_range'_1]
  constructor
  · rintro ⟨function, ⟨hrange, hex⟩, rfl⟩
    exact ⟨function, by omega, by omega, hex, rfl⟩
  · rintro ⟨function, hpos, hlt, hex, rfl⟩
    exact ⟨function, ⟨by omega, hex⟩, rfl⟩

omit h in
private theorem startBuses_multi (hmulti : MultiFunctionHost c) : startBuses c =
    if PciDevice.existsAt c (.new 0 0 0) then 0 :: otherStarts c else otherStarts c := by
  have hheader : pciConfigRead8 c (.new 0 0 0) pciHeaderType &&& pciHeaderTypeMultiFunction ≠ 0 := hmulti
  rw [startBuses, if_pos hheader, show List.range 8 = 0 :: List.range' 1 7 from rfl, List.filter_cons, otherStarts]
  exact apply_ite (List.map (BitVec.ofNat 8)) (PciDevice.existsAt c (.new 0 0 0)) _ _

omit h in
private theorem otherStarts_ne_zero {bus : BitVec 8} (hbus : bus ∈ otherStarts c) : bus ≠ 0 := by
  obtain ⟨function, hpos, hlt, -, rfl⟩ := mem_otherStarts.mp hbus
  intro heq
  have := congrArg BitVec.toNat heq
  rw [BitVec.toNat_ofNat] at this
  change function%256 = 0 at this
  omega

/-- The enumeration returns, and records every function once exactly if no bus is scanned a second time. -/
theorem pciEnumerate_once_iff (hcount : Set.ncard {addr | Reached c addr} ≤ maxPciDevices) :
    ∃ devices, pciEnumerate c 256 = some devices ∧ (RecordedOnce c devices ↔ ScannedOnce c) := by
  obtain ⟨devices, hdevices⟩ := Option.isSome_iff_exists.mp ((pciEnumerate_returns_iff c).1.mpr h.acyclic)
  refine ⟨devices, hdevices, ?_⟩
  have hrecords := pciEnumerate_records hdevices
  by_cases hmulti : MultiFunctionHost c
  · rw [startBuses_multi hmulti] at hrecords
    have hon (hex : PciDevice.existsAt c (.new 0 0 0)) : Present c (.new 0 0 0) :=
      (present_new (Nat.zero_lt_succ 31) (Nat.zero_lt_succ 7)).mpr ⟨hex, .inl rfl⟩
    by_cases hex : PciDevice.existsAt c (.new 0 0 0)
    · rw [if_pos hex, List.flatMap_cons] at hrecords
      rw [once_with_bus_zero h hcount hrecords, ScannedOnce]
      · have hrest : (otherStarts c).flatMap (listBus c 256) = [] ↔ ∀ function, 0 < function → function < 8 →
            PciDevice.existsAt c (.new 0 0 (BitVec.ofNat 8 function)) →
            ∀ addr, Present c addr → addr.bus ≠ BitVec.ofNat 8 function := by
          simp only [List.flatMap_eq_nil_iff, h.listBus_eq_nil_iff, mem_otherStarts]
          constructor
          · intro hnone function hpos hlt hthere
            exact hnone _ ⟨function, hpos, hlt, hthere, rfl⟩
          · rintro hnone _ ⟨function, hpos, hlt, hthere, rfl⟩
            exact hnone function hpos hlt hthere
        rw [hrest]
        constructor
        · exact fun hcond => .inr (.inr ⟨hex, hcond⟩)
        · rintro (hsingle | hempty | ⟨-, hcond⟩)
          · exact absurd hmulti hsingle
          · exact absurd rfl (hempty _ (hon hex))
          · exact hcond
      · intro addr hmem
        obtain ⟨bus, -, hlisted⟩ := List.mem_flatMap.mp hmem
        have hpresent := (listBus_reached hlisted).1
        exact ⟨hpresent, h.under addr hpresent⟩
    · rw [if_neg hex] at hrecords
      rw [once_without_bus_zero h hrecords fun bus hbus => otherStarts_ne_zero hbus, ScannedOnce]
      constructor
      · exact fun hempty => .inr (.inl hempty)
      · rintro (hsingle | hempty | ⟨hthere, -⟩)
        · exact absurd hmulti hsingle
        · exact hempty
        · exact absurd hthere hex
  · have hstarts : startBuses c = [0] := if_neg hmulti
    rw [hstarts, List.flatMap_cons] at hrecords
    rw [once_with_bus_zero h hcount hrecords fun addr hmem => by cases hmem]
    exact ⟨fun _ => .inl hmulti, fun _ => .inr rfl⟩

end Once

/-! ### A bus 1 behind a bridge -/

/-- The host bridge with or without a second function, a bridge to bus 1, and a function there. -/
def twoBuses (second : Bool) : ConfigSpace := fun addr offset =>
  if addr = ⟨0, 0, 0⟩ then
    if offset = 0x00 then 0x12378086 else if offset = 0x08 then 0x06000000
    else if offset = 0x0C then if second then 0x00800000 else 0
    else 0
  else if second = true ∧ addr = ⟨0, 0, 1⟩ then
    if offset = 0x00 then 0x70008086 else if offset = 0x08 then 0x06010000 else 0
  else if addr = ⟨0, 1, 0⟩ then
    if offset = 0x00 then 0x244E8086 else if offset = 0x08 then 0x06040000
    else if offset = 0x0C then 0x00010000 else if offset = 0x18 then 0x00000100 else 0
  else if addr = ⟨1, 0, 0⟩ then
    if offset = 0x00 then 0x100E8086 else if offset = 0x08 then 0x02000000 else 0
  else 0xFFFFFFFF

private theorem twoBuses_present {second : Bool} {addr : PciAddress} (h : Present (twoBuses second) addr) :
    addr = ⟨0, 0, 0⟩ ∨ addr = ⟨0, 0, 1⟩ ∨ addr = ⟨0, 1, 0⟩ ∨ addr = ⟨1, 0, 0⟩ := by
  by_contra hout
  push Not at hout
  obtain ⟨h₁, h₂, h₃, h₄⟩ := hout
  have hones : twoBuses second addr = fun _ => 0xFFFFFFFF := by
    funext offset
    rw [twoBuses, if_neg h₁, if_neg fun h => h₂ h.2, if_neg h₃, if_neg h₄]
  have hex := h.exists
  rw [PciDevice.existsAt, pciConfigRead16, pciConfigRead32, hones] at hex
  exact absurd hex (by decide)

private theorem twoBuses_tree (second : Bool) : TreeUnderBusZero (twoBuses second) := by
  have hleads {addr : PciAddress} {secondary : BitVec 8} (h : Present (twoBuses second) addr)
      (hbridge : BridgeAt (twoBuses second) addr secondary) : addr = ⟨0, 1, 0⟩ ∧ secondary = 1 := by
    obtain ⟨hex, hclass, hsubclass, rfl⟩ := hbridge
    rcases twoBuses_present h with rfl | rfl | rfl | rfl
    · exact absurd hsubclass (by cases second <;> decide)
    · exact absurd hsubclass (by cases second <;> decide)
    · exact ⟨rfl, by cases second <;> decide⟩
    · exact absurd hsubclass (by cases second <;> decide)
  have hbridge : Bridge (twoBuses second) 0 1 :=
    ⟨1, by decide, 0, by decide, by cases second <;> decide, by cases second <;> decide,
      by cases second <;> decide, by cases second <;> decide, by cases second <;> decide⟩
  refine ⟨fun addr addr' secondary h hb h' hb' => ?_, fun addr h hb => ?_, fun addr h => ?_⟩
  · rw [(hleads h hb).1, (hleads h' hb').1]
  · exact absurd (hleads h hb).2 (by decide)
  · rcases twoBuses_present h with rfl | rfl | rfl | rfl
    · exact .refl
    · exact .refl
    · exact .refl
    · exact .single hbridge

private theorem twoBuses_count (second : Bool) :
    Set.ncard {addr | Reached (twoBuses second) addr} ≤ maxPciDevices := by
  have hsub : {addr | Reached (twoBuses second) addr} ⊆
      (({⟨0, 0, 0⟩, ⟨0, 0, 1⟩, ⟨0, 1, 0⟩, ⟨1, 0, 0⟩} : Finset PciAddress) : Set PciAddress) := by
    rintro addr ⟨h, -⟩
    rcases twoBuses_present h with rfl | rfl | rfl | rfl <;> decide
  refine (Set.ncard_le_ncard hsub (Finset.finite_toSet _)).trans ?_
  rw [Set.ncard_coe_finset]
  decide

/-- With one function on the host bridge every function is recorded once. -/
theorem twoBuses_once : ∃ devices, pciEnumerate (twoBuses false) 256 = some devices ∧
    RecordedOnce (twoBuses false) devices := by
  obtain ⟨devices, hdevices, honce⟩ := pciEnumerate_once_iff (twoBuses_tree false) (twoBuses_count false)
  exact ⟨devices, hdevices, honce.mpr (.inl (by rw [MultiFunctionHost]; decide))⟩

/-- With a second function bus 1 is scanned twice, and its function recorded twice. -/
theorem twoBuses_twice : TreeUnderBusZero (twoBuses true) ∧
    Set.ncard {addr | Reached (twoBuses true) addr} ≤ maxPciDevices ∧
    ∃ devices, pciEnumerate (twoBuses true) 256 = some devices ∧ ¬ RecordedOnce (twoBuses true) devices := by
  have htwice : ((pciEnumerate (twoBuses true) 256).map fun devices =>
      (devices.map PciDevice.address).count ⟨1, 0, 0⟩) = some 2 := by decide +kernel
  obtain ⟨devices, hdevices, hcount⟩ := Option.map_eq_some_iff.mp htwice
  refine ⟨twoBuses_tree true, twoBuses_count true, devices, hdevices, fun honce => ?_⟩
  have hpresent : Present (twoBuses true) ⟨1, 0, 0⟩ := by rw [Present]; decide
  have hone := honce ⟨1, 0, 0⟩ ⟨hpresent, (twoBuses_tree true).under _ hpresent⟩
  omega

end Nafuraito.Pci
