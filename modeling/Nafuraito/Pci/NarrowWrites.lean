import Mathlib.Data.List.Basic
import Nafuraito.Library.Words
import Nafuraito.Pci.Bars

/-! What the narrow configuration writes change where writing a one clears a bit. -/
namespace Nafuraito.Pci
open Nafuraito.Library

def pciCommandIoSpace : BitVec 16 := 1 <<< 0
def pciCommandMemorySpace : BitVec 16 := 1 <<< 1
def pciCommandBusMaster : BitVec 16 := 1 <<< 2

/-- Registers with bits of a third kind: a one written to a clearable bit makes it a zero, a zero leaves it. -/
structure ClearingDevices extends Devices where
  clearable : ConfigSpace

/-- What bits hold after a write. -/
def storedBits {w : Nat} (old writable clearable value : BitVec w) : BitVec w :=
  (value &&& writable) ||| (old &&& ~~~writable &&& ~~~(clearable &&& value))

namespace ClearingDevices

def clearable32 (d : ClearingDevices) (addr : PciAddress) (offset : BitVec 8) : BitVec 32 :=
  pciConfigRead32 d.clearable addr offset

def write32 (d : ClearingDevices) (addr : PciAddress) (offset : BitVec 8) (value : BitVec 32) : ClearingDevices :=
  let stored := storedBits (d.read32 addr offset) (d.writable32 addr offset) (d.clearable32 addr offset) value
  { d with registers := pciConfigWrite32 d.registers addr offset stored }

/-- The doubleword around the two bytes is read and written back. -/
def pciConfigWrite16 (d : ClearingDevices) (addr : PciAddress) (offset : BitVec 8) (value : BitVec 16) :
    ClearingDevices :=
  let shift := (offset &&& 2) * 8
  let data := d.read32 addr offset
  let mask := ~~~((0xFFFF : BitVec 32) <<< shift)
  d.write32 addr offset ((data &&& mask) ||| (value.setWidth 32 <<< shift))

def pciConfigWrite8 (d : ClearingDevices) (addr : PciAddress) (offset : BitVec 8) (value : BitVec 8) :
    ClearingDevices :=
  let shift := (offset &&& 3) * 8
  let data := d.read32 addr offset
  let mask := ~~~((0xFF : BitVec 32) <<< shift)
  d.write32 addr offset ((data &&& mask) ||| (value.setWidth 32 <<< shift))

/-- The command register read, changed and written, as all its updates do. -/
def updateCommand (d : ClearingDevices) (addr : PciAddress) (change : BitVec 16 → BitVec 16) : ClearingDevices :=
  let cmd := pciConfigRead16 d.registers addr pciCommand
  d.pciConfigWrite16 addr pciCommand (change cmd)

def enableBusMaster (d : ClearingDevices) (addr : PciAddress) : ClearingDevices :=
  d.updateCommand addr (· ||| pciCommandBusMaster)

def enableMemorySpace (d : ClearingDevices) (addr : PciAddress) : ClearingDevices :=
  d.updateCommand addr (· ||| pciCommandMemorySpace)

def enableIoSpace (d : ClearingDevices) (addr : PciAddress) : ClearingDevices :=
  d.updateCommand addr (· ||| pciCommandIoSpace)

/-- Also the update in `msi_enable_single`. -/
def disableLegacyInterrupts (d : ClearingDevices) (addr : PciAddress) : ClearingDevices :=
  d.updateCommand addr (· ||| pciCommandInterruptDisable)

def enableLegacyInterrupts (d : ClearingDevices) (addr : PciAddress) : ClearingDevices :=
  d.updateCommand addr (· &&& ~~~pciCommandInterruptDisable)

def status (d : ClearingDevices) (addr : PciAddress) : BitVec 16 := pciConfigRead16 d.registers addr pciStatus

end ClearingDevices

/-! ### Bytes of a doubleword -/

/-- The byte of a doubleword at an offset. -/
def byteIn (x : BitVec 32) (b : BitVec 8) : BitVec 8 := ((x >>> ((b &&& 3) * 8)) &&& 0xFF).setWidth 8

/-- The first bit of the byte at an offset. -/
def lane (b : BitVec 8) : Nat := ((b &&& 3) * 8).toNat

private theorem lane_eq (b : BitVec 8) : lane b = 8 * (b &&& 3).toNat ∧ (b &&& 3).toNat < 4 := by
  have : ∀ b : BitVec 8, ((b &&& 3) * 8).toNat = 8 * (b &&& 3).toNat ∧ (b &&& 3).toNat < 4 := by decide
  exact this b

private theorem lowOnes {w : Nat} (n i : Nat) (hn : n ≤ w) : (BitVec.ofNat w (2^n-1)).getLsbD i = decide (i < n) := by
  rw [BitVec.getLsbD_ofNat, Nat.testBit_two_pow_sub_one]
  by_cases hi : i < n
  · rw [decide_eq_true (show i < w by omega), Bool.true_and]
  · rw [decide_eq_false hi, Bool.and_false]

theorem byteIn_getLsbD (x : BitVec 32) (b : BitVec 8) {i : Nat} (hi : i < 8) :
    (byteIn x b).getLsbD i = x.getLsbD (lane b + i) := by
  rw [byteIn, BitVec.getLsbD_setWidth, BitVec.getLsbD_and, BitVec.ushiftRight_eq', BitVec.getLsbD_ushiftRight,
    show (0xFF : BitVec 32) = BitVec.ofNat 32 (2^8-1) from rfl, lowOnes 8 i (by decide), decide_eq_true hi,
    Bool.true_and, Bool.and_true]
  rfl

/-- A field of `w` bits put into a doubleword. -/
private theorem getLsbD_put {w : Nat} (data : BitVec 32) (v : BitVec w) (s : BitVec 8) (hw : w ≤ 32) {j : Nat}
    (hj : j < 32) : ((data &&& ~~~(BitVec.ofNat 32 (2^w-1) <<< s)) ||| (v.setWidth 32 <<< s)).getLsbD j =
      if s.toNat ≤ j ∧ j < s.toNat + w then v.getLsbD (j - s.toNat) else data.getLsbD j := by
  rw [BitVec.getLsbD_or, BitVec.getLsbD_and, BitVec.getLsbD_not, BitVec.getLsbD_shiftLeft', BitVec.getLsbD_shiftLeft',
    lowOnes w _ hw, BitVec.getLsbD_setWidth, decide_eq_true hj, Bool.true_and, Bool.true_and]
  by_cases hlow : j < s.toNat
  · rw [decide_eq_true hlow, if_neg (by omega)]
    simp
  · rw [decide_eq_false hlow, decide_eq_true (show j - s.toNat < 32 by omega)]
    by_cases hin : j - s.toNat < w
    · rw [decide_eq_true hin, if_pos (by omega)]
      simp
    · rw [decide_eq_false hin, if_neg (by omega), BitVec.getLsbD_of_ge v _ (by omega)]
      simp

theorem byteIn_storedBits (old writable clearable value : BitVec 32) (b : BitVec 8) :
    byteIn (storedBits old writable clearable value) b =
      storedBits (byteIn old b) (byteIn writable b) (byteIn clearable b) (byteIn value b) := by
  obtain ⟨hlane, hlt⟩ := lane_eq b
  apply BitVec.eq_of_getLsbD_eq
  intro i hi
  rw [byteIn_getLsbD _ _ hi, storedBits, storedBits]
  simp only [BitVec.getLsbD_or, BitVec.getLsbD_and, BitVec.getLsbD_not, byteIn_getLsbD _ _ hi, hi,
    show lane b + i < 32 by omega]

/-- Writing back what is there clears what is clearable and set. -/
theorem storedBits_same {w : Nat} (old writable clearable : BitVec w) :
    storedBits old writable clearable old = old ↔ old &&& clearable &&& ~~~writable = 0#w := by
  have bit : ∀ o m c : Bool, (((o && m) || (o && !m && !(c && o))) = o) ↔ ((o && c && !m) = false) := by decide
  have hbits (x y : BitVec w) : x = y ↔ ∀ i < w, x.getLsbD i = y.getLsbD i :=
    ⟨fun h _ _ => h ▸ rfl, fun h => BitVec.eq_of_getLsbD_eq fun i hi => h i hi⟩
  rw [hbits, hbits]
  refine forall₂_congr fun i hi => ?_
  simp only [storedBits, BitVec.getLsbD_or, BitVec.getLsbD_and, BitVec.getLsbD_not, hi, decide_true, Bool.true_and,
    BitVec.getLsbD_zero]
  exact bit _ _ _

/-- The byte at `b` after the byte at `offset` was put in. -/
private theorem byteIn_put8 (data : BitVec 32) (value b offset : BitVec 8) :
    byteIn ((data &&& ~~~((0xFF : BitVec 32) <<< ((offset &&& 3) * 8))) |||
        (value.setWidth 32 <<< ((offset &&& 3) * 8))) b =
      if b &&& 3 = offset &&& 3 then value else byteIn data b := by
  obtain ⟨hb, hblt⟩ := lane_eq b
  obtain ⟨ho, holt⟩ := lane_eq offset
  apply BitVec.eq_of_getLsbD_eq
  intro i hi
  rw [byteIn_getLsbD _ _ hi, show (0xFF : BitVec 32) = BitVec.ofNat 32 (2^8-1) from rfl,
    getLsbD_put data value _ (by decide) (by omega), show ((offset &&& 3) * 8).toNat = lane offset from rfl]
  by_cases hsame : b &&& 3 = offset &&& 3
  · have hlane : lane b = lane offset := by rw [hb, ho, hsame]
    rw [if_pos hsame, if_pos (by omega), hlane, Nat.add_sub_cancel_left]
  · have hne : (b &&& 3).toNat ≠ (offset &&& 3).toNat := fun h => hsame (BitVec.eq_of_toNat_eq h)
    rw [if_neg hsame, if_neg (by omega), byteIn_getLsbD _ _ hi]

/-- The byte at `b` after two bytes were put into the half around `offset`. -/
private theorem byteIn_put16 (data : BitVec 32) (value : BitVec 16) (b offset : BitVec 8) :
    byteIn ((data &&& ~~~((0xFFFF : BitVec 32) <<< ((offset &&& 2) * 8))) |||
        (value.setWidth 32 <<< ((offset &&& 2) * 8))) b =
      if b &&& 2 = offset &&& 2 then (value >>> ((b &&& 1) * 8)).setWidth 8 else byteIn data b := by
  have hparts : ∀ b : BitVec 8, (b &&& 3).toNat = (b &&& 2).toNat + (b &&& 1).toNat ∧
      ((b &&& 2).toNat = 0 ∨ (b &&& 2).toNat = 2) ∧ (b &&& 1).toNat < 2 ∧
      ((b &&& 2) * 8).toNat = 8 * (b &&& 2).toNat ∧ ((b &&& 1) * 8).toNat = 8 * (b &&& 1).toNat := by decide
  obtain ⟨hb, hblt⟩ := lane_eq b
  obtain ⟨hb3, hb2, hb1, -, hbshift⟩ := hparts b
  obtain ⟨-, ho2, -, hoshift, -⟩ := hparts offset
  apply BitVec.eq_of_getLsbD_eq
  intro i hi
  rw [byteIn_getLsbD _ _ hi, show (0xFFFF : BitVec 32) = BitVec.ofNat 32 (2^16-1) from rfl,
    getLsbD_put data value _ (by decide) (by omega), hoshift]
  by_cases hsame : b &&& 2 = offset &&& 2
  · rw [if_pos hsame, ← hsame, if_pos (by omega), BitVec.getLsbD_setWidth, BitVec.ushiftRight_eq',
      BitVec.getLsbD_ushiftRight, decide_eq_true hi, Bool.true_and, hbshift]
    congr 1
    omega
  · have hne : (b &&& 2).toNat ≠ (offset &&& 2).toNat := fun h => hsame (BitVec.eq_of_toNat_eq h)
    rw [if_neg hsame, if_neg (by omega), byteIn_getLsbD _ _ hi]

/-! ### Bytes of the configuration space -/

namespace ClearingDevices
variable (d : ClearingDevices) (addr : PciAddress)

def byte (b : BitVec 8) : BitVec 8 := pciConfigRead8 d.registers addr b

/-- What a byte holds after a byte is written to it. -/
def storedByte (b value : BitVec 8) : BitVec 8 :=
  storedBits (d.byte addr b) (pciConfigRead8 d.writable addr b) (pciConfigRead8 d.clearable addr b) value

/-- The bits of a byte that a one written to them clears. -/
def clearing (b : BitVec 8) : BitVec 8 :=
  d.byte addr b &&& pciConfigRead8 d.clearable addr b &&& ~~~pciConfigRead8 d.writable addr b

/-- From one state to the other no byte but those addressed changes, in any function. -/
def OnlyChanges (d' : ClearingDevices) (addressed : List (BitVec 8)) : Prop :=
  ∀ addr' b, ¬(addr' = addr ∧ b ∈ addressed) → d'.byte addr' b = d.byte addr' b

variable {d addr} {addr' : PciAddress} {b offset : BitVec 8}

theorem byte_write32 (value : BitVec 32) : (d.write32 addr offset value).byte addr b =
    if b &&& 0xFC = offset &&& 0xFC then d.storedByte addr b (byteIn value b) else d.byte addr b := by
  by_cases hsame : b &&& 0xFC = offset &&& 0xFC
  · have hread : (d.write32 addr offset value).byte addr b = byteIn (storedBits (d.read32 addr offset)
        (d.writable32 addr offset) (d.clearable32 addr offset) value) b := by
      rw [byte, write32, pciConfigRead8, pciConfigRead32, pciConfigWrite32, hsame]
      dsimp only
      rw [Function.update_self, Function.update_self]
      rfl
    rw [hread, if_pos hsame, byteIn_storedBits, Devices.read32, Devices.writable32, clearable32, pciConfigRead32,
      pciConfigRead32, pciConfigRead32, ← hsame]
    rfl
  · rw [if_neg hsame, byte, pciConfigRead8, write32]
    dsimp only
    rw [pciConfigRead32_write32_other hsame]
    rfl

theorem byte_write32_other (h : addr' ≠ addr) (value : BitVec 32) :
    (d.write32 addr offset value).byte addr' b = d.byte addr' b := by
  rw [byte, pciConfigRead8, write32, pciConfigRead32]
  dsimp only
  rw [pciConfigWrite32_other h]
  rfl

theorem storedByte_same : d.storedByte addr b (d.byte addr b) = d.byte addr b ↔ d.clearing addr b = 0 :=
  storedBits_same _ _ _

/-- The byte of the doubleword is the byte at the offset. -/
private theorem byteIn_read32 (hsame : b &&& 0xFC = offset &&& 0xFC) :
    byteIn (d.read32 addr offset) b = d.byte addr b := by
  rw [Devices.read32, pciConfigRead32, ← hsame]
  rfl

theorem byte_pciConfigWrite8 (value : BitVec 8) : (d.pciConfigWrite8 addr offset value).byte addr b =
    if b = offset then d.storedByte addr b value
    else if b &&& 0xFC = offset &&& 0xFC then d.storedByte addr b (d.byte addr b) else d.byte addr b := by
  have hparts : ∀ b : BitVec 8, b &&& 0xFC ||| b &&& 3 = b := by decide
  rw [pciConfigWrite8, byte_write32]
  by_cases hsame : b &&& 0xFC = offset &&& 0xFC
  · rw [if_pos hsame, if_pos hsame, byteIn_put8, byteIn_read32 hsame]
    by_cases heq : b = offset
    · rw [if_pos heq, if_pos (by rw [heq])]
    · rw [if_neg heq, if_neg fun hlow => heq (by rw [← hparts b, ← hparts offset, hsame, hlow])]
  · rw [if_neg hsame, if_neg hsame, if_neg fun heq => hsame (by rw [heq])]

theorem byte_pciConfigWrite16 (value : BitVec 16) : (d.pciConfigWrite16 addr offset value).byte addr b =
    if b &&& 0xFE = offset &&& 0xFE then d.storedByte addr b ((value >>> ((b &&& 1) * 8)).setWidth 8)
    else if b &&& 0xFC = offset &&& 0xFC then d.storedByte addr b (d.byte addr b) else d.byte addr b := by
  have hparts : ∀ b : BitVec 8, b &&& 0xFC ||| b &&& 2 = b &&& 0xFE ∧ b &&& 0xFE &&& 0xFC = b &&& 0xFC ∧
      b &&& 0xFE &&& 2 = b &&& 2 := by decide
  rw [pciConfigWrite16, byte_write32]
  by_cases hsame : b &&& 0xFC = offset &&& 0xFC
  · rw [if_pos hsame, if_pos hsame, byteIn_put16, byteIn_read32 hsame]
    by_cases heq : b &&& 0xFE = offset &&& 0xFE
    · rw [if_pos heq, if_pos (by rw [← (hparts b).2.2, heq, (hparts offset).2.2])]
    · rw [if_neg heq, if_neg fun hlow => heq (by rw [← (hparts b).1, ← (hparts offset).1, hsame, hlow])]
  · rw [if_neg hsame, if_neg hsame, if_neg fun heq => hsame (by rw [← (hparts b).2.1, heq, (hparts offset).2.1])]

/-- Where all bits keep what is written to them, these are the writes of a plain configuration space. -/
theorem pciConfigWrite16_plain (h : ∀ addr offset, d.writable addr offset = BitVec.allOnes 32) (value : BitVec 16) :
    (d.pciConfigWrite16 addr offset value).registers = Pci.pciConfigWrite16 d.registers addr offset value := by
  have hstored (old clearable v : BitVec 32) : storedBits old (d.writable32 addr offset) clearable v = v := by
    rw [Devices.writable32, pciConfigRead32, h, storedBits]
    simp only [BitVec.not_allOnes, BitVec.and_zero, BitVec.zero_and, BitVec.and_allOnes, BitVec.or_zero]
  rw [pciConfigWrite16, write32]
  dsimp only
  rw [hstored]
  rfl

/-! ### What changes -/

theorem pciConfigWrite8_onlyChanges_iff (value : BitVec 8) :
    d.OnlyChanges addr (d.pciConfigWrite8 addr offset value) [offset] ↔
      ∀ b, b &&& 0xFC = offset &&& 0xFC → b ≠ offset → d.clearing addr b = 0 := by
  constructor
  · intro h b hsame hne
    have hbyte := h addr b fun hb => hne (List.mem_singleton.mp hb.2)
    rw [byte_pciConfigWrite8, if_neg hne, if_pos hsame] at hbyte
    exact storedByte_same.mp hbyte
  · intro h addr' b hb
    by_cases haddr : addr' = addr
    · subst haddr
      have hne : b ≠ offset := fun heq => hb ⟨rfl, List.mem_singleton.mpr heq⟩
      rw [byte_pciConfigWrite8, if_neg hne]
      split
      · exact storedByte_same.mpr (h b ‹_› hne)
      · rfl
    · exact byte_write32_other haddr _

/-- The two bytes of a half. -/
private theorem half_cases {b offset : BitVec 8} (h : b &&& 0xFE = offset &&& 0xFE) :
    (offset &&& 1 = 0 → b = offset ∨ b = offset + 1) ∧ (offset &&& 1 = 1 → b = offset ∨ b = offset - 1) := by
  have hparts : ∀ b : BitVec 8, (b &&& 1 = 0 ∧ b &&& 0xFE = b) ∨ (b &&& 1 = 1 ∧ b &&& 0xFE = b - 1) := by decide
  rcases hparts b with ⟨-, hb⟩ | ⟨-, hb⟩ <;> rcases hparts offset with ⟨h1, ho⟩ | ⟨h1, ho⟩ <;> rw [hb, ho] at h <;>
    rw [h1]
  · exact ⟨fun _ => .inl h, fun hodd => absurd hodd (by decide)⟩
  · exact ⟨fun heven => absurd heven (by decide), fun _ => .inr h⟩
  · exact ⟨fun _ => .inr (by rw [← h, BitVec.sub_add_cancel]), fun hodd => absurd hodd (by decide)⟩
  · refine ⟨fun heven => absurd heven (by decide), fun _ => .inl ?_⟩
    rw [← BitVec.sub_add_cancel b 1, h, BitVec.sub_add_cancel]

theorem pciConfigWrite16_onlyChanges_iff (value : BitVec 16) :
    d.OnlyChanges addr (d.pciConfigWrite16 addr offset value) [offset, offset + 1] ↔
      (∀ b, b &&& 0xFC = offset &&& 0xFC → b &&& 0xFE ≠ offset &&& 0xFE → b ≠ offset + 1 →
        d.clearing addr b = 0) ∧
      (offset &&& 1 = 1 → d.storedByte addr (offset - 1) (value.setWidth 8) = d.byte addr (offset - 1)) := by
  have hbefore : ∀ o : BitVec 8, o - 1 ≠ o ∧ o - 1 ≠ o + 1 ∧ (o &&& 1 = 1 → o - 1 &&& 0xFE = o &&& 0xFE ∧
      o - 1 &&& 1 = 0) ∧ (o &&& 1 = 0 ∨ o &&& 1 = 1) := by decide
  obtain ⟨hself, hnext, hodd, hparity⟩ := hbefore offset
  constructor
  · intro h
    refine ⟨fun b hsame hhalf hne => ?_, fun hone => ?_⟩
    · have hbyte := h addr b fun hb => by
        rcases List.mem_pair.mp hb.2 with rfl | rfl
        · exact hhalf rfl
        · exact hne rfl
      rw [byte_pciConfigWrite16, if_neg hhalf, if_pos hsame] at hbyte
      exact storedByte_same.mp hbyte
    · obtain ⟨hhalf, hlow⟩ := hodd hone
      have hbyte := h addr (offset-1) fun hb => (List.mem_pair.mp hb.2).elim hself hnext
      rw [byte_pciConfigWrite16, if_pos hhalf, hlow] at hbyte
      exact hbyte
  · rintro ⟨hrest, hlow⟩ addr' b hb
    by_cases haddr : addr' = addr
    · subst haddr
      have hne : b ≠ offset ∧ b ≠ offset + 1 :=
        ⟨fun heq => hb ⟨rfl, List.mem_pair.mpr (.inl heq)⟩, fun heq => hb ⟨rfl, List.mem_pair.mpr (.inr heq)⟩⟩
      rw [byte_pciConfigWrite16]
      by_cases hhalf : b &&& 0xFE = offset &&& 0xFE
      · rw [if_pos hhalf]
        rcases hparity with heven | hone
        · exact absurd ((half_cases hhalf).1 heven) (not_or.mpr hne)
        · obtain rfl := ((half_cases hhalf).2 hone).resolve_left hne.1
          rw [(hodd hone).2]
          exact hlow hone
      · rw [if_neg hhalf]
        split
        · exact storedByte_same.mpr (hrest b ‹_› hhalf hne.2)
        · rfl
    · exact byte_write32_other haddr _

theorem status_eq_iff {d' : ClearingDevices} : d'.status addr = d.status addr ↔
    d'.byte addr pciStatus = d.byte addr pciStatus ∧ d'.byte addr (pciStatus+1) = d.byte addr (pciStatus+1) := by
  have hstatus (d : ClearingDevices) {i : Nat} (hi : i < 16) :
      (d.status addr).getLsbD i = (d.registers addr 4).getLsbD (16+i) := by
    rw [status, pciConfigRead16, BitVec.getLsbD_setWidth, BitVec.getLsbD_and, BitVec.ushiftRight_eq',
      BitVec.getLsbD_ushiftRight, show (0xFFFF : BitVec 32) = BitVec.ofNat 32 (2^16-1) from rfl,
      lowOnes 16 i (by decide), decide_eq_true hi, Bool.true_and, Bool.and_true]
    rfl
  have hlow (d : ClearingDevices) {i : Nat} (hi : i < 8) :
      (d.byte addr pciStatus).getLsbD i = (d.registers addr 4).getLsbD (16+i) := byteIn_getLsbD _ pciStatus hi
  have hhigh (d : ClearingDevices) {i : Nat} (hi : i < 8) :
      (d.byte addr (pciStatus+1)).getLsbD i = (d.registers addr 4).getLsbD (24+i) :=
    byteIn_getLsbD _ (pciStatus+1) hi
  constructor
  · intro h
    have hbit {i : Nat} (hi : i < 16) : (d'.registers addr 4).getLsbD (16+i) = (d.registers addr 4).getLsbD (16+i) := by
      rw [← hstatus d' hi, ← hstatus d hi, h]
    constructor <;> apply BitVec.eq_of_getLsbD_eq <;> intro i hi
    · rw [hlow d' hi, hlow d hi]
      exact hbit (by omega)
    · rw [hhigh d' hi, hhigh d hi, show 24+i = 16+(8+i) by omega]
      exact hbit (by omega)
  · rintro ⟨h₁, h₂⟩
    apply BitVec.eq_of_getLsbD_eq
    intro i hi
    rw [hstatus d' hi, hstatus d hi]
    by_cases hi8 : i < 8
    · rw [← hlow d' hi8, ← hlow d hi8, h₁]
    · rw [show 16+i = 24+(i-8) by omega, ← hhigh d' (by omega), ← hhigh d (by omega), h₂]

theorem status_updateCommand_iff (change : BitVec 16 → BitVec 16) :
    (d.updateCommand addr change).status addr = d.status addr ↔
      d.clearing addr pciStatus = 0 ∧ d.clearing addr (pciStatus+1) = 0 := by
  rw [status_eq_iff, updateCommand, byte_pciConfigWrite16, byte_pciConfigWrite16, if_neg (by decide),
    if_pos (by decide), if_neg (by decide), if_pos (by decide), storedByte_same, storedByte_same]

/-- The narrow writes keep to their bytes exactly if none of the other bytes written with them has a set bit that a one
clears and, at an odd offset, the byte before, which gets the low byte of the value, holds it already. The updates of
the command register leave the status exactly if none of its bits that a one clears is set. -/
theorem narrowWrites_iff (d : ClearingDevices) (addr : PciAddress) :
    (∀ offset value, d.OnlyChanges addr (d.pciConfigWrite8 addr offset value) [offset] ↔
      ∀ b, b &&& 0xFC = offset &&& 0xFC → b ≠ offset → d.clearing addr b = 0) ∧
    (∀ offset value, d.OnlyChanges addr (d.pciConfigWrite16 addr offset value) [offset, offset + 1] ↔
      (∀ b, b &&& 0xFC = offset &&& 0xFC → b &&& 0xFE ≠ offset &&& 0xFE → b ≠ offset + 1 →
        d.clearing addr b = 0) ∧
      (offset &&& 1 = 1 → d.storedByte addr (offset - 1) (value.setWidth 8) = d.byte addr (offset - 1))) ∧
    ∀ change, (d.updateCommand addr change).status addr = d.status addr ↔
      d.clearing addr pciStatus = 0 ∧ d.clearing addr (pciStatus+1) = 0 :=
  ⟨fun _ => pciConfigWrite8_onlyChanges_iff, fun _ => pciConfigWrite16_onlyChanges_iff, status_updateCommand_iff⟩

/-- A function that has reported a parity error in its status register. -/
def parityError : ClearingDevices where
  registers _ offset := if offset = 4 then 0x80000000 else 0
  writable _ offset := if offset = 4 then 0x0000FFFF else 0
  clearable _ offset := if offset = 4 then 0xF9000000 else 0

/-- Enabling bus mastering or turning off legacy interrupts clears the error, as any narrow write next to it does. -/
theorem parityError_cleared :
    ¬parityError.OnlyChanges ⟨0, 0, 0⟩ (parityError.pciConfigWrite16 ⟨0, 0, 0⟩ pciCommand 4)
      [pciCommand, pciCommand + 1] ∧
    ¬parityError.OnlyChanges ⟨0, 0, 0⟩ (parityError.pciConfigWrite8 ⟨0, 0, 0⟩ pciCommand 4) [pciCommand] ∧
    parityError.status ⟨0, 0, 0⟩ = 0x8000 ∧ (parityError.enableBusMaster ⟨0, 0, 0⟩).status ⟨0, 0, 0⟩ = 0 ∧
    (parityError.disableLegacyInterrupts ⟨0, 0, 0⟩).status ⟨0, 0, 0⟩ = 0 := by
  have h16 : (parityError.pciConfigWrite16 ⟨0, 0, 0⟩ pciCommand 4).byte ⟨0, 0, 0⟩ 7 ≠
      parityError.byte ⟨0, 0, 0⟩ 7 := by decide
  have h8 : (parityError.pciConfigWrite8 ⟨0, 0, 0⟩ pciCommand 4).byte ⟨0, 0, 0⟩ 7 ≠
      parityError.byte ⟨0, 0, 0⟩ 7 := by decide
  exact ⟨fun h => h16 (h _ 7 (by decide)), fun h => h8 (h _ 7 (by decide)), by decide, by decide, by decide⟩

end ClearingDevices
end Nafuraito.Pci
