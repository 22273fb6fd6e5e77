import Nafuraito.Ext4.ExtentTree
import Nafuraito.Ext4.InodeTable

/-! What writing an inode changes in its block. The record that is copied has 160 bytes, whatever
the size of the inode's slot on the disk. -/
namespace Nafuraito.Ext4
open Nafuraito.Library

namespace Ext4Layout

/-- The inode's byte in its group's table, as the format has it: without a wrap. -/
def slotByte (layout : Ext4Layout) (inodeNum : BitVec 32) : Nat :=
  (inodeNum - 1).toNat % layout.inodesPerGroup.toNat * layout.inodeSize.toNat

/-- The block of an inode's slot and the slot's first byte in it. -/
def slot (layout : Ext4Layout) (blockSize inodeNum : BitVec 32) : Option (BitVec 64 × Nat) :=
  layout.groupDescs[(layout.group inodeNum).toNat]?.map fun desc =>
    (layout.inodeTable desc + BitVec.ofNat 64 (layout.slotByte inodeNum/blockSize.toNat),
      layout.slotByte inodeNum%blockSize.toNat)

/-- Byte `k` of a block belongs to the slot of an inode. -/
def InSlot (layout : Ext4Layout) (blockSize inodeNum : BitVec 32) (block : BitVec 64) (k : Nat) : Prop :=
  ∃ slot, layout.slot blockSize inodeNum = some slot ∧ block = slot.1 ∧ slot.2 ≤ k ∧
    k < slot.2+layout.inodeSize.toNat

/-- An inode size of 128, 256 or a larger power of two, up to the block size, itself a power of two. -/
structure ValidSizes (layout : Ext4Layout) (blockSize : BitVec 32) : Prop where
  block : ∃ j, blockSize.toNat = 2^j
  inode : ∃ i, 7 ≤ i ∧ layout.inodeSize.toNat = 2^i
  fits : layout.inodeSize.toNat ≤ blockSize.toNat

end Ext4Layout

namespace Ext4Filesystem
variable {D : Type}

/-- The first part of `write_inode`: the place of the inode, and its block as the device returns it. -/
def inodeBlock (ops : Ext4BlockOps D) (layout : Ext4Layout) (inodeNum : BitVec 32) :
    Op D ((BitVec 64 × Nat) × List Byte) := do
  let fs ← Fallible.get
  Fallible.require (fs.readonly = false) .invalid
  let place ← Fallible.okOr (layout.inodePlace fs.blockSize inodeNum) .invalid
  let _ ← kernelAllocBytes fs.blockSize.toNat
  let buffer ← readBlock ops place.1 fs.blockSize.toNat
  pure (place, buffer)

/-- The copy goes into the slot only, and not past the buffer. -/
structure ChangesSlotOnly (layout : Ext4Layout) (blockSize inodeNum : BitVec 32) (place : BitVec 64 × Nat)
    (inode : Ext4Inode) (disk : List Byte) : Prop where
  slot : ∀ k, byteAt (putInode disk place.2 inode) k ≠ byteAt disk k → layout.InSlot blockSize inodeNum place.1 k
  room : place.2+inode.bytes.length ≤ disk.length

/-- The slot has room for the record and its place in the table takes no more than 32 bits; or the record ends within
the block, and those of its bytes that fall outside the slot are already on the disk. -/
def RecordFits (layout : Ext4Layout) (blockSize inodeNum : BitVec 32) (offset : Nat) (inode : Ext4Inode)
    (disk : List Byte) : Prop :=
  160 ≤ layout.inodeSize.toNat ∧ layout.slotByte inodeNum < 2^32 ∨
  offset+160 ≤ blockSize.toNat ∧ ∀ j < 160, layout.inodeSize.toNat ≤ j ∨ 2^32 ≤ layout.slotByte inodeNum →
    byteAt inode.bytes j = byteAt disk (offset+j)

variable {ops : Ext4BlockOps D} {layout : Ext4Layout} {s t : Ext4Filesystem D} {inodeNum : BitVec 32}
variable {place : BitVec 64 × Nat} {disk : List Byte} {inode : Ext4Inode}

/-- `write_inode` is that, and a journaled write of the block with the inode copied into it. -/
theorem writeInode_eq (inodeNum : BitVec 32) (inode : Ext4Inode) : writeInode ops layout inodeNum inode =
    inodeBlock ops layout inodeNum >>= fun r => writeBlockJournaled ops r.1.1 (putInode r.2 r.1.2 inode) := by
  simp only [writeInode, inodeBlock, Fallible.bind_assoc]
  rfl

/-! ### The place of an inode -/

private theorem validSizes_dvd {blockSize : BitVec 32} (hvalid : layout.ValidSizes blockSize) :
    blockSize.toNat ∣ 2^32 ∧ layout.inodeSize.toNat ∣ blockSize.toNat := by
  obtain ⟨j, hj⟩ := hvalid.block
  obtain ⟨i, -, hi⟩ := hvalid.inode
  have hlt := blockSize.isLt
  have hfits := hvalid.fits
  rw [hj] at hlt hfits ⊢
  rw [hi] at hfits ⊢
  exact ⟨Nat.pow_dvd_pow 2 ((Nat.pow_lt_pow_iff_right (by decide)).mp hlt).le,
    Nat.pow_dvd_pow 2 ((Nat.pow_le_pow_iff_right (by decide)).mp hfits)⟩

/-- A slot lies in one block. -/
private theorem slot_end {blockSize : BitVec 32} (hvalid : layout.ValidSizes blockSize) {slot : BitVec 64 × Nat}
    (hslot : layout.slot blockSize inodeNum = some slot) : slot.2+layout.inodeSize.toNat ≤ blockSize.toNat := by
  obtain ⟨desc, -, rfl⟩ := Option.map_eq_some_iff.mp hslot
  obtain ⟨-, slots, hslots⟩ := validSizes_dvd hvalid
  dsimp only
  rw [Ext4Layout.slotByte, hslots, Nat.mul_comm layout.inodeSize.toNat, Nat.mul_mod_mul_right, ← Nat.succ_mul]
  apply Nat.mul_le_mul_right
  apply Nat.mod_lt
  apply Nat.pos_of_ne_zero
  intro hzero
  have hpos : 0 < blockSize.toNat := by
    obtain ⟨j, hj⟩ := hvalid.block
    exact hj ▸ Nat.two_pow_pos j
  rw [hzero] at hslots
  omega

private theorem slotByte_lt (layout : Ext4Layout) (inodeNum : BitVec 32) : layout.slotByte inodeNum < 2^64 := by
  have hindex := Nat.lt_of_le_of_lt (Nat.mod_le (inodeNum - 1).toNat layout.inodesPerGroup.toNat) (inodeNum - 1).isLt
  calc layout.slotByte inodeNum < 2^32*2^32 := Nat.mul_lt_mul'' hindex layout.inodeSize.isLt
    _ = 2^64 := by decide

private theorem tableByte_toNat (layout : Ext4Layout) (inodeNum : BitVec 32) :
    (layout.tableByte inodeNum).toNat = layout.slotByte inodeNum%2^32 := by
  rw [Ext4Layout.tableByte, BitVec.toNat_mul, BitVec.toNat_umod, Ext4Layout.slotByte]

/-- The block of a byte, when the byte is cut to 32 bits: another block, unless nothing is cut. -/
private theorem block_of_cut {x blockSize : Nat} (hdvd : blockSize ∣ 2^32) (hx : x < 2^64) :
    BitVec.ofNat 64 (x%2^32/blockSize) = BitVec.ofNat 64 (x/blockSize) ↔ x < 2^32 := by
  constructor
  · intro h
    obtain ⟨blocks, hblocks⟩ := hdvd
    have hpos : 0 < blockSize := Nat.pos_of_ne_zero fun hzero => by rw [hzero] at hblocks; omega
    have heq := congrArg BitVec.toNat h
    have hcut : x%2^32/blockSize < 2^64 :=
      Nat.lt_of_le_of_lt ((Nat.div_le_self _ _).trans (Nat.mod_le _ _)) hx
    have hfull : x/blockSize < 2^64 := Nat.lt_of_le_of_lt (Nat.div_le_self _ _) hx
    rw [BitVec.toNat_ofNat, BitVec.toNat_ofNat, Nat.mod_eq_of_lt hcut, Nat.mod_eq_of_lt hfull] at heq
    by_contra hge
    have hlt : x%2^32/blockSize < blocks :=
      Nat.div_lt_of_lt_mul (hblocks ▸ Nat.mod_lt x (by decide))
    have hle : blocks ≤ x/blockSize := (Nat.le_div_iff_mul_le hpos).mpr (by rw [Nat.mul_comm, ← hblocks]; omega)
    omega
  · intro hlt
    rw [Nat.mod_eq_of_lt hlt]

/-- The product is cut to 32 bits, which can move the block but not the place in it. -/
private theorem inodePlace_slot {blockSize : BitVec 32} (hdvd : blockSize.toNat ∣ 2^32)
    (hplace : layout.inodePlace blockSize inodeNum = some place) :
    ∃ slot, layout.slot blockSize inodeNum = some slot ∧ place.2 = slot.2 ∧
      (place.1 = slot.1 ↔ layout.slotByte inodeNum < 2^32) := by
  rw [Ext4Layout.inodePlace] at hplace
  split_ifs at hplace with hzero hgroup
  obtain rfl := Option.some.inj hplace
  have hdesc : (layout.group inodeNum).toNat < layout.groupDescs.length := by
    rw [layout.one_each]
    exact BitVec.not_le.mp hgroup
  rw [Ext4Layout.slot, List.getElem?_eq_getElem hdesc]
  refine ⟨_, rfl, ?_, ?_⟩
  · dsimp only
    rw [BitVec.toNat_umod, tableByte_toNat, Nat.mod_mod_of_dvd _ hdvd]
  · have hblock : (layout.tableByte inodeNum / blockSize).setWidth 64 =
        BitVec.ofNat 64 (layout.slotByte inodeNum%2^32/blockSize.toNat) := by
      apply BitVec.eq_of_toNat_eq
      rw [BitVec.toNat_setWidth, BitVec.toNat_udiv, tableByte_toNat, BitVec.toNat_ofNat]
    dsimp only
    rw [hblock, ← block_of_cut hdvd (slotByte_lt layout inodeNum)]
    exact BitVec.add_right_inj _

private theorem inodeBlock_place (hread : inodeBlock ops layout inodeNum s = (.ok (place, disk), t)) :
    layout.inodePlace s.blockSize inodeNum = some place := by
  rw [inodeBlock, Fallible.get_bind_run] at hread
  obtain ⟨_, s₁, hrequire, hread⟩ := Fallible.bind_ok hread
  obtain ⟨-, rfl⟩ := Fallible.require_ok hrequire
  cases hplace : layout.inodePlace s₁.blockSize inodeNum with
  | none =>
    rw [hplace] at hread
    cases hread
  | some found =>
    rw [hplace, Fallible.okOr_some, Fallible.pure_bind_run] at hread
    obtain ⟨_, s₂, -, hread⟩ := Fallible.bind_ok hread
    obtain ⟨_, s₃, -, hread⟩ := Fallible.bind_ok hread
    obtain rfl := (Prod.mk.inj (Except.ok.inj (Prod.mk.inj hread).1)).1
    rfl

/-! ### The copy -/

private theorem byteAt_putInode (disk : List Byte) (offset : Nat) (inode : Ext4Inode) (k : Nat) :
    byteAt (putInode disk offset inode) k =
      if k < disk.length ∧ offset ≤ k ∧ k < offset+160 then byteAt inode.bytes (k-offset) else byteAt disk k := by
  rw [byteAt, putInode, List.getD_eq_getElem?_getD, List.getElem?_map]
  by_cases hk : k < disk.length
  · rw [List.getElem?_range hk, if_congr (and_iff_right hk) rfl rfl]
    rfl
  · rw [List.getElem?_eq_none (by rw [List.length_range]; omega), if_neg (fun h => hk h.1), byteAt,
      List.getD_eq_default _ _ (by omega)]
    rfl

/-- Writing an inode changes its own slot alone exactly if the record fits. -/
theorem writeInode_slotOnly_iff (hvalid : layout.ValidSizes s.blockSize)
    (hread : inodeBlock ops layout inodeNum s = (.ok (place, disk), t)) (hlen : disk.length = s.blockSize.toNat) :
    writeInode ops layout inodeNum inode s = writeBlockJournaled ops place.1 (putInode disk place.2 inode) t ∧
    (ChangesSlotOnly layout s.blockSize inodeNum place inode disk ↔
      RecordFits layout s.blockSize inodeNum place.2 inode disk) := by
  refine ⟨by rw [writeInode_eq, Fallible.bind_of_ok hread], ?_⟩
  have hplace : layout.inodePlace s.blockSize inodeNum = some place := inodeBlock_place hread
  obtain ⟨slot, hslot, hoffset, hblock⟩ := inodePlace_slot (validSizes_dvd hvalid).1 hplace
  have hin (k : Nat) : layout.InSlot s.blockSize inodeNum place.1 k ↔
      layout.slotByte inodeNum < 2^32 ∧ place.2 ≤ k ∧ k < place.2+layout.inodeSize.toNat := by
    rw [Ext4Layout.InSlot, hslot, hoffset, ← hblock]
    constructor
    · rintro ⟨_, hsome, h⟩
      obtain rfl := Option.some.inj hsome
      exact h
    · exact fun h => ⟨slot, rfl, h⟩
  have hend := slot_end hvalid hslot
  constructor
  · rintro ⟨hchanged, hroom⟩
    by_cases hfits : 160 ≤ layout.inodeSize.toNat ∧ layout.slotByte inodeNum < 2^32
    · exact .inl hfits
    rw [inode.size, hlen] at hroom
    refine .inr ⟨hroom, fun j hj hout => ?_⟩
    by_contra hne
    have hbyte := byteAt_putInode disk place.2 inode (place.2+j)
    rw [if_pos (by omega), Nat.add_sub_cancel_left] at hbyte
    obtain ⟨hcut, -, hlt⟩ := (hin _).mp (hchanged (place.2+j) (hbyte ▸ hne))
    omega
  · intro hfits
    have hroom : place.2+160 ≤ disk.length := by
      rcases hfits with ⟨hsize, -⟩ | ⟨hroom, -⟩ <;> omega
    refine ⟨fun k hk => ?_, by rwa [inode.size]⟩
    rw [byteAt_putInode] at hk
    split_ifs at hk with hcopied
    · rw [hin]
      rcases hfits with ⟨hsize, hcut⟩ | ⟨-, hsame⟩
      · exact ⟨hcut, hcopied.2.1, by omega⟩
      · by_contra hout
        apply hk
        rw [hsame (k-place.2) (by omega) (by omega), Nat.add_sub_cancel' hcopied.2.1]
    · exact absurd rfl hk

/-! ### Inodes of 128 bytes -/

/-- One group of 16 inodes of 128 bytes, from block 20 on. -/
def smallInodes : Ext4Layout := ⟨[⟨20#32, 0#32⟩], 16#32, 128#32, 1#32, false, rfl⟩

def onesInode : Ext4Inode := ⟨List.replicate 160 1, List.length_replicate⟩

private theorem smallInodes_read : (inodeBlock memoryOps smallInodes 1#32 zerosFs).1 =
    .ok ((20#64, 0), List.replicate 1024 0) := by
  decide +kernel

/-- Zeros over zeros. -/
theorem smallInodes_zeros :
    ChangesSlotOnly smallInodes zerosFs.blockSize 1#32 (20#64, 0) zeroInode (List.replicate 1024 0) := by
  have hvalid : smallInodes.ValidSizes zerosFs.blockSize := ⟨⟨10, rfl⟩, ⟨7, Nat.le_refl 7, rfl⟩, by decide⟩
  refine (writeInode_slotOnly_iff hvalid (Fallible.run_of_fst smallInodes_read) List.length_replicate).2.mpr
    (.inr ⟨by decide, fun j hj _ => ?_⟩)
  rw [byteAt, byteAt, List.getD_eq_getElem?_getD, List.getD_eq_getElem?_getD, zeroInode, List.getElem?_replicate,
    List.getElem?_replicate, if_pos hj, if_pos (by omega)]

/-- The first inode is written, and the second inode's first byte is a one. -/
theorem smallInodes_spoilt :
    (inodeBlock memoryOps smallInodes 1#32 zerosFs).1 = .ok ((20#64, 0), List.replicate 1024 0) ∧
    ¬ ChangesSlotOnly smallInodes zerosFs.blockSize 1#32 (20#64, 0) onesInode (List.replicate 1024 0) := by
  refine ⟨smallInodes_read, fun h => ?_⟩
  obtain ⟨slot, hslot, -, -, hlt⟩ := h.slot 128 (by decide +kernel)
  obtain rfl := Option.some.inj (hslot.symm.trans (show _ = some (20#64, 0) by decide +kernel))
  exact absurd hlt (by decide)

end Ext4Filesystem
end Nafuraito.Ext4
