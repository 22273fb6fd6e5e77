import Nafuraito.Ext4.BootContents

/-! The bootloader's inodes are the kernel's, on an image whose blocks it reads. -/
namespace Nafuraito.Ext4
open Nafuraito.Library

/-! ### The bytes that the lookups use -/

/-- The first 128 bytes are the same; a record goes on, also past the end of its block. -/
def SameInode (inode inode' : Ext4Inode) : Prop := ∀ k < 128, byteAt inode.bytes k = byteAt inode'.bytes k

namespace SameInode
variable {inode inode' : Ext4Inode} (h : SameInode inode inode')
include h

theorem u32At {offset : Nat} (ho : offset + 4 ≤ 128) :
    Ext4.u32At inode.bytes offset = Ext4.u32At inode'.bytes offset := by
  simp only [Ext4.u32At]
  rw [h _ (by omega), h _ (by omega), h _ (by omega), h _ (by omega)]

theorem size64 : inode.size64 = inode'.size64 := by
  rw [Ext4Inode.size64, Ext4Inode.size64, h.u32At (by decide), h.u32At (by decide)]

theorem iSizeLo : inode.iSizeLo = inode'.iSizeLo := h.u32At (by decide)

theorem usesExtents : inode.usesExtents ↔ inode'.usesExtents := by
  rw [Ext4Inode.usesExtents, Ext4Inode.usesExtents, Ext4Inode.iFlags, Ext4Inode.iFlags, h.u32At (by decide)]

theorem iBlock {i : Nat} (hi : i < 15) : inode.iBlock i = inode'.iBlock i := by
  rw [Ext4Inode.iBlock, Ext4Inode.iBlock, Ext4Inode.iBlockPtr, Ext4Inode.iBlockPtr, u32At_drop, u32At_drop,
    h.u32At (by omega)]

theorem rootNode : Ext4.rootNode inode = Ext4.rootNode inode' := by
  have hlen (x : Ext4Inode) : (Ext4.rootNode x).length = 60 := by
    rw [Ext4.rootNode, List.length_take, Ext4Inode.iBlockPtr, List.length_drop, x.size]
    decide
  have hget (x : Ext4Inode) (i : Nat) (hi : i < (Ext4.rootNode x).length) :
      (Ext4.rootNode x)[i] = byteAt x.bytes (40+i) := by
    rw [hlen] at hi
    rw [← byteAt_drop, byteAt, List.getD_eq_getElem _ _ (by rw [List.length_drop, x.size]; omega)]
    exact List.getElem_take
  apply List.ext_getElem ((hlen inode).trans (hlen inode').symm)
  intro i h₁ h₂
  rw [hget, hget, h _ (by rw [hlen] at h₁; omega)]

theorem isFile {blocks : BitVec 64 → List Byte} {blockSize : Nat} (hfile : IsFile blocks blockSize inode') :
    IsFile blocks blockSize inode where
  tree hext := by
    rw [treeDepth, h.rootNode]
    exact hfile.tree (h.usesExtents.mp hext)
  size_tree hext := by
    rw [h.size64]
    exact hfile.size_tree (h.usesExtents.mp hext)
  size_pointers hext := by
    rw [h.size64]
    exact hfile.size_pointers fun hext' => hext (h.usesExtents.mpr hext')

end SameInode

/-- An inode out of the buffer has the bytes of the one in the block, as long as they lie in the block. -/
theorem sameInode_at {block : List Byte} (tail : List Byte) {offset : Nat} (hroom : offset + 128 ≤ block.length) :
    SameInode (inodeAt (block ++ tail) offset) (inodeAt (block.drop offset) 0) := by
  have hbyte (buffer : List Byte) (start : Nat) {k : Nat} (hk : k < 160) :
      byteAt (inodeAt buffer start).bytes k = byteAt buffer (start+k) := by
    rw [byteAt, inodeAt, List.getD_eq_getElem _ _ (by rw [List.length_map, List.length_range]; exact hk),
      List.getElem_map, List.getElem_range]
  intro k hk
  rw [hbyte _ _ (by omega), hbyte _ _ (by omega), byteAt_append tail (by omega), byteAt_drop, Nat.zero_add]

namespace Boot.Loader
open Ata (Drive)

/-! ### Runs with blocks that are read -/

/-- From a good drive every block is read, and the drive stays good. -/
structure ReadsBlocks (ctx : Ext4BootContext) (good : Drive → Prop) : Prop where
  succeeds : ∀ drive, good drive → ∀ block, (ext4ReadBlock ctx block drive).1 = true
  stays : ∀ drive, good drive → ∀ block, good (ext4ReadBlock ctx block drive).2.drive

/-- Every block is read from a drive that is always ready. -/
theorem readsBlocks_ready (ctx : Ext4BootContext) : ReadsBlocks ctx Drive.Ready where
  succeeds drive h _ := (Ata.sectorLoop_ready (Ata.program28_asks (.inl rfl)) Ata.insw_moves _ _ _ ⟨drive, []⟩ h).1
  stays drive h _ := (Ata.sectorLoop_ready (Ata.program28_asks (.inl rfl)) Ata.insw_moves _ _ _ ⟨drive, []⟩ h).2

/-- From a good drive with these sectors the computation has this result, and the drive stays so. -/
def Gives (good : Drive → Prop) (sectors : Nat → Vector (BitVec 8) 512) {α : Type} (r : Except BootStop α) (x : Op α) :
    Prop :=
  Fallible.Returns (fun s => s.drive.sectors = sectors ∧ good s.drive) (fun _ => True) (fun _ => False) r x

section Gives
variable {ctx : Ext4BootContext} {good : Drive → Prop} {sectors : Nat → Vector (BitVec 8) 512} {α : Type}
variable {r : Except BootStop α} {block : BitVec 64}

theorem Gives.eq {x : Op α} (h : Gives good sectors r x) {s : Loader} (hs : s.drive.sectors = sectors)
    (hgood : good s.drive) : (x s).1 = r := Fallible.Returns.eq h ⟨hs, hgood⟩ trivial

theorem gives_divide {a b : BitVec 32} (hb : b ≠ 0) : Gives good sectors (.ok (a / b)) (divide a b) := by
  rw [divide, if_neg hb]
  exact .pure _

variable (h : ReadsBlocks ctx good)
include h

theorem ReadsBlocks.drive_stays {s : Loader} (hs : s.drive.sectors = sectors ∧ good s.drive) (block : BitVec 64) :
    (ext4ReadBlock ctx block s.drive).2.drive.sectors = sectors ∧ good (ext4ReadBlock ctx block s.drive).2.drive := by
  obtain ⟨-, -, -, hsectors, -⟩ := ext4ReadBlock_run ctx block s.drive
  exact ⟨hsectors.trans hs.1, h.stays _ hs.2 block⟩

/-- What follows a read finds the block at the beginning of the buffer. -/
theorem ReadsBlocks.readBuffer_gives {f : Loader → Op α}
    (hf : ∀ s tail, s.blockBuffer = seen ctx sectors block ++ tail → Gives good sectors r (f s)) :
    Gives good sectors r (readBuffer ctx block >>= fun _ => Fallible.get >>= f) := by
  intro s hs
  have hread := h.succeeds _ hs.2 block
  have hrun : readBuffer ctx block s = (.ok (), { s with
      drive := (ext4ReadBlock ctx block s.drive).2.drive
      blockBuffer := seen ctx sectors block ++ s.blockBuffer.drop (seen ctx sectors block).length }) := by
    rw [readBuffer, readTo]
    dsimp only
    rw [hread, ext4ReadBlock_ok hread, hs.1]
    rfl
  rw [Fallible.bind_of_ok hrun, Fallible.get_bind_run]
  exact hf _ _ rfl _ (h.drive_stays hs block)

end Gives

/-! ### Contexts -/

/-- What `ext4_boot_init` leaves in the context. -/
def contextOf (sb : PackedSuperblock) (partLba : BitVec 64) : Ext4BootContext where
  blockSize := sb.blockSize
  inodesPerGroup := sb.sInodesPerGroup
  inodeSize := sb.sInodeSize.setWidth 32
  descSize := sb.descSize
  use64bit := sb.use64bit
  partitionLba := partLba

theorem ext4BootInit_context {partLba : BitVec 64} {s t : Loader} {ctx : Ext4BootContext}
    (h : ext4BootInit partLba s = (.ok ctx, t)) : ∃ sb, ctx = contextOf sb partLba := by
  dsimp only [ext4BootInit] at h
  split at h
  · cases h
  split at h
  · cases h
  split at h
  · cases h
  · exact ⟨_, (Except.ok.inj (Prod.ext_iff.mp h).1).symm⟩

/-- The high half of a group's inode table where the bootloader looks for it, with the 64-bit feature: the bytes
are in the block, and they are what the kernel has. -/
def HighHalf (image : BitVec 64 → List Byte) (sb : PackedSuperblock) (inodeNum : BitVec 32) : Prop :=
  let group := ((inodeNum - 1) / sb.sInodesPerGroup).toNat
  let place := group % (sb.blockSize.toNat / sb.descSize.toNat) * sb.descSize.toNat
  sb.use64bit = true → place + 0x2C ≤ sb.blockSize.toNat ∧
    u32At (image (descBlockOf sb.geometry group)) (place+0x28) = (groupDescOf image sb.geometry group).bgInodeTableHi

theorem blockSize_bounds {sb : PackedSuperblock} {image : BitVec 64 → List Byte} (hw : WellFormedImage sb image) :
    1024 ≤ sb.blockSize.toNat ∧ sb.blockSize.toNat ≤ 4096 := by
  rcases hw.blockSize with hs | hs | hs <;> rw [hs] <;> decide

/-! ### Places -/

/-- The two ways to place an inode in a table, where whole inodes fill a block. -/
private theorem place_eq {index size block : Nat} (hsize : 0 < size) (hdvd : size ∣ block) :
    index*size / block = index / (block/size) ∧ index*size % block = index % (block/size) * size := by
  obtain ⟨n, rfl⟩ := hdvd
  rw [Nat.mul_div_cancel_left n hsize, Nat.mul_comm size n, Nat.mul_div_mul_right _ _ hsize,
    Nat.mul_mod_mul_right]
  exact ⟨rfl, rfl⟩

section Places
variable {sb : PackedSuperblock} {image : BitVec 64 → List Byte} (hw : WellFormedImage sb image) {inodeNum : BitVec 32}
include hw

/-- The block of a descriptor: the bootloader adds in 32 bits. -/
private theorem descBlock_eq (hn : InUse image sb.geometry inodeNum) :
    ((if sb.blockSize = 1024 then 2 else 1) + (inodeNum - 1) / sb.sInodesPerGroup /
      (sb.blockSize / sb.descSize) : BitVec 32).setWidth 64 =
        descBlockOf sb.geometry ((inodeNum - 1) / sb.sInodesPerGroup).toNat := by
  have hgroup : ((inodeNum - 1) / sb.sInodesPerGroup).toNat < sb.groupCount.toNat := BitVec.lt_def.mp hn.group
  have hdesc := hw.descBlocks
  have hle := Nat.div_le_self ((inodeNum - 1) / sb.sInodesPerGroup).toNat (sb.blockSize.toNat / sb.descSize.toNat)
  have hgd : (if sb.blockSize = 1024 then 2 else 1 : BitVec 32).toNat ≤ 2 ∧
      (descStart sb.geometry).toNat = (if sb.blockSize = 1024 then 2 else 1 : BitVec 32).toNat := by
    change _ ∧ (if sb.blockSize = 1024 then 2#64 else 1#64).toNat = _
    split <;> decide
  have hdpb : (sb.blockSize / sb.descSize).toNat = sb.blockSize.toNat / sb.descSize.toNat := BitVec.toNat_udiv
  have hlt := sb.groupCount.isLt
  apply BitVec.eq_of_toNat_eq
  change _ = (descStart sb.geometry + BitVec.ofNat 64 (((inodeNum - 1) / sb.sInodesPerGroup).toNat /
    (sb.blockSize.toNat / sb.descSize.toNat))).toNat
  rw [BitVec.toNat_setWidth, BitVec.toNat_add, BitVec.toNat_add, BitVec.toNat_ofNat, hgd.2, BitVec.toNat_udiv, hdpb]
  generalize ((inodeNum - 1) / sb.sInodesPerGroup).toNat / (sb.blockSize.toNat / sb.descSize.toNat) = block at hle
  omega

/-- The place of a descriptor, which lies in the block. -/
private theorem descPlace_eq (group : BitVec 32) :
    (group % (sb.blockSize / sb.descSize) * sb.descSize).toNat =
      group.toNat % (sb.blockSize.toNat / sb.descSize.toNat) * sb.descSize.toNat ∧
    group.toNat % (sb.blockSize.toNat / sb.descSize.toNat) * sb.descSize.toNat + sb.descSize.toNat ≤
      sb.blockSize.toNat := by
  have hge := Driver.descSize_ge sb
  have hpos : 0 < sb.blockSize.toNat / sb.descSize.toNat :=
    Nat.div_pos (BitVec.le_def.mp hw.sound.descSize) (by omega)
  have hb := blockSize_bounds hw
  have hmul := Nat.mul_le_mul_right sb.descSize.toNat (Nat.succ_le_of_lt (Nat.mod_lt group.toNat hpos))
  have hdiv := Nat.div_mul_le_self sb.blockSize.toNat sb.descSize.toNat
  rw [Nat.succ_mul] at hmul
  have hdpb : (sb.blockSize / sb.descSize).toNat = sb.blockSize.toNat / sb.descSize.toNat := BitVec.toNat_udiv
  refine ⟨?_, by omega⟩
  rw [BitVec.toNat_mul, BitVec.toNat_umod, hdpb, Nat.mod_eq_of_lt (by omega)]

/-- The kernel multiplies first, the bootloader divides first. -/
private theorem inodePlace_eq (inodeNum : BitVec 32) :
    ((inodeNum - 1) % sb.sInodesPerGroup * sb.sInodeSize.setWidth 32) / sb.blockSize =
      (inodeNum - 1) % sb.sInodesPerGroup / (sb.blockSize / sb.sInodeSize.setWidth 32) ∧
    (((inodeNum - 1) % sb.sInodesPerGroup * sb.sInodeSize.setWidth 32) % sb.blockSize).toNat =
      ((inodeNum - 1) % sb.sInodesPerGroup % (sb.blockSize / sb.sInodeSize.setWidth 32) *
        sb.sInodeSize.setWidth 32).toNat ∧
    (((inodeNum - 1) % sb.sInodesPerGroup * sb.sInodeSize.setWidth 32) % sb.blockSize).toNat + 128 ≤
      sb.blockSize.toNat := by
  obtain ⟨hge, hdvd⟩ := hw.inodeSize
  have hb := blockSize_bounds hw
  have hle : sb.sInodeSize.toNat ≤ sb.blockSize.toNat := Nat.le_of_dvd (by omega) hdvd
  have hper : 0 < sb.blockSize.toNat / sb.sInodeSize.toNat := Nat.div_pos hle (by omega)
  have hsize : (sb.sInodeSize.setWidth 32).toNat = sb.sInodeSize.toNat := BitVec.toNat_setWidth_of_le (by decide)
  have hgroups : 0 < sb.sInodesPerGroup.toNat := by
    apply Nat.pos_of_ne_zero
    intro hz
    exact hw.sound.inodesPerGroup (BitVec.eq_of_toNat_eq hz)
  have hlt : ((inodeNum - 1) % sb.sInodesPerGroup).toNat < 32768 := by
    have hlt := Nat.mod_lt (inodeNum - 1).toNat hgroups
    have hipg := hw.inodesPerGroup
    rw [BitVec.toNat_umod]
    omega
  generalize (inodeNum - 1) % sb.sInodesPerGroup = index at hlt
  have hbyte : (index * sb.sInodeSize.setWidth 32).toNat = index.toNat * sb.sInodeSize.toNat := by
    have hmul := Nat.mul_le_mul hlt.le (hle.trans hb.2)
    rw [BitVec.toNat_mul, hsize, Nat.mod_eq_of_lt (by omega)]
  obtain ⟨hdiv, hmod⟩ := @place_eq index.toNat _ _ (show 0 < sb.sInodeSize.toNat by omega) hdvd
  have hin := Nat.mul_le_mul_right sb.sInodeSize.toNat (Nat.succ_le_of_lt (Nat.mod_lt index.toNat hper))
  rw [Nat.succ_mul, Nat.div_mul_cancel hdvd, ← hmod] at hin
  have hplace : index.toNat * sb.sInodeSize.toNat % sb.blockSize.toNat < 4096 :=
    (Nat.mod_lt _ (by omega)).trans_le hb.2
  refine ⟨BitVec.eq_of_toNat_eq ?_, ?_, ?_⟩
  · rw [BitVec.toNat_udiv, hbyte, hdiv, BitVec.toNat_udiv, BitVec.toNat_udiv, hsize]
  · rw [BitVec.toNat_umod, hbyte, BitVec.toNat_mul, BitVec.toNat_umod, BitVec.toNat_udiv, hsize, ← hmod,
      Nat.mod_eq_of_lt (hplace.trans (by decide))]
  · rw [BitVec.toNat_umod, hbyte]
    omega

/-- Without the 64-bit feature, or with descriptors that have the high half, it is where the bootloader looks. -/
theorem highHalf_of_wide (hwide : sb.use64bit = true → 0x2C ≤ sb.descSize.toNat) (inodeNum : BitVec 32) :
    HighHalf image sb inodeNum := by
  intro h64
  have hroom := (descPlace_eq hw ((inodeNum - 1) / sb.sInodesPerGroup)).2
  have hwide := hwide h64
  refine ⟨by omega, ?_⟩
  rw [← u32At_drop]
  exact (u32At_take _ (show 0x28 + 4 ≤ min 64 sb.descSize.toNat by omega)).symm

end Places

/-! ### Reading -/

section Reading
variable {sb : PackedSuperblock} {image : BitVec 64 → List Byte} (hw : WellFormedImage sb image) {inodeNum : BitVec 32}
include hw

/-- The inode of a group, as the kernel finds it. -/
theorem inodeIn_eq (hn : InUse image sb.geometry inodeNum) :
    inodeIn image sb.geometry inodeNum =
      (let desc := groupDescOf image sb.geometry ((inodeNum - 1) / sb.sInodesPerGroup).toNat
      let byte := (inodeNum - 1) % sb.sInodesPerGroup * sb.sInodeSize.setWidth 32
      let inodeTable := if sb.use64bit
        then desc.bgInodeTableLo.setWidth 64 ||| (desc.bgInodeTableHi.setWidth 64 <<< 32)
        else desc.bgInodeTableLo.setWidth 64
      .ok (inodeAt ((image (inodeTable + (byte / sb.blockSize).setWidth 64)).drop (byte % sb.blockSize).toNat) 0)) := by
  have hipg : sb.geometry.inodesPerGroup ≠ 0 := hw.sound.inodesPerGroup
  have hgroup : ¬ (inodeNum - 1) / sb.geometry.inodesPerGroup ≥ sb.geometry.groupCount := BitVec.not_le.mpr hn.group
  have hdesc : (groupDescsOf image sb.geometry)[((inodeNum - 1) / sb.geometry.inodesPerGroup).toNat]? =
      some (groupDescOf image sb.geometry ((inodeNum - 1) / sb.sInodesPerGroup).toNat) := by
    rw [groupDescsOf, List.getElem?_map, List.getElem?_range (BitVec.lt_def.mp hn.group)]
    rfl
  rw [inodeIn, Ext4.inodeOf, placeOf, if_neg hn.number, if_neg hipg, if_neg hgroup]
  simp only [hdesc]
  rfl

/-- The inode table of a group, out of the buffer. -/
private theorem inodeTable_eq (hn : InUse image sb.geometry inodeNum) (hhigh : HighHalf image sb inodeNum)
    {buffer tail : List Byte} (hbuffer : buffer = image (((if sb.blockSize = 1024 then 2 else 1) +
      (inodeNum - 1) / sb.sInodesPerGroup / (sb.blockSize / sb.descSize) : BitVec 32).setWidth 64) ++ tail) :
    let gd := ((inodeNum - 1) / sb.sInodesPerGroup % (sb.blockSize / sb.descSize) * sb.descSize).toNat
    let desc := groupDescOf image sb.geometry ((inodeNum - 1) / sb.sInodesPerGroup).toNat
    (if sb.use64bit then (u32At buffer (gd+0x08)).setWidth 64 ||| ((u32At buffer (gd+0x28)).setWidth 64 <<< 32)
        else (u32At buffer (gd+0x08)).setWidth 64) =
      if sb.use64bit then desc.bgInodeTableLo.setWidth 64 ||| (desc.bgInodeTableHi.setWidth 64 <<< 32)
        else desc.bgInodeTableLo.setWidth 64 := by
  intro gd desc
  obtain ⟨hgd, hroom⟩ := descPlace_eq hw ((inodeNum - 1) / sb.sInodesPerGroup)
  have hge := Driver.descSize_ge sb
  have hlen := hw.blocks (descBlockOf sb.geometry ((inodeNum - 1) / sb.sInodesPerGroup).toNat)
  rw [descBlock_eq hw hn] at hbuffer
  have hlo : u32At buffer (gd+0x08) = desc.bgInodeTableLo := by
    rw [hbuffer, show gd = _ from hgd, u32At_append tail (by omega), ← u32At_drop]
    exact (u32At_take _ (show 8 + 4 ≤ min 64 sb.descSize.toNat by omega)).symm
  by_cases h64 : sb.use64bit = true
  · obtain ⟨hin, hhi⟩ := hhigh h64
    have hhi : u32At buffer (gd+0x28) = desc.bgInodeTableHi := by
      rw [hbuffer, show gd = _ from hgd, u32At_append tail (by rw [hlen]; exact hin)]
      exact hhi
    rw [if_pos h64, if_pos h64, hlo, hhi]
  · rw [if_neg h64, if_neg h64, hlo]

end Reading

section Inodes
variable {sb : PackedSuperblock} {partLba : BitVec 64} {good : Drive → Prop} {sectors : Nat → Vector (BitVec 8) 512}
variable (hw : WellFormedImage sb (seen (contextOf sb partLba) sectors)) (h : ReadsBlocks (contextOf sb partLba) good)
include hw h

/-- Both read the same inode, in the bytes that the lookups use. -/
theorem ext4ReadInode_gives {inodeNum : BitVec 32}
    (hn : InUse (seen (contextOf sb partLba) sectors) sb.geometry inodeNum)
    (hhigh : HighHalf (seen (contextOf sb partLba) sectors) sb inodeNum) {inode' : Ext4Inode}
    (hinode : inodeIn (seen (contextOf sb partLba) sectors) sb.geometry inodeNum = .ok inode') {α : Type}
    {r : Except BootStop α} {f : Ext4Inode → Op α}
    (hf : ∀ inode, SameInode inode inode' → Gives good sectors r (f inode)) :
    Gives good sectors r (ext4ReadInode (contextOf sb partLba) inodeNum >>= f) := by
  obtain ⟨hblock, hplace, hroom⟩ := inodePlace_eq hw inodeNum
  have hne {w : Nat} {x : BitVec w} (hpos : 0 < x.toNat) : x ≠ 0 := by
    rintro rfl
    exact absurd hpos (by simp)
  have hb := blockSize_bounds hw
  have hge := Driver.descSize_ge sb
  have hdesc : (contextOf sb partLba).descSize ≠ 0 := hne (x := sb.descSize) (by omega)
  have hperBlock : sb.blockSize / sb.descSize ≠ 0 := hne (Driver.descPerBlock_pos hw.sound.descSize)
  have hsize : (sb.sInodeSize.setWidth 32).toNat = sb.sInodeSize.toNat := BitVec.toNat_setWidth_of_le (by decide)
  have hinodeSize : sb.sInodeSize.setWidth 32 ≠ 0#32 := hne (by rw [hsize]; exact hw.inodeSize.1.trans' (by decide))
  have hper : sb.blockSize / sb.sInodeSize.setWidth 32 ≠ 0 := by
    refine hne ?_
    rw [BitVec.toNat_udiv, hsize]
    exact Nat.div_pos (Nat.le_of_dvd (by omega) hw.inodeSize.2) (by have := hw.inodeSize.1; omega)
  rw [ext4ReadInode]
  simp only [Fallible.bind_assoc]
  apply Fallible.Returns.bind (.require hn.number _)
  apply Fallible.Returns.bind (gives_divide hw.sound.inodesPerGroup)
  apply Fallible.Returns.bind (gives_divide hdesc)
  apply Fallible.Returns.bind (gives_divide hperBlock)
  apply h.readBuffer_gives
  intro s tail hbuffer
  apply Fallible.Returns.bind (gives_divide hinodeSize)
  apply Fallible.Returns.bind (gives_divide hper)
  apply h.readBuffer_gives
  intro s' tail' hbuffer'
  apply Fallible.Returns.bind (.pure _)
  apply hf
  obtain rfl := Except.ok.inj ((inodeIn_eq hw hn).symm.trans hinode)
  have htable := inodeTable_eq hw hn hhigh hbuffer
  rw [hbuffer']
  change SameInode (inodeAt (seen _ _ ((if sb.use64bit = true then _ else _) +
    ((inodeNum - 1) % sb.sInodesPerGroup / (sb.blockSize / sb.sInodeSize.setWidth 32)).setWidth 64) ++ tail')
    ((inodeNum - 1) % sb.sInodesPerGroup % (sb.blockSize / sb.sInodeSize.setWidth 32) *
      sb.sInodeSize.setWidth 32).toNat) _
  rw [← hblock, ← hplace]
  refine (congrArg (fun table => SameInode (inodeAt (seen _ _ (table + _) ++ tail') _) _) htable).mpr ?_
  exact sameInode_at tail' (by rw [hw.blocks]; exact hroom)

end Inodes
end Boot.Loader
end Nafuraito.Ext4
