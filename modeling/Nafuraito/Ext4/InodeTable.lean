import Nafuraito.Ext4.BlockMap

/-! Reading and writing inodes in the inode tables, and mounting the journal. -/
namespace Nafuraito.Ext4
open Nafuraito.Library

structure Ext4GroupDesc where
  bgInodeTableLo : BitVec 32
  bgInodeTableHi : BitVec 32

/-- What the mount read of the superblock and the group descriptors, one for each group. -/
structure Ext4Layout where
  groupDescs : List Ext4GroupDesc
  inodesPerGroup : BitVec 32
  inodeSize : BitVec 32
  groupCount : BitVec 32
  use64bit : Bool
  one_each : groupDescs.length = groupCount.toNat

namespace Ext4Layout

/-- The group of an inode, below `group_count`. The source panics without inodes in a group. -/
def group (layout : Ext4Layout) (inodeNum : BitVec 32) : BitVec 32 := (inodeNum - 1) / layout.inodesPerGroup

/-- The byte of the inode in its group's table; the product wraps at 32 bits. -/
def tableByte (layout : Ext4Layout) (inodeNum : BitVec 32) : BitVec 32 :=
  (inodeNum - 1) % layout.inodesPerGroup * layout.inodeSize

def inodeTable (layout : Ext4Layout) (desc : Ext4GroupDesc) : BitVec 64 :=
  if layout.use64bit then desc.bgInodeTableLo.setWidth 64 ||| (desc.bgInodeTableHi.setWidth 64 <<< 32)
  else desc.bgInodeTableLo.setWidth 64

/-- The block of an inode and its place in the block, as `read_inode` and `write_inode` both compute them. -/
def inodePlace (layout : Ext4Layout) (blockSize inodeNum : BitVec 32) : Option (BitVec 64 × Nat) :=
  if inodeNum = 0 then none
  else if h : layout.group inodeNum ≥ layout.groupCount then none
  else
    let desc := layout.groupDescs.get ⟨(layout.group inodeNum).toNat, by
      rw [layout.one_each]
      exact BitVec.not_le.mp h⟩
    some (layout.inodeTable desc + (layout.tableByte inodeNum / blockSize).setWidth 64,
      (layout.tableByte inodeNum % blockSize).toNat)

end Ext4Layout

/-- `copy_nonoverlapping` of an inode out of a buffer. -/
def inodeAt (buffer : List Byte) (offset : Nat) : Ext4Inode where
  bytes := (List.range 160).map fun k => byteAt buffer (offset+k)
  size := by rw [List.length_map, List.length_range]

/-- `copy_nonoverlapping` of an inode into a buffer; what would go past its end is lost here. -/
def putInode (buffer : List Byte) (offset : Nat) (inode : Ext4Inode) : List Byte :=
  (List.range buffer.length).map fun k =>
    if offset ≤ k ∧ k < offset+160 then byteAt inode.bytes (k-offset) else byteAt buffer k

/-- `Ext4Inode::default`. -/
def Ext4Filesystem.zeroInode : Ext4Inode := ⟨List.replicate 160 0, List.length_replicate⟩

namespace Ext4Filesystem
variable {D : Type} (ops : Ext4BlockOps D) (layout : Ext4Layout)

def readInode (inodeNum : BitVec 32) : Op D Ext4Inode := do
  let fs ← Fallible.get
  let place ← Fallible.okOr (layout.inodePlace fs.blockSize inodeNum) .invalid
  let _ ← kernelAllocBytes fs.blockSize.toNat
  let buffer ← readBlock ops place.1 fs.blockSize.toNat
  pure (inodeAt buffer place.2)

/-- The buffer is read from the device, also when the transaction has a newer one. -/
def writeInode (inodeNum : BitVec 32) (inode : Ext4Inode) : Op D Unit := do
  let fs ← Fallible.get
  Fallible.require (fs.readonly = false) .invalid
  let place ← Fallible.okOr (layout.inodePlace fs.blockSize inodeNum) .invalid
  let _ ← kernelAllocBytes fs.blockSize.toNat
  let buffer ← readBlock ops place.1 fs.blockSize.toNat
  writeBlockJournaled ops place.1 (putInode buffer place.2 inode)

end Ext4Filesystem

/-! ### Mounting the journal -/

def EXT4_FEATURE_COMPAT_HAS_JOURNAL : BitVec 32 := 0x0004#32
def EXT4_FEATURE_INCOMPAT_RECOVER : BitVec 32 := 0x0004#32

/-- The fields of the superblock that the journal's mount uses. -/
structure Ext4Superblock where
  sFeatureCompat : BitVec 32
  sFeatureIncompat : BitVec 32
  sJournalInum : BitVec 32

/-- A filesystem with its superblock, which recovery changes in memory. -/
structure Ext4Mount (D : Type) where
  fs : Ext4Filesystem D
  superblock : Ext4Superblock

/-- The fields at their places in the record; the header's magic comes first. -/
def readJbd2Superblock (buffer : List Byte) : BitVec 32 × Jbd2Superblock :=
  (u32At buffer 0, ⟨u32At buffer 16, u32At buffer 24, u32At buffer 28⟩)

namespace Ext4Mount
variable {D : Type} (ops : Ext4BlockOps D) (layout : Ext4Layout)

abbrev Op (D α : Type) := Fallible (Ext4Mount D) Ext4Error α

def onFs {α : Type} (x : Ext4Filesystem.Op D α) : Op D α :=
  Fallible.zoom (fun m => m.fs) (fun fs m => { m with fs := fs }) x

/-- Recovery replays nothing: it clears the flag. -/
def journalRecover : Op D Unit := Fallible.modify fun m =>
  { m with superblock := { m.superblock with
      sFeatureIncompat := m.superblock.sFeatureIncompat &&& ~~~EXT4_FEATURE_INCOMPAT_RECOVER } }

/-- The filesystem becomes read-only where recovery fails. -/
def recoverIfNeeded : Op D Unit := fun m =>
  if m.superblock.sFeatureIncompat &&& EXT4_FEATURE_INCOMPAT_RECOVER ≠ 0 then
    match journalRecover m with
    | (.ok _, m) => (.ok (), m)
    | (.error _, m) => (.ok (), { m with fs := { m.fs with readonly := true } })
  else (.ok (), m)

def initJournal : Op D Unit := do
  let m ← Fallible.get
  if m.superblock.sFeatureCompat &&& EXT4_FEATURE_COMPAT_HAS_JOURNAL = 0 then pure ()
  else do
    let journalInode ← onFs (Ext4Filesystem.readInode ops layout m.superblock.sJournalInum)
    let journalStart ← onFs (Ext4Filesystem.getBlock ops journalInode 0)
    Fallible.require (journalStart ≠ 0) .journal
    let _ ← onFs (Ext4Filesystem.kernelAllocBytes m.fs.blockSize.toNat)
    let buffer ← onFs (Ext4Filesystem.readBlock ops journalStart m.fs.blockSize.toNat)
    let jbd2Sb := readJbd2Superblock buffer
    Fallible.require (jbd2Sb.1 = JBD2_MAGIC_NUMBER) .journal
    Fallible.modify fun m => { m with fs := { m.fs with journal := some (.new jbd2Sb.2 journalStart) } }
    recoverIfNeeded

end Ext4Mount
end Nafuraito.Ext4
