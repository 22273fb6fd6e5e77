import Nafuraito.Ata.SectorAddresses
import Nafuraito.Ext4.BootBlockMap
import Nafuraito.Ext4.Directory

/-! The bootloader's file reader, from the sectors of its drive to the bytes it puts at the destination. -/
namespace Nafuraito.Ext4.Boot
open Nafuraito.Library
open Ata (Drive Io sectorLoop program28 insw ataCmdReadSectors)
open Driver (skipSlashes)

inductive Ext4BootError where
  | invalidMagic
  | io
  | notFound
  | invalid
  deriving DecidableEq, Repr

/-- How a call ends without success: with an error code, in a division by zero, or in a loop that goes on after
the rounds the model gives it. -/
inductive BootStop where
  | err (e : Ext4BootError)
  | divideError
  | unfinished
  deriving DecidableEq, Repr

def EXT4_MAX_BLOCK_SIZE : BitVec 32 := 4096#32

/-- The fields of the context that are read. -/
structure Ext4BootContext extends Ext4BootCtx where
  inodesPerGroup : BitVec 32
  inodeSize : BitVec 32
  descSize : BitVec 32
  use64bit : Bool
  partitionLba : BitVec 64

/-- The drive, the two static buffers with what follows them, what follows the inode on the stack, and the bytes
from `dest` on. -/
structure Loader where
  drive : Drive
  blockBuffer : List Byte
  blockBuffer2 : List Byte
  behindInode : List Byte
  dest : Nat → Byte

namespace Loader

abbrev Op (α : Type) := Fallible Loader BootStop α

/-! ### Blocks of the drive -/

/-- The bytes stored from the pointer on are the memory of the result. -/
def ataReadSectorsExt4 (lba : BitVec 64) (count : BitVec 32) (drive : Drive) : Bool × Io :=
  sectorLoop (program28 ataCmdReadSectors) insw count.toNat 0 lba ⟨drive, []⟩

/-- `data` stored from a place on. -/
def store (dest : Nat → Byte) (place : Nat) (data : List Byte) : Nat → Byte := fun i =>
  if place ≤ i ∧ i < place + data.length then byteAt data (i-place) else dest i

section Model
variable (ctx : Ext4BootContext)

def ext4ReadBlock (block : BitVec 64) (drive : Drive) : Bool × Io :=
  ataReadSectorsExt4 (ctx.partitionLba + block * ctx.blockSize.setWidth 64 / 512) (ctx.blockSize / 512) drive

/-- `ext4_read_block`, and what the callers do with a failure. -/
def readTo (put : List Byte → Loader → Loader) (block : BitVec 64) : Op Unit := fun s =>
  let (ok, io) := ext4ReadBlock ctx block s.drive
  (if ok then .ok () else .error (.err .io), put io.memory { s with drive := io.drive })

/-- A read that fails leaves the end of the buffer as it was. -/
def readBuffer : BitVec 64 → Op Unit :=
  readTo ctx fun data s => { s with blockBuffer := data ++ s.blockBuffer.drop data.length }

def readBuffer2 : BitVec 64 → Op Unit :=
  readTo ctx fun data s => { s with blockBuffer2 := data ++ s.blockBuffer2.drop data.length }

def readDest (place : Nat) : BitVec 64 → Op Unit :=
  readTo ctx fun data s => { s with dest := store s.dest place data }

/-! ### The block map -/

/-- The `while` loop over the internal nodes; `none` without an entry for the block. -/
def walkIndex (logicalBlock : BitVec 64) : Nat → List Byte → Op (Option (List Byte))
  | 0, header => pure (some header)
  | depth+1, header => match scanIdx header logicalBlock 0 (readHeader header).ehEntries.toNat none with
    | none => pure none
    | some best => do
      readBuffer2 ctx best.leaf
      let s ← Fallible.get
      walkIndex logicalBlock depth s.blockBuffer2

def mapExtent (inode : Ext4Inode) (logicalBlock : BitVec 64) : Op (BitVec 64) := do
  let s ← Fallible.get
  let root := inode.iBlockPtr ++ s.behindInode
  if (readHeader root).ehMagic ≠ EXT4_EXT_MAGIC then pure 0
  else match ← walkIndex ctx logicalBlock (readHeader root).ehDepth.toNat root with
    | none => pure 0
    | some leaf => pure (scanExtent leaf logicalBlock 0 (readHeader leaf).ehEntries.toNat)

/-- A pointer of a block that is read into `block_buffer2`. -/
def pointerIn (block : BitVec 64) (i : Nat) : Op (BitVec 64) := do
  readBuffer2 ctx block
  let s ← Fallible.get
  pure (ptrAt s.blockBuffer2 i)

def mapIndirect (inode : Ext4Inode) (logicalBlock : BitVec 64) : Op (BitVec 64) :=
  let ptrsPerBlock := ctx.blockSize.toNat / 4
  let square := ptrsPerBlock*ptrsPerBlock % 2^32
  let single := logicalBlock.toNat - EXT4_NDIR_BLOCKS
  let double := single - ptrsPerBlock
  let triple := double - square
  if logicalBlock.toNat < EXT4_NDIR_BLOCKS then pure ((inode.iBlock logicalBlock.toNat).setWidth 64)
  else if single < ptrsPerBlock then pointerIn ctx ((inode.iBlock EXT4_IND_BLOCK).setWidth 64) single
  else if double < square then do
    let indBlock ← pointerIn ctx ((inode.iBlock EXT4_DIND_BLOCK).setWidth 64) (double / ptrsPerBlock)
    pointerIn ctx indBlock (double % ptrsPerBlock)
  else do
    let dindBlock ← pointerIn ctx ((inode.iBlock EXT4_TIND_BLOCK).setWidth 64) (triple / square)
    let indBlock ← pointerIn ctx dindBlock (triple / ptrsPerBlock % ptrsPerBlock)
    pointerIn ctx indBlock (triple % ptrsPerBlock)

/-- The block map, stopped by the first block that cannot be read. -/
def mapBlock (inode : Ext4Inode) (logicalBlock : BitVec 64) : Op (BitVec 64) :=
  if inode.usesExtents then mapExtent ctx inode logicalBlock else mapIndirect ctx inode logicalBlock

/-- Where a block cannot be read the source returns 0. -/
def ext4GetBlock (inode : Ext4Inode) (logicalBlock : BitVec 64) : Op (BitVec 64) := fun s =>
  match mapBlock ctx inode logicalBlock s with
  | (.ok block, s) => (.ok block, s)
  | (.error _, s) => (.ok 0, s)

/-! ### Inodes, directories and paths -/

def divide (a b : BitVec 32) : Op (BitVec 32) := if b = 0 then Fallible.throw .divideError else pure (a / b)

def ext4ReadInode (inodeNum : BitVec 32) : Op Ext4Inode := do
  Fallible.require (inodeNum ≠ 0) (.err .invalid)
  let group ← divide (inodeNum - 1) ctx.inodesPerGroup
  let index := (inodeNum - 1) % ctx.inodesPerGroup
  let gdBlock : BitVec 32 := if ctx.blockSize = 1024 then 2 else 1
  let gdPerBlock ← divide ctx.blockSize ctx.descSize
  let gdBlockOffset ← divide group gdPerBlock
  let gdIndexInBlock := group % gdPerBlock
  readBuffer ctx ((gdBlock + gdBlockOffset).setWidth 64)
  let s ← Fallible.get
  let gd := (gdIndexInBlock * ctx.descSize).toNat
  let inodeTable := (u32At s.blockBuffer (gd+0x08)).setWidth 64
  let inodeTable := if ctx.use64bit then inodeTable ||| ((u32At s.blockBuffer (gd+0x28)).setWidth 64 <<< 32)
    else inodeTable
  let inodesPerBlock ← divide ctx.blockSize ctx.inodeSize
  let tableBlock ← divide index inodesPerBlock
  let inodeOffset := index % inodesPerBlock * ctx.inodeSize
  readBuffer ctx (inodeTable + tableBlock.setWidth 64)
  let s ← Fallible.get
  pure (inodeAt s.blockBuffer inodeOffset.toNat)

/-- `ext4_strcmp` returns 0. -/
def ext4Strcmp (s1 s2 : List Byte) (len : Nat) : Prop := ∀ i < len, byteAt s1 i = byteAt s2 i

instance (s1 s2 : List Byte) (len : Nat) : Decidable (ext4Strcmp s1 s2 len) :=
  inferInstanceAs (Decidable (∀ _ < _, _))

/-- The entry loop of one block from `offset` on. Every round moves on, so a round for each byte is enough. -/
def scanEntries (block : List Byte) (blockSize : Nat) (name : List Byte) : Nat → Nat → Option (BitVec 32)
  | 0, _ => none
  | n+1, offset =>
    if offset < blockSize then
      let entry := readDirEntry block offset
      if entry.recLen = 0 then none
      else if entry.inode ≠ 0 ∧ entry.nameLen.toNat = name.length ∧ ext4Strcmp entry.name name name.length
        then some entry.inode
      else scanEntries block blockSize name n (offset + entry.recLen.toNat)
    else none

/-- The loop over the blocks from `offset` on, in at most so many rounds. -/
def findFrom (inode : Ext4Inode) (name : List Byte) (dirSize : BitVec 64) : Nat → BitVec 64 → Op (BitVec 32)
  | 0, _ => Fallible.throw .unfinished
  | rounds+1, offset =>
    if offset < dirSize then do
      let physical ← ext4GetBlock ctx inode (offset / ctx.blockSize.setWidth 64)
      if physical = 0 then findFrom inode name dirSize rounds (offset + ctx.blockSize.setWidth 64)
      else do
        readBuffer ctx physical
        let s ← Fallible.get
        match scanEntries s.blockBuffer ctx.blockSize.toNat name ctx.blockSize.toNat 0 with
        | some found => pure found
        | none => findFrom inode name dirSize rounds (offset + ctx.blockSize.setWidth 64)
    else Fallible.throw (.err .notFound)

/-- The size is the low half. Every round goes on by a block, so a round for each and one more are enough. -/
def ext4DirFindEntry (inode : Ext4Inode) (name : List Byte) : Op (BitVec 32) :=
  let dirSize := (u32At inode.bytes 0x04).setWidth 64
  findFrom ctx inode name dirSize (dirSize.toNat / ctx.blockSize.toNat + 2) 0

/-- `*p`; the bytes of the path are followed by the NUL. -/
def deref (p : List Byte) : Byte := p.headD 0

/-- The bytes up to the next slash or the NUL, 255 at most. -/
def pathComponent (p : List Byte) : List Byte := (p.takeWhile fun b => b ≠ 0 ∧ b ≠ 0x2F).take EXT4_NAME_LEN

/-- The loop over the components. Every round takes a byte of the path, so a round for each byte is enough. -/
def lookupFrom : Nat → List Byte → BitVec 32 → Op (BitVec 32)
  | 0, _, currentInode => pure currentInode
  | n+1, p, currentInode =>
    if deref p = 0 then pure currentInode
    else if pathComponent p = [] then lookupFrom n (p.drop 1) currentInode
    else do
      let inode ← ext4ReadInode ctx currentInode
      let currentInode ← ext4DirFindEntry ctx inode (pathComponent p)
      lookupFrom n (skipSlashes (p.drop (pathComponent p).length)) currentInode

def ext4LookupPath (path : List Byte) : Op (BitVec 32) :=
  let p := skipSlashes path
  if deref p = 0 then pure EXT4_ROOT_INODE else lookupFrom ctx p.length p EXT4_ROOT_INODE

/-! ### The file -/

/-- `to_zero` and `to_read`. -/
def toRead (remaining : BitVec 64) : BitVec 32 :=
  if remaining > ctx.blockSize.setWidth 64 then ctx.blockSize else remaining.setWidth 32

/-- One round of the loop: a hole is zeroed, a block is read whole. -/
def readRound (inode : Ext4Inode) (buffer : Nat) (remaining logicalBlock : BitVec 64) : Op Unit := do
  let physicalBlock ← ext4GetBlock ctx inode logicalBlock
  if physicalBlock = 0 then Fallible.modify fun s =>
    { s with dest := store s.dest buffer (List.replicate (toRead ctx remaining).toNat 0) }
  else readDest ctx buffer physicalBlock

/-- The rounds that are left; `buffer` is the place from `dest` on. -/
def readBlocks (inode : Ext4Inode) : Nat → Nat → BitVec 64 → BitVec 64 → BitVec 64 → Op (BitVec 64)
  | 0, _, _, _, _ => Fallible.throw .unfinished
  | rounds+1, buffer, bytesRead, remaining, logicalBlock =>
    if remaining > 0 then do
      readRound ctx inode buffer remaining logicalBlock
      let n := toRead ctx remaining
      readBlocks inode rounds (buffer + n.toNat) (bytesRead + n.setWidth 64) (remaining - n.setWidth 64)
        (logicalBlock + 1)
    else pure bytesRead

/-- The loop of `ext4_boot_read_file`. Every round takes at least one byte. -/
def readContents (inode : Ext4Inode) (maxSize : BitVec 64) : Op (BitVec 64) :=
  let fileSize := if inode.size64 > maxSize then maxSize else inode.size64
  readBlocks ctx inode (fileSize.toNat + 1) 0 0 fileSize 0

/-- The inode of a path. -/
def inodeOf (path : List Byte) : Op Ext4Inode := do
  let inodeNum ← ext4LookupPath ctx path
  ext4ReadInode ctx inodeNum

/-- The result is `*size_out`. -/
def ext4BootReadFile (path : List Byte) (maxSize : BitVec 64) : Op (BitVec 64) := do
  let inode ← inodeOf ctx path
  readContents ctx inode maxSize

end Model

/-- The sectors of the superblock are read first. -/
def ext4BootInit (partLba : BitVec 64) : Op Ext4BootContext := fun s =>
  let (ok, io) := ataReadSectorsExt4 (partLba + 2) 2 s.drive
  let s := { s with drive := io.drive, blockBuffer := io.memory ++ s.blockBuffer.drop io.memory.length }
  let sb := PackedSuperblock.ofBytes s.blockBuffer
  if ok = false then (.error (.err .io), s)
  else if sb.sMagic ≠ EXT4_SUPER_MAGIC then (.error (.err .invalidMagic), s)
  else if sb.blockSize > EXT4_MAX_BLOCK_SIZE ∨ sb.blockSize < EXT4_MIN_BLOCK_SIZE then (.error (.err .invalid), s)
  else (.ok {
    blockSize := sb.blockSize
    inodesPerGroup := sb.sInodesPerGroup
    inodeSize := sb.sInodeSize.setWidth 32
    descSize := sb.descSize
    use64bit := sb.use64bit
    partitionLba := partLba }, s)

end Loader
end Nafuraito.Ext4.Boot
