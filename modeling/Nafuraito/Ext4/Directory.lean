import Nafuraito.Ext4.Mount

/-! Lookups in extent trees, directories and paths, with the structures they read. -/
namespace Nafuraito.Ext4
open Nafuraito.Library

def EXT4_NAME_LEN : Nat := 255
def EXT4_ROOT_INODE : BitVec 32 := 2#32

def Ext4Inode.size64 (inode : Ext4Inode) : BitVec 64 :=
  (u32At inode.bytes 0x04).setWidth 64 ||| ((u32At inode.bytes 0x6C).setWidth 64 <<< 32)

structure Ext4DirEntry where
  inode : BitVec 32
  recLen : BitVec 16
  nameLen : BitVec 8
  fileType : BitVec 8
  name : List Byte

/-- The packed record has 263 bytes, whatever the length of the name. -/
def DIR_ENTRY_SIZE : Nat := 263

def readDirEntry (block : List Byte) (offset : Nat) : Ext4DirEntry where
  inode := u32At block offset
  recLen := u16At block (offset+4)
  nameLen := byteAt block (offset+6)
  fileType := byteAt block (offset+7)
  name := (List.range EXT4_NAME_LEN).map fun k => byteAt block (offset+8+k)

namespace Ext4DirEntry

def nameBytes (entry : Ext4DirEntry) : List Byte := entry.name.take entry.nameLen.toNat

/-- The test of the directory search. -/
def Named (entry : Ext4DirEntry) (name : List Byte) : Prop :=
  entry.inode ≠ 0 ∧ entry.nameLen.toNat = name.length ∧ entry.nameBytes = name

instance (entry : Ext4DirEntry) (name : List Byte) : Decidable (entry.Named name) :=
  inferInstanceAs (Decidable (_ ∧ _))

end Ext4DirEntry

namespace Driver
variable {D : Type} (strict : Bool) (ops : Ext4BlockOps D) (geometry : Ext4Geometry)

def kernelAllocBytes (size : Nat) : Op D (List Byte) := ofFs (Ext4Filesystem.kernelAllocBytes size)

/-! ### Extent trees -/

/-- The index loop from entry `i` on; the node has `room` bytes. -/
def scanIdx (room : Nat) (node : List Byte) (logicalBlock : BitVec 64) :
    Nat → Nat → Option Ext4ExtentIdx → Op D (Option Ext4ExtentIdx)
  | _, 0, best => pure best
  | i, n+1, best => do
    inside strict room (12+12*(i+1))
    if (readIdx node i).eiBlock ≤ logicalBlock.setWidth 32 then
      scanIdx room node logicalBlock (i+1) n (some (readIdx node i))
    else pure best

/-- The leaf loop from entry `i` on. -/
def scanExtent (room : Nat) (node : List Byte) (logicalBlock : BitVec 64) :
    Nat → Nat → Op D (Option Ext4Extent)
  | _, 0 => pure none
  | i, n+1 => do
    inside strict room (12+12*(i+1))
    if (readExtent node i).holds logicalBlock then pure (some (readExtent node i))
    else scanExtent room node logicalBlock (i+1) n

/-- The loop over the internal nodes; returns the leaf and its room. -/
def walkIndex (logicalBlock : BitVec 64) : Nat → Nat → List Byte → Op D (Nat × List Byte)
  | 0, room, node => pure (room, node)
  | depth+1, room, node => do
    let best ← scanIdx strict room node logicalBlock 0 (readHeader node).ehEntries.toNat none
    let best ← Fallible.okOr best (.err .notFound)
    let buffer ← kernelAllocBytes geometry.blockSize.toNat
    let buffer ← readInto ops best.leaf buffer
    inside strict buffer.length 12
    walkIndex logicalBlock depth buffer.length buffer

/-- The root lies in the 60 bytes of `i_block`. -/
def getBlockFromExtent (inode : Ext4Inode) (logicalBlock : BitVec 64) : Op D (BitVec 64) := do
  inside strict 60 12
  let header := readHeader inode.iBlockPtr
  Fallible.require (header.ehMagic = EXT4_EXT_MAGIC) (.err .invalid)
  let leaf ← walkIndex strict ops geometry logicalBlock header.ehDepth.toNat 60 inode.iBlockPtr
  let extent ← scanExtent strict leaf.1 leaf.2 logicalBlock 0 (readHeader leaf.2).ehEntries.toNat
  let extent ← Fallible.okOr extent (.err .notFound)
  pure (extent.physical logicalBlock)

/-- The blocks that the pointers of an inode reach. -/
def indirectBlocks : Nat :=
  let ptrsPerBlock := geometry.blockSize.toNat / 4
  EXT4_NDIR_BLOCKS + ptrsPerBlock + ptrsPerBlock*ptrsPerBlock + ptrsPerBlock*(ptrsPerBlock*ptrsPerBlock)

/-- Past the last triple-indirect block the index in the first block of pointers is out of range. -/
def getBlockIndirect (inode : Ext4Inode) (logicalBlock : BitVec 64) : Op D (BitVec 64) :=
  if logicalBlock.toNat < indirectBlocks geometry then ofFs (Ext4Filesystem.getBlockIndirect ops inode logicalBlock)
  else do
    let buffer ← kernelAllocBytes geometry.blockSize.toNat
    let _ ← readInto ops ((inode.iBlock EXT4_TIND_BLOCK).setWidth 64) buffer
    Fallible.throw (.panic .outOfRange)

def getBlock (inode : Ext4Inode) (logicalBlock : BitVec 64) : Op D (BitVec 64) :=
  if inode.usesExtents then getBlockFromExtent strict ops geometry inode logicalBlock
  else getBlockIndirect ops geometry inode logicalBlock

/-! ### Directories -/

/-- The entry loop of one block from `offset` on. Every round moves on, so a round for each byte is enough. -/
def scanEntries (block : List Byte) (name : List Byte) : Nat → Nat → Op D (Option (BitVec 32))
  | 0, _ => pure none
  | n+1, offset =>
    if offset < block.length then do
      inside strict block.length (offset+DIR_ENTRY_SIZE)
      let entry := readDirEntry block offset
      if entry.recLen = 0 then pure none
      else if entry.Named name then pure (some entry.inode)
      else scanEntries block name n (offset + entry.recLen.toNat)
    else pure none

/-- The loop over the blocks from `offset` on, in at most so many rounds. -/
def findFrom (inode : Ext4Inode) (name : List Byte) : Nat → BitVec 64 → List Byte → Op D (BitVec 32)
  | 0, _, _ => Fallible.throw .unfinished
  | rounds+1, offset, buffer =>
    if offset < inode.size64 then do
      let physical ← getBlock strict ops geometry inode (offset / geometry.blockSize.setWidth 64)
      if physical = 0 then findFrom inode name rounds (offset + geometry.blockSize.setWidth 64) buffer
      else do
        let buffer ← readInto ops physical buffer
        match ← scanEntries strict buffer name geometry.blockSize.toNat 0 with
        | some found => pure found
        | none => findFrom inode name rounds (offset + geometry.blockSize.setWidth 64) buffer
    else Fallible.throw (.err .notFound)

def dirFindEntry (rounds : Nat) (inode : Ext4Inode) (name : List Byte) : Op D (BitVec 32) := do
  let buffer ← kernelAllocBytes geometry.blockSize.toNat
  findFrom strict ops geometry inode name rounds 0 buffer

/-! ### Paths -/

def skipSlashes (p : List Byte) : List Byte := p.dropWhile (· = 0x2F)

/-- The bytes up to the next slash, 255 at most. -/
def pathComponent (p : List Byte) : List Byte := (p.takeWhile (· ≠ 0x2F)).take EXT4_NAME_LEN

variable (groupDescs : List Ext4GroupDesc)

/-- The loop over the components. Every round takes a byte of the path, so a round for each byte is enough. -/
def lookupFrom (rounds : Nat) : Nat → List Byte → BitVec 32 → Op D (BitVec 32)
  | 0, _, current => pure current
  | n+1, p, current =>
    if p = [] then pure current
    else if pathComponent p = [] then lookupFrom rounds n (p.drop 1) current
    else do
      let inode ← readInode strict ops geometry groupDescs current
      let current ← dirFindEntry strict ops geometry rounds inode (pathComponent p)
      lookupFrom rounds n (skipSlashes (p.drop (pathComponent p).length)) current

def lookupPath (rounds : Nat) (path : List Byte) : Op D (BitVec 32) :=
  let p := skipSlashes path
  if p = [] then pure EXT4_ROOT_INODE else lookupFrom strict ops geometry groupDescs rounds p.length p EXT4_ROOT_INODE

end Driver

/-! ### Files -/

structure Ext4MmapFile where
  inode : Ext4Inode
  fileSize : BitVec 64

def Driver.openMmapFile {D : Type} (strict : Bool) (ops : Ext4BlockOps D) (geometry : Ext4Geometry)
    (groupDescs : List Ext4GroupDesc) (rounds : Nat) (path : List Byte) : Driver.Op D Ext4MmapFile := do
  let inodeNum ← lookupPath strict ops geometry groupDescs rounds path
  let inode ← readInode strict ops geometry groupDescs inodeNum
  pure ⟨inode, inode.size64⟩

/-! ### Iterating over a directory -/

structure Ext4DirIterator where
  inode : Ext4Inode
  position : BitVec 64
  size : BitVec 64

namespace Ext4DirIterator
variable {D : Type} (strict : Bool) (ops : Ext4BlockOps D) (geometry : Ext4Geometry)

abbrev Op (D α : Type) := Fallible (Ext4Filesystem D × Ext4DirIterator) DriverStop α

def onFs {α : Type} (x : Driver.Op D α) : Op D α := Fallible.zoom Prod.fst (fun fs s => (fs, s.2)) x

def new (groupDescs : List Ext4GroupDesc) (rounds : Nat) (path : List Byte) : Driver.Op D Ext4DirIterator := do
  let inodeNum ← Driver.lookupPath strict ops geometry groupDescs rounds path
  let inode ← Driver.readInode strict ops geometry groupDescs inodeNum
  pure ⟨inode, 0, inode.size64⟩

def advance (n : BitVec 64) : Op D Unit := Fallible.modify fun s => (s.1, { s.2 with position := s.2.position + n })

/-- The loop, in at most so many rounds. -/
def readFrom : Nat → List Byte → Op D Ext4DirEntry
  | 0, _ => Fallible.throw .unfinished
  | rounds+1, buffer => do
    let s ← Fallible.get
    if s.2.position < s.2.size then
      let blockSize := geometry.blockSize.setWidth 64
      let blockOffset := s.2.position % blockSize
      let physical ← onFs (Driver.getBlock strict ops geometry s.2.inode (s.2.position / blockSize))
      if physical = 0 then do
        advance (blockSize - blockOffset)
        readFrom rounds buffer
      else do
        let buffer ← onFs (Driver.readInto ops physical buffer)
        onFs (Driver.inside strict buffer.length (blockOffset.toNat+DIR_ENTRY_SIZE))
        let entry := readDirEntry buffer blockOffset.toNat
        if entry.recLen = 0 then do
          advance (blockSize - blockOffset)
          readFrom rounds buffer
        else do
          advance (entry.recLen.setWidth 64)
          if entry.inode ≠ 0 then pure entry else readFrom rounds buffer
    else Fallible.throw (.err .notFound)

def read (rounds : Nat) : Op D Ext4DirEntry := do
  let buffer ← onFs (Driver.kernelAllocBytes geometry.blockSize.toNat)
  readFrom strict ops geometry rounds buffer

end Ext4DirIterator
end Nafuraito.Ext4
