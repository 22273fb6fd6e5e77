import Nafuraito.Ext4.InodeTable

/-! Reading the superblock, the group descriptors and inodes, with the places where the driver panics. -/
namespace Nafuraito.Ext4
open Nafuraito.Library

def EXT4_SUPER_MAGIC : BitVec 16 := 0xEF53#16
def EXT4_SUPERBLOCK_OFFSET : Nat := 1024
def EXT4_MIN_BLOCK_SIZE : BitVec 32 := 1024#32
def EXT4_FEATURE_INCOMPAT_EXTENTS : BitVec 32 := 0x0040#32
def EXT4_FEATURE_INCOMPAT_64BIT : BitVec 32 := 0x0080#32

/-- The panics the language adds: `/` and `%` by zero, and an index or a range past the end. -/
inductive Panic where
  | divisionByZero
  | outOfRange
  deriving DecidableEq, Repr

/-- How a call ends that returns no value: `outside` is a structure read past the end of its buffer, of which
the language says nothing; `unfinished` a loop that goes on after the rounds the model gives it. -/
inductive DriverStop where
  | err (e : Ext4Error)
  | panic (why : Panic)
  | outside
  | unfinished
  deriving DecidableEq, Repr

/-! ### The packed superblock -/

/-- The 1024 bytes of the packed record. -/
structure PackedSuperblock where
  bytes : List Byte
  size : bytes.length = 1024

namespace PackedSuperblock
variable (sb : PackedSuperblock)

def ofBytes (bytes : List Byte) : PackedSuperblock where
  bytes := (List.range 1024).map (byteAt bytes)
  size := by rw [List.length_map, List.length_range]

def sBlocksCountLo : BitVec 32 := u32At sb.bytes 4
def sLogBlockSize : BitVec 32 := u32At sb.bytes 24
def sBlocksPerGroup : BitVec 32 := u32At sb.bytes 32
def sInodesPerGroup : BitVec 32 := u32At sb.bytes 40
def sMagic : BitVec 16 := u16At sb.bytes 56
def sInodeSize : BitVec 16 := u16At sb.bytes 88
def sFeatureIncompat : BitVec 32 := u32At sb.bytes 96
def sDescSize : BitVec 16 := u16At sb.bytes 254
def sBlocksCountHi : BitVec 32 := u32At sb.bytes 336

/-- The shift takes its amount modulo 32, and what leaves the 32 bits is lost. -/
def blockSize : BitVec 32 := EXT4_MIN_BLOCK_SIZE <<< (sb.sLogBlockSize.toNat % 32)

def use64bit : Bool := sb.sFeatureIncompat &&& EXT4_FEATURE_INCOMPAT_64BIT != 0

def useExtents : Bool := sb.sFeatureIncompat &&& EXT4_FEATURE_INCOMPAT_EXTENTS != 0

def totalBlocks : BitVec 64 :=
  if sb.use64bit then (sb.sBlocksCountHi.setWidth 64 <<< 32) ||| sb.sBlocksCountLo.setWidth 64
  else sb.sBlocksCountLo.setWidth 64

/-- At least 32, and 32 without the 64-bit feature. -/
def descSize : BitVec 32 :=
  if sb.use64bit then if sb.sDescSize.setWidth 32 < 32#32 then 32 else sb.sDescSize.setWidth 32 else 32

end PackedSuperblock

/-- What `read_superblock` leaves in the filesystem. -/
structure Ext4Geometry where
  blockSize : BitVec 32
  blocksPerGroup : BitVec 32
  inodesPerGroup : BitVec 32
  inodeSize : BitVec 32
  groupCount : BitVec 32
  descSize : BitVec 32
  totalBlocks : BitVec 64
  useExtents : Bool
  use64bit : Bool

namespace Driver
variable {D : Type}

abbrev Op (D α : Type) := Fallible (Ext4Filesystem D) DriverStop α

def ofFs {α : Type} (x : Ext4Filesystem.Op D α) : Op D α := Fallible.mapError .err x

def divide {w : Nat} (a b : BitVec w) : Op D (BitVec w) :=
  if b = 0 then Fallible.throw (.panic .divisionByZero) else pure (a / b)

def remainder {w : Nat} (a b : BitVec w) : Op D (BitVec w) :=
  if b = 0 then Fallible.throw (.panic .divisionByZero) else pure (a % b)

/-- `v[i]`. -/
def index {α : Type} (v : List α) (i : Nat) : Op D α := Fallible.okOr v[i]? (.panic .outOfRange)

/-- `buffer[from..]`. -/
def sliceFrom (buffer : List Byte) (start : Nat) : Op D (List Byte) :=
  if start ≤ buffer.length then pure (buffer.drop start) else Fallible.throw (.panic .outOfRange)

/-- `buffer[from..to]`. -/
def slice (buffer : List Byte) (start stop : Nat) : Op D (List Byte) :=
  if start ≤ stop ∧ stop ≤ buffer.length then pure ((buffer.drop start).take (stop-start))
  else Fallible.throw (.panic .outOfRange)

/-- A structure is read that ends at byte `stop` of `room`. A strict run ends where it does not fit; the others
go on, and read zeros there. -/
def inside (strict : Bool) (room stop : Nat) : Op D Unit := Fallible.require (strict = true → stop ≤ room) .outside

variable (strict : Bool) (ops : Ext4BlockOps D)

/-- The buffer after a read into it; its length is its own, whatever the callback stores. -/
def readInto (block : BitVec 64) (buffer : List Byte) : Op D (List Byte) := do
  let data ← ofFs (Ext4Filesystem.readBlock ops block buffer.length)
  pure (data.take buffer.length ++ buffer.drop data.length)

def loadSuperblock : Op D PackedSuperblock := do
  let buffer ← ofFs (Ext4Filesystem.kernelAllocBytes 2048)
  let buffer ← readInto ops 0 buffer
  let sbBytes ← slice buffer EXT4_SUPERBLOCK_OFFSET (EXT4_SUPERBLOCK_OFFSET+1024)
  pure (.ofBytes sbBytes)

def readSuperblock : Op D Ext4Geometry := do
  let sb ← loadSuperblock ops
  Fallible.require (sb.sMagic = EXT4_SUPER_MAGIC) (.err .invalidMagic)
  let perGroup := sb.sBlocksPerGroup.setWidth 64
  let groups ← divide (sb.totalBlocks + perGroup - 1) perGroup
  pure {
    blockSize := sb.blockSize
    blocksPerGroup := sb.sBlocksPerGroup
    inodesPerGroup := sb.sInodesPerGroup
    inodeSize := sb.sInodeSize.setWidth 32
    groupCount := groups.setWidth 32
    descSize := sb.descSize
    totalBlocks := sb.totalBlocks
    useExtents := sb.useExtents
    use64bit := sb.use64bit }

/-- The first bytes of the record that the device has; the rest stays zero. -/
def descAt (bytes : List Byte) (descSize : Nat) : Ext4GroupDesc :=
  let desc := bytes.take (min 64 descSize)
  ⟨u32At desc 0x08, u32At desc 0x28⟩

/-- The inner loop from descriptor `j` of block `i` on, with what has been pushed so far. -/
def pushDescs (geometry : Ext4Geometry) (descPerBlock i : BitVec 32) (buffer : List Byte) :
    Nat → Nat → List Ext4GroupDesc → Op D (List Ext4GroupDesc)
  | _, 0, descs => pure descs
  | j, n+1, descs =>
    if i * descPerBlock + BitVec.ofNat 32 j ≥ geometry.groupCount then pure descs else do
      let bytes ← sliceFrom buffer (BitVec.ofNat 32 j * geometry.descSize).toNat
      pushDescs geometry descPerBlock i buffer (j+1) n (descs ++ [descAt bytes geometry.descSize.toNat])

/-- The outer loop from block `i` on. -/
def pushBlocks (geometry : Ext4Geometry) (descPerBlock : BitVec 32) (descStart : BitVec 64) (buffer : List Byte) :
    Nat → Nat → List Ext4GroupDesc → Op D (List Ext4GroupDesc)
  | _, 0, descs => pure descs
  | i, n+1, descs => do
    let buffer ← readInto ops (descStart + BitVec.ofNat 64 i) buffer
    let descs ← pushDescs geometry descPerBlock (BitVec.ofNat 32 i) buffer 0 descPerBlock.toNat descs
    pushBlocks geometry descPerBlock descStart buffer (i+1) n descs

/-- The sum in the block count wraps at 32 bits. -/
def readGroupDescriptors (geometry : Ext4Geometry) : Op D (List Ext4GroupDesc) := do
  let descPerBlock ← divide geometry.blockSize geometry.descSize
  let descBlocks ← divide (geometry.groupCount + descPerBlock - 1) descPerBlock
  let buffer ← ofFs (Ext4Filesystem.kernelAllocBytes geometry.blockSize.toNat)
  let descStart := if geometry.blockSize = EXT4_MIN_BLOCK_SIZE then 2#64 else 1#64
  pushBlocks ops geometry descPerBlock descStart buffer 0 descBlocks.toNat []

/-- The block of an inode and its place in the block. -/
def inodePlace (geometry : Ext4Geometry) (groupDescs : List Ext4GroupDesc) (inodeNum : BitVec 32) :
    Op D (BitVec 64 × Nat) := do
  Fallible.require (inodeNum ≠ 0) (.err .invalid)
  let group ← divide (inodeNum - 1) geometry.inodesPerGroup
  let inGroup ← remainder (inodeNum - 1) geometry.inodesPerGroup
  Fallible.require (group < geometry.groupCount) (.err .invalid)
  let desc ← index groupDescs group.toNat
  let inodeTable := if geometry.use64bit
    then desc.bgInodeTableLo.setWidth 64 ||| (desc.bgInodeTableHi.setWidth 64 <<< 32)
    else desc.bgInodeTableLo.setWidth 64
  let blocks ← divide (inGroup * geometry.inodeSize) geometry.blockSize
  let offset ← remainder (inGroup * geometry.inodeSize) geometry.blockSize
  pure (inodeTable + blocks.setWidth 64, offset.toNat)

def readInode (geometry : Ext4Geometry) (groupDescs : List Ext4GroupDesc) (inodeNum : BitVec 32) :
    Op D Ext4Inode := do
  let place ← inodePlace geometry groupDescs inodeNum
  let buffer ← ofFs (Ext4Filesystem.kernelAllocBytes geometry.blockSize.toNat)
  let buffer ← readInto ops place.1 buffer
  let bytes ← sliceFrom buffer place.2
  inside strict bytes.length 160
  pure (inodeAt bytes 0)

/-! ### Running one step -/

section Run
variable {fs : Ext4Filesystem D}

theorem divide_run {w : Nat} {a b : BitVec w} (h : b ≠ 0) : divide a b fs = (.ok (a / b), fs) := by
  rw [divide, if_neg h]
  rfl

theorem divide_zero {w : Nat} {a b : BitVec w} (h : b = 0) : divide a b fs = (.error (.panic .divisionByZero), fs) := by
  rw [divide, if_pos h]
  rfl

theorem remainder_run {w : Nat} {a b : BitVec w} (h : b ≠ 0) : remainder a b fs = (.ok (a % b), fs) := by
  rw [remainder, if_neg h]
  rfl

theorem sliceFrom_run {buffer : List Byte} {start : Nat} (h : start ≤ buffer.length) :
    sliceFrom buffer start fs = (.ok (buffer.drop start), fs) := by
  rw [sliceFrom, if_pos h]
  rfl

theorem slice_run {buffer : List Byte} {start stop : Nat} (h : start ≤ stop) (h' : stop ≤ buffer.length) :
    slice buffer start stop fs = (.ok ((buffer.drop start).take (stop-start)), fs) := by
  rw [slice, if_pos ⟨h, h'⟩]
  rfl

theorem inside_lenient (room stop : Nat) : inside false room stop fs = (.ok (), fs) :=
  Fallible.require_run_pos _ (fun h => by cases h) fs

theorem index_run {α : Type} {v : List α} {i : Nat} (h : i < v.length) : index v i fs = (.ok v[i], fs) := by
  rw [index, List.getElem?_eq_getElem h]
  rfl

theorem index_past {α : Type} {v : List α} {i : Nat} (h : v.length ≤ i) :
    index v i fs = (.error (.panic .outOfRange), fs) := by
  rw [index, List.getElem?_eq_none h]
  rfl

end Run

/-! ### Panics -/

def Panics {α : Type} (r : Except DriverStop α) : Prop := ∃ why, r = .error (.panic why)

/-- Neither step of the mount panics from this state, and where both return `Ok` no later `read_inode` does. -/
structure SafeMount (ops : Ext4BlockOps D) (fs : Ext4Filesystem D) : Prop where
  superblock : ¬ Panics (readSuperblock ops fs).1
  descriptors : ∀ geometry fs₁, readSuperblock ops fs = (.ok geometry, fs₁) →
    ¬ Panics (readGroupDescriptors ops geometry fs₁).1
  inodes : ∀ geometry fs₁ descs fs₂, readSuperblock ops fs = (.ok geometry, fs₁) →
    readGroupDescriptors ops geometry fs₁ = (.ok descs, fs₂) →
    ∀ (fs' : Ext4Filesystem D) inodeNum, ¬ Panics (readInode false ops geometry descs inodeNum fs').1

/-- Whatever the device and the allocator do, a superblock that is read is this one. -/
def Stores (ops : Ext4BlockOps D) (fs : Ext4Filesystem D) (sb : PackedSuperblock) : Prop :=
  ∀ sb' fs', loadSuperblock ops fs = (.ok sb', fs') → sb' = sb

end Driver
end Nafuraito.Ext4
