import Nafuraito.Ext4.ExtentTree
import Nafuraito.Ext4.ImageLookup
import Nafuraito.Ext4.IndirectBlocks
import Nafuraito.Ext4.MountSafety
import Nafuraito.Library.Searches

/-! What the format promises of an image: its descriptors, inodes, block maps and directories. -/
namespace Nafuraito.Ext4
open Nafuraito.Library

namespace Ext4Inode

def isDir (inode : Ext4Inode) : Prop := u16At inode.bytes 0 &&& 0xF000#16 = 0x4000#16

def iSizeLo (inode : Ext4Inode) : BitVec 32 := u32At inode.bytes 0x04

def iLinksCount (inode : Ext4Inode) : BitVec 16 := u16At inode.bytes 0x1A

instance (inode : Ext4Inode) : Decidable inode.isDir := inferInstanceAs (Decidable (_ = _))

end Ext4Inode

/-! ### Block maps -/

/-- The root of the extent tree. -/
def rootNode (inode : Ext4Inode) : List Byte := inode.iBlockPtr.take 60

def treeDepth (inode : Ext4Inode) : Nat := (readHeader (rootNode inode)).ehDepth.toNat

/-- An inode as the format has them, with the number of blocks that its map can have. -/
structure IsFile (blocks : BitVec 64 → List Byte) (blockSize : Nat) (inode : Ext4Inode) : Prop where
  tree : inode.usesExtents → WellFormed blocks (treeDepth inode) 0 (2^32) (rootNode inode)
  size_tree : inode.usesExtents → inode.size64.toNat ≤ 2^32 * blockSize
  size_pointers : ¬inode.usesExtents → inode.size64.toNat ≤
    (12 + blockSize/4 + blockSize/4 * (blockSize/4) + blockSize/4 * (blockSize/4 * (blockSize/4))) * blockSize

theorem IsFile.node {blocks : BitVec 64 → List Byte} {blockSize : Nat} {inode : Ext4Inode}
    (h : IsFile blocks blockSize inode) (hext : inode.usesExtents) : IsNode (treeDepth inode) (rootNode inode) := by
  cases hd : treeDepth inode with
  | zero => exact (hd ▸ h.tree hext).1
  | succ depth => exact (hd ▸ h.tree hext).1

/-! ### Directories -/

/-- Where the entries of a directory block begin. -/
inductive EntryAt (block : List Byte) : Nat → Prop
  | first : EntryAt block 0
  | next {offset : Nat} (h : EntryAt block offset) (hlt : offset < block.length) :
      EntryAt block (offset + (readDirEntry block offset).recLen.toNat)

/-- An entry has room for its name in the block; one in use has a number that the format allows. -/
structure EntryOk (numbered : BitVec 32 → Prop) (block : List Byte) (offset : Nat) : Prop where
  name : 8 + (readDirEntry block offset).nameLen.toNat ≤ (readDirEntry block offset).recLen.toNat
  room : offset + (readDirEntry block offset).recLen.toNat ≤ block.length
  inode : (readDirEntry block offset).inode ≠ 0 → numbered (readDirEntry block offset).inode

def DirectoryBlock (numbered : BitVec 32 → Prop) (block : List Byte) : Prop :=
  ∀ offset, EntryAt block offset → offset < block.length → EntryOk numbered block offset

/-! ### Images -/

section Image
variable (image : BitVec 64 → List Byte) (geometry : Ext4Geometry)

/-- The number of blocks of so many bytes. -/
def Ext4Geometry.blocksOf (geometry : Ext4Geometry) (size : Nat) : Nat :=
  (size + geometry.blockSize.toNat - 1) / geometry.blockSize.toNat

/-- What a block of a directory has under a name; `none` also in a hole that the block map returns as 0. -/
def entryIn (inode : Ext4Inode) (name : List Byte) (k : Nat) : Except DriverStop (Option (BitVec 32)) :=
  match blockAt image geometry inode (BitVec.ofNat 64 k) with
  | .error e => .error e
  | .ok physical => .ok (if physical = 0 then none else findEntry (image physical) name geometry.blockSize.toNat 0)

/-- The block of the first group descriptors. -/
def descStart : BitVec 64 := if geometry.blockSize = EXT4_MIN_BLOCK_SIZE then 2#64 else 1#64

def descBlockOf (group : Nat) : BitVec 64 :=
  descStart geometry + BitVec.ofNat 64 (group / (geometry.blockSize.toNat / geometry.descSize.toNat))

/-- The descriptor of a group as the kernel copies it. -/
def groupDescOf (group : Nat) : Ext4GroupDesc :=
  Driver.descIn geometry (image (descBlockOf geometry group))
    (group % (geometry.blockSize.toNat / geometry.descSize.toNat))

def groupDescsOf : List Ext4GroupDesc := (List.range geometry.groupCount.toNat).map (groupDescOf image geometry)

def inodeIn (inodeNum : BitVec 32) : Except DriverStop Ext4Inode :=
  inodeOf image geometry (groupDescsOf image geometry) inodeNum

/-- The groups have the inode, and it is not a deleted one. -/
structure InUse (inodeNum : BitVec 32) : Prop where
  number : inodeNum ≠ 0
  group : (inodeNum - 1) / geometry.inodesPerGroup < geometry.groupCount
  links : ∀ inode, inodeIn image geometry inodeNum = .ok inode → inode.iLinksCount ≠ 0

end Image

/-- What the format promises of an image, and Linux checks in its superblock. -/
structure WellFormedImage (sb : PackedSuperblock) (image : BitVec 64 → List Byte) : Prop where
  magic : sb.sMagic = EXT4_SUPER_MAGIC
  blockSize : sb.blockSize = 1024#32 ∨ sb.blockSize = 2048#32 ∨ sb.blockSize = 4096#32
  blocks : ∀ block, (image block).length = sb.blockSize.toNat
  sound : sb.Sound
  descBlocks : sb.groupCount.toNat + 2 < 2^32
  inodesPerGroup : sb.sInodesPerGroup.toNat ≤ 8*sb.blockSize.toNat
  inodeSize : 128 ≤ sb.sInodeSize.toNat ∧ sb.sInodeSize.toNat ∣ sb.blockSize.toNat
  root : InUse image sb.geometry EXT4_ROOT_INODE
  files : ∀ inodeNum inode, InUse image sb.geometry inodeNum → inodeIn image sb.geometry inodeNum = .ok inode →
    IsFile image sb.blockSize.toNat inode
  directories : ∀ inodeNum inode, InUse image sb.geometry inodeNum → inodeIn image sb.geometry inodeNum = .ok inode →
    inode.isDir → ∀ k < sb.geometry.blocksOf inode.size64.toNat, ∀ physical,
      blockAt image sb.geometry inode (BitVec.ofNat 64 k) = .ok physical → physical ≠ 0 →
        DirectoryBlock (InUse image sb.geometry) (image physical)

/-! ### Directories that are searched -/

/-- What the search for a name looks at in an entry lies in the block. -/
structure ComparedInside (block name : List Byte) (offset : Nat) : Prop where
  header : offset + 8 ≤ block.length
  name : (readDirEntry block offset).nameLen.toNat = name.length → offset + 8 + name.length ≤ block.length

/-- All that the search for a name looks at, from the entry at `offset` on. -/
def SearchedInside (block name : List Byte) (offset : Nat) : Prop :=
  ∀ last, EntryFrom block name offset last → last < block.length → ComparedInside block name last

/-- In the blocks of the file, the search looks at nothing behind a block. -/
def SearchesInside (image : BitVec 64 → List Byte) (geometry : Ext4Geometry) (inode : Ext4Inode) (name : List Byte) :
    Prop :=
  ∀ k < geometry.blocksOf inode.size64.toNat, ∀ physical,
    blockAt image geometry inode (BitVec.ofNat 64 k) = .ok physical → physical ≠ 0 →
      SearchedInside (image physical) name 0

section Entries
variable {block name : List Byte} {offset last : Nat}

theorem EntryFrom.le (h : EntryFrom block name offset last) : offset ≤ last := by
  induction h with
  | here => exact le_rfl
  | next _ _ _ ih => exact (Nat.le_add_right _ _).trans ih

theorem EntryFrom.entryAt (h : EntryFrom block name offset last) (hat : EntryAt block offset)
    (hlast : last < block.length) : EntryAt block last := by
  induction h with
  | here => exact hat
  | next _ _ h ih => exact ih (.next hat (by have := h.le; omega)) hlast

theorem findEntry_some {n : Nat} {found : BitVec 32} (h : findEntry block name n offset = some found) :
    ∃ last, EntryFrom block name offset last ∧ last < block.length ∧ (readDirEntry block last).Named name ∧
      (readDirEntry block last).inode = found := by
  induction n generalizing offset with
  | zero => cases h
  | succ n ih =>
    rw [findEntry] at h
    by_cases hmore : offset < block.length ∧ (readDirEntry block offset).recLen ≠ 0
    · rw [if_pos hmore] at h
      by_cases hnamed : (readDirEntry block offset).Named name
      · rw [if_pos hnamed] at h
        exact ⟨offset, .here offset, hmore.1, hnamed, Option.some.inj h⟩
      · rw [if_neg hnamed] at h
        obtain ⟨last, hfrom, hlt, hlast⟩ := ih h
        exact ⟨last, .next hmore.2 hnamed hfrom, hlt, hlast⟩
    · rw [if_neg hmore] at h
      cases h

end Entries

/-- The search looks at nothing behind the blocks, and finds only inodes in use. -/
structure Searchable (image : BitVec 64 → List Byte) (geometry : Ext4Geometry) (inode : Ext4Inode) (name : List Byte) :
    Prop where
  inside : SearchesInside image geometry inode name
  found : ∀ k < geometry.blocksOf inode.size64.toNat, ∀ found, entryIn image geometry inode name k = .ok (some found) →
    InUse image geometry found

/-- A directory is searchable for every name. -/
theorem WellFormedImage.searchable {sb : PackedSuperblock} {image : BitVec 64 → List Byte}
    (hw : WellFormedImage sb image)
    {inodeNum : BitVec 32} {inode : Ext4Inode} (hn : InUse image sb.geometry inodeNum)
    (hinode : inodeIn image sb.geometry inodeNum = .ok inode) (hdir : inode.isDir) (name : List Byte) :
    Searchable image sb.geometry inode name where
  inside k hk physical hmap hne last hfrom hlast := by
    have hok := hw.directories inodeNum inode hn hinode hdir k hk physical hmap hne last
        (hfrom.entryAt .first hlast) hlast
    have := hok.name
    have := hok.room
    exact ⟨by omega, fun hlen => by omega⟩
  found k hk found hentry := by
    rw [entryIn] at hentry
    split at hentry
    · cases hentry
    next physical hmap =>
      have hentry := Except.ok.inj hentry
      split at hentry
      · cases hentry
      next hne =>
        obtain ⟨last, hfrom, hlast, hnamed, rfl⟩ := findEntry_some hentry
        exact (hw.directories inodeNum inode hn hinode hdir k hk physical hmap hne last
          (hfrom.entryAt .first hlast) hlast).inode hnamed.1

/-! ### The kernel's search -/

section Blocks
variable {geometry : Ext4Geometry} {size k : Nat} (hpos : 0 < geometry.blockSize.toNat)
include hpos

theorem lt_blocksOf : k < geometry.blocksOf size ↔ k*geometry.blockSize.toNat < size := by
  rw [Ext4Geometry.blocksOf, Nat.lt_iff_add_one_le, Nat.le_div_iff_mul_le hpos, Nat.succ_mul]
  omega

theorem blocksOf_mono {size' : Nat} (h : size ≤ size') : geometry.blocksOf size ≤ geometry.blocksOf size' :=
  Nat.div_le_div_right (by omega)

theorem blocksOf_le {n : Nat} (h : size ≤ n*geometry.blockSize.toNat) : geometry.blocksOf size ≤ n := by
  apply Nat.le_of_not_lt
  intro hlt
  exact Nat.not_lt.mpr h ((lt_blocksOf hpos).mp hlt)

end Blocks

/-- The offsets of the blocks in 64 bits. -/
theorem blockOffset {blockSize : BitVec 32} (hpos : 0 < blockSize.toNat) {k : Nat} (hk : k ≤ 2^32)
    (hle : blockSize.toNat ≤ 4096) :
    (BitVec.ofNat 64 (k*blockSize.toNat)).toNat = k*blockSize.toNat ∧
    BitVec.ofNat 64 (k*blockSize.toNat) / blockSize.setWidth 64 = BitVec.ofNat 64 k ∧
    BitVec.ofNat 64 (k*blockSize.toNat) + blockSize.setWidth 64 = BitVec.ofNat 64 ((k+1)*blockSize.toNat) := by
  have hmul : k*blockSize.toNat ≤ 2^32*4096 := Nat.mul_le_mul hk hle
  have hoffset : (BitVec.ofNat 64 (k*blockSize.toNat)).toNat = k*blockSize.toNat := Nat.mod_eq_of_lt (by omega)
  have hblock : (blockSize.setWidth 64).toNat = blockSize.toNat :=
    BitVec.toNat_setWidth_of_le (by decide)
  refine ⟨hoffset, BitVec.eq_of_toNat_eq ?_, BitVec.eq_of_toNat_eq ?_⟩
  · rw [BitVec.toNat_udiv, hoffset, hblock, Nat.mul_div_cancel k hpos, BitVec.toNat_ofNat, Nat.mod_eq_of_lt (by omega)]
  · rw [BitVec.toNat_add, hoffset, hblock, Nat.succ_mul, BitVec.toNat_ofNat]

section Search
variable {image : BitVec 64 → List Byte} {geometry : Ext4Geometry} {inode : Ext4Inode}

/-- The kernel's rounds are a search through the blocks. -/
theorem searchFrom_eq (hpos : 0 < geometry.blockSize.toNat) (hle : geometry.blockSize.toNat ≤ 4096)
    (hsize : inode.size64.toNat ≤ 2^32 * geometry.blockSize.toNat) (name : List Byte) (rounds k : Nat)
    (hk : k ≤ geometry.blocksOf inode.size64.toNat) (hrounds : geometry.blocksOf inode.size64.toNat < k + rounds) :
    searchFrom image geometry inode name rounds (BitVec.ofNat 64 (k*geometry.blockSize.toNat)) =
      search (entryIn image geometry inode name) (.err .notFound) k (geometry.blocksOf inode.size64.toNat - k) := by
  induction rounds generalizing k with
  | zero => omega
  | succ rounds ih =>
    obtain ⟨hoffset, hblock, hnext⟩ := blockOffset hpos (hk.trans (blocksOf_le hpos hsize)) hle
    have hlt : BitVec.ofNat 64 (k*geometry.blockSize.toNat) < inode.size64 ↔
        k < geometry.blocksOf inode.size64.toNat := by
      rw [BitVec.lt_def, hoffset, lt_blocksOf hpos]
    rw [searchFrom]
    by_cases hin : k < geometry.blocksOf inode.size64.toNat
    · have ih := ih (k+1) hin (by omega)
      have hcount : geometry.blocksOf inode.size64.toNat - k =
          geometry.blocksOf inode.size64.toNat - (k+1) + 1 := by omega
      rw [if_pos (hlt.mpr hin), hblock, hnext, hcount, search, entryIn]
      cases hphysical : blockAt image geometry inode (BitVec.ofNat 64 k) with
      | error e => rfl
      | ok physical =>
        by_cases hzero : physical = 0
        · simp only [if_pos hzero]
          exact ih
        · simp only [if_neg hzero]
          cases findEntry (image physical) name geometry.blockSize.toNat 0 with
          | some found => rfl
          | none => exact ih
    · rw [if_neg (fun h => hin (hlt.mp h)), Nat.sub_eq_zero_of_le (Nat.le_of_not_lt hin)]
      rfl

end Search

/-! ### The kernel's descriptors -/

namespace Driver
variable {D : Type} {ops : Ext4BlockOps D} {image : BitVec 64 → List Byte} {geometry : Ext4Geometry}
variable {good : Ext4Filesystem D → Prop}

/-- The descriptors of one block are those of the next groups. -/
private theorem descs_append {dpb : Nat} (hdpb : dpb = geometry.blockSize.toNat / geometry.descSize.toNat) {i m : Nat}
    (hm : m ≤ dpb) :
    (List.range (i*dpb)).map (groupDescOf image geometry) ++
        (List.range' 0 m).map (descIn geometry (image (descStart geometry + BitVec.ofNat 64 i))) =
      (List.range (i*dpb+m)).map (groupDescOf image geometry) := by
  rw [List.range_add, List.map_append, List.map_map, ← List.range_eq_range']
  congr 1
  apply List.map_congr_left
  intro j hj
  have hj : j < dpb := (List.mem_range.mp hj).trans_le hm
  have hdiv : (i*dpb+j)/dpb = i := by
    rw [Nat.mul_comm, Nat.mul_add_div (by omega), Nat.div_eq_of_lt hj, Nat.add_zero]
  have hmod : (i*dpb+j)%dpb = j := by
    rw [Nat.mul_comm, Nat.mul_add_mod, Nat.mod_eq_of_lt hj]
  rw [Function.comp_apply, groupDescOf, descBlockOf, ← hdpb, hdiv, hmod]

private theorem ReadsOnly.pushBlocks_returns (h : ReadsOnly ops image geometry good) {dpb : BitVec 32}
    (hfit : DescsFit geometry dpb) (hdpb : dpb.toNat = geometry.blockSize.toNat / geometry.descSize.toNat) {i n : Nat}
    (hin : (i+n)*dpb.toNat < geometry.groupCount.toNat + dpb.toNat) {buffer : List Byte}
    (hlen : buffer.length = geometry.blockSize.toNat) :
    Expected geometry good
      (.ok ((List.range (min geometry.groupCount.toNat ((i+n)*dpb.toNat))).map (groupDescOf image geometry)))
      (pushBlocks ops geometry dpb (descStart geometry) buffer i n
        ((List.range (min geometry.groupCount.toNat (i*dpb.toNat))).map (groupDescOf image geometry))) := by
  induction n generalizing i buffer with
  | zero => exact .pure _
  | succ n ih =>
    have hnext : (i+1)*dpb.toNat = i*dpb.toNat + dpb.toNat := Nat.succ_mul i _
    have hmono : (i+1)*dpb.toNat ≤ (i+(n+1))*dpb.toNat := Nat.mul_le_mul_right _ (by omega)
    have hlt : i*dpb.toNat < geometry.groupCount.toNat := by omega
    have hblock := h.length (descStart geometry + BitVec.ofNat 64 i)
    have hpush : pushDescs (D := D) geometry dpb (BitVec.ofNat 32 i) (image (descStart geometry + BitVec.ofNat 64 i)) 0
        dpb.toNat ((List.range (min geometry.groupCount.toNat (i*dpb.toNat))).map (groupDescOf image geometry)) =
        pure ((List.range (min geometry.groupCount.toNat ((i+1)*dpb.toNat))).map (groupDescOf image geometry)) := by
      funext fs
      rw [pushDescs_run hfit hblock hlt (by omega), Nat.min_eq_right hlt.le,
        descs_append hdpb (Nat.min_le_left _ _), hnext]
      congr 4
      omega
    rw [pushBlocks]
    apply Fallible.Returns.bind (h.readInto_returns _ hlen)
    rw [hpush]
    apply Fallible.Returns.bind (.pure _)
    rw [show i+(n+1) = i+1+n by omega] at hin ⊢
    exact ih hin hblock

/-- The descriptors that a mount reads. -/
theorem ReadsOnly.readGroupDescriptors_returns {sb : PackedSuperblock} (h : ReadsOnly ops image sb.geometry good)
    (hsound : sb.Sound) :
    Expected sb.geometry good (.ok (groupDescsOf image sb.geometry)) (readGroupDescriptors ops sb.geometry) := by
  have hpos := descPerBlock_pos hsound.descSize
  have hle := Nat.div_mul_le_self (sb.groupCount.toNat + sb.descPerBlock.toNat - 1) sb.descPerBlock.toNat
  have hge := Nat.lt_div_mul_add (a := sb.groupCount.toNat + sb.descPerBlock.toNat - 1) hpos
  have hpush := h.pushBlocks_returns (descsFit hsound.groups) BitVec.toNat_udiv (i := 0)
    (n := (sb.groupCount.toNat + sb.descPerBlock.toNat - 1) / sb.descPerBlock.toNat) (by
      rw [Nat.zero_add]
      change _ < sb.groupCount.toNat + _
      omega) (List.length_replicate : (List.replicate sb.blockSize.toNat (0 : Byte)).length = _)
  have hall : min sb.geometry.groupCount.toNat ((0 + (sb.groupCount.toNat + sb.descPerBlock.toNat - 1) /
      sb.descPerBlock.toNat) * sb.descPerBlock.toNat) = sb.geometry.groupCount.toNat := by
    rw [Nat.zero_add]
    change min sb.groupCount.toNat _ = sb.groupCount.toNat
    omega
  rw [hall, Nat.zero_mul, Nat.min_zero] at hpush
  rw [readGroupDescriptors_eq ops hsound.descSize, descBlocks_eq hsound.descSize hsound.groups]
  exact .bind (expected_ofFs h.alloc) hpush

end Driver
end Nafuraito.Ext4
