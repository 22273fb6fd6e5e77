import Nafuraito.Ext4.Mount

/-! Which superblocks the mount and the inode reads are safe on. -/
namespace Nafuraito.Ext4
open Nafuraito.Library

namespace PackedSuperblock
variable (sb : PackedSuperblock)

/-- `group_count` where `s_blocks_per_group` is not zero. -/
def groupCount : BitVec 32 :=
  ((sb.totalBlocks + sb.sBlocksPerGroup.setWidth 64 - 1) / sb.sBlocksPerGroup.setWidth 64).setWidth 32

def geometry : Ext4Geometry where
  blockSize := sb.blockSize
  blocksPerGroup := sb.sBlocksPerGroup
  inodesPerGroup := sb.sInodesPerGroup
  inodeSize := sb.sInodeSize.setWidth 32
  groupCount := sb.groupCount
  descSize := sb.descSize
  totalBlocks := sb.totalBlocks
  useExtents := sb.useExtents
  use64bit := sb.use64bit

def descPerBlock : BitVec 32 := sb.blockSize / sb.descSize

/-- The fields the divisions and the descriptor count depend on. -/
structure Sound : Prop where
  blocksPerGroup : sb.sBlocksPerGroup ≠ 0
  descSize : sb.descSize ≤ sb.blockSize
  groups : sb.groupCount.toNat + sb.descPerBlock.toNat ≤ 2^32
  inodesPerGroup : sb.sInodesPerGroup ≠ 0

end PackedSuperblock

namespace Driver
variable {D : Type} {ops : Ext4BlockOps D} {fs : Ext4Filesystem D}

section Panics
variable {α β : Type} {x : Op D α}

private theorem not_panics_ok (a : α) : ¬ Panics (.ok a) := fun ⟨_, h⟩ => by cases h

private theorem not_panics_err (e : Ext4Error) : ¬ Panics (α := α) (.error (.err e)) := fun ⟨_, h⟩ => by cases h

private theorem ofFs_err {x : Ext4Filesystem.Op D α} {e : DriverStop} {t : Ext4Filesystem D}
    (h : ofFs x fs = (.error e, t)) : ∃ e', e = .err e' := by
  change ((x fs).1.mapError DriverStop.err, (x fs).2) = _ at h
  rcases hx : (x fs).1 with e' | a
  · rw [hx] at h
    exact ⟨e', (Except.error.inj (Prod.mk.inj h).1).symm⟩
  · rw [hx] at h
    cases (Prod.mk.inj h).1

private theorem readInto_cases (ops : Ext4BlockOps D) (block : BitVec 64) (buffer : List Byte) (fs : Ext4Filesystem D) :
    (∃ data t, readInto ops block buffer fs = (.ok data, t) ∧ data.length = buffer.length) ∨
      ∃ e t, readInto ops block buffer fs = (.error (.err e), t) := by
  rcases h : ofFs (Ext4Filesystem.readBlock ops block buffer.length) fs with ⟨e | data, t⟩
  · obtain ⟨e', rfl⟩ := ofFs_err h
    exact .inr ⟨e', t, Fallible.bind_of_error h⟩
  · refine .inl ⟨_, t, Fallible.bind_of_ok h, ?_⟩
    rw [List.length_append, List.length_take, List.length_drop]
    omega

private theorem alloc_cases (size : Nat) (fs : Ext4Filesystem D) :
    (∃ t, ofFs (Ext4Filesystem.kernelAllocBytes size) fs = (.ok (List.replicate size 0), t)) ∨
      ∃ e t, ofFs (Ext4Filesystem.kernelAllocBytes size) fs = (.error (.err e), t) := by
  unfold ofFs Fallible.mapError Ext4Filesystem.kernelAllocBytes
  split_ifs
  · exact .inr ⟨_, _, rfl⟩
  · exact .inl ⟨_, rfl⟩
  · exact .inr ⟨_, _, rfl⟩

end Panics

/-! ### The superblock -/

private theorem loadSuperblock_safe (ops : Ext4BlockOps D) (fs : Ext4Filesystem D) :
    ¬ Panics (loadSuperblock ops fs).1 := by
  unfold loadSuperblock
  rcases alloc_cases 2048 fs with ⟨t, h⟩ | ⟨e, t, h⟩
  · rw [Fallible.bind_of_ok h]
    rcases readInto_cases ops 0 (List.replicate 2048 0) t with ⟨data, u, h', hlen⟩ | ⟨e, u, h'⟩
    · rw [List.length_replicate] at hlen
      rw [Fallible.bind_of_ok h', Fallible.bind_of_ok (slice_run (by decide) (by rw [hlen]; decide))]
      exact not_panics_ok _
    · rw [Fallible.bind_of_error h']
      exact not_panics_err e
  · rw [Fallible.bind_of_error h]
    exact not_panics_err e

private theorem setWidth_ne_zero {x : BitVec 32} (h : x ≠ 0) : x.setWidth 64 ≠ 0#64 := by
  intro h'
  apply h
  rw [← BitVec.toNat_inj, BitVec.toNat_setWidth] at h'
  rw [← BitVec.toNat_inj]
  have := x.isLt
  change x.toNat = 0
  change x.toNat % 2^64 = 0 at h'
  omega

variable {sb : PackedSuperblock} {t : Ext4Filesystem D}

private theorem readSuperblock_magic (h : loadSuperblock ops fs = (.ok sb, t)) (hm : sb.sMagic ≠ EXT4_SUPER_MAGIC) :
    readSuperblock ops fs = (.error (.err .invalidMagic), t) := by
  rw [readSuperblock, Fallible.bind_of_ok h, Fallible.bind_of_error (Fallible.require_run_neg _ hm t)]

private theorem readSuperblock_zero (h : loadSuperblock ops fs = (.ok sb, t)) (hm : sb.sMagic = EXT4_SUPER_MAGIC)
    (hz : sb.sBlocksPerGroup = 0) : readSuperblock ops fs = (.error (.panic .divisionByZero), t) := by
  rw [readSuperblock, Fallible.bind_of_ok h, Fallible.bind_of_ok (Fallible.require_run_pos _ hm t)]
  exact Fallible.bind_of_error (divide_zero (by rw [hz]; rfl))

private theorem readSuperblock_run (h : loadSuperblock ops fs = (.ok sb, t)) (hm : sb.sMagic = EXT4_SUPER_MAGIC)
    (hz : sb.sBlocksPerGroup ≠ 0) : readSuperblock ops fs = (.ok sb.geometry, t) := by
  rw [readSuperblock, Fallible.bind_of_ok h, Fallible.bind_of_ok (Fallible.require_run_pos _ hm t)]
  exact Fallible.bind_of_ok (divide_run (setWidth_ne_zero hz))

/-! ### The group descriptors -/

section Descriptors
variable {geometry : Ext4Geometry} {dpb : BitVec 32} {buffer : List Byte}

/-- What the loops rely on: a descriptor starts inside the block, and no index wraps. -/
structure DescsFit (geometry : Ext4Geometry) (dpb : BitVec 32) : Prop where
  block : dpb.toNat * geometry.descSize.toNat ≤ geometry.blockSize.toNat
  groups : geometry.groupCount.toNat + dpb.toNat ≤ 2^32

private theorem DescsFit.index (h : DescsFit geometry dpb) {i j : Nat} (hi : i*dpb.toNat < geometry.groupCount.toNat)
    (hj : j < dpb.toNat) : (BitVec.ofNat 32 i * dpb + BitVec.ofNat 32 j).toNat = i*dpb.toNat+j := by
  have hgroups := h.groups
  have hdpb := dpb.isLt
  have hle : i ≤ i*dpb.toNat := Nat.le_mul_of_pos_right i (by omega)
  have hi' : (BitVec.ofNat 32 i).toNat = i := Nat.mod_eq_of_lt (by omega)
  have hj' : (BitVec.ofNat 32 j).toNat = j := Nat.mod_eq_of_lt (by omega)
  rw [BitVec.toNat_add, BitVec.toNat_mul, hi', hj', Nat.mod_eq_of_lt (by omega : i*dpb.toNat < 2^32),
    Nat.mod_eq_of_lt (by omega)]

private theorem DescsFit.offset (h : DescsFit geometry dpb) {j : Nat} (hj : j < dpb.toNat) :
    (BitVec.ofNat 32 j * geometry.descSize).toNat = j*geometry.descSize.toNat ∧
      j*geometry.descSize.toNat ≤ geometry.blockSize.toNat := by
  have hle : j*geometry.descSize.toNat ≤ dpb.toNat*geometry.descSize.toNat := Nat.mul_le_mul_right _ (by omega)
  have hblock := h.block
  have hj' : (BitVec.ofNat 32 j).toNat = j := Nat.mod_eq_of_lt (by have := dpb.isLt; omega)
  have hlt := geometry.blockSize.isLt
  rw [BitVec.toNat_mul, hj', Nat.mod_eq_of_lt (by omega)]
  exact ⟨rfl, by omega⟩

/-- Descriptor `j` of a block. -/
def descIn (geometry : Ext4Geometry) (buffer : List Byte) (j : Nat) : Ext4GroupDesc :=
  descAt (buffer.drop (j*geometry.descSize.toNat)) geometry.descSize.toNat

/-- The inner loop never fails, and it goes on to the end of the block or the last group. -/
theorem pushDescs_run (h : DescsFit geometry dpb) (hbuf : buffer.length = geometry.blockSize.toNat) {i : Nat}
    (hi : i*dpb.toNat < geometry.groupCount.toNat) {j n : Nat} (hjn : j+n ≤ dpb.toNat) (descs : List Ext4GroupDesc)
    (fs : Ext4Filesystem D) :
    pushDescs geometry dpb (BitVec.ofNat 32 i) buffer j n descs fs =
      (.ok (descs ++
        (List.range' j (min n (geometry.groupCount.toNat - (i*dpb.toNat+j)))).map (descIn geometry buffer)),
        fs) := by
  induction n generalizing j descs with
  | zero =>
    rw [Nat.zero_min, List.range'_zero, List.map_nil, List.append_nil]
    rfl
  | succ n ih =>
    have hindex := h.index hi (by omega : j < dpb.toNat)
    rw [pushDescs]
    by_cases hlast : BitVec.ofNat 32 i * dpb + BitVec.ofNat 32 j ≥ geometry.groupCount
    · have hlast' : geometry.groupCount.toNat ≤ i*dpb.toNat+j := hindex ▸ BitVec.le_def.mp hlast
      rw [if_pos hlast, Nat.sub_eq_zero_of_le hlast', Nat.min_zero, List.range'_zero, List.map_nil, List.append_nil]
      rfl
    · have hlast' : i*dpb.toNat+j < geometry.groupCount.toNat := by
        rw [← hindex]
        exact BitVec.not_le.mp hlast
      obtain ⟨hoffset, hle⟩ := h.offset (by omega : j < dpb.toNat)
      have hcount : min (n+1) (geometry.groupCount.toNat - (i*dpb.toNat+j)) =
          min n (geometry.groupCount.toNat - (i*dpb.toNat+(j+1))) + 1 := by omega
      rw [if_neg hlast, hoffset, Fallible.bind_of_ok (sliceFrom_run (hbuf ▸ hle)), ih (by omega), hcount,
        List.range'_succ, List.map_cons, List.append_assoc]
      rfl

/-- The outer loop stops with an error of the device or goes through all its blocks. -/
private theorem pushBlocks_cases (ops : Ext4BlockOps D) (h : DescsFit geometry dpb) (descStart : BitVec 64)
    (buffer : List Byte) (hbuf : buffer.length = geometry.blockSize.toNat) {i n : Nat}
    (hin : (i+n)*dpb.toNat < geometry.groupCount.toNat + dpb.toNat) (descs : List Ext4GroupDesc)
    (hlen : descs.length = min geometry.groupCount.toNat (i*dpb.toNat)) (fs : Ext4Filesystem D) :
    (∃ descs' t, pushBlocks ops geometry dpb descStart buffer i n descs fs = (.ok descs', t) ∧
        descs'.length = min geometry.groupCount.toNat ((i+n)*dpb.toNat)) ∨
      ∃ e t, pushBlocks ops geometry dpb descStart buffer i n descs fs = (.error (.err e), t) ∧
        ∃ block buffer u, readInto ops block buffer u = (.error (.err e), t) := by
  induction n generalizing i buffer descs fs with
  | zero => exact .inl ⟨descs, fs, rfl, hlen⟩
  | succ n ih =>
    rw [pushBlocks]
    rcases readInto_cases ops (descStart + BitVec.ofNat 64 i) buffer fs with ⟨data, u, hread, hdata⟩ | ⟨e, u, hread⟩
    · have hnext : (i+1)*dpb.toNat = i*dpb.toNat + dpb.toNat := Nat.succ_mul i _
      have hmono : (i+1)*dpb.toNat ≤ (i+(n+1))*dpb.toNat := Nat.mul_le_mul_right _ (by omega)
      have hrun := pushDescs_run h (hdata.trans hbuf) (by omega : i*dpb.toNat < geometry.groupCount.toNat) (j := 0)
        (Nat.zero_add _).le descs u
      rw [Fallible.bind_of_ok hread, Fallible.bind_of_ok hrun, show i+(n+1) = i+1+n by omega]
      exact ih data (hdata.trans hbuf) (by rw [show i+1+n = i+(n+1) by omega]; exact hin) _ (by
        rw [List.length_append, List.length_map, List.length_range', hlen]
        omega) u
    · exact .inr ⟨e, u, Fallible.bind_of_error hread, _, _, _, hread⟩

end Descriptors

section Geometry

theorem descSize_ge (sb : PackedSuperblock) : 32 ≤ sb.descSize.toNat := by
  unfold PackedSuperblock.descSize
  split
  · split
    · decide
    · rename_i h
      exact BitVec.le_def.mp (BitVec.not_lt.mp h)
  · decide

private theorem descSize_pos (sb : PackedSuperblock) : 0 < sb.descSize.toNat :=
  Nat.lt_of_lt_of_le (by decide) (descSize_ge sb)

theorem descPerBlock_pos (h : sb.descSize ≤ sb.blockSize) : 0 < sb.descPerBlock.toNat := by
  rw [PackedSuperblock.descPerBlock, BitVec.toNat_udiv]
  exact Nat.div_pos (BitVec.le_def.mp h) (descSize_pos sb)

private theorem descPerBlock_zero (h : ¬ sb.descSize ≤ sb.blockSize) : sb.descPerBlock = 0 := by
  rw [← BitVec.toNat_inj, PackedSuperblock.descPerBlock, BitVec.toNat_udiv]
  exact Nat.div_eq_of_lt (BitVec.not_le.mp h)

private theorem descSize_ne (sb : PackedSuperblock) : sb.descSize ≠ 0 := by
  intro h
  have := descSize_pos sb
  rw [h] at this
  cases this

theorem descsFit (hg : sb.groupCount.toNat + sb.descPerBlock.toNat ≤ 2^32) : DescsFit sb.geometry sb.descPerBlock where
  block := by
    rw [PackedSuperblock.descPerBlock, BitVec.toNat_udiv]
    exact Nat.div_mul_le_self _ _
  groups := hg

private theorem descPerBlock_ne (h : sb.descSize ≤ sb.blockSize) : sb.descPerBlock ≠ 0 := by
  intro hz
  have hpos := descPerBlock_pos h
  rw [hz] at hpos
  cases hpos

/-- Where a block has room for a descriptor neither division fails. -/
theorem readGroupDescriptors_eq (ops : Ext4BlockOps D) (hsize : sb.descSize ≤ sb.blockSize) :
    readGroupDescriptors ops sb.geometry = (do
      let buffer ← ofFs (Ext4Filesystem.kernelAllocBytes sb.blockSize.toNat)
      pushBlocks ops sb.geometry sb.descPerBlock (if sb.blockSize = EXT4_MIN_BLOCK_SIZE then 2#64 else 1#64) buffer 0
        ((sb.groupCount + sb.descPerBlock - 1) / sb.descPerBlock).toNat []) := by
  funext fs
  have hdiv : divide (D := D) sb.geometry.blockSize sb.geometry.descSize fs = (.ok sb.descPerBlock, fs) :=
    divide_run (descSize_ne sb)
  have hdiv' : divide (D := D) (sb.geometry.groupCount + sb.descPerBlock - 1) sb.descPerBlock fs = (.ok _, fs) :=
    divide_run (descPerBlock_ne hsize)
  rw [readGroupDescriptors, Fallible.bind_of_ok hdiv, Fallible.bind_of_ok hdiv']
  rfl

/-- The number of blocks, rounded up. -/
theorem descBlocks_eq (hsize : sb.descSize ≤ sb.blockSize)
    (hg : sb.groupCount.toNat + sb.descPerBlock.toNat ≤ 2^32) :
    ((sb.groupCount + sb.descPerBlock - 1) / sb.descPerBlock).toNat =
      (sb.groupCount.toNat + sb.descPerBlock.toNat - 1) / sb.descPerBlock.toNat := by
  have hpos := descPerBlock_pos hsize
  have h₁ : (1 : BitVec 32).toNat = 1 := rfl
  have hlt := sb.groupCount.isLt
  rw [BitVec.toNat_udiv, BitVec.toNat_sub, BitVec.toNat_add, h₁]
  congr 1
  omega

/-- Where the count does not wrap the descriptors of all groups are read, if the device answers. -/
private theorem readGroupDescriptors_cases (ops : Ext4BlockOps D) (hsize : sb.descSize ≤ sb.blockSize)
    (hg : sb.groupCount.toNat + sb.descPerBlock.toNat ≤ 2^32) (fs : Ext4Filesystem D) :
    (∃ descs t, readGroupDescriptors ops sb.geometry fs = (.ok descs, t) ∧ descs.length = sb.groupCount.toNat) ∨
      ∃ e t, readGroupDescriptors ops sb.geometry fs = (.error (.err e), t) ∧
        ((∃ block buffer u, readInto ops block buffer u = (.error (.err e), t)) ∨
          ofFs (Ext4Filesystem.kernelAllocBytes sb.blockSize.toNat) fs = (.error (.err e), t)) := by
  have hpos := descPerBlock_pos hsize
  have hle := Nat.div_mul_le_self (sb.groupCount.toNat + sb.descPerBlock.toNat - 1) sb.descPerBlock.toNat
  have hge := Nat.lt_div_mul_add (a := sb.groupCount.toNat + sb.descPerBlock.toNat - 1) hpos
  rw [readGroupDescriptors_eq ops hsize, descBlocks_eq hsize hg]
  rcases alloc_cases sb.blockSize.toNat fs with ⟨u, halloc⟩ | ⟨e, u, halloc⟩
  · rw [Fallible.bind_of_ok halloc]
    have hcases := pushBlocks_cases ops (descsFit hg)
      (if sb.blockSize = EXT4_MIN_BLOCK_SIZE then 2#64 else 1#64)
      (List.replicate sb.blockSize.toNat 0) List.length_replicate (i := 0)
      (n := (sb.groupCount.toNat + sb.descPerBlock.toNat - 1) / sb.descPerBlock.toNat) (by
        rw [Nat.zero_add]
        change _ < sb.groupCount.toNat + _
        omega) [] (by simp) u
    rcases hcases with ⟨descs, t, hrun, hlen⟩ | ⟨e, t, hrun, hfail⟩
    · refine .inl ⟨descs, t, hrun, ?_⟩
      rw [hlen, Nat.zero_add]
      change min sb.groupCount.toNat _ = _
      omega
    · exact .inr ⟨e, t, hrun, .inl hfail⟩
  · exact .inr ⟨e, u, Fallible.bind_of_error halloc, .inr halloc⟩

end Geometry

/-! ### Inodes -/

section Inodes
variable {geometry : Ext4Geometry} {descs : List Ext4GroupDesc} {inodeNum : BitVec 32}

/-- With a descriptor for each group an inode that is not rejected has a place in a block. -/
private theorem inodePlace_cases (hipg : geometry.inodesPerGroup ≠ 0) (hblock : geometry.blockSize ≠ 0)
    (hlen : descs.length = geometry.groupCount.toNat) (inodeNum : BitVec 32) (fs : Ext4Filesystem D) :
    (∃ block offset, inodePlace geometry descs inodeNum fs = (.ok (block, offset), fs) ∧
      offset < geometry.blockSize.toNat) ∨ inodePlace geometry descs inodeNum fs = (.error (.err .invalid), fs) := by
  rw [inodePlace]
  by_cases h₀ : inodeNum ≠ 0
  · rw [Fallible.bind_of_ok (Fallible.require_run_pos _ h₀ fs), Fallible.bind_of_ok (divide_run hipg),
      Fallible.bind_of_ok (remainder_run hipg)]
    by_cases hgroup : (inodeNum - 1) / geometry.inodesPerGroup < geometry.groupCount
    · have hin : ((inodeNum - 1) / geometry.inodesPerGroup).toNat < descs.length := by
        rw [hlen]
        exact BitVec.lt_def.mp hgroup
      rw [Fallible.bind_of_ok (Fallible.require_run_pos _ hgroup fs), Fallible.bind_of_ok (index_run hin)]
      rw [Fallible.bind_of_ok (divide_run hblock), Fallible.bind_of_ok (remainder_run hblock)]
      refine .inl ⟨_, _, rfl, ?_⟩
      rw [BitVec.toNat_umod]
      apply Nat.mod_lt
      apply Nat.pos_of_ne_zero
      intro h
      exact hblock (BitVec.eq_of_toNat_eq h)
    · exact .inr (Fallible.bind_of_error (Fallible.require_run_neg _ hgroup fs))
  · exact .inr (Fallible.bind_of_error (Fallible.require_run_neg _ h₀ fs))

private theorem readInode_safe (hipg : geometry.inodesPerGroup ≠ 0) (hblock : geometry.blockSize ≠ 0)
    (hlen : descs.length = geometry.groupCount.toNat) :
      ¬ Panics (readInode false ops geometry descs inodeNum fs).1 := by
  rw [readInode]
  rcases inodePlace_cases hipg hblock hlen inodeNum fs with ⟨block, offset, hplace, hoff⟩ | hplace
  · rw [Fallible.bind_of_ok hplace]
    rcases alloc_cases geometry.blockSize.toNat fs with ⟨t, halloc⟩ | ⟨e, t, halloc⟩
    · rw [Fallible.bind_of_ok halloc]
      rcases readInto_cases ops block (List.replicate geometry.blockSize.toNat 0) t with
        ⟨data, u, hread, hdata⟩ | ⟨e, u, hread⟩
      · rw [List.length_replicate] at hdata
        rw [Fallible.bind_of_ok hread, Fallible.bind_of_ok (sliceFrom_run (by rw [hdata]; exact hoff.le)),
          Fallible.bind_of_ok (inside_lenient _ 160)]
        exact not_panics_ok _
      · rw [Fallible.bind_of_error hread]
        exact not_panics_err e
    · rw [Fallible.bind_of_error halloc]
      exact not_panics_err e
  · rw [Fallible.bind_of_error hplace]
    exact not_panics_err _

/-- Without inodes in a group the first division fails. -/
private theorem readInode_zero (hipg : geometry.inodesPerGroup = 0) :
    readInode false ops geometry descs 1 fs = (.error (.panic .divisionByZero), fs) := by
  rw [readInode, inodePlace, Fallible.bind_of_error]
  rw [Fallible.bind_of_ok (Fallible.require_run_pos _ (by decide) fs)]
  exact Fallible.bind_of_error (divide_zero hipg)

/-- Inode 1 lies in group 0, which has no descriptor where none was read. -/
private theorem readInode_past (hipg : geometry.inodesPerGroup ≠ 0) (hgroups : geometry.groupCount ≠ 0) :
    readInode false ops geometry [] 1 fs = (.error (.panic .outOfRange), fs) := by
  have hzero : (1 - 1 : BitVec 32) / geometry.inodesPerGroup = 0 := BitVec.zero_udiv
  have hgroup : (1 - 1 : BitVec 32) / geometry.inodesPerGroup < geometry.groupCount := by
    rw [hzero, BitVec.lt_def]
    apply Nat.pos_of_ne_zero
    intro h
    exact hgroups (BitVec.eq_of_toNat_eq h)
  rw [readInode, inodePlace, Fallible.bind_of_error]
  rw [Fallible.bind_of_ok (Fallible.require_run_pos _ (by decide) fs), Fallible.bind_of_ok (divide_run hipg),
    Fallible.bind_of_ok (remainder_run hipg), Fallible.bind_of_ok (Fallible.require_run_pos _ hgroup fs)]
  exact Fallible.bind_of_error (index_past (Nat.zero_le _))

end Inodes

/-! ### A device that answers -/

section Disk

/-- Every read succeeds; block 0 holds the superblock. -/
def diskOps (sb : PackedSuperblock) : Ext4BlockOps Unit where
  readBlock := some fun block _ d => (.ok (if block = 0 then List.replicate 1024 0 ++ sb.bytes else []), d)
  writeBlock := none
  sync := none

def freshFs : Ext4Filesystem Unit := ⟨(), none, 0, false, fun _ => true⟩

private theorem ofBytes_bytes (sb : PackedSuperblock) : PackedSuperblock.ofBytes sb.bytes = sb := by
  obtain ⟨bytes, hsize⟩ := sb
  have hlist : (List.range 1024).map (byteAt bytes) = bytes := by
    apply List.ext_getElem
    · rw [List.length_map, List.length_range, hsize]
    · intro i h₁ h₂
      rw [List.getElem_map, List.getElem_range, byteAt, List.getD_eq_getElem _ _ h₂]
  exact (PackedSuperblock.mk.injEq _ _ _ _).mpr hlist

private theorem disk_alloc {size : Nat} (hsize : size ≠ 0) :
    ofFs (Ext4Filesystem.kernelAllocBytes size) freshFs = (.ok (List.replicate size 0), freshFs) := by
  unfold ofFs Fallible.mapError Ext4Filesystem.kernelAllocBytes
  rw [if_neg hsize]
  rfl

private theorem disk_read (sb : PackedSuperblock) (block : BitVec 64) (buffer : List Byte) (fs : Ext4Filesystem Unit) :
    ∃ data t, readInto (diskOps sb) block buffer fs = (.ok data, t) := ⟨_, _, rfl⟩

private theorem disk_load (sb : PackedSuperblock) : loadSuperblock (diskOps sb) freshFs = (.ok sb, freshFs) := by
  have hdata : (List.replicate 1024 (0 : Byte) ++ sb.bytes).length = 2048 := by
    rw [List.length_append, List.length_replicate, sb.size]
  have hread : readInto (diskOps sb) 0 (List.replicate 2048 0) freshFs =
      (.ok (List.replicate 1024 0 ++ sb.bytes), freshFs) := by
    have hblock : ofFs (Ext4Filesystem.readBlock (diskOps sb) 0 (List.replicate 2048 (0 : Byte)).length) freshFs =
      (.ok (List.replicate 1024 0 ++ sb.bytes), freshFs) := rfl
    rw [readInto, Fallible.bind_of_ok hblock, List.length_replicate, ← hdata, List.take_length,
      List.drop_of_length_le (by rw [List.length_replicate]), List.append_nil]
    rfl
  rw [loadSuperblock, Fallible.bind_of_ok (disk_alloc (by decide)), Fallible.bind_of_ok hread,
    Fallible.bind_of_ok (slice_run (by decide) (by rw [hdata]; decide))]
  have hbytes : ((List.replicate 1024 (0 : Byte) ++ sb.bytes).drop 1024).take (1024+1024-1024) = sb.bytes := by
    rw [List.drop_left' List.length_replicate, List.take_of_length_le (by rw [sb.size])]
  exact congrArg (fun bytes => (Except.ok (PackedSuperblock.ofBytes bytes), freshFs)) hbytes |>.trans
    (congrArg (fun sb => (Except.ok sb, freshFs)) (ofBytes_bytes sb))

private theorem disk_descriptors (hsize : sb.descSize ≤ sb.blockSize)
    (hg : sb.groupCount.toNat + sb.descPerBlock.toNat ≤ 2^32) :
    ∃ descs t, readGroupDescriptors (diskOps sb) sb.geometry freshFs = (.ok descs, t) := by
  rcases readGroupDescriptors_cases (diskOps sb) hsize hg freshFs with ⟨descs, t, h, _⟩ |
    ⟨e, t, _, ⟨block, buffer, u, h⟩ | h⟩
  · exact ⟨descs, t, h⟩
  · obtain ⟨data, t', h'⟩ := disk_read sb block buffer u
    rw [h'] at h
    cases h
  · have hpos := descSize_pos sb
    have hle := BitVec.le_def.mp hsize
    rw [disk_alloc (by omega)] at h
    cases h

/-- Where the count of groups leads the block count to wrap, no block is read. -/
private theorem disk_wrap (hsize : sb.descSize ≤ sb.blockSize)
    (hg : ¬ sb.groupCount.toNat + sb.descPerBlock.toNat ≤ 2^32) :
    readGroupDescriptors (diskOps sb) sb.geometry freshFs = (.ok [], freshFs) := by
  have hpos := descPerBlock_pos hsize
  have hblocks : ((sb.groupCount + sb.descPerBlock - 1) / sb.descPerBlock).toNat = 0 := by
    have h₁ : (1 : BitVec 32).toNat = 1 := rfl
    have hlt := sb.groupCount.isLt
    have hlt' := sb.descPerBlock.isLt
    rw [BitVec.toNat_udiv]
    apply Nat.div_eq_of_lt
    rw [BitVec.toNat_sub, BitVec.toNat_add, h₁]
    omega
  have hle := BitVec.le_def.mp hsize
  have hsizePos := descSize_pos sb
  rw [readGroupDescriptors_eq _ hsize, Fallible.bind_of_ok (disk_alloc (show sb.blockSize.toNat ≠ 0 by omega)), hblocks]
  rfl

/-- A superblock on which the mount and the inode reads are safe on the device that answers is sound. -/
private theorem sound_of_safe (hm : sb.sMagic = EXT4_SUPER_MAGIC) (h : SafeMount (diskOps sb) freshFs) : sb.Sound := by
  have hload := disk_load sb
  have hbpg : sb.sBlocksPerGroup ≠ 0 := by
    intro hz
    apply h.superblock
    rw [readSuperblock_zero hload hm hz]
    exact ⟨_, rfl⟩
  have hrun := readSuperblock_run hload hm hbpg
  have hsize : sb.descSize ≤ sb.blockSize := by
    by_contra hsize
    apply h.descriptors _ _ hrun
    have hdiv : divide (D := Unit) sb.geometry.blockSize sb.geometry.descSize freshFs =
        (.ok sb.descPerBlock, freshFs) :=
      divide_run (descSize_ne sb)
    rw [readGroupDescriptors, Fallible.bind_of_ok hdiv, Fallible.bind_of_error (divide_zero (descPerBlock_zero hsize))]
    exact ⟨_, rfl⟩
  have hgroups : sb.groupCount.toNat + sb.descPerBlock.toNat ≤ 2^32 := by
    by_contra hg
    apply h.inodes _ _ _ _ hrun (disk_wrap hsize hg) freshFs 1
    by_cases hipg : sb.geometry.inodesPerGroup = 0
    · rw [readInode_zero hipg]
      exact ⟨_, rfl⟩
    · have hcount : sb.geometry.groupCount ≠ 0 := by
        intro hz
        have : sb.groupCount.toNat = 0 := congrArg BitVec.toNat hz
        have := sb.descPerBlock.isLt
        omega
      rw [readInode_past hipg hcount]
      exact ⟨_, rfl⟩
  refine ⟨hbpg, hsize, hgroups, fun hipg => ?_⟩
  obtain ⟨descs, t, hdescs⟩ := disk_descriptors hsize hgroups
  apply h.inodes _ _ _ _ hrun hdescs freshFs 1
  rw [readInode_zero hipg]
  exact ⟨_, rfl⟩

end Disk

private theorem safe_of_sound (hstores : Stores ops fs sb) (hsound : sb.sMagic = EXT4_SUPER_MAGIC → sb.Sound) :
    SafeMount ops fs := by
  have hmagic {sb' : PackedSuperblock} {u : Ext4Filesystem D} (h : loadSuperblock ops fs = (.ok sb', u))
      {geometry : Ext4Geometry}
      {fs₁ : Ext4Filesystem D} (hrun : readSuperblock ops fs = (.ok geometry, fs₁)) :
      sb.Sound ∧ geometry = sb.geometry := by
    obtain rfl := hstores sb' u h
    by_cases hm : sb'.sMagic = EXT4_SUPER_MAGIC
    · have hs := hsound hm
      rw [readSuperblock_run h hm hs.blocksPerGroup] at hrun
      exact ⟨hs, (Except.ok.inj (Prod.mk.inj hrun).1).symm⟩
    · rw [readSuperblock_magic h hm] at hrun
      cases hrun
  have hloaded {geometry : Ext4Geometry} {fs₁ : Ext4Filesystem D} (hrun : readSuperblock ops fs = (.ok geometry, fs₁)) :
      sb.Sound ∧ geometry = sb.geometry := by
    rcases h : loadSuperblock ops fs with ⟨e | sb', u⟩
    · rw [readSuperblock, Fallible.bind_of_error h] at hrun
      cases hrun
    · exact hmagic h hrun
  refine ⟨?_, fun geometry fs₁ hrun => ?_, fun geometry fs₁ descs fs₂ hrun hdescs fs' inodeNum => ?_⟩
  · rcases h : loadSuperblock ops fs with ⟨e | sb', u⟩
    · rw [readSuperblock, Fallible.bind_of_error h]
      have hsafe := loadSuperblock_safe ops fs
      rw [h] at hsafe
      rintro ⟨why, he⟩
      exact hsafe ⟨why, by rw [Except.error.inj he]⟩
    · obtain rfl := hstores sb' u h
      by_cases hm : sb'.sMagic = EXT4_SUPER_MAGIC
      · rw [readSuperblock_run h hm (hsound hm).blocksPerGroup]
        exact not_panics_ok _
      · rw [readSuperblock_magic h hm]
        exact not_panics_err _
  · obtain ⟨hs, rfl⟩ := hloaded hrun
    rcases readGroupDescriptors_cases ops hs.descSize hs.groups fs₁ with ⟨descs, t, h, _⟩ | ⟨e, t, h, _⟩
    · rw [h]
      exact not_panics_ok _
    · rw [h]
      exact not_panics_err e
  · obtain ⟨hs, rfl⟩ := hloaded hrun
    have hblock : sb.geometry.blockSize ≠ 0 := by
      intro hz
      have hle := BitVec.le_def.mp hs.descSize
      have hpos := descSize_pos sb
      have : sb.blockSize.toNat = 0 := congrArg BitVec.toNat hz
      omega
    rcases readGroupDescriptors_cases ops hs.descSize hs.groups fs₁ with ⟨descs', t, h, hlen⟩ | ⟨e, t, h, _⟩
    · obtain rfl := Except.ok.inj (Prod.mk.inj (h.symm.trans hdescs)).1
      exact readInode_safe hs.inodesPerGroup hblock hlen
    · rw [h] at hdescs
      cases hdescs

/-- A superblock is safe on every device and with every allocator exactly if the mount rejects it or its
counts and sizes are sound. -/
theorem mount_safe_iff (sb : PackedSuperblock) :
    (∀ (D : Type) (ops : Ext4BlockOps D) (fs : Ext4Filesystem D), Stores ops fs sb → SafeMount ops fs) ↔
      (sb.sMagic = EXT4_SUPER_MAGIC → sb.Sound) := by
  constructor
  · intro h hm
    apply sound_of_safe hm
    apply h
    intro sb' fs' hload
    exact (Except.ok.inj (Prod.mk.inj ((disk_load sb).symm.trans hload)).1).symm
  · intro hsound D ops fs hstores
    exact safe_of_sound hstores hsound

/-- All zeros but the magic number. -/
def magicOnly : PackedSuperblock := .ofBytes (List.replicate 56 0 ++ [0x53#8, 0xEF#8])

theorem magicOnly_panics : (readSuperblock (diskOps magicOnly) freshFs).1 = .error (.panic .divisionByZero) ∧
    ¬ SafeMount (diskOps magicOnly) freshFs := by
  have hrun := readSuperblock_zero (disk_load magicOnly) (by decide +kernel) (by decide +kernel)
  refine ⟨by rw [hrun], fun h => h.superblock ?_⟩
  rw [hrun]
  exact ⟨_, rfl⟩

end Driver
end Nafuraito.Ext4
