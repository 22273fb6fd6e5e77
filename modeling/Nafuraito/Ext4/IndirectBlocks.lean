import Nafuraito.Ext4.ParseBounds

/-! Indirect block maps as the format defines them, and what the kernel's lookup makes of their holes. -/
namespace Nafuraito.Ext4
open Nafuraito.Library

/-! ### The scheme -/

section Scheme
variable (image : BitVec 64 → List Byte)

/-- The block that the indices lead to through pointer blocks. A zero pointer is a hole. -/
def blockUnder : BitVec 64 → List Nat → BitVec 64
  | ptr, [] => ptr
  | ptr, i :: indices => if ptr = 0 then 0 else blockUnder (ptrAt (image ptr) i) indices

/-- The logical blocks of an inode: first the direct ones, then those under each indirect pointer in turn. -/
inductive Maps (ptrsPerBlock : Nat) (inode : Ext4Inode) : Nat → BitVec 64 → Prop
  | direct {n : Nat} (h : n < EXT4_NDIR_BLOCKS) : Maps ptrsPerBlock inode n ((inode.iBlock n).setWidth 64)
  | single {i : Nat} (hi : i < ptrsPerBlock) : Maps ptrsPerBlock inode (EXT4_NDIR_BLOCKS + i)
      (blockUnder image ((inode.iBlock EXT4_IND_BLOCK).setWidth 64) [i])
  | double {i j : Nat} (hi : i < ptrsPerBlock) (hj : j < ptrsPerBlock) :
      Maps ptrsPerBlock inode (EXT4_NDIR_BLOCKS + ptrsPerBlock + (i*ptrsPerBlock + j))
        (blockUnder image ((inode.iBlock EXT4_DIND_BLOCK).setWidth 64) [i, j])
  | triple {i j k : Nat} (hi : i < ptrsPerBlock) (hj : j < ptrsPerBlock) (hk : k < ptrsPerBlock) :
      Maps ptrsPerBlock inode
        (EXT4_NDIR_BLOCKS + ptrsPerBlock + ptrsPerBlock*ptrsPerBlock + ((i*ptrsPerBlock + j)*ptrsPerBlock + k))
        (blockUnder image ((inode.iBlock EXT4_TIND_BLOCK).setWidth 64) [i, j, k])

/-- A lookup returns the block of the scheme, and an error past its last block. -/
structure FollowsScheme (ptrsPerBlock : Nat) (inode : Ext4Inode) (logicalBlock : Nat)
    (r : Except DriverStop (BitVec 64)) : Prop where
  block : ∀ ptr, Maps image ptrsPerBlock inode logicalBlock ptr → r = .ok ptr
  past : (∀ ptr, ¬ Maps image ptrsPerBlock inode logicalBlock ptr) → ∃ e, r = .error (.err e)

/-! ### The kernel's way -/

/-- The pointer of the inode for a logical block, and the indices from there. -/
def pathOf (ptrsPerBlock n : Nat) : Nat × List Nat :=
  let single := n - EXT4_NDIR_BLOCKS
  let double := single - ptrsPerBlock
  let triple := double - ptrsPerBlock*ptrsPerBlock
  if n < EXT4_NDIR_BLOCKS then (n, [])
  else if single < ptrsPerBlock then (EXT4_IND_BLOCK, [single])
  else if double < ptrsPerBlock*ptrsPerBlock then (EXT4_DIND_BLOCK, [double / ptrsPerBlock, double % ptrsPerBlock])
  else (EXT4_TIND_BLOCK,
    [triple / (ptrsPerBlock*ptrsPerBlock), triple / ptrsPerBlock % ptrsPerBlock, triple % ptrsPerBlock])

/-- The block that the indices lead to when every pointer is followed, also to block 0. -/
def follow : BitVec 64 → List Nat → BitVec 64
  | ptr, [] => ptr
  | ptr, i :: indices => follow (ptrAt (image ptr) i) indices

/-- From the first zero pointer on the way, block 0 read as pointers leads to 0. -/
def HolesLeadToZero : BitVec 64 → List Nat → Prop
  | _, [] => True
  | ptr, i :: indices =>
    if ptr = 0 then follow image 0 (i :: indices) = 0 else HolesLeadToZero (ptrAt (image ptr) i) indices

variable {image} {ptrsPerBlock : Nat} {inode : Ext4Inode} {n : Nat} {ptr : BitVec 64}

theorem follow_eq_iff (indices : List Nat) :
    follow image ptr indices = blockUnder image ptr indices ↔ HolesLeadToZero image ptr indices := by
  induction indices generalizing ptr with
  | nil => exact iff_of_true rfl trivial
  | cons i indices ih =>
    rw [blockUnder, HolesLeadToZero]
    by_cases hzero : ptr = 0
    · rw [if_pos hzero, if_pos hzero, hzero]
    · rw [if_neg hzero, if_neg hzero]
      exact ih

theorem pointerAt_eq_follow : pointerAt image ptrsPerBlock inode n =
    follow image ((inode.iBlock (pathOf ptrsPerBlock n).1).setWidth 64) (pathOf ptrsPerBlock n).2 := by
  rw [pointerAt, pathOf]
  dsimp only
  split
  · rfl
  · split
    · rfl
    · split <;> rfl

/-- The block number of a direct or indirect pointer divides into its indices in one way. -/
private theorem pathOf_maps (hpos : 0 < ptrsPerBlock) (h : Maps image ptrsPerBlock inode n ptr) :
    n < EXT4_NDIR_BLOCKS + ptrsPerBlock + ptrsPerBlock*ptrsPerBlock + ptrsPerBlock*(ptrsPerBlock*ptrsPerBlock) ∧
      ptr = blockUnder image ((inode.iBlock (pathOf ptrsPerBlock n).1).setWidth 64) (pathOf ptrsPerBlock n).2 := by
  have hmul {i m : Nat} (hi : i < ptrsPerBlock) (hm : m < ptrsPerBlock) :
      i*ptrsPerBlock + m < ptrsPerBlock*ptrsPerBlock := by
    have := Nat.mul_le_mul_right ptrsPerBlock (Nat.succ_le_of_lt hi)
    rw [Nat.succ_mul] at this
    omega
  have hdiv {i m : Nat} (hm : m < ptrsPerBlock) : (i*ptrsPerBlock + m) / ptrsPerBlock = i := by
    rw [Nat.mul_comm, Nat.mul_add_div hpos, Nat.div_eq_of_lt hm, Nat.add_zero]
  have hmod {i m : Nat} (hm : m < ptrsPerBlock) : (i*ptrsPerBlock + m) % ptrsPerBlock = m := by
    rw [Nat.mul_comm, Nat.mul_add_mod, Nat.mod_eq_of_lt hm]
  cases h with
  | direct h =>
    rw [pathOf]
    rw [if_pos h]
    exact ⟨by omega, rfl⟩
  | @single i hi =>
    rw [pathOf]
    rw [if_neg (by omega), if_pos (by omega), Nat.add_sub_cancel_left]
    exact ⟨by omega, rfl⟩
  | @double i j hi hj =>
    have hlt := hmul hi hj
    have hsub : EXT4_NDIR_BLOCKS + ptrsPerBlock + (i*ptrsPerBlock + j) - EXT4_NDIR_BLOCKS - ptrsPerBlock =
        i*ptrsPerBlock + j := by omega
    rw [pathOf]
    rw [if_neg (by omega), if_neg (by omega), hsub, if_pos hlt, hdiv hj, hmod hj]
    exact ⟨by omega, rfl⟩
  | @triple i j k hi hj hk =>
    have hlt := hmul hi hj
    have hcube : (i*ptrsPerBlock + j)*ptrsPerBlock + k < ptrsPerBlock*(ptrsPerBlock*ptrsPerBlock) := by
      have := Nat.mul_le_mul_right ptrsPerBlock (Nat.succ_le_of_lt hlt)
      rw [Nat.succ_mul, Nat.mul_comm (ptrsPerBlock*ptrsPerBlock)] at this
      omega
    have hsub : EXT4_NDIR_BLOCKS + ptrsPerBlock + ptrsPerBlock*ptrsPerBlock + ((i*ptrsPerBlock + j)*ptrsPerBlock + k) -
        EXT4_NDIR_BLOCKS - ptrsPerBlock - ptrsPerBlock*ptrsPerBlock = (i*ptrsPerBlock + j)*ptrsPerBlock + k := by omega
    rw [pathOf]
    rw [if_neg (by omega), if_neg (by omega), if_neg (by omega), hsub, ← Nat.div_div_eq_div_mul, hdiv hk, hdiv hj,
      hmod hj, hmod hk]
    exact ⟨by omega, rfl⟩

/-- The scheme gives every block below its end the pointer on the kernel's way. -/
theorem maps_iff (hpos : 0 < ptrsPerBlock) : Maps image ptrsPerBlock inode n ptr ↔
    n < EXT4_NDIR_BLOCKS + ptrsPerBlock + ptrsPerBlock*ptrsPerBlock + ptrsPerBlock*(ptrsPerBlock*ptrsPerBlock) ∧
      ptr = blockUnder image ((inode.iBlock (pathOf ptrsPerBlock n).1).setWidth 64) (pathOf ptrsPerBlock n).2 := by
  refine ⟨pathOf_maps hpos, ?_⟩
  rintro ⟨hlt, rfl⟩
  have hdiv {m k : Nat} (h : m < ptrsPerBlock*k) : m / ptrsPerBlock < k := Nat.div_lt_of_lt_mul h
  have hmod (m : Nat) : m % ptrsPerBlock < ptrsPerBlock := Nat.mod_lt m hpos
  have hsum (m : Nat) : m / ptrsPerBlock * ptrsPerBlock + m % ptrsPerBlock = m := Nat.div_add_mod' m ptrsPerBlock
  rw [pathOf]
  by_cases hdirect : n < EXT4_NDIR_BLOCKS
  · rw [if_pos hdirect]
    exact .direct hdirect
  · rw [if_neg hdirect]
    by_cases hsingle : n - EXT4_NDIR_BLOCKS < ptrsPerBlock
    · rw [if_pos hsingle]
      have h : Maps image ptrsPerBlock inode _ _ := .single hsingle
      rwa [Nat.add_sub_cancel' (Nat.le_of_not_lt hdirect)] at h
    · rw [if_neg hsingle]
      by_cases hdouble : n - EXT4_NDIR_BLOCKS - ptrsPerBlock < ptrsPerBlock*ptrsPerBlock
      · rw [if_pos hdouble]
        have h : Maps image ptrsPerBlock inode _ _ :=
          .double (hdiv hdouble) (hmod (n - EXT4_NDIR_BLOCKS - ptrsPerBlock))
        rwa [hsum, show EXT4_NDIR_BLOCKS + ptrsPerBlock + (n - EXT4_NDIR_BLOCKS - ptrsPerBlock) = n by omega] at h
      · rw [if_neg hdouble]
        generalize hm : n - EXT4_NDIR_BLOCKS - ptrsPerBlock - ptrsPerBlock*ptrsPerBlock = m
        have hcube : m < ptrsPerBlock*(ptrsPerBlock*ptrsPerBlock) := by omega
        have h : Maps image ptrsPerBlock inode _ _ := .triple (hdiv (hdiv hcube)) (hmod (m / ptrsPerBlock)) (hmod m)
        rw [hsum, hsum, Nat.div_div_eq_div_mul] at h
        rwa [show EXT4_NDIR_BLOCKS + ptrsPerBlock + ptrsPerBlock*ptrsPerBlock + m = n by omega] at h

end Scheme

/-! ### The lookup -/

namespace Driver
variable {D : Type} {ops : Ext4BlockOps D} {image : BitVec 64 → List Byte} {geometry : Ext4Geometry}
variable {good : Ext4Filesystem D → Prop} {fs : Ext4Filesystem D}

/-- Where the blocks are read, the lookup follows the scheme exactly for the blocks that have a triple-indirect
pointer or an earlier one, on whose way each hole leads to 0 through block 0. -/
theorem getBlockIndirect_scheme_iff (h : ReadsOnly ops image geometry good) (hs : fs.blockSize = geometry.blockSize)
    (hg : good fs) (hsize : 1024 ≤ geometry.blockSize.toNat) (inode : Ext4Inode) (logicalBlock : BitVec 64) :
    FollowsScheme image (geometry.blockSize.toNat / 4) inode logicalBlock.toNat
        (getBlockIndirect ops geometry inode logicalBlock fs).1 ↔
      logicalBlock.toNat < indirectBlocks geometry ∧
        HolesLeadToZero image
          ((inode.iBlock (pathOf (geometry.blockSize.toNat / 4) logicalBlock.toNat).1).setWidth 64)
          (pathOf (geometry.blockSize.toNat / 4) logicalBlock.toNat).2 := by
  have hpos : 0 < geometry.blockSize.toNat / 4 := Nat.div_pos (by omega) (by decide)
  have hmaps (ptr : BitVec 64) : Maps image (geometry.blockSize.toNat / 4) inode logicalBlock.toNat ptr ↔ _ :=
    maps_iff hpos
  rw [(h.indirect_returns inode logicalBlock).eq hs hg, ← follow_eq_iff]
  constructor
  · intro hf
    by_cases hlt : logicalBlock.toNat < indirectBlocks geometry
    · have hblock := hf.block _ ((hmaps _).mpr ⟨hlt, rfl⟩)
      rw [if_pos hlt, pointerAt_eq_follow] at hblock
      exact ⟨hlt, Except.ok.inj hblock⟩
    · obtain ⟨e, he⟩ := hf.past fun ptr hptr => hlt ((hmaps ptr).mp hptr).1
      rw [if_neg hlt] at he
      cases he
  · rintro ⟨hlt, hfollow⟩
    rw [if_pos hlt, pointerAt_eq_follow, hfollow]
    refine ⟨fun ptr hptr => ?_, fun hnone => absurd ((hmaps _).mpr ⟨hlt, rfl⟩) (hnone _)⟩
    rw [((hmaps ptr).mp hptr).2]

open Ext4Filesystem (zeroInode)

/-- A hole on a device whose first block is empty. -/
theorem getBlockIndirect_scheme_hole : FollowsScheme (fun _ => List.replicate 1024 0) 256 zeroInode 12
    (getBlockIndirect (imageOps fun _ => List.replicate 1024 0) magicOnly.geometry zeroInode 12#64
      (imageFs magicOnly.geometry.blockSize)).1 := by
  have hblock : magicOnly.geometry.blockSize.toNat = 1024 := by decide +kernel
  have hread : ReadsOnly (imageOps fun _ => List.replicate 1024 0) (fun _ => List.replicate 1024 0) magicOnly.geometry
      (fun fs => ∀ n, fs.kmalloc n = true) :=
    imageOps_readsOnly (by omega) fun _ => List.length_replicate.trans hblock.symm
  have hiff := getBlockIndirect_scheme_iff hread (rfl : (imageFs magicOnly.geometry.blockSize).blockSize = _)
    (fun _ => rfl) (by omega) zeroInode 12#64
  rw [hblock] at hiff
  refine hiff.mpr ⟨?_, ?_⟩
  · rw [indirectBlocks, hblock]
    decide
  · have hpath : pathOf (1024/4) (12#64).toNat = (12, [0]) := by decide
    have hzero : (zeroInode.iBlock 12).setWidth 64 = 0#64 := by decide
    rw [hpath, hzero]
    exact (if_pos rfl).mpr (by decide)

/-- A block 0 whose first word is 7. -/
def bootBlockSeven (block : BitVec 64) : List Byte :=
  if block = 0 then 7#8 :: List.replicate 1023 0 else List.replicate 1024 0

/-- A hole is mapped to the block that block 0 names, and past the triple-indirect blocks the index panics. -/
theorem hole_followed : (getBlockIndirect (imageOps bootBlockSeven) magicOnly.geometry zeroInode 12#64
      (imageFs magicOnly.geometry.blockSize)).1 = .ok 7 ∧
    ¬ FollowsScheme bootBlockSeven 256 zeroInode 12 (getBlockIndirect (imageOps bootBlockSeven) magicOnly.geometry
      zeroInode 12#64 (imageFs magicOnly.geometry.blockSize)).1 ∧
    (getBlockIndirect (imageOps bootBlockSeven) magicOnly.geometry zeroInode 0x100000000#64
      (imageFs magicOnly.geometry.blockSize)).1 = .error (.panic .outOfRange) := by
  have hseven : (getBlockIndirect (imageOps bootBlockSeven) magicOnly.geometry zeroInode 12#64
      (imageFs magicOnly.geometry.blockSize)).1 = .ok 7 := by decide +kernel
  refine ⟨hseven, fun h => ?_, by decide +kernel⟩
  have hmaps : Maps bootBlockSeven 256 zeroInode 12
      (blockUnder bootBlockSeven ((zeroInode.iBlock 12).setWidth 64) [0]) :=
    Maps.single (show 0 < 256 by decide)
  have hhole : blockUnder bootBlockSeven ((zeroInode.iBlock 12).setWidth 64) [0] = 0 := by decide +kernel
  have hok := h.block _ hmaps
  rw [hseven, hhole] at hok
  cases hok

end Driver
end Nafuraito.Ext4
