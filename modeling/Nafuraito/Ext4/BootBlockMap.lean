import Nafuraito.Ext4.ExtentTree

/-! The bootloader's block map, and its agreement with the kernel's. -/
namespace Nafuraito.Ext4.Boot
open Nafuraito.Library

/-- The field of the context that the block map reads. -/
structure Ext4BootCtx where
  blockSize : BitVec 32

section Model
variable (ext4ReadBlock : BitVec 64 → Option (List Byte))

/-- `block_buffer2` after a read: a short block leaves the end of the buffer as it was. -/
def loadBlock (block : BitVec 64) (blockBuffer2 : List Byte) : Option (List Byte) :=
  (ext4ReadBlock block).map fun data => data ++ blockBuffer2.drop data.length

/-- The index loop. The block number keeps its 64 bits. -/
def scanIdx (header : List Byte) (logicalBlock : BitVec 64) : Nat → Nat → Option Ext4ExtentIdx →
    Option Ext4ExtentIdx
  | _, 0, best => best
  | i, n+1, best =>
    let idx := readIdx header i
    if idx.eiBlock.setWidth 64 ≤ logicalBlock then scanIdx header logicalBlock (i+1) n (some idx) else best

/-- The `while` loop: from the second round on the header lies in `block_buffer2`, which the
next read overwrites. `none` where the source returns 0. -/
def walkIndex (logicalBlock : BitVec 64) : Nat → List Byte → List Byte → Option (List Byte)
  | 0, header, _ => some header
  | depth+1, header, blockBuffer2 =>
    (scanIdx header logicalBlock 0 (readHeader header).ehEntries.toNat none).bind fun best =>
      let physicalBlock := best.eiLeafLo.setWidth 64 ||| (best.eiLeafHi.setWidth 64 <<< 32)
      (loadBlock ext4ReadBlock physicalBlock blockBuffer2).bind fun blockBuffer2 =>
        walkIndex logicalBlock depth blockBuffer2 blockBuffer2

/-- The leaf loop. `ee_block + ee_len` is a sum of 32 bits. -/
def scanExtent (header : List Byte) (logicalBlock : BitVec 64) : Nat → Nat → BitVec 64
  | _, 0 => 0
  | i, n+1 =>
    let extent := readExtent header i
    let eeLen := extent.eeLen &&& 0x7FFF#16
    if logicalBlock ≥ extent.eeBlock.setWidth 64 ∧
        logicalBlock < (extent.eeBlock + eeLen.setWidth 32).setWidth 64 then
      (extent.eeStartLo.setWidth 64 ||| (extent.eeStartHi.setWidth 64 <<< 32)) +
        (logicalBlock - extent.eeBlock.setWidth 64)
    else scanExtent header logicalBlock (i+1) n

def ext4GetBlockExtent (inode : Ext4Inode) (logicalBlock : BitVec 64) (blockBuffer2 : List Byte) : BitVec 64 :=
  let header := readHeader inode.iBlockPtr
  if header.ehMagic ≠ EXT4_EXT_MAGIC then 0
  else match walkIndex ext4ReadBlock logicalBlock header.ehDepth.toNat inode.iBlockPtr blockBuffer2 with
    | none => 0
    | some leaf => scanExtent leaf logicalBlock 0 (readHeader leaf).ehEntries.toNat

/-- The pointers after the direct ones; `none` where a read fails. -/
def walkIndirect (ctx : Ext4BootCtx) (inode : Ext4Inode) (logicalBlock : Nat) (blockBuffer2 : List Byte) :
    Option (BitVec 64) :=
  let ptrsPerBlock := ctx.blockSize.toNat / 4
  let square := ptrsPerBlock*ptrsPerBlock % 2^32
  let read := loadBlock ext4ReadBlock
  if logicalBlock < ptrsPerBlock then
    (read ((inode.iBlock EXT4_IND_BLOCK).setWidth 64) blockBuffer2).map fun buffer => ptrAt buffer logicalBlock
  else
    let logicalBlock := logicalBlock - ptrsPerBlock
    if logicalBlock < square then
      (read ((inode.iBlock EXT4_DIND_BLOCK).setWidth 64) blockBuffer2).bind fun buffer =>
      (read (ptrAt buffer (logicalBlock / ptrsPerBlock)) buffer).map fun buffer =>
        ptrAt buffer (logicalBlock % ptrsPerBlock)
    else
      let logicalBlock := logicalBlock - square
      (read ((inode.iBlock EXT4_TIND_BLOCK).setWidth 64) blockBuffer2).bind fun buffer =>
      (read (ptrAt buffer (logicalBlock / square)) buffer).bind fun buffer =>
      (read (ptrAt buffer (logicalBlock / ptrsPerBlock % ptrsPerBlock)) buffer).map fun buffer =>
        ptrAt buffer (logicalBlock % ptrsPerBlock)

def ext4GetBlockIndirect (ctx : Ext4BootCtx) (inode : Ext4Inode) (logicalBlock : BitVec 64)
    (blockBuffer2 : List Byte) : BitVec 64 :=
  if logicalBlock.toNat < EXT4_NDIR_BLOCKS then (inode.iBlock logicalBlock.toNat).setWidth 64
  else (walkIndirect ext4ReadBlock ctx inode (logicalBlock.toNat - EXT4_NDIR_BLOCKS) blockBuffer2).getD 0

def ext4GetBlock (ctx : Ext4BootCtx) (inode : Ext4Inode) (logicalBlock : BitVec 64)
    (blockBuffer2 : List Byte) : BitVec 64 :=
  if inode.usesExtents then ext4GetBlockExtent ext4ReadBlock inode logicalBlock blockBuffer2
  else ext4GetBlockIndirect ext4ReadBlock ctx inode logicalBlock blockBuffer2

end Model

/-! ### The same extent -/

section Extents
variable {image : BitVec 64 → List Byte} {node : List Byte} (tail : List Byte) (logicalBlock : BitVec 64)

/-- Below `2^32` the two index comparisons are the same. -/
theorem scanIdx_eq (hlb : logicalBlock.toNat < 2^32) (i n : Nat) (best : Option Ext4ExtentIdx)
    (h : 12 + 12*(i+n) ≤ node.length) :
    scanIdx (node ++ tail) logicalBlock i n best = Ext4.scanIdx node logicalBlock i n best := by
  induction n generalizing i best with
  | zero => rfl
  | succ n ih =>
    have hcmp (block : BitVec 32) : block.setWidth 64 ≤ logicalBlock ↔ block ≤ logicalBlock.setWidth 32 := by
      rw [BitVec.le_def, BitVec.le_def, BitVec.toNat_setWidth, BitVec.toNat_setWidth]
      omega
    rw [scanIdx, Ext4.scanIdx, readIdx_append tail (by omega), ih _ _ (by omega)]
    simp only [hcmp]

theorem scanExtent_eq (i n : Nat) (h : 12 + 12*(i+n) ≤ node.length) :
    scanExtent (node ++ tail) logicalBlock i n =
      ((Ext4.scanExtent node logicalBlock i n).map fun extent => extent.physical logicalBlock).getD 0 := by
  induction n generalizing i with
  | zero => rfl
  | succ n ih =>
    rw [scanExtent, Ext4.scanExtent, readExtent_append tail (by omega), ih _ (by omega)]
    by_cases hh : (readExtent node i).holds logicalBlock
    · rw [if_pos hh]
      exact if_pos hh
    · rw [if_neg hh]
      exact if_neg hh

variable {ext4ReadBlock : BitVec 64 → Option (List Byte)} (hread : ∀ block, ext4ReadBlock block = some (image block))
include hread

/-- The bootloader finds the kernel's extent, whatever the buffer held before. -/
private theorem walkIndex_eq (hlb : logicalBlock.toNat < 2^32) {depth : Nat} (h : Fits image depth node)
    (blockBuffer2 : List Byte) :
    (match walkIndex ext4ReadBlock logicalBlock depth (node ++ tail) blockBuffer2 with
      | none => 0
      | some leaf => scanExtent leaf logicalBlock 0 (readHeader leaf).ehEntries.toNat) =
      ((lookupExtent image logicalBlock depth node).map
        fun extent => extent.physical logicalBlock).getD 0 := by
  induction depth generalizing node tail blockBuffer2 with
  | zero =>
    have hroom := h.room
    simp only [walkIndex, readHeader_append tail (show 12 ≤ node.length by omega), lookupExtent,
      leafOf, Option.bind_some, findExtent]
    exact scanExtent_eq tail logicalBlock 0 _ (by omega)
  | succ depth ih =>
    have hroom := h.room
    have hbest : scanIdx (node ++ tail) logicalBlock 0 (readHeader (node ++ tail)).ehEntries.toNat none =
        bestIdx node logicalBlock := by
      rw [readHeader_append tail (by omega)]
      exact scanIdx_eq tail logicalBlock hlb 0 _ none (by omega)
    rw [walkIndex, hbest, lookupExtent, leafOf]
    cases hb : bestIdx node logicalBlock with
    | none => rfl
    | some best =>
      obtain ⟨i, hi, rfl⟩ := bestIdx_mem hb
      simp only [Option.bind_some, loadBlock, hread, Option.map_some]
      exact ih _ (h.2 i hi) _

/-- The bootloader's lookup in an extent tree, when the root lies in the 60 bytes of `i_block`. -/
theorem ext4GetBlockExtent_eq (hlb : logicalBlock.toNat < 2^32) {inode : Ext4Inode}
    (hmagic : (readHeader inode.iBlockPtr).ehMagic = EXT4_EXT_MAGIC)
    (hfits : Fits image (readHeader inode.iBlockPtr).ehDepth.toNat (inode.iBlockPtr.take 60))
    (blockBuffer2 : List Byte) : ext4GetBlockExtent ext4ReadBlock inode logicalBlock blockBuffer2 =
      ((lookupExtent image logicalBlock (readHeader inode.iBlockPtr).ehDepth.toNat
        inode.iBlockPtr).map fun extent => extent.physical logicalBlock).getD 0 := by
  have hkernel := lookupExtent_append (inode.iBlockPtr.drop 60) logicalBlock hfits
  have hboot := walkIndex_eq (inode.iBlockPtr.drop 60) logicalBlock hread hlb hfits blockBuffer2
  rw [List.take_append_drop] at hkernel hboot
  rw [hkernel, ext4GetBlockExtent]
  rw [if_neg (not_not.mpr hmagic)]
  exact hboot

end Extents

/-! ### The same pointers -/

section Indirect
open Ext4Filesystem
variable {D : Type} {ops : Ext4BlockOps D} {image : BitVec 64 → List Byte} {s : Ext4Filesystem D}
variable {ext4ReadBlock : BitVec 64 → Option (List Byte)}

theorem ptrAt_append {block : List Byte} (tail : List Byte) {i : Nat} (h : 4*(i+1) ≤ block.length) :
    ptrAt (block ++ tail) i = ptrAt block i := by
  rw [ptrAt, ptrAt, u32At_append tail (by omega)]

/-- The bootloader reads the pointer that the image has, for every block the inode can have. -/
theorem ext4GetBlockIndirect_eq {ctx : Ext4BootCtx} {ptrs : Nat} (hptrs : ptrs = ctx.blockSize.toNat / 4)
    (hpos : 0 < ptrs) (hle : ptrs ≤ 1024) (hlen : ∀ block, 4*ptrs ≤ (image block).length)
    (hread : ∀ block, ext4ReadBlock block = some (image block)) (inode : Ext4Inode) {logicalBlock : BitVec 64}
    (hlb : logicalBlock.toNat < 12 + ptrs + ptrs*ptrs + ptrs*(ptrs*ptrs)) (blockBuffer2 : List Byte) :
    ext4GetBlockIndirect ext4ReadBlock ctx inode logicalBlock blockBuffer2 =
      pointerAt image ptrs inode logicalBlock.toNat := by
  have hsquare : ptrs*ptrs % 2^32 = ptrs*ptrs :=
    Nat.mod_eq_of_lt ((Nat.mul_le_mul hle hle).trans_lt (by decide))
  have hcube : ptrs*(ptrs*ptrs) = ptrs*ptrs*ptrs := Nat.mul_comm _ _
  have hload (block : BitVec 64) (buffer : List Byte) :
      loadBlock ext4ReadBlock block buffer = some (image block ++ buffer.drop (image block).length) := by
    rw [loadBlock, hread]
    rfl
  have hptr (block : BitVec 64) (tail : List Byte) {i : Nat} (hi : i < ptrs) :
      ptrAt (image block ++ tail) i = ptrAt (image block) i :=
    ptrAt_append tail (by have := hlen block; omega)
  have hmod (n : Nat) : n % ptrs < ptrs := Nat.mod_lt n hpos
  have hndir : EXT4_NDIR_BLOCKS = 12 := rfl
  rw [ext4GetBlockIndirect, pointerAt]
  by_cases hdirect : logicalBlock.toNat < EXT4_NDIR_BLOCKS
  · rw [if_pos hdirect, if_pos hdirect]
  · rw [if_neg hdirect, if_neg hdirect, walkIndirect, ← hptrs]
    dsimp only
    rw [hsquare]
    generalize hn : logicalBlock.toNat - EXT4_NDIR_BLOCKS = n
    by_cases hsingle : n < ptrs
    · rw [if_pos hsingle, if_pos hsingle, hload, Option.map_some, hptr _ _ hsingle]
      rfl
    · rw [if_neg hsingle, if_neg hsingle]
      by_cases hdouble : n - ptrs < ptrs*ptrs
      · have hdiv : (n - ptrs) / ptrs < ptrs := Nat.div_lt_of_lt_mul hdouble
        rw [if_pos hdouble, if_pos hdouble]
        simp only [hload, Option.bind_some, Option.map_some, Option.getD_some]
        rw [hptr _ _ hdiv, hptr _ _ (hmod _)]
      · have hdiv : (n - ptrs - ptrs*ptrs) / (ptrs*ptrs) < ptrs :=
          Nat.div_lt_of_lt_mul (by omega)
        rw [if_neg hdouble, if_neg hdouble]
        simp only [hload, Option.bind_some, Option.map_some, Option.getD_some]
        rw [hptr _ _ hdiv, hptr _ _ (hmod _), hptr _ _ (hmod _)]

/-- So does the kernel. -/
theorem getBlockIndirect_run (h : ReadsImage ops s.device image s.blockSize.toNat) (hpos : 0 < s.blockSize.toNat)
    (hk : ∀ n, s.kmalloc n = true) (inode : Ext4Inode) (logicalBlock : BitVec 64) :
    (getBlockIndirect ops inode logicalBlock s).1 =
      .ok (pointerAt image (s.blockSize.toNat / 4) inode logicalBlock.toNat) := by
  rw [getBlockIndirect, Fallible.get_bind_run, pointerAt]
  dsimp only
  split
  · rfl
  · rw [Fallible.bind_run, kernelAllocBytes_pos hpos, if_pos (hk 0)]
    dsimp only
    split
    · rw [Fallible.bind_of_ok (h.readBlock_run _ (allocated s) rfl)]
      rfl
    · split
      · rw [Fallible.bind_of_ok (h.readBlock_run _ (allocated s) rfl),
          Fallible.bind_of_ok (h.readBlock_run _ (allocated s) rfl)]
        rfl
      · rw [Fallible.bind_of_ok (h.readBlock_run _ (allocated s) rfl),
          Fallible.bind_of_ok (h.readBlock_run _ (allocated s) rfl),
          Fallible.bind_of_ok (h.readBlock_run _ (allocated s) rfl)]
        rfl

/-- The bootloader finds the block the kernel finds, and 0 where the kernel fails. -/
theorem getBlock_agrees {ctx : Ext4BootCtx} (hctx : ctx.blockSize = s.blockSize)
    (hsize : s.blockSize = 1024#32 ∨ s.blockSize = 2048#32 ∨ s.blockSize = 4096#32)
    (h : ReadsImage ops s.device image s.blockSize.toNat) (hread : ∀ block, ext4ReadBlock block = some (image block))
    (hk : ∀ n, s.kmalloc n = true) (inode : Ext4Inode)
    (hfits : inode.usesExtents → (readHeader inode.iBlockPtr).ehMagic = EXT4_EXT_MAGIC →
      Fits image (readHeader inode.iBlockPtr).ehDepth.toNat (inode.iBlockPtr.take 60))
    {logicalBlock : BitVec 64} (hlb : logicalBlock.toNat < 2^32) {ptrs : Nat}
    (hptrs : ptrs = s.blockSize.toNat / 4)
    (hindirect : ¬ inode.usesExtents → logicalBlock.toNat < 12 + ptrs + ptrs^2 + ptrs^3)
    (blockBuffer2 : List Byte) :
    match (getBlock ops inode logicalBlock s).1 with
    | .ok block => ext4GetBlock ext4ReadBlock ctx inode logicalBlock blockBuffer2 = block
    | .error _ => ext4GetBlock ext4ReadBlock ctx inode logicalBlock blockBuffer2 = 0 := by
  rw [getBlock, ext4GetBlock]
  by_cases hext : inode.usesExtents
  · rw [if_pos hext, if_pos hext]
    by_cases hmagic : (readHeader inode.iBlockPtr).ehMagic = EXT4_EXT_MAGIC
    · have hpos : 0 < s.blockSize.toNat := by
        rcases hsize with hs | hs | hs <;> rw [hs] <;> decide
      have hok := h.getBlockFromExtent_ok_iff hpos hmagic logicalBlock
      rw [ext4GetBlockExtent_eq logicalBlock hread hlb hmagic (hfits hext hmagic)]
      cases hrun : (getBlockFromExtent ops inode logicalBlock s).1 with
      | ok block => rw [((hok block).mp hrun).2, Option.getD_some]
      | error e =>
        cases hmap : (lookupExtent image logicalBlock (readHeader inode.iBlockPtr).ehDepth.toNat
            inode.iBlockPtr).map fun extent => extent.physical logicalBlock with
        | none => rfl
        | some block => cases hrun.symm.trans ((hok block).mpr ⟨fun k _ => hk k, hmap⟩)
    · rw [getBlockFromExtent, Fallible.bind_of_error (Fallible.require_run_neg _ hmagic s)]
      exact if_pos hmagic
  · have hbound : logicalBlock.toNat < 12 + ptrs + ptrs*ptrs + ptrs*(ptrs*ptrs) := by
      have := hindirect hext
      rwa [Nat.pow_two, show ptrs^3 = ptrs*(ptrs*ptrs) by rw [Nat.pow_succ, Nat.pow_two, Nat.mul_assoc]] at this
    have hroom : 4*ptrs = s.blockSize.toNat ∧ 0 < ptrs ∧ ptrs ≤ 1024 := by
      rcases hsize with hs | hs | hs <;> rw [hptrs, hs] <;> decide
    rw [if_neg hext, if_neg hext, getBlockIndirect_run h (by omega) hk inode logicalBlock, ← hptrs]
    exact ext4GetBlockIndirect_eq (hctx ▸ hptrs) hroom.2.1 hroom.2.2 (fun block => (h.length block).symm ▸ hroom.1.le)
      hread inode hbound blockBuffer2

theorem getBlock_agrees_oneExtent : (getBlock memoryOps (oneExtent 4#16) 2#64 zerosFs).1 = .ok 502 ∧
    ext4GetBlock (fun _ => some (List.replicate 1024 0)) ⟨1024#32⟩ (oneExtent 4#16) 2#64 [] = 502 := by
  have hrun : (getBlock memoryOps (oneExtent 4#16) 2#64 zerosFs).1 = .ok 502 := by decide +kernel
  have hdepth : (readHeader (oneExtent 4#16).iBlockPtr).ehDepth.toNat = 0 := by decide +kernel
  have hfits : Fits (fun _ => List.replicate 1024 0) (readHeader (oneExtent 4#16).iBlockPtr).ehDepth.toNat
      ((oneExtent 4#16).iBlockPtr.take 60) := by
    rw [hdepth, Fits]
    decide +kernel
  have himage : ReadsImage memoryOps zerosFs.device (fun _ => List.replicate 1024 0) zerosFs.blockSize.toNat :=
    memoryOps_readsImage fun _ => List.length_replicate
  have hagree := getBlock_agrees rfl (.inl rfl) himage (fun _ => rfl) (fun _ => rfl) (oneExtent 4#16) (fun _ _ => hfits)
    (by decide : (2#64).toNat < 2^32) rfl (fun hn => absurd (by decide +kernel) hn) []
  rw [hrun] at hagree
  exact ⟨hrun, hagree⟩

end Indirect

end Nafuraito.Ext4.Boot
