import Nafuraito.Ext4.Journal
import Mathlib.Data.List.GetD

/-! The kernel's map from the logical blocks of an inode to blocks of the device. -/
namespace Nafuraito.Ext4
open Nafuraito.Library

/-! ### Packed records -/

/-- What lies past the end of the bytes reads as zero; the source reads whatever memory follows. -/
def byteAt (bytes : List Byte) (offset : Nat) : Byte := bytes.getD offset 0

def u16At (bytes : List Byte) (offset : Nat) : BitVec 16 := byteAt bytes (offset+1) ++ byteAt bytes offset

def u32At (bytes : List Byte) (offset : Nat) : BitVec 32 :=
  byteAt bytes (offset+3) ++ byteAt bytes (offset+2) ++ byteAt bytes (offset+1) ++ byteAt bytes offset

def EXT4_NDIR_BLOCKS : Nat := 12
def EXT4_IND_BLOCK : Nat := 12
def EXT4_DIND_BLOCK : Nat := 13
def EXT4_TIND_BLOCK : Nat := 14
def EXT4_N_BLOCKS : Nat := 15
def EXT4_EXT_MAGIC : BitVec 16 := 0xF30A#16
def EXT4_EXTENTS_FL : BitVec 32 := 0x00080000#32

/-- The 160 bytes of the packed record. -/
structure Ext4Inode where
  bytes : List Byte
  size : bytes.length = 160
  deriving DecidableEq

namespace Ext4Inode

def iFlags (inode : Ext4Inode) : BitVec 32 := u32At inode.bytes 0x20

/-- The bytes from `i_block` on. -/
def iBlockPtr (inode : Ext4Inode) : List Byte := inode.bytes.drop 0x28

def iBlock (inode : Ext4Inode) (i : Nat) : BitVec 32 := u32At inode.iBlockPtr (4*i)

def usesExtents (inode : Ext4Inode) : Prop := inode.iFlags &&& EXT4_EXTENTS_FL ≠ 0

instance (inode : Ext4Inode) : Decidable inode.usesExtents := inferInstanceAs (Decidable (_ ≠ _))

end Ext4Inode

structure Ext4ExtentHeader where
  ehMagic : BitVec 16
  ehEntries : BitVec 16
  ehDepth : BitVec 16

def readHeader (node : List Byte) : Ext4ExtentHeader := ⟨u16At node 0, u16At node 2, u16At node 6⟩

structure Ext4ExtentIdx where
  eiBlock : BitVec 32
  eiLeafLo : BitVec 32
  eiLeafHi : BitVec 16

def Ext4ExtentIdx.leaf (idx : Ext4ExtentIdx) : BitVec 64 :=
  idx.eiLeafLo.setWidth 64 ||| (idx.eiLeafHi.setWidth 64 <<< 32)

/-- The entries follow the 12 bytes of the header and have 12 bytes each. -/
def readIdx (node : List Byte) (i : Nat) : Ext4ExtentIdx :=
  ⟨u32At node (12+12*i), u32At node (12+12*i+4), u16At node (12+12*i+8)⟩

structure Ext4Extent where
  eeBlock : BitVec 32
  eeLen : BitVec 16
  eeStartHi : BitVec 16
  eeStartLo : BitVec 32

namespace Ext4Extent

def start (extent : Ext4Extent) : BitVec 64 :=
  extent.eeStartLo.setWidth 64 ||| (extent.eeStartHi.setWidth 64 <<< 32)

/-- The length without the top bit, so that 32768 becomes 0. -/
def len (extent : Ext4Extent) : BitVec 16 := extent.eeLen &&& 0x7FFF#16

def isUninitialized (extent : Ext4Extent) : Prop := extent.eeLen &&& 0x8000#16 ≠ 0

/-- The test of the leaf loop. The sum wraps at 32 bits. -/
def holds (extent : Ext4Extent) (logicalBlock : BitVec 64) : Prop :=
  logicalBlock ≥ extent.eeBlock.setWidth 64 ∧
    logicalBlock < (extent.eeBlock + extent.len.setWidth 32).setWidth 64

instance (extent : Ext4Extent) (logicalBlock : BitVec 64) : Decidable (extent.holds logicalBlock) :=
  inferInstanceAs (Decidable (_ ∧ _))

/-- Where the extent puts a logical block. -/
def physical (extent : Ext4Extent) (logicalBlock : BitVec 64) : BitVec 64 :=
  extent.start + (logicalBlock - extent.eeBlock.setWidth 64)

end Ext4Extent

def readExtent (node : List Byte) (i : Nat) : Ext4Extent :=
  ⟨u32At node (12+12*i), u16At node (12+12*i+4), u16At node (12+12*i+6), u32At node (12+12*i+8)⟩

/-! ### The two walks -/

/-- The index loop from entry `i` on. The block number is cut to 32 bits. -/
def scanIdx (node : List Byte) (logicalBlock : BitVec 64) : Nat → Nat → Option Ext4ExtentIdx →
    Option Ext4ExtentIdx
  | _, 0, best => best
  | i, n+1, best =>
    if (readIdx node i).eiBlock ≤ logicalBlock.setWidth 32 then
      scanIdx node logicalBlock (i+1) n (some (readIdx node i))
    else best

/-- The leaf loop from entry `i` on. -/
def scanExtent (node : List Byte) (logicalBlock : BitVec 64) : Nat → Nat → Option Ext4Extent
  | _, 0 => none
  | i, n+1 =>
    if (readExtent node i).holds logicalBlock then some (readExtent node i)
    else scanExtent node logicalBlock (i+1) n

def bestIdx (node : List Byte) (logicalBlock : BitVec 64) : Option Ext4ExtentIdx :=
  scanIdx node logicalBlock 0 (readHeader node).ehEntries.toNat none

def findExtent (node : List Byte) (logicalBlock : BitVec 64) : Option Ext4Extent :=
  scanExtent node logicalBlock 0 (readHeader node).ehEntries.toNat

/-- The `i`-th index entry is the result of the loop, or the result is the one it started with. -/
theorem scanIdx_mem {node : List Byte} {logicalBlock : BitVec 64} {i n : Nat} {best : Option Ext4ExtentIdx}
    {idx : Ext4ExtentIdx} (h : scanIdx node logicalBlock i n best = some idx) :
    best = some idx ∨ ∃ j, i ≤ j ∧ j < i+n ∧ idx = readIdx node j := by
  induction n generalizing i best with
  | zero => exact .inl h
  | succ n ih =>
    rw [scanIdx] at h
    split at h
    · rcases ih h with h' | ⟨j, h₁, h₂, h₃⟩
      · exact .inr ⟨i, Nat.le_refl i, by omega, (Option.some.inj h').symm⟩
      · exact .inr ⟨j, by omega, by omega, h₃⟩
    · exact .inl h

theorem bestIdx_mem {node : List Byte} {logicalBlock : BitVec 64} {idx : Ext4ExtentIdx}
    (h : bestIdx node logicalBlock = some idx) :
    ∃ i < (readHeader node).ehEntries.toNat, idx = readIdx node i := by
  rcases scanIdx_mem h with h' | ⟨j, _, h₂, h₃⟩
  · cases h'
  · exact ⟨j, by omega, h₃⟩

/-! ### Bytes after a node -/

section Append
variable {node : List Byte} (tail : List Byte) {offset : Nat}

theorem byteAt_append (h : offset < node.length) : byteAt (node ++ tail) offset = byteAt node offset :=
  List.getD_append node tail 0 offset h

theorem u16At_append (h : offset + 2 ≤ node.length) : u16At (node ++ tail) offset = u16At node offset := by
  rw [u16At, u16At, byteAt_append tail (by omega), byteAt_append tail (by omega)]

theorem u32At_append (h : offset + 4 ≤ node.length) : u32At (node ++ tail) offset = u32At node offset := by
  rw [u32At, u32At, byteAt_append tail (by omega), byteAt_append tail (by omega),
    byteAt_append tail (by omega), byteAt_append tail (by omega)]

theorem readHeader_append (h : 12 ≤ node.length) : readHeader (node ++ tail) = readHeader node := by
  rw [readHeader, readHeader, u16At_append tail (by omega), u16At_append tail (by omega),
    u16At_append tail (by omega)]

theorem readIdx_append {i : Nat} (h : 12 + 12*(i+1) ≤ node.length) :
    readIdx (node ++ tail) i = readIdx node i := by
  rw [readIdx, readIdx, u32At_append tail (by omega), u32At_append tail (by omega), u16At_append tail (by omega)]

theorem readExtent_append {i : Nat} (h : 12 + 12*(i+1) ≤ node.length) :
    readExtent (node ++ tail) i = readExtent node i := by
  rw [readExtent, readExtent, u32At_append tail (by omega), u32At_append tail (by omega),
    u16At_append tail (by omega), u16At_append tail (by omega)]

end Append

/-! ### Bytes of a part -/

section Part
variable (bytes : List Byte) (start : Nat) {n offset : Nat}

theorem byteAt_drop (offset : Nat) : byteAt (bytes.drop start) offset = byteAt bytes (start+offset) := by
  rw [byteAt, byteAt, List.getD_eq_getElem?_getD, List.getD_eq_getElem?_getD, List.getElem?_drop]

theorem u32At_drop (offset : Nat) : u32At (bytes.drop start) offset = u32At bytes (start+offset) := by
  simp only [u32At, byteAt_drop, Nat.add_assoc]

theorem byteAt_take (h : offset < n) : byteAt (bytes.take n) offset = byteAt bytes offset := by
  rw [byteAt, byteAt, List.getD_eq_getElem?_getD, List.getD_eq_getElem?_getD, List.getElem?_take_of_lt h]

theorem u32At_take (h : offset + 4 ≤ n) : u32At (bytes.take n) offset = u32At bytes offset := by
  rw [u32At, u32At, byteAt_take bytes (by omega), byteAt_take bytes (by omega), byteAt_take bytes (by omega),
    byteAt_take bytes (by omega)]

end Part

/-! ### The tree of an image -/

/-- The leaf the index entries lead to. -/
def leafOf (image : BitVec 64 → List Byte) (logicalBlock : BitVec 64) : Nat → List Byte → Option (List Byte)
  | 0, node => some node
  | depth+1, node => (bestIdx node logicalBlock).bind fun best =>
      leafOf image logicalBlock depth (image best.leaf)

/-- The extent the tree of an inode gives for a block. -/
def lookupExtent (image : BitVec 64 → List Byte) (logicalBlock : BitVec 64) (depth : Nat) (node : List Byte) :
    Option Ext4Extent :=
  (leafOf image logicalBlock depth node).bind fun leaf => findExtent leaf logicalBlock

/-- Every node's entries fit in the node. -/
def Fits (image : BitVec 64 → List Byte) : Nat → List Byte → Prop
  | 0, node => 12 + 12*(readHeader node).ehEntries.toNat ≤ node.length
  | depth+1, node => 12 + 12*(readHeader node).ehEntries.toNat ≤ node.length ∧
      ∀ i < (readHeader node).ehEntries.toNat, Fits image depth (image (readIdx node i).leaf)

section Extents
variable {image : BitVec 64 → List Byte} {node : List Byte} (tail : List Byte) (logicalBlock : BitVec 64)

theorem Fits.room {depth : Nat} (h : Fits image depth node) :
    12 + 12*(readHeader node).ehEntries.toNat ≤ node.length := by
  cases depth with
  | zero => exact h
  | succ depth => exact h.1

private theorem scanIdx_append (i n : Nat) (best : Option Ext4ExtentIdx)
    (h : 12 + 12*(i+n) ≤ node.length) :
    scanIdx (node ++ tail) logicalBlock i n best = scanIdx node logicalBlock i n best := by
  induction n generalizing i best with
  | zero => rfl
  | succ n ih => rw [scanIdx, scanIdx, readIdx_append tail (by omega), ih _ _ (by omega)]

private theorem scanExtent_append (i n : Nat) (h : 12 + 12*(i+n) ≤ node.length) :
    scanExtent (node ++ tail) logicalBlock i n = scanExtent node logicalBlock i n := by
  induction n generalizing i with
  | zero => rfl
  | succ n ih => rw [scanExtent, scanExtent, readExtent_append tail (by omega), ih _ (by omega)]

/-- What follows the root does not matter to the kernel. -/
theorem lookupExtent_append {depth : Nat} (h : Fits image depth node) :
    lookupExtent image logicalBlock depth (node ++ tail) =
      lookupExtent image logicalBlock depth node := by
  have hroom := h.room
  have hheader := readHeader_append tail (show 12 ≤ node.length by omega)
  cases depth with
  | zero =>
    simp only [lookupExtent, leafOf, Option.bind_some, findExtent, hheader]
    exact scanExtent_append tail logicalBlock 0 _ (by omega)
  | succ depth =>
    have hbest : bestIdx (node ++ tail) logicalBlock = bestIdx node logicalBlock := by
      rw [bestIdx, bestIdx, hheader, scanIdx_append tail logicalBlock 0 _ none (by omega)]
    rw [lookupExtent, lookupExtent, leafOf, hbest]
    rfl

end Extents

/-- Pointer `i` of an indirect block. -/
def ptrAt (buffer : List Byte) (i : Nat) : BitVec 64 := (u32At buffer (4*i)).setWidth 64

/-- The pointer to a block; the logical block has one. -/
def pointerAt (image : BitVec 64 → List Byte) (ptrsPerBlock : Nat) (inode : Ext4Inode) (logicalBlock : Nat) :
    BitVec 64 :=
  let single := logicalBlock - EXT4_NDIR_BLOCKS
  let double := single - ptrsPerBlock
  let triple := double - ptrsPerBlock*ptrsPerBlock
  if logicalBlock < EXT4_NDIR_BLOCKS then (inode.iBlock logicalBlock).setWidth 64
  else if single < ptrsPerBlock then ptrAt (image ((inode.iBlock EXT4_IND_BLOCK).setWidth 64)) single
  else if double < ptrsPerBlock*ptrsPerBlock then
    let ptrs := image ((inode.iBlock EXT4_DIND_BLOCK).setWidth 64)
    ptrAt (image (ptrAt ptrs (double / ptrsPerBlock))) (double % ptrsPerBlock)
  else
    let ptrs := image ((inode.iBlock EXT4_TIND_BLOCK).setWidth 64)
    let ptrs := image (ptrAt ptrs (triple / (ptrsPerBlock*ptrsPerBlock)))
    ptrAt (image (ptrAt ptrs (triple / ptrsPerBlock % ptrsPerBlock))) (triple % ptrsPerBlock)

namespace Ext4Filesystem
variable {D : Type} (ops : Ext4BlockOps D)

/-- The loop over the internal nodes; returns the leaf. -/
def walkIndex (logicalBlock : BitVec 64) : Nat → List Byte → Op D (List Byte)
  | 0, node => pure node
  | depth+1, node => do
    let best ← Fallible.okOr (bestIdx node logicalBlock) .notFound
    let fs ← Fallible.get
    let _ ← kernelAllocBytes fs.blockSize.toNat
    let buffer ← readBlock ops best.leaf fs.blockSize.toNat
    walkIndex logicalBlock depth buffer

def getBlockFromExtent (inode : Ext4Inode) (logicalBlock : BitVec 64) : Op D (BitVec 64) := do
  let header := readHeader inode.iBlockPtr
  Fallible.require (header.ehMagic = EXT4_EXT_MAGIC) .invalid
  let node ← walkIndex ops logicalBlock header.ehDepth.toNat inode.iBlockPtr
  let extent ← Fallible.okOr (findExtent node logicalBlock) .notFound
  pure (extent.physical logicalBlock)

/-- No product of the source can wrap: a block has fewer than `2^30` pointers. Past the last
triple-indirect block the source panics on an index. -/
def getBlockIndirect (inode : Ext4Inode) (logicalBlock : BitVec 64) : Op D (BitVec 64) := do
  let fs ← Fallible.get
  let ptrsPerBlock := fs.blockSize.toNat / 4
  let read (block : BitVec 64) := readBlock ops block fs.blockSize.toNat
  let logicalBlock := logicalBlock.toNat
  if logicalBlock < EXT4_NDIR_BLOCKS then pure ((inode.iBlock logicalBlock).setWidth 64)
  else do
    let logicalBlock := logicalBlock - EXT4_NDIR_BLOCKS
    let _ ← kernelAllocBytes fs.blockSize.toNat
    if logicalBlock < ptrsPerBlock then do
      let ptrs ← read ((inode.iBlock EXT4_IND_BLOCK).setWidth 64)
      pure (ptrAt ptrs logicalBlock)
    else
      let logicalBlock := logicalBlock - ptrsPerBlock
      if logicalBlock < ptrsPerBlock*ptrsPerBlock then do
        let ptrs ← read ((inode.iBlock EXT4_DIND_BLOCK).setWidth 64)
        let ptrs ← read (ptrAt ptrs (logicalBlock / ptrsPerBlock))
        pure (ptrAt ptrs (logicalBlock % ptrsPerBlock))
      else do
        let logicalBlock := logicalBlock - ptrsPerBlock*ptrsPerBlock
        let ptrs ← read ((inode.iBlock EXT4_TIND_BLOCK).setWidth 64)
        let ptrs ← read (ptrAt ptrs (logicalBlock / (ptrsPerBlock*ptrsPerBlock)))
        let ptrs ← read (ptrAt ptrs (logicalBlock / ptrsPerBlock % ptrsPerBlock))
        pure (ptrAt ptrs (logicalBlock % ptrsPerBlock))

def getBlock (inode : Ext4Inode) (logicalBlock : BitVec 64) : Op D (BitVec 64) :=
  if inode.usesExtents then getBlockFromExtent ops inode logicalBlock
  else getBlockIndirect ops inode logicalBlock

/-! ### What the walks return -/

/-- On device `d` every read of a whole block returns that block of the image and changes nothing. -/
structure ReadsImage (ops : Ext4BlockOps D) (d : D) (image : BitVec 64 → List Byte) (blockSize : Nat) : Prop where
  read : ∃ readFn, ops.readBlock = some readFn ∧ ∀ block, readFn block blockSize d = (.ok (image block), d)
  length : ∀ block, (image block).length = blockSize

variable {ops} {image : BitVec 64 → List Byte} {s : Ext4Filesystem D}

theorem ReadsImage.readBlock_run {d : D} {size : Nat} (h : ReadsImage ops d image size) (block : BitVec 64)
    (s : Ext4Filesystem D) (hs : s.device = d) : readBlock ops block size s = (.ok (image block), s) := by
  obtain ⟨readFn, hr, hrun⟩ := h.read
  rw [readBlock, hr]
  dsimp only
  rw [onDevice, Fallible.zoom, hs, hrun, ← hs]

/-- The state after an allocation: one answer of `kmalloc` is used up. -/
def allocated (s : Ext4Filesystem D) : Ext4Filesystem D := { s with kmalloc := fun n => s.kmalloc (n+1) }

theorem kernelAllocBytes_pos {size : Nat} (hsize : 0 < size) (s : Ext4Filesystem D) :
    kernelAllocBytes size s =
      (if s.kmalloc 0 then .ok (List.replicate size 0) else .error .noMem, allocated s) := by
  rw [kernelAllocBytes, if_neg (by omega)]
  split <;> rfl

/-- The walk returns a leaf exactly if every allocation succeeds and the entries lead to it. -/
theorem ReadsImage.walkIndex_ok_iff (hpos : 0 < s.blockSize.toNat) (h : ReadsImage ops s.device image s.blockSize.toNat)
    (logicalBlock : BitVec 64) (depth : Nat) (node leaf : List Byte) :
    (walkIndex ops logicalBlock depth node s).1 = .ok leaf ↔
      (∀ k < depth, s.kmalloc k = true) ∧ leafOf image logicalBlock depth node = some leaf := by
  induction depth generalizing s node with
  | zero => simp [walkIndex, leafOf]
  | succ depth ih =>
    rw [walkIndex, leafOf]
    cases hb : bestIdx node logicalBlock with
    | none => simp
    | some best =>
      rw [Fallible.okOr_some, Fallible.pure_bind_run, Fallible.get_bind_run, Fallible.bind_run,
        kernelAllocBytes_pos hpos, Option.bind_some]
      by_cases hk : s.kmalloc 0 = true
      · rw [if_pos hk]
        dsimp only
        rw [Fallible.bind_of_ok (h.readBlock_run best.leaf (allocated s) rfl), ih (s := allocated s) hpos h]
        refine and_congr_left fun _ => ?_
        constructor
        · intro hlater k hlt
          cases k with
          | zero => exact hk
          | succ k => exact hlater k (by omega)
        · exact fun hall k hlt => hall (k+1) (by omega)
      · rw [if_neg hk]
        simp only [reduceCtorEq, false_iff]
        exact fun hall => hk (hall.1 0 (Nat.succ_pos depth))

/-- A lookup in an extent tree returns a block exactly if the allocations succeed and the tree
has an extent that puts it there. -/
theorem ReadsImage.getBlockFromExtent_ok_iff (hpos : 0 < s.blockSize.toNat)
    (h : ReadsImage ops s.device image s.blockSize.toNat) {inode : Ext4Inode}
    (hmagic : (readHeader inode.iBlockPtr).ehMagic = EXT4_EXT_MAGIC) (logicalBlock block : BitVec 64) :
    (getBlockFromExtent ops inode logicalBlock s).1 = .ok block ↔
      (∀ k < (readHeader inode.iBlockPtr).ehDepth.toNat, s.kmalloc k = true) ∧
      (lookupExtent image logicalBlock (readHeader inode.iBlockPtr).ehDepth.toNat inode.iBlockPtr).map
        (fun extent => extent.physical logicalBlock) = some block := by
  have hwalk := h.walkIndex_ok_iff hpos logicalBlock (readHeader inode.iBlockPtr).ehDepth.toNat inode.iBlockPtr
  rw [getBlockFromExtent, Fallible.bind_of_ok (Fallible.require_run_pos _ hmagic s), Fallible.bind_run,
    lookupExtent]
  cases hrun : walkIndex ops logicalBlock (readHeader inode.iBlockPtr).ehDepth.toNat inode.iBlockPtr s with
  | mk r t =>
    rw [hrun] at hwalk
    cases r with
    | error e =>
      simp only [reduceCtorEq, false_iff, not_and] at hwalk ⊢
      intro hk hmap
      obtain ⟨extent, hextent, _⟩ := Option.map_eq_some_iff.mp hmap
      obtain ⟨leaf, hleaf, _⟩ := Option.bind_eq_some_iff.mp hextent
      exact hwalk leaf hk hleaf
    | ok node =>
      obtain ⟨hk, hnode⟩ := (hwalk node).mp rfl
      rw [hnode, Option.bind_some]
      dsimp only
      cases hfind : findExtent node logicalBlock with
      | none => simp
      | some extent => simpa using fun _ => hk

end Ext4Filesystem
end Nafuraito.Ext4
