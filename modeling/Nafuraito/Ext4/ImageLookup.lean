import Nafuraito.Ext4.Directory

/-! What the lookups return on the blocks of an image, and what has to fit in its blocks. -/
namespace Nafuraito.Ext4
open Nafuraito.Library

/-! ### Lookups in an image -/

section Image
variable (image : BitVec 64 → List Byte) (geometry : Ext4Geometry)

/-- Where the image has a logical block of an inode. -/
def blockAt (inode : Ext4Inode) (logicalBlock : BitVec 64) : Except DriverStop (BitVec 64) :=
  let header := readHeader inode.iBlockPtr
  if inode.usesExtents then
    if header.ehMagic = EXT4_EXT_MAGIC then
      match lookupExtent image logicalBlock header.ehDepth.toNat inode.iBlockPtr with
      | some extent => .ok (extent.physical logicalBlock)
      | none => .error (.err .notFound)
    else .error (.err .invalid)
  else if logicalBlock.toNat < Driver.indirectBlocks geometry then
    .ok (pointerAt image (geometry.blockSize.toNat / 4) inode logicalBlock.toNat)
  else .error (.panic .outOfRange)

/-- The entry of a block with a name, from `offset` on. -/
def findEntry (block name : List Byte) : Nat → Nat → Option (BitVec 32)
  | 0, _ => none
  | n+1, offset =>
    let entry := readDirEntry block offset
    if offset < block.length ∧ entry.recLen ≠ 0 then
      if entry.Named name then some entry.inode else findEntry block name n (offset + entry.recLen.toNat)
    else none

/-- The search of a directory from `offset` on, in so many rounds. -/
def searchFrom (inode : Ext4Inode) (name : List Byte) : Nat → BitVec 64 → Except DriverStop (BitVec 32)
  | 0, _ => .error .unfinished
  | rounds+1, offset =>
    if offset < inode.size64 then
      match blockAt image geometry inode (offset / geometry.blockSize.setWidth 64) with
      | .error e => .error e
      | .ok physical =>
        if physical = 0 then searchFrom inode name rounds (offset + geometry.blockSize.setWidth 64)
        else match findEntry (image physical) name geometry.blockSize.toNat 0 with
          | some found => .ok found
          | none => searchFrom inode name rounds (offset + geometry.blockSize.setWidth 64)
    else .error (.err .notFound)

/-- The block and the place in it of an inode that the requests below it do not reject. -/
def placeOf (groupDescs : List Ext4GroupDesc) (inodeNum : BitVec 32) : Except DriverStop (BitVec 64 × Nat) :=
  let group := (inodeNum - 1) / geometry.inodesPerGroup
  let byte := (inodeNum - 1) % geometry.inodesPerGroup * geometry.inodeSize
  if inodeNum = 0 then .error (.err .invalid)
  else if geometry.inodesPerGroup = 0 then .error (.panic .divisionByZero)
  else if group ≥ geometry.groupCount then .error (.err .invalid)
  else match groupDescs[group.toNat]? with
    | none => .error (.panic .outOfRange)
    | some desc =>
      let inodeTable := if geometry.use64bit
        then desc.bgInodeTableLo.setWidth 64 ||| (desc.bgInodeTableHi.setWidth 64 <<< 32)
        else desc.bgInodeTableLo.setWidth 64
      .ok (inodeTable + (byte / geometry.blockSize).setWidth 64, (byte % geometry.blockSize).toNat)

def inodeOf (groupDescs : List Ext4GroupDesc) (inodeNum : BitVec 32) : Except DriverStop Ext4Inode :=
  (placeOf geometry groupDescs inodeNum).map fun place => inodeAt ((image place.1).drop place.2) 0

/-- The walk along a path. -/
def lookupIn (groupDescs : List Ext4GroupDesc) (rounds : Nat) :
    Nat → List Byte → BitVec 32 → Except DriverStop (BitVec 32)
  | 0, _, current => .ok current
  | n+1, p, current =>
    if p = [] then .ok current
    else if Driver.pathComponent p = [] then lookupIn groupDescs rounds n (p.drop 1) current
    else do
      let inode ← inodeOf image geometry groupDescs current
      let current ← searchFrom image geometry inode (Driver.pathComponent p) rounds 0
      lookupIn groupDescs rounds n (Driver.skipSlashes (p.drop (Driver.pathComponent p).length)) current

end Image

/-! ### What has to fit -/

/-- The index entries up to the first past the block. -/
def IdxInside (logicalBlock : BitVec 64) (room : Nat) (node : List Byte) : Prop :=
  ∀ i < (readHeader node).ehEntries.toNat,
    (∀ j < i, (readIdx node j).eiBlock ≤ logicalBlock.setWidth 32) → 12+12*(i+1) ≤ room

/-- The extents up to the one that has the block. -/
def LeafInside (logicalBlock : BitVec 64) (room : Nat) (node : List Byte) : Prop :=
  ∀ i < (readHeader node).ehEntries.toNat, (∀ j < i, ¬ (readExtent node j).holds logicalBlock) → 12+12*(i+1) ≤ room

section Conditions
variable (image : BitVec 64 → List Byte) (geometry : Ext4Geometry)

def WalkInside (logicalBlock : BitVec 64) : Nat → Nat → List Byte → Prop
  | 0, room, node => LeafInside logicalBlock room node
  | depth+1, room, node => IdxInside logicalBlock room node ∧
      ∀ best, bestIdx node logicalBlock = some best →
        WalkInside logicalBlock depth geometry.blockSize.toNat (image best.leaf)

/-- The nodes on the way to a block; the root has the 60 bytes of `i_block`. -/
def ExtentInside (inode : Ext4Inode) (logicalBlock : BitVec 64) : Prop :=
  (readHeader inode.iBlockPtr).ehMagic = EXT4_EXT_MAGIC →
    WalkInside image geometry logicalBlock (readHeader inode.iBlockPtr).ehDepth.toNat 60 inode.iBlockPtr

/-- The entries of a block that the search for a name comes to, from the one at `offset` on. -/
inductive EntryFrom (block name : List Byte) : Nat → Nat → Prop
  | here (offset : Nat) : EntryFrom block name offset offset
  | next {offset last : Nat} (hlen : (readDirEntry block offset).recLen ≠ 0)
      (hname : ¬ (readDirEntry block offset).Named name)
      (h : EntryFrom block name (offset + (readDirEntry block offset).recLen.toNat) last) :
        EntryFrom block name offset last

def EntriesInside (block name : List Byte) (offset : Nat) : Prop :=
  ∀ last, EntryFrom block name offset last → last < block.length → last + DIR_ENTRY_SIZE ≤ block.length

/-- The offsets of the blocks that the search for a name comes to. -/
inductive SearchFrom (inode : Ext4Inode) (name : List Byte) : BitVec 64 → BitVec 64 → Prop
  | here (offset : BitVec 64) : SearchFrom inode name offset offset
  | next {offset last physical : BitVec 64} (hlt : offset < inode.size64)
      (hblock : blockAt image geometry inode (offset / geometry.blockSize.setWidth 64) = .ok physical)
      (hmissing : physical ≠ 0 → findEntry (image physical) name geometry.blockSize.toNat 0 = none)
      (h : SearchFrom inode name (offset + geometry.blockSize.setWidth 64) last) : SearchFrom inode name offset last

/-- A block of a directory: the way to it, and its entries. -/
def DirBlockInside (inode : Ext4Inode) (name : List Byte) (offset : BitVec 64) : Prop :=
  let logicalBlock := offset / geometry.blockSize.setWidth 64
  (inode.usesExtents → ExtentInside image geometry inode logicalBlock) ∧
    ∀ physical, blockAt image geometry inode logicalBlock = .ok physical → physical ≠ 0 →
      EntriesInside (image physical) name 0

def SearchInside (inode : Ext4Inode) (name : List Byte) (offset : BitVec 64) : Prop :=
  ∀ last, SearchFrom image geometry inode name offset last → last < inode.size64 →
    DirBlockInside image geometry inode name last

/-- The position after the entry at a position: of an entry that is in use, of an unused one, or of what
has no entry. -/
def stepAt (inode : Ext4Inode) (position : BitVec 64) : Option (BitVec 64) :=
  let blockSize := geometry.blockSize.setWidth 64
  match blockAt image geometry inode (position / blockSize) with
  | .error _ => none
  | .ok physical =>
    let entry := readDirEntry (image physical) (position % blockSize).toNat
    if physical = 0 ∨ entry.recLen = 0 then some (position + (blockSize - position % blockSize))
    else if entry.inode ≠ 0 then none
    else some (position + entry.recLen.setWidth 64)

/-- What a round of the iterator comes to. -/
inductive Round where
  | stop (e : DriverStop)
  | skip (after : BitVec 64)
  | entry (entry : Ext4DirEntry) (after : BitVec 64)

def roundAt (inode : Ext4Inode) (position : BitVec 64) : Round :=
  let blockSize := geometry.blockSize.setWidth 64
  match blockAt image geometry inode (position / blockSize) with
  | .error e => .stop e
  | .ok physical =>
    let entry := readDirEntry (image physical) (position % blockSize).toNat
    if physical = 0 ∨ entry.recLen = 0 then .skip (position + (blockSize - position % blockSize))
    else if entry.inode ≠ 0 then .entry entry (position + entry.recLen.setWidth 64)
    else .skip (position + entry.recLen.setWidth 64)

/-- The positions that one call of the iterator comes to. -/
inductive ReadFrom (inode : Ext4Inode) (size : BitVec 64) : BitVec 64 → BitVec 64 → Prop
  | here (position : BitVec 64) : ReadFrom inode size position position
  | next {position after last : BitVec 64} (hlt : position < size)
      (hstep : stepAt image geometry inode position = some after) (h : ReadFrom inode size after last) :
      ReadFrom inode size position last

/-- The one entry at a position, and the way to its block. -/
def PositionInside (inode : Ext4Inode) (position : BitVec 64) : Prop :=
  let blockSize := geometry.blockSize.setWidth 64
  (inode.usesExtents → ExtentInside image geometry inode (position / blockSize)) ∧
    ∀ physical, blockAt image geometry inode (position / blockSize) = .ok physical → physical ≠ 0 →
      (position % blockSize).toNat + DIR_ENTRY_SIZE ≤ geometry.blockSize.toNat

def IterationInside (it : Ext4DirIterator) : Prop :=
  ∀ last, ReadFrom image geometry it.inode it.size it.position last → last < it.size →
    PositionInside image geometry it.inode last

/-- The 160 bytes of an inode lie in its block. -/
def InodeInside (groupDescs : List Ext4GroupDesc) (inodeNum : BitVec 32) : Prop :=
  ∀ place, placeOf geometry groupDescs inodeNum = .ok place → place.2 + 160 ≤ geometry.blockSize.toNat

end Conditions
/-! ### Runs on an image -/

namespace Driver
variable {D : Type} {ops : Ext4BlockOps D} {image : BitVec 64 → List Byte} {geometry : Ext4Geometry}
variable {good : Ext4Filesystem D → Prop} {strict : Bool}

/-- What the call returns with the block size of the mount; from a state that is not good it may fail as well. -/
def Expected (geometry : Ext4Geometry) (good : Ext4Filesystem D → Prop) {α : Type} (r : Except DriverStop α)
    (x : Op D α) : Prop :=
  Fallible.Returns (fun fs => fs.blockSize = geometry.blockSize) good (fun e => ∃ e', e = .err e') r x

/-- A read that succeeds returns the block of the image; from a good state reads and allocations succeed. -/
structure ReadsOnly (ops : Ext4BlockOps D) (image : BitVec 64 → List Byte) (geometry : Ext4Geometry)
    (good : Ext4Filesystem D → Prop) : Prop where
  block : ∀ block, Fallible.Returns (fun fs => fs.blockSize = geometry.blockSize) good (fun _ => True)
    (.ok (image block)) (Ext4Filesystem.readBlock ops block geometry.blockSize.toNat)
  alloc : Fallible.Returns (fun fs => fs.blockSize = geometry.blockSize) good (fun _ => True)
    (.ok (List.replicate geometry.blockSize.toNat 0)) (Ext4Filesystem.kernelAllocBytes geometry.blockSize.toNat)
  length : ∀ block, (image block).length = geometry.blockSize.toNat

theorem expected_ofFs {α : Type} {r : Except Ext4Error α} {x : Ext4Filesystem.Op D α}
    (h : Fallible.Returns (fun fs => fs.blockSize = geometry.blockSize) good (fun _ => True) r x) :
    Expected geometry good (r.mapError .err) (ofFs x) := by
  intro s hs
  obtain ⟨hr, hI, hgood⟩ := h s hs
  refine ⟨hr.imp (fun h => congrArg (Except.mapError DriverStop.err) h) ?_, hI, hgood⟩
  rintro ⟨hbad, e, -, heq⟩
  exact ⟨hbad, .err e, ⟨e, rfl⟩, congrArg (Except.mapError DriverStop.err) heq⟩

variable (h : ReadsOnly ops image geometry good)
include h

theorem ReadsOnly.kernelAllocBytes_returns :
    Expected geometry good (.ok (List.replicate geometry.blockSize.toNat 0))
      (kernelAllocBytes geometry.blockSize.toNat) :=
  expected_ofFs h.alloc

theorem ReadsOnly.readInto_returns (block : BitVec 64) {buffer : List Byte}
    (hlen : buffer.length = geometry.blockSize.toNat) :
    Expected geometry good (.ok (image block)) (readInto ops block buffer) := by
  rw [readInto, hlen]
  apply Fallible.Returns.bind (expected_ofFs (h.block block))
  rw [List.take_of_length_le (h.length block).le, List.drop_of_length_le (by rw [hlen, h.length]), List.append_nil]
  exact .pure _

omit h in
theorem inside_returns {room stop : Nat} (hfits : strict = true → stop ≤ room) :
    Expected geometry good (.ok ()) (inside (D := D) strict room stop) :=
  .require hfits _

/-! ### Extent trees -/

omit h in
private theorem scanIdx_returns {room : Nat} {node : List Byte} {logicalBlock : BitVec 64} (i n : Nat)
    (best : Option Ext4ExtentIdx) (hfits : strict = true → ∀ k < n,
      (∀ j < k, (readIdx node (i+j)).eiBlock ≤ logicalBlock.setWidth 32) → 12+12*(i+k+1) ≤ room) :
    Expected geometry good (.ok (Ext4.scanIdx node logicalBlock i n best))
      (scanIdx (D := D) strict room node logicalBlock i n best) := by
  induction n generalizing i best with
  | zero => exact .pure _
  | succ n ih =>
    rw [scanIdx, Ext4.scanIdx]
    apply Fallible.Returns.bind (inside_returns fun hs => hfits hs 0 (by omega) fun j hj => absurd hj (by omega))
    by_cases hle : (readIdx node i).eiBlock ≤ logicalBlock.setWidth 32
    · rw [if_pos hle, if_pos hle]
      apply ih
      intro hs k hk hall
      have := hfits hs (k+1) (by omega) fun j hj => by
        cases j with
        | zero => exact hle
        | succ j => simpa only [Nat.add_assoc, Nat.add_comm 1] using hall j (by omega)
      omega
    · rw [if_neg hle, if_neg hle]
      exact .pure _

omit h in
private theorem scanExtent_returns {room : Nat} {node : List Byte} {logicalBlock : BitVec 64} (i n : Nat)
    (hfits : strict = true → ∀ k < n, (∀ j < k, ¬ (readExtent node (i+j)).holds logicalBlock) → 12+12*(i+k+1) ≤ room) :
    Expected geometry good (.ok (Ext4.scanExtent node logicalBlock i n))
      (scanExtent (D := D) strict room node logicalBlock i n) := by
  induction n generalizing i with
  | zero => exact .pure _
  | succ n ih =>
    rw [scanExtent, Ext4.scanExtent]
    apply Fallible.Returns.bind (inside_returns fun hs => hfits hs 0 (by omega) fun j hj => absurd hj (by omega))
    by_cases hh : (readExtent node i).holds logicalBlock
    · rw [if_pos hh, if_pos hh]
      exact .pure _
    · rw [if_neg hh, if_neg hh]
      apply ih
      intro hs k hk hall
      have := hfits hs (k+1) (by omega) fun j hj => by
        cases j with
        | zero => exact hh
        | succ j => simpa only [Nat.add_assoc, Nat.add_comm 1] using hall j (by omega)
      omega

omit h in
theorem bestIdx_returns {room : Nat} {node : List Byte} {logicalBlock : BitVec 64}
    (hfits : strict = true → IdxInside logicalBlock room node) :
    Expected geometry good (.ok (bestIdx node logicalBlock))
      (scanIdx (D := D) strict room node logicalBlock 0 (readHeader node).ehEntries.toNat none) :=
  scanIdx_returns 0 _ none fun hs k hk hall =>
    (Nat.zero_add k).symm ▸ hfits hs k hk fun j hj => Nat.zero_add j ▸ hall j hj

omit h in
theorem findExtent_returns {room : Nat} {node : List Byte} {logicalBlock : BitVec 64}
    (hfits : strict = true → LeafInside logicalBlock room node) :
    Expected geometry good (.ok (findExtent node logicalBlock))
      (scanExtent (D := D) strict room node logicalBlock 0 (readHeader node).ehEntries.toNat) :=
  scanExtent_returns 0 _ fun hs k hk hall =>
    (Nat.zero_add k).symm ▸ hfits hs k hk fun j hj => Nat.zero_add j ▸ hall j hj

/-- The walk to a leaf and the search in it. -/
def walkExtent (strict : Bool) (ops : Ext4BlockOps D) (geometry : Ext4Geometry) (logicalBlock : BitVec 64)
    (depth room : Nat)
    (node : List Byte) : Op D (BitVec 64) := do
  let leaf ← walkIndex strict ops geometry logicalBlock depth room node
  let extent ← scanExtent strict leaf.1 leaf.2 logicalBlock 0 (readHeader leaf.2).ehEntries.toNat
  let extent ← Fallible.okOr extent (.err .notFound)
  pure (extent.physical logicalBlock)

omit h in
theorem walkExtent_succ (logicalBlock : BitVec 64) (depth room : Nat) (node : List Byte) :
    walkExtent strict ops geometry logicalBlock (depth+1) room node = (do
      let best ← scanIdx strict room node logicalBlock 0 (readHeader node).ehEntries.toNat none
      let best ← Fallible.okOr best (.err .notFound)
      let buffer ← kernelAllocBytes geometry.blockSize.toNat
      let buffer ← readInto ops best.leaf buffer
      inside strict buffer.length 12
      walkExtent strict ops geometry logicalBlock depth buffer.length buffer) := by
  simp only [walkExtent, walkIndex, Fallible.bind_assoc]

/-- What `lookupExtent` finds, as a result. -/
def extentResult (image : BitVec 64 → List Byte) (logicalBlock : BitVec 64) (depth : Nat) (node : List Byte) :
    Except DriverStop (BitVec 64) :=
  match lookupExtent image logicalBlock depth node with
  | some extent => .ok (extent.physical logicalBlock)
  | none => .error (.err .notFound)

theorem ReadsOnly.walkExtent_returns (hheader : strict = true → 12 ≤ geometry.blockSize.toNat)
    (logicalBlock : BitVec 64)
    (depth room : Nat) (node : List Byte)
    (hfits : strict = true → WalkInside image geometry logicalBlock depth room node) :
    Expected geometry good (extentResult image logicalBlock depth node)
      (walkExtent strict ops geometry logicalBlock depth room node) := by
  induction depth generalizing room node with
  | zero =>
    rw [walkExtent, walkIndex, extentResult, lookupExtent, leafOf, Option.bind_some]
    apply Fallible.Returns.bind (.pure _)
    apply Fallible.Returns.bind (findExtent_returns hfits)
    cases findExtent node logicalBlock with
    | none => exact .bind_error (.throw _)
    | some extent => exact .bind (.pure _) (.pure _)
  | succ depth ih =>
    rw [walkExtent_succ, extentResult, lookupExtent, leafOf]
    apply Fallible.Returns.bind (bestIdx_returns fun hs => (hfits hs).1)
    cases hbest : bestIdx node logicalBlock with
    | none => exact .bind_error (.throw _)
    | some best =>
      have hlen := h.length best.leaf
      apply Fallible.Returns.bind (.pure best)
      apply Fallible.Returns.bind h.kernelAllocBytes_returns
      apply Fallible.Returns.bind (h.readInto_returns best.leaf List.length_replicate)
      apply Fallible.Returns.bind (inside_returns fun hs => hlen ▸ hheader hs)
      exact ih _ _ fun hs => hlen.symm ▸ (hfits hs).2 best hbest

theorem ReadsOnly.getBlockFromExtent_returns (hheader : strict = true → 12 ≤ geometry.blockSize.toNat)
    (inode : Ext4Inode)
    (logicalBlock : BitVec 64) (hfits : strict = true → ExtentInside image geometry inode logicalBlock) :
    Expected geometry good (if (readHeader inode.iBlockPtr).ehMagic = EXT4_EXT_MAGIC then
        extentResult image logicalBlock (readHeader inode.iBlockPtr).ehDepth.toNat inode.iBlockPtr
      else .error (.err .invalid)) (getBlockFromExtent strict ops geometry inode logicalBlock) := by
  apply Fallible.Returns.bind (inside_returns fun _ => by decide)
  by_cases hmagic : (readHeader inode.iBlockPtr).ehMagic = EXT4_EXT_MAGIC
  · rw [if_pos hmagic]
    apply Fallible.Returns.bind (.require hmagic _)
    exact h.walkExtent_returns hheader logicalBlock _ 60 _ fun hs => hfits hs hmagic
  · rw [if_neg hmagic]
    exact .bind_error (.require_neg hmagic _)

/-! ### Pointers -/

theorem ReadsOnly.getBlockIndirect_returns (inode : Ext4Inode) (logicalBlock : BitVec 64) :
    Fallible.Returns (fun fs => fs.blockSize = geometry.blockSize) good (fun _ => True)
      (.ok (pointerAt image (geometry.blockSize.toNat / 4) inode logicalBlock.toNat))
      (Ext4Filesystem.getBlockIndirect ops inode logicalBlock) := by
  apply Fallible.Returns.get_bind
  intro s hs
  rw [hs, pointerAt]
  by_cases hdirect : logicalBlock.toNat < EXT4_NDIR_BLOCKS
  · rw [if_pos hdirect, if_pos hdirect]
    exact .pure _
  · rw [if_neg hdirect, if_neg hdirect]
    apply Fallible.Returns.bind h.alloc
    by_cases hsingle : logicalBlock.toNat - EXT4_NDIR_BLOCKS < geometry.blockSize.toNat / 4
    · rw [if_pos hsingle, if_pos hsingle]
      exact .bind (h.block _) (.pure _)
    · rw [if_neg hsingle, if_neg hsingle]
      by_cases hdouble : logicalBlock.toNat - EXT4_NDIR_BLOCKS - geometry.blockSize.toNat / 4 <
          geometry.blockSize.toNat / 4 * (geometry.blockSize.toNat / 4)
      · rw [if_pos hdouble, if_pos hdouble]
        apply Fallible.Returns.bind (h.block _)
        apply Fallible.Returns.bind (h.block _)
        exact .pure _
      · rw [if_neg hdouble, if_neg hdouble]
        apply Fallible.Returns.bind (h.block _)
        apply Fallible.Returns.bind (h.block _)
        apply Fallible.Returns.bind (h.block _)
        exact .pure _

theorem ReadsOnly.indirect_returns (inode : Ext4Inode) (logicalBlock : BitVec 64) :
    Expected geometry good (if logicalBlock.toNat < indirectBlocks geometry then
        .ok (pointerAt image (geometry.blockSize.toNat / 4) inode logicalBlock.toNat)
      else .error (.panic .outOfRange)) (getBlockIndirect ops geometry inode logicalBlock) := by
  rw [getBlockIndirect]
  by_cases hlt : logicalBlock.toNat < indirectBlocks geometry
  · rw [if_pos hlt, if_pos hlt]
    exact expected_ofFs (h.getBlockIndirect_returns inode logicalBlock)
  · rw [if_neg hlt, if_neg hlt]
    apply Fallible.Returns.bind h.kernelAllocBytes_returns
    exact .bind (h.readInto_returns _ List.length_replicate) (.throw _)

theorem ReadsOnly.getBlock_returns (hheader : strict = true → 12 ≤ geometry.blockSize.toNat) (inode : Ext4Inode)
    (logicalBlock : BitVec 64)
    (hfits : strict = true → inode.usesExtents → ExtentInside image geometry inode logicalBlock) :
    Expected geometry good (blockAt image geometry inode logicalBlock)
      (getBlock strict ops geometry inode logicalBlock) := by
  rw [getBlock, blockAt]
  by_cases hext : inode.usesExtents
  · rw [if_pos hext, if_pos hext]
    exact h.getBlockFromExtent_returns hheader inode logicalBlock fun hs => hfits hs hext
  · rw [if_neg hext, if_neg hext]
    exact h.indirect_returns inode logicalBlock

/-! ### Directories -/

omit h in
theorem scanEntries_returns {block name : List Byte} (n offset : Nat)
    (hfits : strict = true → EntriesInside block name offset) :
    Expected geometry good (.ok (findEntry block name n offset))
      (scanEntries (D := D) strict block name n offset) := by
  induction n generalizing offset with
  | zero => exact .pure _
  | succ n ih =>
    rw [scanEntries, findEntry]
    by_cases hlt : offset < block.length
    · rw [if_pos hlt]
      apply Fallible.Returns.bind (inside_returns fun hs => hfits hs offset (.here offset) hlt)
      by_cases hlen : (readDirEntry block offset).recLen = 0
      · rw [if_pos hlen, if_neg fun hc => hc.2 hlen]
        exact .pure _
      · rw [if_neg hlen, if_pos ⟨hlt, hlen⟩]
        by_cases hname : (readDirEntry block offset).Named name
        · rw [if_pos hname, if_pos hname]
          exact .pure _
        · rw [if_neg hname, if_neg hname]
          apply ih
          intro hs last hlast
          exact hfits hs last (.next hlen hname hlast)
    · rw [if_neg hlt, if_neg fun hc => hlt hc.1]
      exact .pure _

theorem ReadsOnly.findFrom_returns (hheader : strict = true → 12 ≤ geometry.blockSize.toNat) (inode : Ext4Inode)
    (name : List Byte) (rounds : Nat) (offset : BitVec 64) {buffer : List Byte}
    (hlen : buffer.length = geometry.blockSize.toNat)
    (hfits : strict = true → SearchInside image geometry inode name offset) :
    Expected geometry good (searchFrom image geometry inode name rounds offset)
      (findFrom strict ops geometry inode name rounds offset buffer) := by
  induction rounds generalizing offset buffer with
  | zero => exact .throw _
  | succ rounds ih =>
    rw [findFrom, searchFrom]
    by_cases hlt : offset < inode.size64
    · rw [if_pos hlt, if_pos hlt]
      have hblock := h.getBlock_returns hheader inode (offset / geometry.blockSize.setWidth 64)
        fun hs => (hfits hs offset (.here offset) hlt).1
      cases hphysical : blockAt image geometry inode (offset / geometry.blockSize.setWidth 64) with
      | error e =>
        rw [hphysical] at hblock
        exact hblock.bind_error
      | ok physical =>
        rw [hphysical] at hblock
        apply Fallible.Returns.bind hblock
        dsimp only
        by_cases hzero : physical = 0
        · rw [if_pos hzero, if_pos hzero]
          exact ih _ hlen fun hs last hlast =>
            hfits hs last (.next hlt hphysical (fun hne => absurd hzero hne) hlast)
        · rw [if_neg hzero, if_neg hzero]
          apply Fallible.Returns.bind (h.readInto_returns physical hlen)
          apply Fallible.Returns.bind (scanEntries_returns _ 0 fun hs =>
            (hfits hs offset (.here offset) hlt).2 physical hphysical hzero)
          cases hfound : findEntry (image physical) name geometry.blockSize.toNat 0 with
          | some found => exact .pure _
          | none =>
            exact ih _ (h.length physical) fun hs last hlast =>
              hfits hs last (.next hlt hphysical (fun _ => hfound) hlast)
    · rw [if_neg hlt, if_neg hlt]
      exact .throw _

theorem ReadsOnly.dirFindEntry_returns (hheader : strict = true → 12 ≤ geometry.blockSize.toNat) (inode : Ext4Inode)
    (name : List Byte) (rounds : Nat) (hfits : strict = true → SearchInside image geometry inode name 0) :
    Expected geometry good (searchFrom image geometry inode name rounds 0)
      (dirFindEntry strict ops geometry rounds inode name) := by
  apply Fallible.Returns.bind h.kernelAllocBytes_returns
  exact h.findFrom_returns hheader inode name rounds 0 List.length_replicate hfits

/-! ### Inodes -/

omit h in
theorem inodePlace_returns (hblock : geometry.blockSize ≠ 0) (groupDescs : List Ext4GroupDesc) (inodeNum : BitVec 32) :
    Expected geometry good (placeOf geometry groupDescs inodeNum)
      (inodePlace (D := D) geometry groupDescs inodeNum) := by
  rw [inodePlace, placeOf]
  by_cases hzero : inodeNum = 0
  · rw [if_pos hzero]
    exact .bind_error (.require_neg (not_not.mpr hzero) _)
  · rw [if_neg hzero]
    apply Fallible.Returns.bind (.require hzero _)
    unfold divide remainder
    by_cases hipg : geometry.inodesPerGroup = 0
    · rw [if_pos hipg, if_pos hipg]
      exact .bind_error (.throw _)
    · simp only [if_neg hipg, if_neg hblock]
      apply Fallible.Returns.bind (.pure _)
      apply Fallible.Returns.bind (.pure _)
      by_cases hgroup : (inodeNum - 1) / geometry.inodesPerGroup ≥ geometry.groupCount
      · rw [if_pos hgroup]
        exact .bind_error (.require_neg (BitVec.not_lt.mpr hgroup) _)
      · rw [if_neg hgroup]
        apply Fallible.Returns.bind (.require (BitVec.not_le.mp hgroup) _)
        unfold index
        cases groupDescs[((inodeNum - 1) / geometry.inodesPerGroup).toNat]? with
        | none => exact .bind_error (.throw _)
        | some desc =>
          apply Fallible.Returns.bind (.pure desc)
          apply Fallible.Returns.bind (.pure _)
          exact .bind (.pure _) (.pure _)

omit h in
theorem placeOf_lt {groupDescs : List Ext4GroupDesc} {inodeNum : BitVec 32} {place : BitVec 64 × Nat}
    (hblock : geometry.blockSize ≠ 0) (hplace : placeOf geometry groupDescs inodeNum = .ok place) :
    place.2 < geometry.blockSize.toNat := by
  have hlt (byte : BitVec 32) : (byte % geometry.blockSize).toNat < geometry.blockSize.toNat := by
    rw [BitVec.toNat_umod]
    apply Nat.mod_lt
    apply Nat.pos_of_ne_zero
    intro hz
    exact hblock (BitVec.eq_of_toNat_eq hz)
  unfold placeOf at hplace
  cases hdesc : groupDescs[((inodeNum - 1) / geometry.inodesPerGroup).toNat]? with
  | none =>
    simp only [hdesc] at hplace
    split_ifs at hplace
  | some desc =>
    simp only [hdesc] at hplace
    split_ifs at hplace
    · exact Except.ok.inj hplace ▸ hlt _
    · exact Except.ok.inj hplace ▸ hlt _

theorem ReadsOnly.readInode_returns (hblock : geometry.blockSize ≠ 0) (groupDescs : List Ext4GroupDesc)
    (inodeNum : BitVec 32) (hfits : strict = true → InodeInside geometry groupDescs inodeNum) :
    Expected geometry good (inodeOf image geometry groupDescs inodeNum)
      (readInode strict ops geometry groupDescs inodeNum) := by
  have hplaces : Expected geometry good (placeOf geometry groupDescs inodeNum)
      (inodePlace (D := D) geometry groupDescs inodeNum) := inodePlace_returns hblock groupDescs inodeNum
  rw [inodeOf, readInode]
  cases hplace : placeOf geometry groupDescs inodeNum with
  | error e =>
    rw [hplace] at hplaces
    exact hplaces.bind_error
  | ok place =>
    rw [hplace] at hplaces
    have hlt := placeOf_lt hblock hplace
    have hlen := h.length place.1
    apply Fallible.Returns.bind hplaces
    apply Fallible.Returns.bind h.kernelAllocBytes_returns
    apply Fallible.Returns.bind (h.readInto_returns place.1 List.length_replicate)
    unfold sliceFrom
    rw [if_pos (by omega)]
    apply Fallible.Returns.bind (.pure _)
    have hroom (hs : strict = true) : 160 ≤ ((image place.1).drop place.2).length := by
      have := hfits hs place hplace
      rw [List.length_drop]
      omega
    exact .bind (inside_returns hroom) (.pure _)

/-! ### Paths -/

omit h in
theorem expected_bind {α β : Type} {r : Except DriverStop α} {k : α → Except DriverStop β} {x : Op D α}
    {f : α → Op D β} (hx : Expected geometry good r x) (hf : ∀ a, Expected geometry good (k a) (f a)) :
    Expected geometry good (r >>= k) (x >>= f) := by
  cases r with
  | error e => exact hx.bind_error
  | ok a => exact .bind hx (hf a)

variable (hblock : geometry.blockSize ≠ 0) (groupDescs : List Ext4GroupDesc) (rounds : Nat)
include hblock

private theorem ReadsOnly.lookupFrom_returns (n : Nat) (p : List Byte) (current : BitVec 32) :
    Expected geometry good (lookupIn image geometry groupDescs rounds n p current)
      (lookupFrom false ops geometry groupDescs rounds n p current) := by
  induction n generalizing p current with
  | zero => exact .pure _
  | succ n ih =>
    rw [lookupFrom, lookupIn]
    by_cases hend : p = []
    · rw [if_pos hend, if_pos hend]
      exact .pure _
    · rw [if_neg hend, if_neg hend]
      by_cases hname : pathComponent p = []
      · rw [if_pos hname, if_pos hname]
        exact ih _ _
      · rw [if_neg hname, if_neg hname]
        apply expected_bind (h.readInode_returns hblock groupDescs current fun hs => by cases hs)
        intro inode
        apply expected_bind (h.dirFindEntry_returns (fun hs => by cases hs) inode _ rounds fun hs => by cases hs)
        intro found
        exact ih _ _

/-- What a lookup returns on the blocks of an image. -/
theorem ReadsOnly.lookupPath_returns (path : List Byte) :
    Expected geometry good (lookupIn image geometry groupDescs rounds (skipSlashes path).length (skipSlashes path)
      EXT4_ROOT_INODE) (lookupPath false ops geometry groupDescs rounds path) := by
  rw [lookupPath]
  by_cases hend : skipSlashes path = []
  · rw [if_pos hend, hend]
    exact .pure _
  · rw [if_neg hend]
    exact h.lookupFrom_returns hblock groupDescs rounds _ _ _

theorem ReadsOnly.openMmapFile_returns (path : List Byte) :
    Expected geometry good (do
        let inodeNum ← lookupIn image geometry groupDescs rounds (skipSlashes path).length (skipSlashes path)
          EXT4_ROOT_INODE
        let inode ← inodeOf image geometry groupDescs inodeNum
        pure ⟨inode, inode.size64⟩) (openMmapFile false ops geometry groupDescs rounds path) := by
  apply expected_bind (h.lookupPath_returns hblock groupDescs rounds path)
  intro inodeNum
  apply expected_bind (h.readInode_returns hblock groupDescs inodeNum fun hs => by cases hs)
  intro inode
  exact .pure _

end Driver

/-! ### Iterating -/

section Rounds
variable {image : BitVec 64 → List Byte} {geometry : Ext4Geometry}

theorem stepAt_eq (inode : Ext4Inode) (position : BitVec 64) : stepAt image geometry inode position =
    match roundAt image geometry inode position with
    | .skip after => some after
    | _ => none := by
  rw [stepAt, roundAt]
  cases blockAt image geometry inode (position / geometry.blockSize.setWidth 64) with
  | error e => rfl
  | ok physical =>
    dsimp only
    split_ifs <;> rfl

theorem roundAt_stop {inode : Ext4Inode} {position : BitVec 64} {e : DriverStop}
    (h : roundAt image geometry inode position = .stop e) :
    blockAt image geometry inode (position / geometry.blockSize.setWidth 64) = .error e := by
  rw [roundAt] at h
  cases hblock : blockAt image geometry inode (position / geometry.blockSize.setWidth 64) with
  | error e' =>
    rw [hblock] at h
    exact congrArg _ (Round.stop.inj h)
  | ok physical =>
    rw [hblock] at h
    dsimp only at h
    split_ifs at h

end Rounds

namespace Ext4DirIterator
variable {D : Type} {ops : Ext4BlockOps D} {image : BitVec 64 → List Byte} {geometry : Ext4Geometry}
variable {good : Ext4Filesystem D → Prop} {strict : Bool}

/-- A step on the filesystem leaves the iterator alone. -/
theorem onFs_cases {α : Type} {r : Except DriverStop α} {x : Driver.Op D α}
    (h : Driver.Expected geometry good r x) (s : Ext4Filesystem D × Ext4DirIterator)
    (hs : s.1.blockSize = geometry.blockSize) :
    ∃ fs, fs.blockSize = geometry.blockSize ∧ (good s.1 → good fs) ∧
      (onFs x s = (r, (fs, s.2)) ∨ ¬ good s.1 ∧ ∃ e, onFs x s = (.error (.err e), (fs, s.2))) := by
  obtain ⟨hr, hI, hgood⟩ := h s.1 hs
  refine ⟨(x s.1).2, hI, hgood, hr.imp (fun hr => Prod.ext hr rfl) ?_⟩
  rintro ⟨hbad, _, ⟨e, rfl⟩, he⟩
  exact ⟨hbad, e, Prod.ext he rfl⟩

/-- What a round does once it has the block. -/
theorem readFrom_succ {s : Ext4Filesystem D × Ext4DirIterator} (hlt : s.2.position < s.2.size) (rounds : Nat)
    (buffer : List Byte) : readFrom strict ops geometry (rounds+1) buffer s =
    (onFs (Driver.getBlock strict ops geometry s.2.inode (s.2.position / geometry.blockSize.setWidth 64))
      >>= fun physical =>
      let blockSize := geometry.blockSize.setWidth 64
      let blockOffset := s.2.position % blockSize
      if physical = 0 then do
        advance (blockSize - blockOffset)
        readFrom strict ops geometry rounds buffer
      else do
        let buffer ← onFs (Driver.readInto ops physical buffer)
        onFs (Driver.inside strict buffer.length (blockOffset.toNat+DIR_ENTRY_SIZE))
        let entry := readDirEntry buffer blockOffset.toNat
        if entry.recLen = 0 then do
          advance (blockSize - blockOffset)
          readFrom strict ops geometry rounds buffer
        else do
          advance (entry.recLen.setWidth 64)
          if entry.inode ≠ 0 then pure entry else readFrom strict ops geometry rounds buffer) s := by
  rw [readFrom, Fallible.get_bind_run, if_pos hlt]

theorem readFrom_past {s : Ext4Filesystem D × Ext4DirIterator} (hlt : ¬ s.2.position < s.2.size) (rounds : Nat)
    (buffer : List Byte) : readFrom strict ops geometry (rounds+1) buffer s = (.error (.err .notFound), s) := by
  rw [readFrom, Fallible.get_bind_run, if_neg hlt]
  rfl

/-- What a call does after so many rounds that end at a round of this kind. -/
def afterRound (strict : Bool) (ops : Ext4BlockOps D) (geometry : Ext4Geometry) (fs : Ext4Filesystem D)
    (it : Ext4DirIterator) (buffer : List Byte) (rounds : Nat) :
    Round → Except DriverStop Ext4DirEntry × (Ext4Filesystem D × Ext4DirIterator)
  | .stop e => (.error e, (fs, it))
  | .skip after => readFrom strict ops geometry rounds buffer (fs, { it with position := after })
  | .entry entry after => (.ok entry, (fs, { it with position := after }))

/-- One round, where the entry fits or the run is not strict: it comes to what the image has at the position, or the
device or the allocator fails. -/
theorem readFrom_round (h : Driver.ReadsOnly ops image geometry good)
    (hheader : strict = true → 12 ≤ geometry.blockSize.toNat) {s : Ext4Filesystem D × Ext4DirIterator}
    (hs : s.1.blockSize = geometry.blockSize) {buffer : List Byte} (hlen : buffer.length = geometry.blockSize.toNat)
    (hlt : s.2.position < s.2.size) (hin : strict = true → PositionInside image geometry s.2.inode s.2.position) :
    ∃ fs buffer', fs.blockSize = geometry.blockSize ∧ (good s.1 → good fs) ∧
      buffer'.length = geometry.blockSize.toNat ∧
      ((∀ rounds, readFrom strict ops geometry (rounds+1) buffer s =
          afterRound strict ops geometry fs s.2 buffer' rounds (roundAt image geometry s.2.inode s.2.position)) ∨
        ¬ good s.1 ∧
          ∃ e, ∀ rounds, readFrom strict ops geometry (rounds+1) buffer s = (.error (.err e), (fs, s.2))) := by
  have hblock := h.getBlock_returns hheader s.2.inode (s.2.position / geometry.blockSize.setWidth 64)
    fun hs => (hin hs).1
  obtain ⟨fs₁, hfs₁, hgood₁, hrun₁ | ⟨hbad, e, hrun₁⟩⟩ := onFs_cases hblock s hs
  · rw [roundAt]
    cases hphysical : blockAt image geometry s.2.inode (s.2.position / geometry.blockSize.setWidth 64) with
    | error e =>
      rw [hphysical] at hrun₁
      refine ⟨fs₁, buffer, hfs₁, hgood₁, hlen, .inl fun rounds => ?_⟩
      rw [readFrom_succ hlt, Fallible.bind_of_error hrun₁]
      rfl
    | ok physical =>
      rw [hphysical] at hrun₁
      dsimp only
      by_cases hzero : physical = 0
      · refine ⟨fs₁, buffer, hfs₁, hgood₁, hlen, .inl fun rounds => ?_⟩
        rw [readFrom_succ hlt, Fallible.bind_of_ok hrun₁, if_pos hzero, if_pos (.inl hzero)]
        rfl
      · obtain ⟨fs₂, hfs₂, hgood₂, hrun₂ | ⟨hbad, e, hrun₂⟩⟩ :=
          onFs_cases (h.readInto_returns physical hlen) (fs₁, s.2) hfs₁
        · have hfits : onFs (Driver.inside strict (image physical).length
              ((s.2.position % geometry.blockSize.setWidth 64).toNat + DIR_ENTRY_SIZE)) (fs₂, s.2) =
                (.ok (), (fs₂, s.2)) := by
            have hroom : Driver.inside strict (image physical).length
              ((s.2.position % geometry.blockSize.setWidth 64).toNat + DIR_ENTRY_SIZE) fs₂ = (.ok (), fs₂) :=
              Fallible.require_run_pos _
                (fun hstrict => h.length physical ▸ (hin hstrict).2 physical hphysical hzero) fs₂
            rw [onFs, Fallible.zoom, hroom]
          refine ⟨fs₂, image physical, hfs₂, fun hg => hgood₂ (hgood₁ hg), h.length physical, .inl fun rounds => ?_⟩
          rw [readFrom_succ hlt, Fallible.bind_of_ok hrun₁, if_neg hzero, Fallible.bind_of_ok hrun₂,
            Fallible.bind_of_ok hfits]
          by_cases hreclen : (readDirEntry (image physical)
              (s.2.position % geometry.blockSize.setWidth 64).toNat).recLen = 0
          · rw [if_pos hreclen, if_pos (.inr hreclen)]
            rfl
          · rw [if_neg hreclen, if_neg (not_or.mpr ⟨hzero, hreclen⟩), advance, Fallible.modify_bind_run]
            split_ifs <;> rfl
        · refine ⟨fs₂, buffer, hfs₂, fun hg => hgood₂ (hgood₁ hg), hlen, .inr ⟨fun hg => hbad (hgood₁ hg), e, ?_⟩⟩
          intro rounds
          rw [readFrom_succ hlt, Fallible.bind_of_ok hrun₁, if_neg hzero, Fallible.bind_of_error hrun₂]
  · refine ⟨fs₁, buffer, hfs₁, hgood₁, hlen, .inr ⟨hbad, e, fun rounds => ?_⟩⟩
    rw [readFrom_succ hlt, Fallible.bind_of_error hrun₁]

end Ext4DirIterator
end Nafuraito.Ext4
