import Nafuraito.Ext4.BootLimits
import Nafuraito.Ext4.ImageFormat

/-! When the bootloader's success means that the destination holds the file. -/
namespace Nafuraito.Ext4.Boot.Loader
open Nafuraito.Library
open Ata (Drive Io sectorBytes askedSectors)

/-! ### The blocks on the way -/

section Paths
variable (blocks : BitVec 64 → List Byte)

/-- The index blocks on the way to a logical block. -/
def indexPath (logicalBlock : BitVec 64) : Nat → List Byte → List (BitVec 64)
  | 0, _ => []
  | depth+1, node => match bestIdx node logicalBlock with
    | none => []
    | some idx => idx.leaf :: indexPath logicalBlock depth (blocks idx.leaf)

/-- The indirect blocks on the way to a logical block. -/
def pointerPath (ptrs : Nat) (inode : Ext4Inode) (j : Nat) : List (BitVec 64) :=
  let single := j - EXT4_NDIR_BLOCKS
  let double := single - ptrs
  let triple := double - ptrs*ptrs
  let follow (block : BitVec 64) (i : Nat) := ptrAt (blocks block) i
  if j < EXT4_NDIR_BLOCKS then []
  else if single < ptrs then [(inode.iBlock EXT4_IND_BLOCK).setWidth 64]
  else if double < ptrs*ptrs then
    let dind := (inode.iBlock EXT4_DIND_BLOCK).setWidth 64
    [dind, follow dind (double/ptrs)]
  else
    let tind := (inode.iBlock EXT4_TIND_BLOCK).setWidth 64
    let dind := follow tind (triple/(ptrs*ptrs))
    [tind, dind, follow dind (triple/ptrs%ptrs)]

def mapPath (ptrs : Nat) (inode : Ext4Inode) (logicalBlock : BitVec 64) : List (BitVec 64) :=
  if inode.usesExtents then indexPath blocks logicalBlock (treeDepth inode) (rootNode inode)
  else pointerPath blocks ptrs inode logicalBlock.toNat

/-- The block that a lookup gives which reads all its blocks; 0 where it finds none. -/
def foundBlock (ptrs : Nat) (inode : Ext4Inode) (logicalBlock : BitVec 64) : BitVec 64 :=
  if inode.usesExtents then ((lookupExtent blocks logicalBlock (treeDepth inode) (rootNode inode)).map
    fun extent => extent.physical logicalBlock).getD 0
  else pointerAt blocks ptrs inode logicalBlock.toNat

end Paths

/-! ### The file of an image -/

section Files
variable (ctx : Ext4BootContext) (sectors : Nat → Vector (BitVec 8) 512)

def sectorsPerBlock : Nat := ctx.blockSize.toNat / 512

/-- The sector a block of the partition begins with. -/
def firstSector (block : BitVec 64) : Nat := ctx.partitionLba.toNat + block.toNat * sectorsPerBlock ctx

/-- The blocks of the partition. -/
def image (block : BitVec 64) : List Byte :=
  sectorBytes sectors (askedSectors id (firstSector ctx block) (sectorsPerBlock ctx))

/-- What a read of a block gives: its sectors with their addresses cut to 28 bits. -/
def seen (block : BitVec 64) : List Byte :=
  sectorBytes sectors (askedSectors (· % 2^28) (sectorOf ctx block).toNat (sectorsPerBlock ctx))

/-- The sectors of the block have addresses of 28 bits. -/
def Below (block : BitVec 64) : Prop := firstSector ctx block + sectorsPerBlock ctx ≤ 2^28

def ptrsPerBlock : Nat := ctx.blockSize.toNat / 4

/-- The block that the format gives for a logical block of the inode; 0 in a hole. -/
def formatBlock (inode : Ext4Inode) (j : Nat) : BitVec 64 :=
  if inode.usesExtents then mapped (extents (image ctx sectors) (treeDepth inode) (rootNode inode)) j
  else pointerAt (image ctx sectors) (ptrsPerBlock ctx) inode j

/-- A byte of the file. -/
def contentByte (inode : Ext4Inode) (i : Nat) : Byte :=
  let block := formatBlock ctx sectors inode (i / ctx.blockSize.toNat)
  if block = 0 then 0 else byteAt (image ctx sectors block) (i % ctx.blockSize.toNat)

/-- No extent of the file that covers the block is unwritten, has 32768 blocks or ends at block `2^32`. -/
def PlainExtents (inode : Ext4Inode) (j : Nat) : Prop :=
  inode.usesExtents → ∀ extent ∈ extents (image ctx sectors) (treeDepth inode) (rootNode inode),
    extent.Covers j → extent.Initialised ∧ extent.count < 32768 ∧ extent.stop < 2^32

end Files

/-! ### Reads -/

section Reads
variable {ctx : Ext4BootContext}

/-- One of the three block sizes. -/
def BlockSized (ctx : Ext4BootContext) : Prop :=
  ctx.blockSize = 1024 ∨ ctx.blockSize = 2048 ∨ ctx.blockSize = 4096

theorem BlockSized.toNat (h : BlockSized ctx) :
    ctx.blockSize.toNat = 1024 ∨ ctx.blockSize.toNat = 2048 ∨ ctx.blockSize.toNat = 4096 := by
  rcases h with h | h | h <;> rw [h]
  · exact .inl rfl
  · exact .inr (.inl rfl)
  · exact .inr (.inr rfl)

theorem BlockSized.pos (h : BlockSized ctx) : 0 < ctx.blockSize.toNat := by
  rcases h.toNat with h | h | h <;> omega

/-- The sectors of a block have its size, wherever they are read. -/
theorem blockSectors_length (h : BlockSized ctx) (sectors : Nat → Vector (BitVec 8) 512) (limit : Nat → Nat)
    (first : Nat) :
    (sectorBytes sectors (askedSectors limit first (sectorsPerBlock ctx))).length = ctx.blockSize.toNat := by
  rw [Ata.sectorBytes_length, askedSectors, List.length_map, List.length_range, sectorsPerBlock]
  rcases h.toNat with h | h | h <;> rw [h]

/-- Below sector `2^28` a read gives the block. -/
theorem seen_eq_image (h : BlockSized ctx) (sectors : Nat → Vector (BitVec 8) 512) {block : BitVec 64}
    (hbelow : Below ctx block) : seen ctx sectors block = image ctx sectors block := by
  have hfirst : (sectorOf ctx block).toNat = firstSector ctx block := by
    rw [Below, firstSector, sectorsPerBlock] at hbelow
    rw [sectorOf, firstSector, sectorsPerBlock, BitVec.toNat_add, BitVec.toNat_udiv, BitVec.toNat_mul,
      BitVec.toNat_setWidth]
    change (ctx.partitionLba.toNat + block.toNat*(ctx.blockSize.toNat%2^64)%2^64/512)%2^64 = _
    rcases h.toNat with h | h | h <;> rw [h] at hbelow ⊢ <;> omega
  rw [seen, image, hfirst]
  congr 1
  apply List.map_congr_left
  intro i hi
  have := List.mem_range.mp hi
  rw [Below] at hbelow
  exact Nat.mod_eq_of_lt (by omega)

/-- A read that succeeds stores the block as it is seen. -/
theorem ext4ReadBlock_ok {block : BitVec 64} {drive : Drive} (h : (ext4ReadBlock ctx block drive).1 = true) :
    (ext4ReadBlock ctx block drive).2.memory = seen ctx drive.sectors block := by
  obtain ⟨k, -, hmemory, -, htrue⟩ := ext4ReadBlock_run ctx block drive
  obtain rfl := htrue h
  rw [hmemory, seen, sectorsPerBlock, BitVec.toNat_udiv]
  rfl

theorem readBuffer2_ok {block : BitVec 64} {s t : Loader} {u : Unit} (h : readBuffer2 ctx block s = (.ok u, t)) :
    ∃ tail, t.blockBuffer2 = seen ctx s.drive.sectors block ++ tail := by
  rw [readBuffer2, readTo] at h
  dsimp only at h
  split at h
  next hok =>
    obtain rfl := (Prod.ext_iff.mp h).2
    rw [← ext4ReadBlock_ok hok]
    exact ⟨_, rfl⟩
  next => cases (Prod.ext_iff.mp h).1

end Reads

/-! ### Lookups that read all their blocks -/

section Lookups
variable {ctx : Ext4BootContext} {sectors : Nat → Vector (BitVec 8) 512} {blocks : BitVec 64 → List Byte} {s t : Loader}

/-- What the walk to a leaf comes to. -/
private def leafValue (logicalBlock : BitVec 64) : Option (List Byte) → BitVec 64
  | none => 0
  | some leaf => scanExtent leaf logicalBlock 0 (readHeader leaf).ehEntries.toNat

/-- Along index blocks that are read right, the walk finds the extent of the tree. -/
private theorem walkIndex_sound {logicalBlock : BitVec 64} (hlb : logicalBlock.toNat < 2^32)
    {depth : Nat} {node : List Byte} (tail : List Byte) (hsectors : s.drive.sectors = sectors)
    (hfits : Fits blocks depth node)
    (hpath : ∀ block ∈ indexPath blocks logicalBlock depth node, seen ctx sectors block = blocks block)
      {leaf : Option (List Byte)}
    (hrun : walkIndex ctx logicalBlock depth (node ++ tail) s = (.ok leaf, t)) :
    leafValue logicalBlock leaf =
      ((lookupExtent blocks logicalBlock depth node).map
        fun extent => extent.physical logicalBlock).getD 0 := by
  induction depth generalizing node tail s with
  | zero =>
    have hroom := hfits.room
    obtain rfl := Except.ok.inj (Prod.ext_iff.mp hrun).1
    simp only [leafValue, readHeader_append tail (show 12 ≤ node.length by omega), lookupExtent, leafOf,
      Option.bind_some, findExtent]
    exact scanExtent_eq tail logicalBlock 0 _ (by omega)
  | succ depth ih =>
    have hroom := hfits.room
    have hbest : scanIdx (node ++ tail) logicalBlock 0 (readHeader (node ++ tail)).ehEntries.toNat none =
        bestIdx node logicalBlock := by
      rw [readHeader_append tail (by omega)]
      exact scanIdx_eq tail logicalBlock hlb 0 _ none (by omega)
    rw [walkIndex, hbest] at hrun
    rw [lookupExtent, leafOf]
    rw [indexPath] at hpath
    cases hb : bestIdx node logicalBlock with
    | none =>
      rw [hb] at hrun
      obtain rfl := Except.ok.inj (Prod.ext_iff.mp hrun).1
      rfl
    | some best =>
      rw [hb] at hrun hpath
      obtain ⟨i, hi, rfl⟩ := bestIdx_mem hb
      obtain ⟨u, v, hread, hrest⟩ := Fallible.bind_ok hrun
      obtain ⟨rest, hbuffer⟩ := readBuffer2_ok hread
      have hquiet : Quiet (readBuffer2 ctx (readIdx node i).leaf) := .readBuffer2 _
      have hkept := (hquiet s).1.sectors
      rw [hread, hsectors] at hkept
      rw [Fallible.get_bind_run, hbuffer, hsectors, hpath _ List.mem_cons_self] at hrest
      exact ih rest hkept (hfits.2 i hi) (fun block hblock => hpath block (List.mem_cons_of_mem _ hblock)) hrest

/-- A pointer of a block that is read right. -/
private theorem pointerIn_ok (hsize : BlockSized ctx) (hsectors : s.drive.sectors = sectors) {block p : BitVec 64}
    (hread : seen ctx sectors block = blocks block) {i : Nat} (hi : i < ptrsPerBlock ctx)
      (hrun : pointerIn ctx block i s = (.ok p, t)) :
    p = ptrAt (blocks block) i ∧ t.drive.sectors = sectors := by
  have hquiet : Quiet (pointerIn ctx block i) := .pointerIn block i
  have hkept := (hquiet s).1.sectors
  rw [hrun] at hkept
  obtain ⟨u, v, hrun, hrest⟩ := Fallible.bind_ok hrun
  obtain ⟨rest, hbuffer⟩ := readBuffer2_ok hrun
  rw [Fallible.get_bind_run, hbuffer, hsectors, hread] at hrest
  obtain rfl := Except.ok.inj (Prod.ext_iff.mp hrest).1
  refine ⟨ptrAt_append rest ?_, hkept.trans hsectors⟩
  rw [← hread, seen, blockSectors_length hsize]
  rw [ptrsPerBlock] at hi
  omega

private theorem mapIndirect_sound (hsize : BlockSized ctx) (hsectors : s.drive.sectors = sectors) (inode : Ext4Inode)
    (logicalBlock : BitVec 64)
    (hlb : logicalBlock.toNat < 12 + ptrsPerBlock ctx + ptrsPerBlock ctx * ptrsPerBlock ctx +
      ptrsPerBlock ctx * (ptrsPerBlock ctx * ptrsPerBlock ctx))
    (hpath : ∀ block ∈ pointerPath blocks (ptrsPerBlock ctx) inode logicalBlock.toNat,
      seen ctx sectors block = blocks block) {block : BitVec 64}
    (hrun : mapIndirect ctx inode logicalBlock s = (.ok block, t)) :
    block = pointerAt blocks (ptrsPerBlock ctx) inode logicalBlock.toNat := by
  have hptrs : 0 < ptrsPerBlock ctx ∧ ptrsPerBlock ctx ≤ 1024 := by
    rw [ptrsPerBlock]
    rcases hsize.toNat with h | h | h <;> rw [h] <;> decide
  have hsquare : ptrsPerBlock ctx * ptrsPerBlock ctx % 2^32 = ptrsPerBlock ctx * ptrsPerBlock ctx :=
    Nat.mod_eq_of_lt ((Nat.mul_le_mul hptrs.2 hptrs.2).trans_lt (by decide))
  have hndir : EXT4_NDIR_BLOCKS = 12 := rfl
  have hmod (n : Nat) : n % ptrsPerBlock ctx < ptrsPerBlock ctx := Nat.mod_lt n hptrs.1
  rw [mapIndirect] at hrun
  change (if _ then _ else _ : Op (BitVec 64)) s = _ at hrun
  rw [show ctx.blockSize.toNat / 4 = ptrsPerBlock ctx from rfl, hsquare] at hrun
  rw [pointerPath] at hpath
  rw [pointerAt]
  generalize hn : logicalBlock.toNat - EXT4_NDIR_BLOCKS = n at hrun hpath ⊢
  split_ifs at hrun hpath ⊢ with hdirect hsingle hdouble
  · exact (Except.ok.inj (Prod.ext_iff.mp hrun).1).symm
  · exact (pointerIn_ok hsize hsectors (hpath _ List.mem_cons_self) hsingle hrun).1
  · obtain ⟨ind, u, hind, hlast⟩ := Fallible.bind_ok hrun
    obtain ⟨rfl, hu⟩ := pointerIn_ok hsize hsectors (hpath _ List.mem_cons_self) (Nat.div_lt_of_lt_mul hdouble) hind
    exact (pointerIn_ok hsize hu (hpath _ (List.mem_cons_of_mem _ List.mem_cons_self)) (hmod _) hlast).1
  · have hfirst : (n - ptrsPerBlock ctx - ptrsPerBlock ctx * ptrsPerBlock ctx) /
        (ptrsPerBlock ctx * ptrsPerBlock ctx) < ptrsPerBlock ctx := by
      have := Nat.mul_comm (ptrsPerBlock ctx) (ptrsPerBlock ctx * ptrsPerBlock ctx)
      exact Nat.div_lt_of_lt_mul (by omega)
    obtain ⟨dind, u, hdind, hrest⟩ := Fallible.bind_ok hrun
    obtain ⟨rfl, hu⟩ := pointerIn_ok hsize hsectors (hpath _ List.mem_cons_self) hfirst hdind
    obtain ⟨ind, v, hind, hlast⟩ := Fallible.bind_ok hrest
    obtain ⟨rfl, hv⟩ := pointerIn_ok hsize hu (hpath _ (List.mem_cons_of_mem _ List.mem_cons_self)) (hmod _) hind
    exact (pointerIn_ok hsize hv
      (hpath _ (List.mem_cons_of_mem _ (List.mem_cons_of_mem _ List.mem_cons_self))) (hmod _) hlast).1

/-- In a tree whose extents are plain around the block, the lookup finds what the format says. -/
private theorem lookup_eq_mapped {depth : Nat} {node : List Byte}
    {logicalBlock : BitVec 64} (h : WellFormed blocks depth 0 (2^32) node) (hlb : logicalBlock.toNat < 2^32)
    (hplain : ∀ extent ∈ extents blocks depth node, extent.Covers logicalBlock.toNat →
      extent.Initialised ∧ extent.count < 32768 ∧ extent.stop < 2^32) :
    ((lookupExtent blocks logicalBlock depth node).map fun extent => extent.physical logicalBlock).getD 0 =
      mapped (extents blocks depth node) logicalBlock.toNat := by
  have hholds {extent : Ext4Extent} (he : extent ∈ extents blocks depth node)
      (hc : extent.Covers logicalBlock.toNat) : extent.holds logicalBlock := by
    obtain ⟨hinit, hcount, hstop⟩ := hplain extent he hc
    rw [Ext4Extent.count_of_initialised hinit] at hcount
    exact (Ext4Extent.holds_iff (h.range he).2.2 hstop.le logicalBlock).mpr ⟨hc, hstop, hcount.ne⟩
  cases hfind : lookupExtent blocks logicalBlock depth node with
  | none =>
    have hnone : (extents blocks depth node).find?
        (fun extent => extent.Initialised ∧ extent.Covers logicalBlock.toNat) = none := by
      rw [List.find?_eq_none]
      intro extent he hcovers
      rw [decide_eq_true_eq] at hcovers
      have := (h.lookupExtent_iff le_rfl hlb).mpr ⟨he, hholds he hcovers.2⟩
      rw [hfind] at this
      cases this
    rw [mapped, hnone]
    rfl
  | some extent =>
    obtain ⟨he, hh⟩ := (h.lookupExtent_iff le_rfl hlb).mp hfind
    obtain ⟨hc, -, -⟩ := (Ext4Extent.holds_iff (h.range he).2.2 (h.range he).2.1 logicalBlock).mp hh
    rw [h.mapped_eq he hc, if_pos (hplain extent he hc).1, Option.map_some, Option.getD_some,
      Ext4Extent.physical_eq hc.1]

/-- A lookup that reads all its blocks as they are in `blocks` gives the block found there. -/
theorem mapBlock_found (hsize : BlockSized ctx) (hsectors : s.drive.sectors = sectors) {inode : Ext4Inode}
    (hfile : IsFile blocks ctx.blockSize.toNat inode) {logicalBlock : BitVec 64}
    (hin : logicalBlock.toNat * ctx.blockSize.toNat < inode.size64.toNat)
    (hpath : ∀ block ∈ mapPath blocks (ptrsPerBlock ctx) inode logicalBlock, seen ctx sectors block = blocks block)
    {block : BitVec 64} (hrun : mapBlock ctx inode logicalBlock s = (.ok block, t)) :
    block = foundBlock blocks (ptrsPerBlock ctx) inode logicalBlock := by
  rw [mapBlock] at hrun
  rw [mapPath] at hpath
  rw [foundBlock]
  by_cases hext : inode.usesExtents
  · rw [if_pos hext] at hrun hpath ⊢
    have htree := hfile.tree hext
    have hlb := Nat.lt_of_mul_lt_mul_right (hin.trans_le (hfile.size_tree hext))
    have hroom := htree.fits.room
    have hroot : rootNode inode ++ (inode.iBlockPtr.drop 60 ++ s.behindInode) = inode.iBlockPtr ++ s.behindInode := by
      rw [rootNode, ← List.append_assoc, List.take_append_drop]
    have hheader := readHeader_append (inode.iBlockPtr.drop 60 ++ s.behindInode)
      (show 12 ≤ (rootNode inode).length by omega)
    rw [hroot] at hheader
    rw [mapExtent, Fallible.get_bind_run] at hrun
    rw [hheader, if_neg (not_not.mpr (hfile.node hext).magic), ← hroot] at hrun
    obtain ⟨leaf, u, hwalk, hlast⟩ := Fallible.bind_ok hrun
    have hvalue := walkIndex_sound hlb _ hsectors htree.fits hpath hwalk
    rw [← hvalue]
    cases leaf <;> exact (Except.ok.inj (Prod.ext_iff.mp hlast).1).symm
  · rw [if_neg hext] at hrun hpath ⊢
    exact mapIndirect_sound hsize hsectors inode logicalBlock
      (Nat.lt_of_mul_lt_mul_right (hin.trans_le (hfile.size_pointers hext))) hpath hrun

/-- The block found is the one of the format where the extents around it are plain. -/
theorem foundBlock_eq {inode : Ext4Inode} (hfile : IsFile (image ctx sectors) ctx.blockSize.toNat inode)
    {logicalBlock : BitVec 64} (hin : logicalBlock.toNat * ctx.blockSize.toNat < inode.size64.toNat)
    (hplain : PlainExtents ctx sectors inode logicalBlock.toNat) :
    foundBlock (image ctx sectors) (ptrsPerBlock ctx) inode logicalBlock =
      formatBlock ctx sectors inode logicalBlock.toNat := by
  rw [foundBlock, formatBlock]
  split
  next hext =>
    have hlb := Nat.lt_of_mul_lt_mul_right (hin.trans_le (hfile.size_tree hext))
    exact lookup_eq_mapped (hfile.tree hext) hlb (hplain hext)
  next => rfl

/-- A lookup that reads all its blocks, and these right, gives the block of the format. -/
theorem mapBlock_sound (hsize : BlockSized ctx) (hsectors : s.drive.sectors = sectors) {inode : Ext4Inode}
    (hfile : IsFile (image ctx sectors) ctx.blockSize.toNat inode) {j : Nat}
    (hj : j * ctx.blockSize.toNat < inode.size64.toNat)
    (hpath : ∀ block ∈ mapPath (image ctx sectors) (ptrsPerBlock ctx) inode (BitVec.ofNat 64 j), Below ctx block)
    (hplain : PlainExtents ctx sectors inode j) {block : BitVec 64}
    (hrun : mapBlock ctx inode (BitVec.ofNat 64 j) s = (.ok block, t)) : block = formatBlock ctx sectors inode j := by
  have hj64 : (BitVec.ofNat 64 j).toNat = j := by
    have := inode.size64.isLt
    have := Nat.le_mul_of_pos_right j hsize.pos
    rw [BitVec.toNat_ofNat]
    omega
  have hin : (BitVec.ofNat 64 j).toNat * ctx.blockSize.toNat < inode.size64.toNat := by rwa [hj64]
  have heq := foundBlock_eq hfile hin (by rwa [hj64])
  rw [hj64] at heq
  exact (mapBlock_found hsize hsectors hfile hin (fun block h => seen_eq_image hsize sectors (hpath block h))
    hrun).trans heq

end Lookups

/-! ### The rounds of the loop -/

section Rounds
variable (ctx : Ext4BootContext) (inode : Ext4Inode) (fileSize : Nat)

/-- Round `j` of the loop. -/
def round (j : Nat) : Op Unit :=
  readRound ctx inode (j * ctx.blockSize.toNat) (BitVec.ofNat 64 (fileSize - j * ctx.blockSize.toNat))
    (BitVec.ofNat 64 j)

/-- The loader at the beginning of round `j`. -/
def atRound (s : Loader) : Nat → Loader
  | 0 => s
  | j+1 => (round ctx inode fileSize j (atRound s j)).2

/-- The data block that the map gives for round `j` cannot be read. -/
def DataFails (s : Loader) (j : Nat) : Prop :=
  ∃ block t, mapBlock ctx inode (BitVec.ofNat 64 j) (atRound ctx inode fileSize s j) = (.ok block, t) ∧ block ≠ 0 ∧
    (ext4ReadBlock ctx block t.drive).1 = false

/-- An index or indirect block on the way to block `j` cannot be read. -/
def LookupFails (s : Loader) (j : Nat) : Prop :=
  ∃ e t, mapBlock ctx inode (BitVec.ofNat 64 j) (atRound ctx inode fileSize s j) = (.error e, t)

/-- What is taken for a byte: zero where the map has nothing or could not be read, else what the block's address of
28 bits gives. -/
def takenByte (s : Loader) (i : Nat) : Byte :=
  match (mapBlock ctx inode (BitVec.ofNat 64 (i / ctx.blockSize.toNat))
      (atRound ctx inode fileSize s (i / ctx.blockSize.toNat))).1 with
  | .error _ => 0
  | .ok block => if block = 0 then 0 else byteAt (seen ctx s.drive.sectors block) (i % ctx.blockSize.toNat)

/-- The lookup for a byte gives a block, perhaps not the one of the format, with the byte of the file at its place. -/
def Coincides (s : Loader) (i : Nat) : Prop :=
  ∃ block t, mapBlock ctx inode (BitVec.ofNat 64 (i / ctx.blockSize.toNat))
      (atRound ctx inode fileSize s (i / ctx.blockSize.toNat)) = (.ok block, t) ∧
    (if block = 0 then 0 else byteAt (seen ctx s.drive.sectors block) (i % ctx.blockSize.toNat)) =
      contentByte ctx s.drive.sectors inode i

/-- The lookup of block `j` reads all its blocks, these and the data block have addresses of 28 bits, and no extent
with a length from 32768 on covers the block. -/
structure Sound (s : Loader) (j : Nat) : Prop where
  reads : ¬LookupFails ctx inode fileSize s j
  path_below : ∀ block ∈ mapPath (image ctx s.drive.sectors) (ptrsPerBlock ctx) inode (BitVec.ofNat 64 j),
    Below ctx block
  data_below : formatBlock ctx s.drive.sectors inode j ≠ 0 → Below ctx (formatBlock ctx s.drive.sectors inode j)
  plain : PlainExtents ctx s.drive.sectors inode j

end Rounds

section Steps
variable {ctx : Ext4BootContext} {inode : Ext4Inode} {fileSize : Nat} {s t : Loader}

theorem readDest_sectors (place : Nat) (block : BitVec 64) (s : Loader) :
    (readDest ctx place block s).2.drive.sectors = s.drive.sectors := by
  obtain ⟨-, -, -, hsectors, -⟩ := ext4ReadBlock_run ctx block s.drive
  exact hsectors

theorem readRound_sectors (buffer : Nat) (remaining logicalBlock : BitVec 64) (s : Loader) :
    (readRound ctx inode buffer remaining logicalBlock s).2.drive.sectors = s.drive.sectors := by
  have hquiet : Quiet (ext4GetBlock ctx inode logicalBlock) := .ext4GetBlock inode logicalBlock
  rw [readRound, Fallible.bind_run]
  have hkept := (hquiet s).1.sectors
  rcases hget : ext4GetBlock ctx inode logicalBlock s with ⟨e | block, t⟩ <;> rw [hget] at hkept
  · exact hkept
  · dsimp only
    split
    · exact hkept
    · exact (readDest_sectors buffer block t).trans hkept

theorem atRound_sectors (s : Loader) (j : Nat) : (atRound ctx inode fileSize s j).drive.sectors = s.drive.sectors := by
  induction j with
  | zero => rfl
  | succ j ih => exact (readRound_sectors _ _ _ _).trans ih

/-- A sound lookup takes the bytes of the file. -/
theorem Sound.takenByte_eq (hsize : BlockSized ctx)
    (hfile : IsFile (image ctx s.drive.sectors) ctx.blockSize.toNat inode) {i : Nat}
    (hi : i < inode.size64.toNat) (h : Sound ctx inode fileSize s (i / ctx.blockSize.toNat)) :
    takenByte ctx inode fileSize s i = contentByte ctx s.drive.sectors inode i := by
  rw [takenByte, contentByte]
  rcases hmap : mapBlock ctx inode (BitVec.ofNat 64 (i / ctx.blockSize.toNat))
      (atRound ctx inode fileSize s (i / ctx.blockSize.toNat)) with ⟨e | block, t⟩
  · exact absurd ⟨e, t, hmap⟩ h.reads
  · have hj : i / ctx.blockSize.toNat * ctx.blockSize.toNat < inode.size64.toNat :=
      (Nat.div_mul_le_self _ _).trans_lt hi
    obtain rfl := mapBlock_sound hsize (atRound_sectors s _) hfile hj h.path_below h.plain hmap
    dsimp only
    split
    · rfl
    next hne => rw [seen_eq_image hsize _ (h.data_below hne)]

/-- The byte that is taken is the file's by chance if the lookup fails over a zero, or finds the byte elsewhere. -/
theorem takenByte_eq_iff (s : Loader) (i : Nat) :
    takenByte ctx inode fileSize s i = contentByte ctx s.drive.sectors inode i ↔
      LookupFails ctx inode fileSize s (i / ctx.blockSize.toNat) ∧ contentByte ctx s.drive.sectors inode i = 0 ∨
        Coincides ctx inode fileSize s i := by
  rw [takenByte, LookupFails, Coincides]
  rcases hmap : mapBlock ctx inode (BitVec.ofNat 64 (i / ctx.blockSize.toNat))
      (atRound ctx inode fileSize s (i / ctx.blockSize.toNat)) with ⟨e | block, t⟩
  · refine ⟨fun h => .inl ⟨⟨e, t, rfl⟩, h.symm⟩, ?_⟩
    rintro (⟨-, h⟩ | ⟨block, u, hok, -⟩)
    · exact h.symm
    · cases (Prod.ext_iff.mp hok).1
  · refine ⟨fun h => .inr ⟨block, t, rfl, h⟩, ?_⟩
    rintro (⟨⟨e, u, herror⟩, -⟩ | ⟨found, u, hok, h⟩)
    · cases (Prod.ext_iff.mp herror).1
    · obtain rfl := Except.ok.inj (Prod.ext_iff.mp hok).1
      exact h

/-- The byte of a block that is stored at a place of its own. -/
private theorem store_block {m i bs : Nat} {dest : Nat → Byte} {data : List Byte} (hi : i/bs = m)
    (hlen : i%bs < data.length) : store dest (m*bs) data i = byteAt data (i%bs) := by
  have hdiv := Nat.div_add_mod i bs
  rw [hi, Nat.mul_comm] at hdiv
  rw [store_inside (by omega) (by omega)]
  congr 1
  omega

/-- A round fails exactly if its data block cannot be read; else it stores its bytes and nothing before them. -/
theorem round_run (hsize : BlockSized ctx) {j : Nat} (hj : j * ctx.blockSize.toNat < fileSize)
    (hwidth : fileSize < 2^64) (s : Loader) :
    (DataFails ctx inode fileSize s j ∧
      ∃ e t, round ctx inode fileSize j (atRound ctx inode fileSize s j) = (.error e, t)) ∨
    (¬DataFails ctx inode fileSize s j ∧ ∃ t,
      round ctx inode fileSize j (atRound ctx inode fileSize s j) = (.ok (), t) ∧
      (∀ i < j * ctx.blockSize.toNat, t.dest i = (atRound ctx inode fileSize s j).dest i) ∧
      ∀ i < fileSize, i / ctx.blockSize.toNat = j → t.dest i = takenByte ctx inode fileSize s i) := by
  have hpos := hsize.pos
  have hquiet : Quiet (mapBlock ctx inode (BitVec.ofNat 64 j)) := .mapBlock inode _
  have hkept := (hquiet (atRound ctx inode fileSize s j)).1
  have hrest : (toRead ctx (BitVec.ofNat 64 (fileSize - j * ctx.blockSize.toNat))).toNat =
      min (fileSize - j * ctx.blockSize.toNat) ctx.blockSize.toNat := by
    rw [toRead_toNat, BitVec.toNat_ofNat]
    congr 1
    exact Nat.mod_eq_of_lt (by omega)
  -- a block of the map that is 0, or could not be read, is zeroed
  have hzero (t : Loader) (hdest : t.dest = (atRound ctx inode fileSize s j).dest)
      (htaken : ∀ i < fileSize, i / ctx.blockSize.toNat = j → takenByte ctx inode fileSize s i = 0) :
      let stored := store t.dest (j * ctx.blockSize.toNat)
        (List.replicate (toRead ctx (BitVec.ofNat 64 (fileSize - j * ctx.blockSize.toNat))).toNat 0)
      (∀ i < j * ctx.blockSize.toNat, stored i = (atRound ctx inode fileSize s j).dest i) ∧
        ∀ i < fileSize, i / ctx.blockSize.toNat = j → stored i = takenByte ctx inode fileSize s i := by
    refine ⟨fun i hi => (store_outside (.inl hi)).trans (congrFun hdest i), fun i hi hij => ?_⟩
    have hmod := Nat.mod_lt i hpos
    have hdiv := Nat.div_add_mod i ctx.blockSize.toNat
    rw [hij, Nat.mul_comm] at hdiv
    have hlen : i % ctx.blockSize.toNat <
        (List.replicate (toRead ctx (BitVec.ofNat 64 (fileSize - j * ctx.blockSize.toNat))).toNat
          (0 : Byte)).length := by
      rw [List.length_replicate, hrest]
      omega
    rw [htaken i hi hij, store_block hij hlen, byteAt, List.getD_eq_getElem _ _ hlen, List.getElem_replicate]
  rw [round, readRound, Fallible.bind_run, ext4GetBlock]
  rcases hmap : mapBlock ctx inode (BitVec.ofNat 64 j) (atRound ctx inode fileSize s j) with ⟨e | block, t⟩
  · rw [hmap] at hkept
    refine .inr ⟨?_, _, rfl, hzero t hkept.dest fun i hi hij => ?_⟩
    · rintro ⟨block, u, hok, -⟩
      rw [hmap] at hok
      cases (Prod.ext_iff.mp hok).1
    · rw [takenByte, hij, hmap]
  · rw [hmap] at hkept
    dsimp only
    split
    next hnull =>
      refine .inr ⟨?_, _, rfl, hzero t hkept.dest fun i hi hij => ?_⟩
      · rintro ⟨b, u, hok, hne, -⟩
        rw [hmap] at hok
        exact hne (Except.ok.inj (Prod.ext_iff.mp hok).1 ▸ hnull)
      · rw [takenByte, hij, hmap]
        exact if_pos hnull
    next hnull =>
      rw [readDest, readTo]
      dsimp only
      cases hread : (ext4ReadBlock ctx block t.drive).1 with
      | false => exact .inl ⟨⟨block, t, hmap, hnull, hread⟩, _, _, rfl⟩
      | true =>
        have hdata := ext4ReadBlock_ok hread
        refine .inr ⟨?_, _, rfl, fun i hi => (store_outside (.inl hi)).trans (congrFun hkept.dest i),
          fun i hi hij => ?_⟩
        · rintro ⟨b, u, hok, -, hfails⟩
          rw [hmap] at hok
          obtain ⟨hb, hu⟩ := Prod.ext_iff.mp hok
          obtain rfl := Except.ok.inj hb
          obtain rfl : t = u := hu
          rw [hread] at hfails
          cases hfails
        · rw [takenByte, hij, hmap]
          dsimp only
          rw [if_neg hnull, hdata, hkept.sectors, atRound_sectors,
            store_block hij (by rw [seen, blockSectors_length hsize]; exact Nat.mod_lt i hpos)]

private theorem readBlocks_done (rounds buffer : Nat) (bytesRead logicalBlock : BitVec 64) (s : Loader)
    (h : 0 < rounds) : readBlocks ctx inode rounds buffer bytesRead 0 logicalBlock s = (.ok bytesRead, s) := by
  obtain ⟨n, rfl⟩ : ∃ n, rounds = n+1 := ⟨rounds-1, by omega⟩
  rfl

/-- How the loop ends from round `j` on: it fails exactly if a data block of some round cannot be read; else every
byte is the one that is taken, and those before stay. -/
def Outcome (ctx : Ext4BootContext) (inode : Ext4Inode) (fileSize : Nat) (s : Loader) (j : Nat)
    (result : Except BootStop (BitVec 64) × Loader) : Prop :=
  ((∃ k, j ≤ k ∧ k * ctx.blockSize.toNat < fileSize ∧ DataFails ctx inode fileSize s k) ∧
    ∃ e, result.1 = .error e) ∨
  (∀ k, j ≤ k → k * ctx.blockSize.toNat < fileSize → ¬DataFails ctx inode fileSize s k) ∧
    (∃ size, result.1 = .ok size) ∧
    (∀ i < j * ctx.blockSize.toNat, result.2.dest i = (atRound ctx inode fileSize s j).dest i) ∧
    ∀ i < fileSize, j * ctx.blockSize.toNat ≤ i → result.2.dest i = takenByte ctx inode fileSize s i

private theorem Outcome.done {j : Nat} (h : fileSize ≤ j * ctx.blockSize.toNat) (size : BitVec 64) :
    Outcome ctx inode fileSize s j (.ok size, atRound ctx inode fileSize s j) :=
  .inr ⟨fun _ hk hlt => absurd (hlt.trans_le' (Nat.mul_le_mul_right _ hk)) (Nat.not_lt.mpr h), ⟨_, rfl⟩,
    fun _ _ => rfl, fun _ hi hle => absurd (hle.trans_lt hi) (Nat.not_lt.mpr h)⟩

/-- A round before the others. -/
private theorem Outcome.step {j : Nat} {result : Except BootStop (BitVec 64) × Loader}
    (h : Outcome ctx inode fileSize s (j+1) result) (hreads : ¬DataFails ctx inode fileSize s j)
    (hbefore : ∀ i < j * ctx.blockSize.toNat,
      (atRound ctx inode fileSize s (j+1)).dest i = (atRound ctx inode fileSize s j).dest i)
    (hbytes : ∀ i < fileSize, i / ctx.blockSize.toNat = j →
      (atRound ctx inode fileSize s (j+1)).dest i = takenByte ctx inode fileSize s i) :
    Outcome ctx inode fileSize s j result := by
  have hsucc : (j+1) * ctx.blockSize.toNat = j * ctx.blockSize.toNat + ctx.blockSize.toNat := Nat.succ_mul _ _
  obtain ⟨⟨k, hk, hlt, hfails⟩, herror⟩ | ⟨hall, hok, hkept, htaken⟩ := h
  · exact .inl ⟨⟨k, by omega, hlt, hfails⟩, herror⟩
  · refine .inr ⟨fun k hk hlt => ?_, hok, fun i hi => ?_, fun i hi hle => ?_⟩
    · obtain rfl | hk := hk.eq_or_lt
      · exact hreads
      · exact hall k hk hlt
    · exact (hkept i (by omega)).trans (hbefore i hi)
    · by_cases hin : i < (j+1) * ctx.blockSize.toNat
      · have hij : i / ctx.blockSize.toNat = j :=
          Nat.div_eq_of_lt_le hle hin
        exact (hkept i hin).trans (hbytes i hi hij)
      · exact htaken i hi (Nat.le_of_not_lt hin)

theorem readBlocks_outcome (inode : Ext4Inode) (hsize : BlockSized ctx) (hwidth : fileSize < 2^64) (s : Loader)
    (rounds j : Nat) (bytesRead : BitVec 64) (hrounds : fileSize - j * ctx.blockSize.toNat < rounds) :
    Outcome ctx inode fileSize s j (readBlocks ctx inode rounds (j * ctx.blockSize.toNat) bytesRead
      (BitVec.ofNat 64 (fileSize - j * ctx.blockSize.toNat)) (BitVec.ofNat 64 j)
      (atRound ctx inode fileSize s j)) := by
  have hpos := hsize.pos
  have hnone {n : Nat} (h : n = 0) : BitVec.ofNat 64 n = 0 := by rw [h]; rfl
  induction rounds generalizing j bytesRead with
  | zero => omega
  | succ rounds ih =>
    by_cases hmore : j * ctx.blockSize.toNat < fileSize
    · have hrest : (BitVec.ofNat 64 (fileSize - j * ctx.blockSize.toNat)).toNat =
          fileSize - j * ctx.blockSize.toNat := by
        rw [BitVec.toNat_ofNat]
        exact Nat.mod_eq_of_lt (by omega)
      have hpositive : BitVec.ofNat 64 (fileSize - j * ctx.blockSize.toNat) > 0 := by
        refine BitVec.lt_def.mpr ?_
        rw [hrest]
        exact Nat.sub_pos_of_lt hmore
      rw [readBlocks, if_pos hpositive]
      obtain ⟨hfails, e, t, hround⟩ | ⟨hreads, t, hround, hbefore, hbytes⟩ :=
        round_run hsize hmore hwidth s
      · have hrun := hround
        rw [round] at hrun
        rw [Fallible.bind_of_error hrun]
        exact .inl ⟨⟨j, le_rfl, hmore, hfails⟩, e, rfl⟩
      · have hrun := hround
        rw [round] at hrun
        rw [Fallible.bind_of_ok hrun]
        obtain rfl : t = atRound ctx inode fileSize s (j+1) := by rw [atRound, hround]
        refine Outcome.step ?_ hreads hbefore hbytes
        have hsucc : (j+1) * ctx.blockSize.toNat = j * ctx.blockSize.toNat + ctx.blockSize.toNat := Nat.succ_mul _ _
        have hstep := toRead_toNat ctx (BitVec.ofNat 64 (fileSize - j * ctx.blockSize.toNat))
        rw [hrest] at hstep
        generalize toRead ctx (BitVec.ofNat 64 (fileSize - j * ctx.blockSize.toNat)) = n at hstep ⊢
        have hwide : (n.setWidth 64).toNat = n.toNat := by
          have := n.isLt
          rw [BitVec.toNat_setWidth]
          omega
        -- what is left after the round
        have hnext : BitVec.ofNat 64 (fileSize - j * ctx.blockSize.toNat) - n.setWidth 64 =
            BitVec.ofNat 64 (fileSize - (j+1) * ctx.blockSize.toNat) := by
          apply BitVec.eq_of_toNat_eq
          rw [BitVec.toNat_sub_of_le (BitVec.le_def.mpr (by omega)), hwide, hrest, hstep, BitVec.toNat_ofNat,
            Nat.mod_eq_of_lt (by omega)]
          omega
        have hblock : BitVec.ofNat 64 j + 1 = BitVec.ofNat 64 (j+1) := (BitVec.ofNat_add _ _).symm
        by_cases hlast : (j+1) * ctx.blockSize.toNat < fileSize
        · have hbuffer : j * ctx.blockSize.toNat + n.toNat = (j+1) * ctx.blockSize.toNat := by omega
          rw [hbuffer, hnext, hblock]
          exact ih (j+1) _ (by omega)
        · rw [hnext, hnone (Nat.sub_eq_zero_of_le (Nat.le_of_not_lt hlast)), readBlocks_done _ _ _ _ _ (by omega)]
          exact .done (Nat.le_of_not_lt hlast) _
    · rw [hnone (Nat.sub_eq_zero_of_le (Nat.le_of_not_lt hmore)), readBlocks_done _ _ _ _ _ (Nat.succ_pos rounds)]
      exact .done (Nat.le_of_not_lt hmore) _

end Steps

/-! ### The whole call -/

section File
variable {ctx : Ext4BootContext} {s : Loader}

/-- A success means that the destination holds the bytes of the file up to the limit. -/
def LoadsFile (ctx : Ext4BootContext) (path : List Byte) (maxSize : BitVec 64) (s : Loader) : Prop :=
  ∀ size, (ext4BootReadFile ctx path maxSize s).1 = .ok size → ∃ inode t, inodeOf ctx path s = (.ok inode, t) ∧
    ∀ i < min inode.size64.toNat maxSize.toNat,
      (ext4BootReadFile ctx path maxSize s).2.dest i = contentByte ctx s.drive.sectors inode i

/-- A data block of the range cannot be read, or each byte of the range lies in a block with a sound lookup, is a zero
where the lookup fails, or stands by chance in the block that is found. -/
def Loadable (ctx : Ext4BootContext) (inode : Ext4Inode) (fileSize : Nat) (s : Loader) : Prop :=
  (∃ j, j * ctx.blockSize.toNat < fileSize ∧ DataFails ctx inode fileSize s j) ∨
    ∀ i < fileSize, Sound ctx inode fileSize s (i / ctx.blockSize.toNat) ∨
      LookupFails ctx inode fileSize s (i / ctx.blockSize.toNat) ∧ contentByte ctx s.drive.sectors inode i = 0 ∨
        Coincides ctx inode fileSize s i

private theorem readContents_outcome (hsize : BlockSized ctx) (inode : Ext4Inode) (maxSize : BitVec 64) (t : Loader) :
    Outcome ctx inode (min inode.size64.toNat maxSize.toNat) t 0 (readContents ctx inode maxSize t) := by
  have hlt := maxSize.isLt
  have houtcome := readBlocks_outcome inode hsize
    (show min inode.size64.toNat maxSize.toNat < 2^64 by omega) t
    ((if inode.size64 > maxSize then maxSize else inode.size64).toNat + 1) 0 0
    (by rw [fileSize_toNat]; omega)
  rw [Nat.zero_mul, Nat.sub_zero, ← fileSize_toNat, BitVec.ofNat_toNat, BitVec.setWidth_eq] at houtcome
  rw [← fileSize_toNat]
  exact houtcome

/-- Whatever fails to be read and when: the loader's success means a loaded file exactly if the file is loadable. -/
theorem ext4BootReadFile_loads_iff (hsize : BlockSized ctx) (path : List Byte) (maxSize : BitVec 64)
    (hfile : ∀ inode t, inodeOf ctx path s = (.ok inode, t) →
      IsFile (image ctx s.drive.sectors) ctx.blockSize.toNat inode) :
    LoadsFile ctx path maxSize s ↔ ∀ inode t, inodeOf ctx path s = (.ok inode, t) →
      Loadable ctx inode (min inode.size64.toNat maxSize.toNat) t := by
  have hquiet : Quiet (inodeOf ctx path) := .inodeOf hsize.pos path
  rcases hinode : inodeOf ctx path s with ⟨e | inode, t⟩
  · refine ⟨fun _ inode u h => ?_, fun _ size h => ?_⟩
    · cases (Prod.ext_iff.mp h).1
    · rw [ext4BootReadFile, Fallible.bind_of_error hinode] at h
      cases h
  have hsectors := (hquiet s).1.sectors
  rw [hinode] at hsectors
  have hrun : ext4BootReadFile ctx path maxSize s = readContents ctx inode maxSize t := Fallible.bind_of_ok hinode
  have hfile := hfile inode t hinode
  have hone (P : Ext4Inode → Loader → Prop) :
      (∀ inode' u, (Except.ok inode, t) = ((Except.ok inode', u) : Except BootStop Ext4Inode × Loader) → P inode' u) ↔
        P inode t := by
    refine ⟨fun h => h inode t rfl, fun h inode' u heq => ?_⟩
    obtain ⟨rfl, rfl⟩ : inode = inode' ∧ t = u := ⟨Except.ok.inj (Prod.ext_iff.mp heq).1, (Prod.ext_iff.mp heq).2⟩
    exact h
  rw [hone, LoadsFile, hrun, Loadable]
  obtain ⟨⟨k, -, hlt, hfails⟩, e, herror⟩ | ⟨hall, ⟨size, hok⟩, -, htaken⟩ :=
    readContents_outcome hsize inode maxSize t
  · refine ⟨fun _ => .inl ⟨k, hlt, hfails⟩, fun _ size h => ?_⟩
    rw [herror] at h
    cases h
  have htaken (i : Nat) (hi : i < min inode.size64.toNat maxSize.toNat) :
      (readContents ctx inode maxSize t).2.dest i =
        takenByte ctx inode (min inode.size64.toNat maxSize.toNat) t i :=
    htaken i hi (by rw [Nat.zero_mul]; exact Nat.zero_le i)
  constructor
  · intro h
    obtain ⟨inode', u, heq, hbytes⟩ := h size hok
    obtain rfl : inode' = inode := by
      rw [hinode] at heq
      exact (Except.ok.inj (Prod.ext_iff.mp heq).1).symm
    refine .inr fun i hi => .inr ((takenByte_eq_iff t i).mp ?_)
    rw [hsectors]
    exact (htaken i hi).symm.trans (hbytes i hi)
  · rintro (⟨j, hj, hfails⟩ | hbytes) size' -
    · exact absurd hfails (hall j (Nat.zero_le j) hj)
    · refine ⟨inode, t, hinode, fun i hi => (htaken i hi).trans ?_⟩
      rw [← hsectors]
      rcases hbytes i hi with hsound | hchance
      · exact hsound.takenByte_eq hsize (hsectors ▸ hfile) (by omega)
      · exact (takenByte_eq_iff t i).mpr hchance

end File

/-! ### The sparse kernel -/

/-- The path and a drive that fails when the pointer block is read. -/
def sparseRun (maxSize : BitVec 64) : Except BootStop (BitVec 64) × Loader :=
  ext4BootReadFile sparseContext [0x2F, 0x6B] maxSize (sparseLoader (· = 20))

/-- What the inode of the file has. -/
structure IsSparse (inode : Ext4Inode) : Prop where
  pointers : ¬inode.usesExtents
  size : inode.size64 = 13312
  hole : inode.iBlock 0 = 0
  one : contentByte sparseContext sparseDisk inode 12288 = 1

private theorem sparseInode_found : ∃ inode t,
    inodeOf sparseContext [0x2F, 0x6B] (sparseLoader (· = 20)) = (.ok inode, t) ∧ IsSparse inode := by
  have hcheck : (inodeOf sparseContext [0x2F, 0x6B] (sparseLoader (· = 20))).1.toOption.any fun inode =>
      ¬inode.usesExtents ∧ inode.size64 = 13312 ∧ inode.iBlock 0 = 0 ∧
        contentByte sparseContext sparseDisk inode 12288 = 1 := by decide +kernel
  obtain ⟨inode, hok, hsparse⟩ := Fallible.ok_of_any hcheck
  obtain ⟨hpointers, hsize, hhole, hone⟩ := of_decide_eq_true hsparse
  exact ⟨inode, _, Fallible.run_of_fst hok, hpointers, hsize, hhole, hone⟩

private theorem IsSparse.isFile {inode : Ext4Inode} (h : IsSparse inode) :
    IsFile (image sparseContext sparseDisk) sparseContext.blockSize.toNat inode where
  tree hext := absurd hext h.pointers
  size_tree hext := absurd hext h.pointers
  size_pointers _ := by
    rw [h.size]
    decide

/-- Up to its first block the file is loaded. -/
theorem sparseKernel_loads : LoadsFile sparseContext [0x2F, 0x6B] 1024 (sparseLoader (· = 20)) := by
  obtain ⟨found, u, hfound, hsparse⟩ := sparseInode_found
  have hunique {inode : Ext4Inode} {t : Loader}
      (h : inodeOf sparseContext [0x2F, 0x6B] (sparseLoader (· = 20)) = (.ok inode, t)) : inode = found :=
    (Except.ok.inj (Prod.ext_iff.mp (hfound.symm.trans h)).1).symm
  refine (ext4BootReadFile_loads_iff (.inl rfl) [0x2F, 0x6B] 1024 fun inode t h => ?_).mpr fun inode t h => ?_
  · rw [hunique h]
    exact hsparse.isFile
  · obtain rfl := hunique h
    have hlimit : min inode.size64.toNat (1024 : BitVec 64).toNat = 1024 := by
      rw [hsparse.size]
      decide
    rw [hlimit]
    refine .inr fun i hi => .inl ?_
    have hzero : i / sparseContext.blockSize.toNat = 0 := Nat.div_eq_of_lt hi
    have hdirect : (inode.iBlock 0).setWidth 64 = 0 := by
      rw [hsparse.hole]
      rfl
    have hmap : mapBlock sparseContext inode (BitVec.ofNat 64 0) t = (.ok 0, t) := by
      rw [mapBlock, if_neg hsparse.pointers, mapIndirect]
      exact Prod.ext (congrArg Except.ok hdirect) rfl
    have hpath : mapPath (image sparseContext t.drive.sectors) (ptrsPerBlock sparseContext) inode
        (BitVec.ofNat 64 0) = [] := by
      rw [mapPath, if_neg hsparse.pointers]
      rfl
    have hblock : formatBlock sparseContext t.drive.sectors inode 0 = 0 := by
      rw [formatBlock, if_neg hsparse.pointers, pointerAt]
      exact (if_pos (by decide)).trans hdirect
    rw [hzero]
    exact {
      reads := fun hfails => by
        obtain ⟨e, v, hfails⟩ := hfails
        rw [atRound, hmap] at hfails
        cases (Prod.ext_iff.mp hfails).1
      path_below := fun block hmem => by
        rw [hpath] at hmem
        cases hmem
      data_below := fun hne => absurd hblock hne
      plain := fun hext => absurd hext hsparse.pointers }

/-- The pointer block cannot be read: the call succeeds, with a zero where the file has a one. -/
theorem sparseKernel_zeros : (∃ inode t, inodeOf sparseContext [0x2F, 0x6B] (sparseLoader (· = 20)) = (.ok inode, t) ∧
      IsFile (image sparseContext sparseDisk) sparseContext.blockSize.toNat inode ∧ inode.size64 = 13312 ∧
      contentByte sparseContext sparseDisk inode 12288 = 1) ∧
    (sparseRun 0xA00000).1 = .ok 13312 ∧ (sparseRun 0xA00000).2.dest 12288 = 0 := by
  obtain ⟨inode, t, hinode, hsparse⟩ := sparseInode_found
  refine ⟨⟨inode, t, hinode, hsparse.isFile, hsparse.size, hsparse.one⟩, ?_⟩
  show (fun run : Except BootStop (BitVec 64) × Loader => run.1 = .ok 13312 ∧ run.2.dest 12288 = 0) (sparseRun 0xA00000)
  decide +kernel

end Nafuraito.Ext4.Boot.Loader
