import Nafuraito.Ext4.BootInodes

/-! The bootloader's search of a directory, on an image whose blocks it reads. -/
namespace Nafuraito.Ext4
open Nafuraito.Library

namespace Boot.Loader
open Ata (Drive)

/-! ### The entries of a block -/

section Entries
variable {block name : List Byte} {offset : Nat} (tail : List Byte)

theorem readDirEntry_append (h : offset + 8 ≤ block.length) :
    (readDirEntry (block ++ tail) offset).inode = (readDirEntry block offset).inode ∧
    (readDirEntry (block ++ tail) offset).recLen = (readDirEntry block offset).recLen ∧
    (readDirEntry (block ++ tail) offset).nameLen = (readDirEntry block offset).nameLen :=
  ⟨u32At_append tail (by omega), u16At_append tail (by omega), byteAt_append tail (by omega)⟩

/-- The bootloader compares byte by byte, the kernel the names as a whole. -/
theorem named_iff (hname : name.length ≤ EXT4_NAME_LEN) (h : ComparedInside block name offset) :
    (readDirEntry (block ++ tail) offset).inode ≠ 0 ∧
      (readDirEntry (block ++ tail) offset).nameLen.toNat = name.length ∧
      ext4Strcmp (readDirEntry (block ++ tail) offset).name name name.length ↔
        (readDirEntry block offset).Named name := by
  obtain ⟨hinode, -, hlen⟩ := readDirEntry_append tail h.header
  rw [hinode, hlen, Ext4DirEntry.Named]
  refine and_congr_right fun _ => and_congr_right fun hlength => ?_
  have hroom := h.name hlength
  have hnames (bytes : List Byte) : (readDirEntry bytes offset).name.length = EXT4_NAME_LEN := by
    rw [readDirEntry, List.length_map, List.length_range]
  have hget (bytes : List Byte) {i : Nat} (hi : i < name.length) :
      byteAt (readDirEntry bytes offset).name i = byteAt bytes (offset+8+i) := by
    rw [byteAt, List.getD_eq_getElem _ _ (by rw [hnames]; omega)]
    simp only [readDirEntry, List.getElem_map, List.getElem_range]
  have hlength' : (readDirEntry block offset).nameBytes.length = name.length := by
    rw [Ext4DirEntry.nameBytes, List.length_take, hnames, hlength]
    omega
  have htake {i : Nat} (hi : i < (readDirEntry block offset).nameBytes.length) :
      (readDirEntry block offset).nameBytes[i] = byteAt block (offset+8+i) := by
    rw [hlength'] at hi
    rw [← hget block hi, byteAt, List.getD_eq_getElem _ _ (by rw [hnames]; omega)]
    exact List.getElem_take
  have hbyte {i : Nat} (hi : i < name.length) : byteAt name i = name[i] := List.getD_eq_getElem _ _ hi
  constructor
  · intro hcmp
    apply List.ext_getElem hlength'
    intro i h₁ h₂
    rw [htake h₁, ← hbyte h₂, ← hcmp i h₂, hget _ h₂, byteAt_append tail (by omega)]
  · intro heq i hi
    rw [hget _ hi, byteAt_append tail (by omega), hbyte hi, ← htake (by rwa [hlength'])]
    exact List.getElem_of_eq heq _

/-- Both find the same entry, whatever stands behind the block. -/
theorem scanEntries_eq (hname : name.length ≤ EXT4_NAME_LEN) (n : Nat) (h : SearchedInside block name offset) :
    scanEntries (block ++ tail) block.length name n offset = findEntry block name n offset := by
  induction n generalizing offset with
  | zero => rfl
  | succ n ih =>
    rw [scanEntries, findEntry]
    by_cases hlt : offset < block.length
    · have hinside := h offset (.here offset) hlt
      obtain ⟨hinode, hrec, -⟩ := readDirEntry_append tail hinside.header
      rw [if_pos hlt]
      by_cases hend : (readDirEntry block offset).recLen = 0
      · rw [if_pos (hrec.trans hend), if_neg fun hc => hc.2 hend]
      · have hmore : offset < block.length ∧ (readDirEntry block offset).recLen ≠ 0 := ⟨hlt, hend⟩
        rw [if_neg (hrec ▸ hend), if_pos hmore]
        by_cases hnamed : (readDirEntry block offset).Named name
        · rw [if_pos ((named_iff tail hname hinside).mpr hnamed), if_pos hnamed, hinode]
        · rw [if_neg fun hc => hnamed ((named_iff tail hname hinside).mp hc), if_neg hnamed, hrec]
          exact ih fun last hfrom => h last (.next hend hnamed hfrom)
    · rw [if_neg hlt, if_neg fun hc => hlt hc.1]

end Entries
/-! ### The block map -/

/-- From a good drive the computation succeeds, and the drive stays good. -/
def Succeeds (good : Drive → Prop) {α : Type} (x : Op α) : Prop :=
  ∀ s, good s.drive → ∃ a t, x s = (.ok a, t) ∧ good t.drive

namespace Succeeds
variable {ctx : Ext4BootContext} {good : Drive → Prop} {α β : Type}

theorem pure (a : α) : Succeeds good (pure a : Op α) := fun s hs => ⟨a, s, rfl, hs⟩

theorem get : Succeeds good (Fallible.get : Op Loader) := fun s hs => ⟨s, s, rfl, hs⟩

theorem bind {x : Op α} {f : α → Op β} (hx : Succeeds good x) (hf : ∀ a, Succeeds good (f a)) :
    Succeeds good (x >>= f) := by
  intro s hs
  obtain ⟨a, t, hrun, ht⟩ := hx s hs
  rw [Fallible.bind_of_ok hrun]
  exact hf a t ht

variable (h : ReadsBlocks ctx good)
include h

theorem readBuffer2 (block : BitVec 64) : Succeeds good (readBuffer2 ctx block) := by
  intro s hs
  have hrun : Loader.readBuffer2 ctx block s = (.ok (), { s with
      drive := (ext4ReadBlock ctx block s.drive).2.drive
      blockBuffer2 := (ext4ReadBlock ctx block s.drive).2.memory ++
        s.blockBuffer2.drop (ext4ReadBlock ctx block s.drive).2.memory.length }) := by
    rw [Loader.readBuffer2, readTo]
    dsimp only
    rw [h.succeeds _ hs block]
    rfl
  exact ⟨(), _, hrun, h.stays _ hs block⟩

theorem walkIndex (logicalBlock : BitVec 64) (depth : Nat) (header : List Byte) :
    Succeeds good (walkIndex ctx logicalBlock depth header) := by
  induction depth generalizing header with
  | zero => exact pure _
  | succ depth ih =>
    rw [Loader.walkIndex]
    split
    · exact pure _
    · exact bind (readBuffer2 h _) fun _ => bind get fun s => ih _

theorem mapExtent (inode : Ext4Inode) (logicalBlock : BitVec 64) :
    Succeeds good (mapExtent ctx inode logicalBlock) := by
  refine bind get fun s => ?_
  dsimp only
  split
  · exact pure _
  · refine bind (walkIndex h _ _ _) fun leaf => ?_
    cases leaf <;> exact pure _

theorem pointerIn (block : BitVec 64) (i : Nat) : Succeeds good (pointerIn ctx block i) :=
  bind (readBuffer2 h _) fun _ => bind get fun _ => pure _

theorem mapIndirect (inode : Ext4Inode) (logicalBlock : BitVec 64) :
    Succeeds good (mapIndirect ctx inode logicalBlock) := by
  rw [Loader.mapIndirect]
  split_ifs
  · exact pure _
  · exact pointerIn h _ _
  · exact bind (pointerIn h _ _) fun _ => pointerIn h _ _
  · exact bind (pointerIn h _ _) fun _ => bind (pointerIn h _ _) fun _ => pointerIn h _ _

theorem mapBlock (inode : Ext4Inode) (logicalBlock : BitVec 64) : Succeeds good (mapBlock ctx inode logicalBlock) := by
  rw [Loader.mapBlock]
  split
  · exact mapExtent h _ _
  · exact mapIndirect h _ _

end Succeeds

section Blocks
variable {ctx : Ext4BootContext} {good : Drive → Prop} {sectors : Nat → Vector (BitVec 8) 512}

/-- Where all blocks are read, the block map gives the block found in them. -/
theorem ReadsBlocks.ext4GetBlock_gives (h : ReadsBlocks ctx good) (hsize : BlockSized ctx) {inode : Ext4Inode}
    (hfile : IsFile (seen ctx sectors) ctx.blockSize.toNat inode) {logicalBlock : BitVec 64}
    (hin : logicalBlock.toNat * ctx.blockSize.toNat < inode.size64.toNat) :
    Gives good sectors (.ok (foundBlock (seen ctx sectors) (ptrsPerBlock ctx) inode logicalBlock))
      (ext4GetBlock ctx inode logicalBlock) := by
  intro s hs
  obtain ⟨block, t, hrun, ht⟩ := Succeeds.mapBlock h inode logicalBlock s hs.2
  have hquiet : Quiet (mapBlock ctx inode logicalBlock) := .mapBlock inode logicalBlock
  have hsectors := (hquiet s).1.sectors
  rw [hrun, hs.1] at hsectors
  have hfound := mapBlock_found hsize hs.1 hfile hin (fun _ _ => rfl) hrun
  rw [ext4GetBlock, hrun]
  exact ⟨.inl (congrArg Except.ok hfound), ⟨hsectors, ht⟩, fun _ => trivial⟩

end Blocks

section Found
variable {blocks : BitVec 64 → List Byte} {inode inode' : Ext4Inode} {geometry : Ext4Geometry}

theorem foundBlock_congr (h : SameInode inode inode') (ptrs : Nat) (logicalBlock : BitVec 64) :
    foundBlock blocks ptrs inode logicalBlock = foundBlock blocks ptrs inode' logicalBlock := by
  have hpointer : pointerAt blocks ptrs inode logicalBlock.toNat = pointerAt blocks ptrs inode' logicalBlock.toNat := by
    have hndir : EXT4_NDIR_BLOCKS = 12 := rfl
    rw [pointerAt, pointerAt, h.iBlock (i := EXT4_IND_BLOCK) (by decide), h.iBlock (i := EXT4_DIND_BLOCK) (by decide),
      h.iBlock (i := EXT4_TIND_BLOCK) (by decide)]
    dsimp only
    by_cases hdirect : logicalBlock.toNat < EXT4_NDIR_BLOCKS
    · rw [if_pos hdirect, if_pos hdirect, h.iBlock (by omega)]
    · rw [if_neg hdirect, if_neg hdirect]
  rw [foundBlock, foundBlock, treeDepth, treeDepth, h.rootNode, hpointer]
  simp only [h.usesExtents]

/-- The kernel finds the same block, and none where the bootloader has 0. -/
theorem foundBlock_blockAt (hfile : IsFile blocks geometry.blockSize.toNat inode) {logicalBlock : BitVec 64}
    (hin : logicalBlock.toNat * geometry.blockSize.toNat < inode.size64.toNat) :
    foundBlock blocks (geometry.blockSize.toNat / 4) inode logicalBlock =
      match blockAt blocks geometry inode logicalBlock with
      | .ok physical => physical
      | .error _ => 0 := by
  rw [foundBlock, blockAt]
  by_cases hext : inode.usesExtents
  · rw [if_pos hext]
    have htree := hfile.tree hext
    have hroom := htree.fits.room
    have hroot : rootNode inode ++ inode.iBlockPtr.drop 60 = inode.iBlockPtr := List.take_append_drop 60 _
    have hheader := readHeader_append (inode.iBlockPtr.drop 60) (show 12 ≤ (rootNode inode).length by omega)
    have hlookup := lookupExtent_append (inode.iBlockPtr.drop 60) logicalBlock htree.fits
    rw [hroot] at hheader hlookup
    simp only [if_pos hext, hheader, if_pos (hfile.node hext).magic]
    rw [treeDepth] at hlookup ⊢
    rw [hlookup]
    cases lookupExtent blocks logicalBlock (readHeader (rootNode inode)).ehDepth.toNat (rootNode inode) <;> rfl
  · have hlt := Nat.lt_of_mul_lt_mul_right (hin.trans_le (hfile.size_pointers hext))
    simp only [if_neg hext]
    rw [if_pos (show logicalBlock.toNat < Driver.indirectBlocks geometry from hlt)]

end Found
/-! ### The search -/

/-- What the bootloader's search comes to: through the blocks of the low half of the size, past those it cannot map. -/
def bootSearch (image : BitVec 64 → List Byte) (geometry : Ext4Geometry) (inode : Ext4Inode) (name : List Byte) :
    Except BootStop (BitVec 32) :=
  search (skipping (entryIn image geometry inode name)) (.err .notFound) 0 (geometry.blocksOf inode.iSizeLo.toNat)

theorem iSizeLo_le (inode : Ext4Inode) : inode.iSizeLo.toNat ≤ inode.size64.toNat := by
  have hlo : (inode.iSizeLo.setWidth 64).toNat = inode.iSizeLo.toNat := BitVec.toNat_setWidth_of_le (by decide)
  rw [Ext4Inode.size64, BitVec.toNat_or, ← hlo]
  exact Nat.left_le_or

section Search
variable {sb : PackedSuperblock} {partLba : BitVec 64} {good : Drive → Prop} {sectors : Nat → Vector (BitVec 8) 512}
variable {inode inode' : Ext4Inode} {name : List Byte}
variable (hw : WellFormedImage sb (seen (contextOf sb partLba) sectors)) (h : ReadsBlocks (contextOf sb partLba) good)
variable (hsame : SameInode inode inode')
variable (hfile : IsFile (seen (contextOf sb partLba) sectors) sb.blockSize.toNat inode')
variable (hinside : SearchesInside (seen (contextOf sb partLba) sectors) sb.geometry inode' name)
variable (hname : name.length ≤ EXT4_NAME_LEN)
include hw h hsame hfile hinside hname

/-- One block: it is skipped, has the entry or leaves the search to what follows. -/
private theorem searchBlock_gives {k : Nat} (hk : k < 2^32)
    (hin : k < sb.geometry.blocksOf inode'.size64.toNat) {n : Nat} {rest : Op (BitVec 32)}
    (hrest : Gives good sectors (search (skipping (entryIn (seen (contextOf sb partLba) sectors)
      sb.geometry inode' name))
      (.err .notFound) (k+1) n) rest) :
    Gives good sectors (search (skipping (entryIn (seen (contextOf sb partLba) sectors) sb.geometry inode' name))
        (.err .notFound) k (n+1))
      (ext4GetBlock (contextOf sb partLba) inode (BitVec.ofNat 64 k) >>= fun physical =>
        if physical = 0 then rest
        else readBuffer (contextOf sb partLba) physical >>= fun _ => Fallible.get >>= fun s =>
          match scanEntries s.blockBuffer (contextOf sb partLba).blockSize.toNat name
            (contextOf sb partLba).blockSize.toNat 0 with
          | some found => pure found
          | none => rest) := by
  have hb := blockSize_bounds hw
  have hpos : 0 < sb.geometry.blockSize.toNat := by change 0 < sb.blockSize.toNat; omega
  have hin64 : (BitVec.ofNat 64 k).toNat * sb.geometry.blockSize.toNat < inode'.size64.toNat := by
    rw [BitVec.toNat_ofNat, Nat.mod_eq_of_lt (by omega)]
    exact (lt_blocksOf hpos).mp hin
  have hin' : (BitVec.ofNat 64 k).toNat * (contextOf sb partLba).blockSize.toNat < inode.size64.toNat := by
    rw [hsame.size64]
    exact hin64
  have hphysical := h.ext4GetBlock_gives hw.blockSize (hsame.isFile hfile) hin'
  rw [foundBlock_congr hsame, show ptrsPerBlock (contextOf sb partLba) = sb.geometry.blockSize.toNat / 4 from rfl,
    foundBlock_blockAt hfile hin64] at hphysical
  apply Fallible.Returns.bind hphysical
  rw [search, skipping, entryIn]
  cases hmap : blockAt (seen (contextOf sb partLba) sectors) sb.geometry inode' (BitVec.ofNat 64 k) with
  | error e =>
    dsimp only
    rw [if_pos rfl]
    exact hrest
  | ok physical =>
    dsimp only
    by_cases hzero : physical = 0
    · rw [if_pos hzero, if_pos hzero]
      exact hrest
    · rw [if_neg hzero, if_neg hzero]
      apply h.readBuffer_gives
      intro s tail hbuffer
      have hscan := scanEntries_eq tail hname sb.blockSize.toNat (hinside k hin physical hmap hzero)
      rw [hw.blocks] at hscan
      rw [hbuffer, show (contextOf sb partLba).blockSize = sb.blockSize from rfl, hscan,
        show sb.geometry.blockSize.toNat = sb.blockSize.toNat from rfl]
      cases findEntry (seen (contextOf sb partLba) sectors physical) name sb.blockSize.toNat 0 with
      | none => exact hrest
      | some found => exact .pure found

private theorem findFrom_gives (rounds k : Nat) (hk : k ≤ sb.geometry.blocksOf inode'.iSizeLo.toNat)
    (hrounds : sb.geometry.blocksOf inode'.iSizeLo.toNat < k + rounds) :
    Gives good sectors
      (search (skipping (entryIn (seen (contextOf sb partLba) sectors) sb.geometry inode' name)) (.err .notFound) k
        (sb.geometry.blocksOf inode'.iSizeLo.toNat - k))
      (findFrom (contextOf sb partLba) inode name (inode'.iSizeLo.setWidth 64) rounds
        (BitVec.ofNat 64 (k * sb.blockSize.toNat))) := by
  have hb := blockSize_bounds hw
  have hpos : 0 < sb.geometry.blockSize.toNat := by change 0 < sb.blockSize.toNat; omega
  have hlow : (inode'.iSizeLo.setWidth 64).toNat = inode'.iSizeLo.toNat := BitVec.toNat_setWidth_of_le (by decide)
  have hmax : sb.geometry.blocksOf inode'.iSizeLo.toNat ≤ 2^32 := by
    refine blocksOf_le hpos ?_
    have := inode'.iSizeLo.isLt
    have : 2^32 ≤ 2^32 * sb.geometry.blockSize.toNat := Nat.le_mul_of_pos_right _ hpos
    omega
  induction rounds generalizing k with
  | zero => omega
  | succ rounds ih =>
    obtain ⟨hoffset, hblock, hnext⟩ := blockOffset (show 0 < sb.blockSize.toNat from hpos) (hk.trans hmax) hb.2
    have hlt : BitVec.ofNat 64 (k * sb.blockSize.toNat) < inode'.iSizeLo.setWidth 64 ↔
        k < sb.geometry.blocksOf inode'.iSizeLo.toNat := by
      rw [BitVec.lt_def, hoffset, hlow, lt_blocksOf hpos]
      rfl
    by_cases hin : k < sb.geometry.blocksOf inode'.iSizeLo.toNat
    · have ih := ih (k+1) hin (by omega)
      have hcount : sb.geometry.blocksOf inode'.iSizeLo.toNat - k =
          sb.geometry.blocksOf inode'.iSizeLo.toNat - (k+1) + 1 := by omega
      have hround := searchBlock_gives hw h hsame hfile hinside hname (hin.trans_le hmax)
        (hin.trans_le (blocksOf_mono hpos (iSizeLo_le inode'))) ih
      rw [← hblock, ← hnext] at hround
      rw [findFrom, if_pos (hlt.mpr hin), hcount]
      exact hround
    · rw [findFrom, if_neg fun hc => hin (hlt.mp hc), Nat.sub_eq_zero_of_le (Nat.le_of_not_lt hin)]
      exact .throw _

/-- The bootloader's search for a name. -/
theorem ext4DirFindEntry_gives : Gives good sectors
    (bootSearch (seen (contextOf sb partLba) sectors) sb.geometry inode' name)
    (ext4DirFindEntry (contextOf sb partLba) inode name) := by
  have hb := blockSize_bounds hw
  have hlow : (inode'.iSizeLo.setWidth 64).toNat = inode'.iSizeLo.toNat := BitVec.toNat_setWidth_of_le (by decide)
  have hrounds : sb.geometry.blocksOf inode'.iSizeLo.toNat < 0 + (inode'.iSizeLo.toNat / sb.blockSize.toNat + 2) := by
    change (inode'.iSizeLo.toNat + sb.blockSize.toNat - 1) / sb.blockSize.toNat < _
    have hle : (inode'.iSizeLo.toNat + sb.blockSize.toNat - 1) / sb.blockSize.toNat ≤
        (inode'.iSizeLo.toNat + sb.blockSize.toNat) / sb.blockSize.toNat := Nat.div_le_div_right (by omega)
    rw [Nat.add_div_right _ (by omega)] at hle
    omega
  have hfind := findFrom_gives hw h hsame hfile hinside hname _ 0 (Nat.zero_le _) hrounds
  rw [Nat.zero_mul, Nat.sub_zero, ← hlow] at hfind
  rw [ext4DirFindEntry, show u32At inode.bytes 0x04 = inode'.iSizeLo from hsame.iSizeLo]
  exact hfind

end Search
end Boot.Loader
end Nafuraito.Ext4
