import Nafuraito.Ext4.ImageLookup
import Nafuraito.Ext4.MountSafety

/-! The contents of extent nodes, directory blocks and inode tables on which every structure read fits. -/
namespace Nafuraito.Ext4
open Nafuraito.Library

namespace Driver
variable {D : Type} {ops : Ext4BlockOps D} {image : BitVec 64 → List Byte} {geometry : Ext4Geometry}
variable {good : Ext4Filesystem D → Prop}

private theorem inside_outside {room stop : Nat} (h : ¬ stop ≤ room) :
    Expected geometry good (.error .outside) (inside (D := D) true room stop) :=
  .require_neg (fun hc => h (hc rfl)) _

/-! ### Extent trees -/

private theorem scanIdx_outside {room : Nat} {node : List Byte} {logicalBlock : BitVec 64} (i n k : Nat)
    (best : Option Ext4ExtentIdx) (hk : k < n)
    (hall : ∀ j < k, (readIdx node (i+j)).eiBlock ≤ logicalBlock.setWidth 32) (hroom : ¬ 12+12*(i+k+1) ≤ room) :
    Expected geometry good (.error .outside) (scanIdx (D := D) true room node logicalBlock i n best) := by
  induction n generalizing i k best with
  | zero => omega
  | succ n ih =>
    rw [scanIdx]
    by_cases hfits : 12+12*(i+1) ≤ room
    · apply Fallible.Returns.bind (inside_returns fun _ => hfits)
      cases k with
      | zero => exact absurd hfits hroom
      | succ k =>
        have hfirst : (readIdx node i).eiBlock ≤ logicalBlock.setWidth 32 := hall 0 (by omega)
        rw [if_pos hfirst]
        apply ih (i+1) k _ (by omega)
        · intro j hj
          simpa only [Nat.add_assoc, Nat.add_comm 1] using hall (j+1) (by omega)
        · omega
    · exact (inside_outside hfits).bind_error

private theorem scanExtent_outside {room : Nat} {node : List Byte} {logicalBlock : BitVec 64} (i n k : Nat) (hk : k < n)
    (hall : ∀ j < k, ¬ (readExtent node (i+j)).holds logicalBlock) (hroom : ¬ 12+12*(i+k+1) ≤ room) :
    Expected geometry good (.error .outside) (scanExtent (D := D) true room node logicalBlock i n) := by
  induction n generalizing i k with
  | zero => omega
  | succ n ih =>
    rw [scanExtent]
    by_cases hfits : 12+12*(i+1) ≤ room
    · apply Fallible.Returns.bind (inside_returns fun _ => hfits)
      cases k with
      | zero => exact absurd hfits hroom
      | succ k =>
        have hfirst : ¬ (readExtent node i).holds logicalBlock := hall 0 (by omega)
        rw [if_neg hfirst]
        apply ih (i+1) k (by omega)
        · intro j hj
          simpa only [Nat.add_assoc, Nat.add_comm 1] using hall (j+1) (by omega)
        · omega
    · exact (inside_outside hfits).bind_error

variable (h : ReadsOnly ops image geometry good) (hheader : 12 ≤ geometry.blockSize.toNat)
include h hheader

private theorem walkExtent_outside {logicalBlock : BitVec 64} (depth room : Nat) (node : List Byte)
    (hout : ¬ WalkInside image geometry logicalBlock depth room node) :
    Expected geometry good (.error .outside) (walkExtent true ops geometry logicalBlock depth room node) := by
  induction depth generalizing room node with
  | zero =>
    rw [WalkInside, LeafInside] at hout
    push Not at hout
    obtain ⟨k, hk, hall, hroom⟩ := hout
    rw [walkExtent, walkIndex]
    apply Fallible.Returns.bind (.pure _)
    apply Fallible.Returns.bind_error
    exact scanExtent_outside 0 _ k hk (fun j hj => (Nat.zero_add j).symm ▸ hall j hj) (by omega)
  | succ depth ih =>
    rw [walkExtent_succ]
    by_cases hidx : IdxInside logicalBlock room node
    · have hnext : ∃ best, bestIdx node logicalBlock = some best ∧
          ¬ WalkInside image geometry logicalBlock depth geometry.blockSize.toNat (image best.leaf) := by
        by_contra hc
        push Not at hc
        exact hout ⟨hidx, hc⟩
      obtain ⟨best, hbest, hchild⟩ := hnext
      have hlen := h.length best.leaf
      apply Fallible.Returns.bind (bestIdx_returns fun _ => hidx)
      rw [hbest]
      apply Fallible.Returns.bind (.pure best)
      apply Fallible.Returns.bind h.kernelAllocBytes_returns
      apply Fallible.Returns.bind (h.readInto_returns best.leaf List.length_replicate)
      apply Fallible.Returns.bind (inside_returns fun _ => hlen.symm ▸ hheader)
      exact ih _ _ (hlen.symm ▸ hchild)
    · rw [IdxInside] at hidx
      push Not at hidx
      obtain ⟨k, hk, hall, hroom⟩ := hidx
      apply Fallible.Returns.bind_error
      exact scanIdx_outside 0 _ k none hk (fun j hj => (Nat.zero_add j).symm ▸ hall j hj) (by omega)

private theorem getBlockFromExtent_outside {inode : Ext4Inode} {logicalBlock : BitVec 64}
    (hout : ¬ ExtentInside image geometry inode logicalBlock) :
    Expected geometry good (.error .outside) (getBlockFromExtent true ops geometry inode logicalBlock) := by
  rw [ExtentInside] at hout
  push Not at hout
  apply Fallible.Returns.bind (inside_returns fun _ => by decide)
  apply Fallible.Returns.bind (.require hout.1 _)
  exact walkExtent_outside h hheader _ 60 _ hout.2

private theorem getBlock_outside {inode : Ext4Inode} {logicalBlock : BitVec 64} (hext : inode.usesExtents)
    (hout : ¬ ExtentInside image geometry inode logicalBlock) :
    Expected geometry good (.error .outside) (getBlock true ops geometry inode logicalBlock) := by
  rw [getBlock, if_pos hext]
  exact getBlockFromExtent_outside h hheader hout

/-! ### Directories -/

omit h hheader in
private theorem entryFrom_le {block name : List Byte} {offset last : Nat} (h : EntryFrom block name offset last) :
    offset ≤ last := by
  induction h with
  | here => exact Nat.le_refl _
  | next _ _ _ ih => omega

omit h hheader in
private theorem scanEntries_outside {block name : List Byte} {offset last : Nat} (h : EntryFrom block name offset last)
    (hlt : last < block.length) (hout : ¬ last + DIR_ENTRY_SIZE ≤ block.length) {n : Nat}
      (hn : block.length ≤ offset + n) :
    Expected geometry good (.error .outside) (scanEntries (D := D) true block name n offset) := by
  induction h generalizing n with
  | here offset =>
    obtain ⟨n, rfl⟩ : ∃ k, n = k+1 := ⟨n-1, by omega⟩
    rw [scanEntries, if_pos hlt]
    exact (inside_outside hout).bind_error
  | @next offset last hlen hname hfrom ih =>
    have hle := entryFrom_le hfrom
    have hpos : 0 < (readDirEntry block offset).recLen.toNat := by
      apply Nat.pos_of_ne_zero
      intro hz
      exact hlen (BitVec.eq_of_toNat_eq hz)
    obtain ⟨n, rfl⟩ : ∃ k, n = k+1 := ⟨n-1, by omega⟩
    rw [scanEntries, if_pos (show offset < block.length by omega)]
    by_cases hfits : offset + DIR_ENTRY_SIZE ≤ block.length
    · apply Fallible.Returns.bind (inside_returns fun _ => hfits)
      rw [if_neg hlen, if_neg hname]
      exact ih hlt hout (by omega)
    · exact (inside_outside hfits).bind_error

variable {inode : Ext4Inode} {name : List Byte}

private theorem dirBlock_outside {offset : BitVec 64} (hlt : offset < inode.size64)
    (hout : ¬ DirBlockInside image geometry inode name offset) {buffer : List Byte}
    (hlen : buffer.length = geometry.blockSize.toNat) (rounds : Nat) :
    Expected geometry good (.error .outside) (findFrom true ops geometry inode name (rounds+1) offset buffer) := by
  rw [findFrom, if_pos hlt]
  by_cases hext : inode.usesExtents → ExtentInside image geometry inode (offset / geometry.blockSize.setWidth 64)
  · have hblock : ∃ physical, blockAt image geometry inode (offset / geometry.blockSize.setWidth 64) = .ok physical ∧
        physical ≠ 0 ∧ ¬ EntriesInside (image physical) name 0 := by
      by_contra hc
      push Not at hc
      exact hout ⟨hext, hc⟩
    obtain ⟨physical, hphysical, hne, hentries⟩ := hblock
    rw [EntriesInside] at hentries
    push Not at hentries
    obtain ⟨last, hfrom, hlast, hbad⟩ := hentries
    apply Fallible.Returns.bind (hphysical ▸ h.getBlock_returns (fun _ => hheader) inode _ fun _ => hext)
    rw [if_neg hne]
    apply Fallible.Returns.bind (h.readInto_returns physical hlen)
    apply Fallible.Returns.bind_error
    exact scanEntries_outside hfrom hlast (by omega) (by rw [h.length, Nat.zero_add])
  · push Not at hext
    exact (getBlock_outside h hheader hext.1 hext.2).bind_error

/-- A search that comes to a bad block reads outside, if it is given the rounds. -/
private theorem findFrom_outside {offset last : BitVec 64} (hfrom : SearchFrom image geometry inode name offset last)
    (hlt : last < inode.size64) (hout : ¬ DirBlockInside image geometry inode name last) :
    ∃ rounds, ∀ buffer, buffer.length = geometry.blockSize.toNat →
      Expected geometry good (.error .outside) (findFrom true ops geometry inode name rounds offset buffer) := by
  induction hfrom with
  | here offset => exact ⟨0+1, fun buffer hlen => dirBlock_outside h hheader hlt hout hlen 0⟩
  | @next offset last physical hoffset hblock hmissing hfrom ih =>
    obtain ⟨rounds, hrounds⟩ := ih hlt hout
    refine ⟨rounds+1, fun buffer hlen => ?_⟩
    by_cases hinside : DirBlockInside image geometry inode name offset
    · rw [findFrom, if_pos hoffset]
      apply Fallible.Returns.bind (hblock ▸ h.getBlock_returns (fun _ => hheader) inode _ fun _ => hinside.1)
      by_cases hzero : physical = 0
      · rw [if_pos hzero]
        exact hrounds buffer hlen
      · rw [if_neg hzero]
        apply Fallible.Returns.bind (h.readInto_returns physical hlen)
        apply Fallible.Returns.bind (scanEntries_returns _ 0 fun _ => hinside.2 physical hblock hzero)
        rw [hmissing hzero]
        exact hrounds _ (h.length physical)
    · exact dirBlock_outside h hheader hoffset hinside hlen rounds

private theorem dirFindEntry_outside (hout : ¬ SearchInside image geometry inode name 0) :
    ∃ rounds, Expected geometry good (.error .outside) (dirFindEntry true ops geometry rounds inode name) := by
  rw [SearchInside] at hout
  push Not at hout
  obtain ⟨last, hfrom, hlt, hbad⟩ := hout
  obtain ⟨rounds, hrounds⟩ := findFrom_outside h hheader hfrom hlt hbad
  refine ⟨rounds, ?_⟩
  apply Fallible.Returns.bind h.kernelAllocBytes_returns
  exact hrounds _ List.length_replicate

/-! ### Inodes -/

private theorem readInode_outside {groupDescs : List Ext4GroupDesc} {inodeNum : BitVec 32}
    (hout : ¬ InodeInside geometry groupDescs inodeNum) :
    Expected geometry good (.error .outside) (readInode true ops geometry groupDescs inodeNum) := by
  rw [InodeInside] at hout
  push Not at hout
  obtain ⟨place, hplace, hbad⟩ := hout
  have hblock : geometry.blockSize ≠ 0 := by
    intro hz
    rw [hz] at hheader
    exact absurd hheader (by decide)
  have hlt := placeOf_lt hblock hplace
  have hlen := h.length place.1
  apply Fallible.Returns.bind (hplace ▸ inodePlace_returns hblock groupDescs inodeNum)
  apply Fallible.Returns.bind h.kernelAllocBytes_returns
  apply Fallible.Returns.bind (h.readInto_returns place.1 List.length_replicate)
  unfold sliceFrom
  rw [if_pos (by omega)]
  apply Fallible.Returns.bind (.pure _)
  apply Fallible.Returns.bind_error
  apply inside_outside
  rw [List.length_drop]
  omega

end Driver

/-! ### No lookup in an image ends outside -/

section Results
variable {image : BitVec 64 → List Byte} {geometry : Ext4Geometry}

private theorem blockAt_ne_outside (inode : Ext4Inode) (logicalBlock : BitVec 64) :
    blockAt image geometry inode logicalBlock ≠ .error .outside := by
  rw [blockAt]
  intro hc
  split_ifs at hc
  · split at hc <;> cases hc
  · cases hc
  · cases hc

private theorem searchFrom_ne_outside (inode : Ext4Inode) (name : List Byte) (rounds : Nat) (offset : BitVec 64) :
    searchFrom image geometry inode name rounds offset ≠ .error .outside := by
  induction rounds generalizing offset with
  | zero =>
    intro hc
    cases hc
  | succ rounds ih =>
    rw [searchFrom]
    by_cases hlt : offset < inode.size64
    · rw [if_pos hlt]
      cases hblock : blockAt image geometry inode (offset / geometry.blockSize.setWidth 64) with
      | error e =>
        exact fun hc => blockAt_ne_outside inode _ (hblock.trans (congrArg Except.error (Except.error.inj hc)))
      | ok physical =>
        dsimp only
        by_cases hzero : physical = 0
        · rw [if_pos hzero]
          exact ih _
        · rw [if_neg hzero]
          cases findEntry (image physical) name geometry.blockSize.toNat 0 with
          | some found =>
            intro hc
            cases hc
          | none => exact ih _
    · rw [if_neg hlt]
      intro hc
      cases hc

private theorem inodeOf_ne_outside (groupDescs : List Ext4GroupDesc) (inodeNum : BitVec 32) :
    inodeOf image geometry groupDescs inodeNum ≠ .error .outside := by
  have hplace : placeOf geometry groupDescs inodeNum ≠ .error .outside := by
    intro hc
    unfold placeOf at hc
    cases hdesc : groupDescs[((inodeNum - 1) / geometry.inodesPerGroup).toNat]? with
    | none =>
      simp only [hdesc] at hc
      split_ifs at hc <;> cases hc
    | some desc =>
      simp only [hdesc] at hc
      split_ifs at hc <;> cases hc
  intro hc
  rw [inodeOf] at hc
  cases hrun : placeOf geometry groupDescs inodeNum with
  | error e =>
    rw [hrun] at hc
    exact hplace (hrun.trans (congrArg Except.error (Except.error.inj hc)))
  | ok place =>
    rw [hrun] at hc
    cases hc

end Results

/-! ### The iterator -/

namespace Ext4DirIterator
variable {D : Type} {ops : Ext4BlockOps D} {image : BitVec 64 → List Byte} {geometry : Ext4Geometry}
variable {good : Ext4Filesystem D → Prop}

variable (h : Driver.ReadsOnly ops image geometry good) (hheader : 12 ≤ geometry.blockSize.toNat)
include h hheader

/-- One round at a position that is fine: the loop goes on at the next position, or it ends without a bad read. -/
private theorem round_inside (s : Ext4Filesystem D × Ext4DirIterator) (hs : s.1.blockSize = geometry.blockSize)
    {buffer : List Byte} (hlen : buffer.length = geometry.blockSize.toNat) (hlt : s.2.position < s.2.size)
    (hin : PositionInside image geometry s.2.inode s.2.position) :
    (∃ fs after buffer', stepAt image geometry s.2.inode s.2.position = some after ∧
      fs.blockSize = geometry.blockSize ∧ (good s.1 → good fs) ∧ buffer'.length = geometry.blockSize.toNat ∧
      ∀ rounds, readFrom true ops geometry (rounds+1) buffer s =
        readFrom true ops geometry rounds buffer' (fs, { s.2 with position := after })) ∨
      (good s.1 → stepAt image geometry s.2.inode s.2.position = none) ∧
        ∀ rounds, (readFrom true ops geometry (rounds+1) buffer s).1 ≠ .error .outside := by
  obtain ⟨fs, buffer', hfs, hgood, hlen', hrun | ⟨hbad, e, hrun⟩⟩ :=
    readFrom_round h (fun _ => hheader) hs hlen hlt fun _ => hin
  · rw [stepAt_eq]
    cases hround : roundAt image geometry s.2.inode s.2.position with
    | stop e =>
      refine .inr ⟨fun _ => rfl, fun rounds => ?_⟩
      rw [hrun, hround]
      exact fun hc => blockAt_ne_outside s.2.inode _ ((roundAt_stop hround).trans (congrArg _ (Except.error.inj hc)))
    | skip after => exact .inl ⟨fs, after, buffer', rfl, hfs, hgood, hlen', fun rounds => by rw [hrun, hround]; rfl⟩
    | entry entry after =>
      refine .inr ⟨fun _ => rfl, fun rounds hc => ?_⟩
      rw [hrun, hround] at hc
      cases hc
  · refine .inr ⟨fun hg => absurd hg hbad, fun rounds hc => ?_⟩
    rw [hrun] at hc
    cases hc

private theorem round_outside (s : Ext4Filesystem D × Ext4DirIterator) (hs : s.1.blockSize = geometry.blockSize)
    (hg : good s.1) {buffer : List Byte} (hlen : buffer.length = geometry.blockSize.toNat)
    (hlt : s.2.position < s.2.size) (hout : ¬ PositionInside image geometry s.2.inode s.2.position) (rounds : Nat) :
    (readFrom true ops geometry (rounds+1) buffer s).1 = .error .outside := by
  rw [readFrom_succ hlt]
  by_cases hext : s.2.inode.usesExtents →
      ExtentInside image geometry s.2.inode (s.2.position / geometry.blockSize.setWidth 64)
  · have hblock : ∃ physical,
        blockAt image geometry s.2.inode (s.2.position / geometry.blockSize.setWidth 64) = .ok physical ∧
        physical ≠ 0 ∧
        ¬ (s.2.position % geometry.blockSize.setWidth 64).toNat + DIR_ENTRY_SIZE ≤ geometry.blockSize.toNat := by
      by_contra hc
      push Not at hc
      exact hout ⟨hext, hc⟩
    obtain ⟨physical, hphysical, hne, hbad⟩ := hblock
    have hreturns : Driver.Expected geometry good _ (Driver.getBlock true ops geometry s.2.inode _) :=
      h.getBlock_returns (fun _ => hheader) s.2.inode (s.2.position / geometry.blockSize.setWidth 64) fun _ => hext
    rw [hphysical] at hreturns
    obtain ⟨fs₁, hfs₁, hgood₁, hrun₁ | ⟨hno, -⟩⟩ := onFs_cases hreturns s hs
    · obtain ⟨fs₂, hfs₂, -, hrun₂ | ⟨hno, -⟩⟩ := onFs_cases (h.readInto_returns physical hlen) (fs₁, s.2) hfs₁
      · have hstop : onFs (Driver.inside true (image physical).length
            ((s.2.position % geometry.blockSize.setWidth 64).toNat + DIR_ENTRY_SIZE)) (fs₂, s.2) =
            (.error .outside, (fs₂, s.2)) := by
          have : Driver.inside true (image physical).length
            ((s.2.position % geometry.blockSize.setWidth 64).toNat + DIR_ENTRY_SIZE) fs₂ = (.error .outside, fs₂) :=
            Fallible.require_run_neg _ (fun hc => hbad (h.length physical ▸ hc rfl)) fs₂
          rw [onFs, Fallible.zoom, this]
        rw [Fallible.bind_of_ok hrun₁]
        dsimp only
        rw [if_neg hne, Fallible.bind_of_ok hrun₂, Fallible.bind_of_error hstop]
      · exact absurd (hgood₁ hg) hno
    · exact absurd hg hno
  · push Not at hext
    have hreturns : Driver.Expected geometry good (.error .outside) (Driver.getBlock true ops geometry s.2.inode
        (s.2.position / geometry.blockSize.setWidth 64)) := Driver.getBlock_outside h hheader hext.1 hext.2
    obtain ⟨fs₁, -, -, hrun₁ | ⟨hno, -⟩⟩ := onFs_cases hreturns s hs
    · rw [Fallible.bind_of_error hrun₁]
    · exact absurd hg hno

private theorem readFrom_inside (rounds : Nat) {s : Ext4Filesystem D × Ext4DirIterator}
    (hs : s.1.blockSize = geometry.blockSize) {buffer : List Byte} (hlen : buffer.length = geometry.blockSize.toNat)
    (hin : IterationInside image geometry s.2) : (readFrom true ops geometry rounds buffer s).1 ≠ .error .outside := by
  induction rounds generalizing s buffer with
  | zero =>
    intro hc
    cases hc
  | succ rounds ih =>
    by_cases hlt : s.2.position < s.2.size
    · rcases round_inside h hheader s hs hlen hlt (hin _ (.here _) hlt) with
        ⟨fs, after, buffer', hstep, hfs, -, hlen', hrun⟩ | ⟨-, hrun⟩
      · rw [hrun]
        exact ih hfs hlen' fun last hlast => hin last (.next hlt hstep hlast)
      · exact hrun rounds
    · rw [readFrom, Fallible.get_bind_run, if_neg hlt]
      intro hc
      cases hc

private theorem readFrom_outside {inode : Ext4Inode} {size position last : BitVec 64}
    (hfrom : ReadFrom image geometry inode size position last) (hlt : last < size)
    (hout : ¬ PositionInside image geometry inode last) :
    ∃ rounds, ∀ fs buffer, fs.blockSize = geometry.blockSize → good fs → buffer.length = geometry.blockSize.toNat →
      (readFrom true ops geometry rounds buffer (fs, ⟨inode, position, size⟩)).1 = .error .outside := by
  induction hfrom with
  | here position => exact ⟨0+1, fun fs buffer hs hg hlen => 
      round_outside h hheader (fs, ⟨inode, position, size⟩) hs hg hlen hlt hout 0⟩
  | @next position after last hposition hstep hfrom ih =>
    obtain ⟨rounds, hrounds⟩ := ih hlt hout
    refine ⟨rounds+1, fun fs buffer hs hg hlen => ?_⟩
    by_cases hin : PositionInside image geometry inode position
    · rcases round_inside h hheader (fs, ⟨inode, position, size⟩) hs hlen hposition hin with
        ⟨fs', after', buffer', hstep', hfs, hgood, hlen', hrun⟩ | ⟨hnone, -⟩
      · obtain rfl := Option.some.inj (hstep.symm.trans hstep')
        rw [hrun]
        exact hrounds fs' buffer' hfs (hgood hg) hlen'
      · cases hstep.symm.trans (hnone hg)
    · exact round_outside h hheader (fs, ⟨inode, position, size⟩) hs hg hlen hposition hin rounds

end Ext4DirIterator

/-! ### Devices that show an image -/

namespace Driver

/-- Every read of a block that succeeds returns that block of the image. -/
def Shows {D : Type} (ops : Ext4BlockOps D) (image : BitVec 64 → List Byte) (blockSize : BitVec 32) : Prop :=
  ∀ (block : BitVec 64) (fs fs' : Ext4Filesystem D) (data : List Byte),
    Ext4Filesystem.readBlock ops block blockSize.toNat fs = (.ok data, fs') → data = image block

/-- On no device that shows the image, and whatever the allocator does, the call reads past the end of a buffer. -/
def StaysInside (image : BitVec 64 → List Byte) (geometry : Ext4Geometry) {α : Type}
    (call : (D : Type) → Ext4BlockOps D → Ext4Filesystem D → Except DriverStop α) : Prop :=
  ∀ (D : Type) (ops : Ext4BlockOps D) (fs : Ext4Filesystem D), Shows ops image geometry.blockSize →
    fs.blockSize = geometry.blockSize → call D ops fs ≠ .error .outside

/-- A device that answers every read. -/
def imageOps (image : BitVec 64 → List Byte) : Ext4BlockOps Unit where
  readBlock := some fun block _ d => (.ok (image block), d)
  writeBlock := none
  sync := none

def imageFs (blockSize : BitVec 32) : Ext4Filesystem Unit := ⟨(), none, blockSize, false, fun _ => true⟩

variable {image : BitVec 64 → List Byte} {geometry : Ext4Geometry}

theorem imageOps_shows (image : BitVec 64 → List Byte) (blockSize : BitVec 32) :
    Shows (imageOps image) image blockSize := by
  intro block fs fs' data hread
  exact (Except.ok.inj (Prod.mk.inj hread).1).symm

private theorem readBlock_blockSize {D : Type} (ops : Ext4BlockOps D) (block : BitVec 64) (n : Nat)
    (fs : Ext4Filesystem D) :
    (Ext4Filesystem.readBlock ops block n fs).2.blockSize = fs.blockSize := by
  rw [Ext4Filesystem.readBlock]
  cases ops.readBlock <;> rfl

private theorem alloc_blockSize {D : Type} (n : Nat) (fs : Ext4Filesystem D) :
    (Ext4Filesystem.kernelAllocBytes n fs).2.blockSize = fs.blockSize := by
  unfold Ext4Filesystem.kernelAllocBytes
  split_ifs <;> rfl

private theorem readsOnly_of_shows {D : Type} {ops : Ext4BlockOps D} (h : Shows ops image geometry.blockSize)
    (hlen : ∀ block, (image block).length = geometry.blockSize.toNat) :
    ReadsOnly ops image geometry fun _ => False where
  block block fs hfs := by
    refine ⟨?_, (readBlock_blockSize ops block _ fs).trans hfs, id⟩
    rcases hrun : Ext4Filesystem.readBlock ops block geometry.blockSize.toNat fs with ⟨e | data, fs'⟩
    · exact .inr ⟨id, e, trivial, rfl⟩
    · exact .inl (congrArg Except.ok (h block fs fs' data hrun))
  alloc fs hfs := by
    refine ⟨?_, (alloc_blockSize _ fs).trans hfs, id⟩
    unfold Ext4Filesystem.kernelAllocBytes
    split_ifs
    · exact .inr ⟨id, _, trivial, rfl⟩
    · exact .inl rfl
    · exact .inr ⟨id, _, trivial, rfl⟩
  length := hlen

theorem imageOps_readsOnly (hpos : 0 < geometry.blockSize.toNat)
    (hlen : ∀ block, (image block).length = geometry.blockSize.toNat) :
    ReadsOnly (imageOps image) image geometry fun fs => ∀ n, fs.kmalloc n = true where
  block block fs hfs := ⟨.inl rfl, hfs, id⟩
  alloc fs hfs := by
    by_cases hk : fs.kmalloc 0 = true
    · rw [Ext4Filesystem.kernelAllocBytes, if_neg (by omega), if_pos hk]
      exact ⟨.inl rfl, hfs, fun hg n => hg (n+1)⟩
    · rw [Ext4Filesystem.kernelAllocBytes, if_neg (by omega), if_neg hk]
      exact ⟨.inr ⟨fun hg => hk (hg 0), _, trivial, rfl⟩, hfs, fun hg => absurd (hg 0) hk⟩
  length := hlen

section Iff
variable (hsize : 12 ≤ geometry.blockSize.toNat) (hlen : ∀ block, (image block).length = geometry.blockSize.toNat)
include hlen

private theorem stays_of_returns {α : Type} {call : (D : Type) → Ext4BlockOps D → Op D α} {r : Except DriverStop α}
    (hr : r ≠ .error .outside) (h : ∀ (D : Type) (ops : Ext4BlockOps D),
      ReadsOnly ops image geometry (fun _ => False) → Expected geometry (fun _ => False) r (call D ops)) :
    StaysInside image geometry fun D ops fs => (call D ops fs).1 := by
  intro D ops fs hshows hfs hc
  rcases (h D ops (readsOnly_of_shows hshows hlen)).cases hfs with heq | ⟨_, ⟨e, rfl⟩, heq⟩
  · exact hr (heq.symm.trans hc)
  · cases heq.symm.trans hc

include hsize

private theorem not_stays_of_outside {α : Type} {call : (D : Type) → Ext4BlockOps D → Op D α}
    (h : ReadsOnly (imageOps image) image geometry (fun fs => ∀ n, fs.kmalloc n = true) →
      Expected geometry (fun fs => ∀ n, fs.kmalloc n = true) (.error .outside) (call Unit (imageOps image))) :
    ¬ StaysInside image geometry fun D ops fs => (call D ops fs).1 := fun hstays =>
  hstays Unit (imageOps image) (imageFs geometry.blockSize) (imageOps_shows image _) rfl
    ((h (imageOps_readsOnly (by omega) hlen)).eq rfl fun _ => rfl)

private theorem getBlockFromExtent_stays (inode : Ext4Inode) (logicalBlock : BitVec 64) :
    StaysInside image geometry (fun _ ops fs => (getBlockFromExtent true ops geometry inode logicalBlock fs).1) ↔
      ExtentInside image geometry inode logicalBlock := by
  constructor
  · intro hstays
    by_contra hout
    exact not_stays_of_outside hsize hlen (fun h => getBlockFromExtent_outside h hsize hout) hstays
  · intro hin
    refine stays_of_returns hlen ?_ fun D ops h =>
      h.getBlockFromExtent_returns (fun _ => hsize) inode logicalBlock fun _ => hin
    intro hc
    split at hc
    · rw [extentResult] at hc
      split at hc <;> cases hc
    · cases hc

private theorem dirFindEntry_stays (inode : Ext4Inode) (name : List Byte) :
    (∀ rounds, StaysInside image geometry fun _ ops fs => (dirFindEntry true ops geometry rounds inode name fs).1) ↔
      SearchInside image geometry inode name 0 := by
  constructor
  · intro hstays
    by_contra hout
    obtain ⟨rounds, hrounds⟩ := dirFindEntry_outside (imageOps_readsOnly (by omega) hlen) hsize hout
    exact not_stays_of_outside hsize hlen (fun _ => hrounds) (hstays rounds)
  · intro hin rounds
    refine stays_of_returns hlen (searchFrom_ne_outside inode name rounds 0) fun D ops h =>
      h.dirFindEntry_returns (fun _ => hsize) inode name rounds fun _ => hin

private theorem read_stays (it : Ext4DirIterator) :
    (∀ rounds, StaysInside image geometry fun _ ops fs => (Ext4DirIterator.read true ops geometry rounds (fs, it)).1) ↔
      IterationInside image geometry it := by
  constructor
  · intro hstays last hfrom hlt
    by_contra hout
    have h : ReadsOnly (imageOps image) image geometry _ := imageOps_readsOnly (by omega) hlen
    obtain ⟨rounds, hrounds⟩ := Ext4DirIterator.readFrom_outside h hsize hfrom hlt hout
    obtain ⟨fs, hfs, hgood, hrun | ⟨hbad, -⟩⟩ :=
      Ext4DirIterator.onFs_cases h.kernelAllocBytes_returns (imageFs geometry.blockSize, it) rfl
    · apply hstays rounds Unit (imageOps image) (imageFs geometry.blockSize) (imageOps_shows image _) rfl
      change (Ext4DirIterator.read true (imageOps image) geometry rounds (imageFs geometry.blockSize, it)).1 = _
      rw [Ext4DirIterator.read, Fallible.bind_of_ok hrun]
      exact hrounds fs _ hfs (hgood fun _ => rfl) List.length_replicate
    · exact hbad fun _ => rfl
  · intro hin rounds D ops fs hshows hfs
    have h := readsOnly_of_shows hshows hlen
    change (Ext4DirIterator.read true ops geometry rounds (fs, it)).1 ≠ _
    rw [Ext4DirIterator.read]
    obtain ⟨fs', hfs', -, hrun | ⟨-, e, hrun⟩⟩ := Ext4DirIterator.onFs_cases h.kernelAllocBytes_returns (fs, it) hfs
    · rw [Fallible.bind_of_ok hrun]
      exact Ext4DirIterator.readFrom_inside h hsize rounds hfs' List.length_replicate hin
    · rw [Fallible.bind_of_error hrun]
      intro hc
      cases hc

private theorem readInode_stays (groupDescs : List Ext4GroupDesc) (inodeNum : BitVec 32) :
    StaysInside image geometry (fun _ ops fs => (readInode true ops geometry groupDescs inodeNum fs).1) ↔
      InodeInside geometry groupDescs inodeNum := by
  constructor
  · intro hstays
    by_contra hout
    exact not_stays_of_outside hsize hlen (fun h => readInode_outside h hsize hout) hstays
  · intro hin
    have hblock : geometry.blockSize ≠ 0 := by
      intro hz
      rw [hz] at hsize
      exact absurd hsize (by decide)
    exact stays_of_returns hlen (inodeOf_ne_outside groupDescs inodeNum) fun D ops h =>
      h.readInode_returns hblock groupDescs inodeNum fun _ => hin

end Iff

/-- After a mount the four parsers read inside their buffers on every device that shows the image, exactly if
what they come to in the image fits there. -/
theorem parse_inside_iff (sb : PackedSuperblock) (hmount : sb.descSize ≤ sb.blockSize) (image : BitVec 64 → List Byte)
    (himage : ∀ block, (image block).length = sb.geometry.blockSize.toNat) :
    (∀ inode logicalBlock, StaysInside image sb.geometry
        (fun _ ops fs => (getBlockFromExtent true ops sb.geometry inode logicalBlock fs).1) ↔
      ExtentInside image sb.geometry inode logicalBlock) ∧
    (∀ inode name, (∀ rounds, StaysInside image sb.geometry
        fun _ ops fs => (dirFindEntry true ops sb.geometry rounds inode name fs).1) ↔
      SearchInside image sb.geometry inode name 0) ∧
    (∀ it, (∀ rounds, StaysInside image sb.geometry
        fun _ ops fs => (Ext4DirIterator.read true ops sb.geometry rounds (fs, it)).1) ↔
      IterationInside image sb.geometry it) ∧
    ∀ groupDescs inodeNum, StaysInside image sb.geometry
        (fun _ ops fs => (readInode true ops sb.geometry groupDescs inodeNum fs).1) ↔
      InodeInside sb.geometry groupDescs inodeNum := by
  have hsize : 12 ≤ sb.geometry.blockSize.toNat := by
    have hle : sb.descSize.toNat ≤ sb.blockSize.toNat := BitVec.le_def.mp hmount
    have hge := descSize_ge sb
    change 12 ≤ sb.blockSize.toNat
    omega
  exact ⟨getBlockFromExtent_stays hsize himage, dirFindEntry_stays hsize himage, read_stays hsize himage,
    readInode_stays hsize himage⟩

/-- A directory of one block, block 5. -/
def oneBlockDir : Ext4Inode where
  bytes := List.replicate 4 0 ++ [0x00#8, 0x04#8] ++ List.replicate 34 0 ++ [5#8] ++ List.replicate 119 0
  size := by simp

/-- Two entries: "." with 1012 bytes, and "a" in the last 12. -/
def fullBlock : List Byte :=
  [2#8, 0#8, 0#8, 0#8, 0xF4#8, 3#8, 1#8, 2#8, 0x2E#8] ++ List.replicate 1003 0 ++
    [3#8, 0#8, 0#8, 0#8, 12#8, 0#8, 1#8, 2#8, 0x61#8, 0#8, 0#8, 0#8]

/-- The search for "." ends at the first entry. -/
theorem fullBlock_inside : StaysInside (fun _ => fullBlock) magicOnly.geometry fun _ ops fs =>
    (dirFindEntry true ops magicOnly.geometry 1 oneBlockDir [0x2E#8] fs).1 := by
  have hmount : magicOnly.descSize ≤ magicOnly.blockSize := by decide +kernel
  have hlen (block : BitVec 64) : fullBlock.length = magicOnly.geometry.blockSize.toNat := by decide +kernel
  have hnamed : (readDirEntry fullBlock 0).Named [0x2E#8] := by decide +kernel
  have hfound : findEntry fullBlock [0x2E#8] magicOnly.geometry.blockSize.toNat 0 ≠ none := by decide +kernel
  have hblock : blockAt (fun _ => fullBlock) magicOnly.geometry oneBlockDir
      (0 / magicOnly.geometry.blockSize.setWidth 64) = .ok 5 := by decide +kernel
  apply ((parse_inside_iff magicOnly hmount (fun _ => fullBlock) hlen).2.1 oneBlockDir [0x2E#8]).mpr
  intro last hfrom hlt
  cases hfrom with
  | here =>
    refine ⟨fun hext => absurd hext (by decide +kernel), fun physical _ _ last hfrom _ => ?_⟩
    cases hfrom with
    | here => exact show 0 + DIR_ENTRY_SIZE ≤ fullBlock.length by decide +kernel
    | next _ hname => exact absurd hnamed hname
  | @next _ _ physical _ hphysical hmissing =>
    obtain rfl : 5 = physical := Except.ok.inj (hblock.symm.trans hphysical)
    exact absurd (hmissing (by decide)) hfound

/-- The search for "b" reads the entry in the last 12 bytes. -/
theorem fullBlock_outside : ¬ StaysInside (fun _ => fullBlock) magicOnly.geometry fun _ ops fs =>
    (dirFindEntry true ops magicOnly.geometry 1 oneBlockDir [0x62#8] fs).1 := by
  intro hstays
  apply hstays Unit (imageOps fun _ => fullBlock) (imageFs magicOnly.geometry.blockSize) (imageOps_shows _ _) rfl
  decide +kernel

end Driver
end Nafuraito.Ext4
