import Nafuraito.Ext4.FileRead

/-! The position of a file after a read that fails. -/
namespace Nafuraito.Ext4
open Nafuraito.Library

namespace Driver
variable {D : Type}

section Blocks
variable (strict : Bool) (ops : Ext4BlockOps D) (geometry : Ext4Geometry) (inode : Ext4Inode)

/-- A block is looked up and, unless it is a hole, read into the block buffer. -/
def blockRead (logicalBlock : BitVec 64) (blockBuffer : List Byte) : Op D (List Byte) := do
  let physicalBlock ← getBlock strict ops geometry inode logicalBlock
  if physicalBlock = 0 then pure blockBuffer else readInto ops physicalBlock blockBuffer

/-- So many blocks, one after another. -/
def blockReads (first : Nat) : Nat → List Byte → Op D (List Byte)
  | 0, blockBuffer => pure blockBuffer
  | k+1, blockBuffer => do
    let blockBuffer ← blockReads first k blockBuffer
    blockRead strict ops geometry inode (BitVec.ofNat 64 (first+k)) blockBuffer

/-- The blocks before block `first+k` are read, and that block returns an error. -/
def FailsAt (first k : Nat) (blockBuffer : List Byte) (fs : Ext4Filesystem D) (e : DriverStop) : Prop :=
  ∃ blockBuffer' fs', blockReads strict ops geometry inode first k blockBuffer fs = (.ok blockBuffer', fs') ∧
    (blockRead strict ops geometry inode (BitVec.ofNat 64 (first+k)) blockBuffer' fs').1 = .error e

/-- A block of the request after its first returns an error. -/
def LaterBlockFails (s : Ext4Filesystem D × FileBuffer) : Prop :=
  ∃ blockBuffer fs k e, kernelAllocBytes geometry.blockSize.toNat s.1 = (.ok blockBuffer, fs) ∧ 0 < k ∧
    k*geometry.blockSize.toNat < s.2.handle.position.toNat%geometry.blockSize.toNat +
      readLength s.2.handle.inode s.2.handle.position s.2.buffer.length ∧
    FailsAt strict ops geometry s.2.handle.inode (s.2.handle.position.toNat/geometry.blockSize.toNat) k blockBuffer fs
      (.err e)

end Blocks

variable {strict : Bool} {ops : Ext4BlockOps D} {geometry : Ext4Geometry} {inode : Ext4Inode}

theorem readInto_length {block : BitVec 64} {buffer data : List Byte} {fs fs' : Ext4Filesystem D}
    (h : readInto ops block buffer fs = (.ok data, fs')) : data.length = buffer.length := by
  obtain ⟨read, fs₁, -, hpure⟩ := Fallible.bind_ok h
  obtain ⟨rfl, -⟩ := Prod.mk.inj hpure |>.imp Except.ok.inj id
  rw [List.length_append, List.length_take, List.length_drop]
  omega

theorem blockRead_length {logicalBlock : BitVec 64} {blockBuffer data : List Byte} {fs fs' : Ext4Filesystem D}
    (h : blockRead strict ops geometry inode logicalBlock blockBuffer fs = (.ok data, fs')) :
    data.length = blockBuffer.length := by
  obtain ⟨physical, fs₁, -, hread⟩ := Fallible.bind_ok h
  by_cases hzero : physical = 0
  · rw [if_pos hzero] at hread
    obtain ⟨rfl, -⟩ := Prod.mk.inj hread |>.imp Except.ok.inj id
    rfl
  · rw [if_neg hzero] at hread
    exact readInto_length hread

/-! ### One round -/

private theorem onFs_eq {B α : Type} {x : Op D α} {fs fs' : Ext4Filesystem D} {r : Except DriverStop α}
    (h : x fs = (r, fs')) (b : B) : onFs x (fs, b) = (r, (fs', b)) := by
  rw [onFs, Fallible.zoom, h]

/-- A round fails with its block. -/
private theorem fileReadChunk_error {position : BitVec 64} {total c : Nat} {blockBuffer : List Byte}
    {fs fs' : Ext4Filesystem D} {e : DriverStop}
    (h : blockRead strict ops geometry inode (position / geometry.blockSize.setWidth 64) blockBuffer fs =
      (.error e, fs')) (b : FileBuffer) :
    fileReadChunk strict ops geometry inode position total c blockBuffer (fs, b) = (.error e, (fs', b)) := by
  rw [fileReadChunk]
  rcases Fallible.bind_error h with hmap | ⟨physical, fs₁, hmap, hread⟩
  · rw [Fallible.bind_of_error (onFs_eq hmap b)]
  · rw [Fallible.bind_of_ok (onFs_eq hmap b)]
    by_cases hzero : physical = 0
    · rw [if_pos hzero] at hread
      cases hread
    · rw [if_neg hzero] at hread ⊢
      rw [Fallible.bind_of_error (onFs_eq hread b)]

/-- A round whose block is read stores its part and leaves the handle. -/
private theorem fileReadChunk_ok {position : BitVec 64} {total c : Nat} {blockBuffer data : List Byte}
    {fs fs' : Ext4Filesystem D}
    (h : blockRead strict ops geometry inode (position / geometry.blockSize.setWidth 64) blockBuffer fs =
      (.ok data, fs')) {b : FileBuffer} (hfits : total+c ≤ b.buffer.length)
    (hin : (position % geometry.blockSize.setWidth 64).toNat + c ≤ blockBuffer.length) :
    ∃ buffer, buffer.length = b.buffer.length ∧
      fileReadChunk strict ops geometry inode position total c blockBuffer (fs, b) =
        (.ok data, (fs', { b with buffer := buffer })) := by
  have hcopy : ∀ part : List Byte, part.length = c → (copyInto b.buffer total part).length = b.buffer.length := by
    intro part hpart
    rw [copyInto, List.length_append, List.length_append, List.length_take, List.length_drop]
    omega
  rw [fileReadChunk]
  obtain ⟨physical, fs₁, hmap, hread⟩ := Fallible.bind_ok h
  rw [Fallible.bind_of_ok (onFs_eq hmap b)]
  by_cases hzero : physical = 0
  · rw [if_pos hzero] at hread ⊢
    obtain ⟨rfl, rfl⟩ := Prod.mk.inj hread |>.imp Except.ok.inj id
    rw [Fallible.bind_of_ok (storeBuffer_run (by rwa [List.length_replicate]) fs₁)]
    exact ⟨_, hcopy _ List.length_replicate, rfl⟩
  · rw [if_neg hzero] at hread ⊢
    have hlen := readInto_length hread
    have hpart : ((data.drop (position % geometry.blockSize.setWidth 64).toNat).take
        ((position % geometry.blockSize.setWidth 64).toNat + c -
          (position % geometry.blockSize.setWidth 64).toNat)).length = c := by
      rw [List.length_take, List.length_drop]
      omega
    rw [Fallible.bind_of_ok (onFs_eq hread b),
      Fallible.bind_of_ok (slice_onFs (Nat.le_add_right _ _) (by omega) fs' b),
      Fallible.bind_of_ok (storeBuffer_run (by rwa [hpart]) fs')]
    exact ⟨_, hcopy _ hpart, rfl⟩

/-! ### The rounds -/

/-- What is read before round `k`. -/
def readBefore (geometry : Ext4Geometry) (position : BitVec 64) (size k : Nat) : Nat :=
  min (k*geometry.blockSize.toNat - position.toNat%geometry.blockSize.toNat) size

section Places
variable {position : BitVec 64} {size k : Nat}

private theorem readBefore_zero : readBefore geometry position size 0 = 0 := by
  rw [readBefore, Nat.zero_mul, Nat.zero_sub, Nat.zero_min]

/-- Every round reads a byte. -/
private theorem le_readBefore (hpos : 0 < geometry.blockSize.toNat) (hlt : readBefore geometry position size k < size) :
    k ≤ readBefore geometry position size k := by
  cases k with
  | zero => exact Nat.zero_le _
  | succ k =>
    have hoff := Nat.mod_lt position.toNat hpos
    have hmul : k ≤ k*geometry.blockSize.toNat := Nat.le_mul_of_pos_right k hpos
    rw [readBefore, Nat.succ_mul] at hlt ⊢
    omega

/-- Where round `k` starts: in its block, at the block's first byte unless it is the first round. -/
private theorem place_of_round (hpos : 0 < geometry.blockSize.toNat)
    (hlt : readBefore geometry position size k < size) :
    (position.toNat + readBefore geometry position size k)/geometry.blockSize.toNat =
        position.toNat/geometry.blockSize.toNat + k ∧
      readBefore geometry position size k +
          min (geometry.blockSize.toNat -
            (position.toNat + readBefore geometry position size k)%geometry.blockSize.toNat)
          (size - readBefore geometry position size k) = readBefore geometry position size (k+1) := by
  have hdiv := Nat.div_add_mod position.toNat geometry.blockSize.toNat
  have hoff := Nat.mod_lt position.toNat hpos
  cases k with
  | zero =>
    rw [readBefore_zero, Nat.add_zero, readBefore]
    exact ⟨rfl, by omega⟩
  | succ k =>
    have hbefore : readBefore geometry position size (k+1) =
        (k+1)*geometry.blockSize.toNat - position.toNat%geometry.blockSize.toNat := by
      rw [readBefore] at hlt ⊢
      omega
    have hstart : position.toNat + readBefore geometry position size (k+1) =
        geometry.blockSize.toNat*(position.toNat/geometry.blockSize.toNat + (k+1)) := by
      rw [hbefore, Nat.mul_add, Nat.mul_comm _ (k+1), Nat.succ_mul]
      omega
    rw [hbefore] at hlt
    have hnext : (k+1+1)*geometry.blockSize.toNat - position.toNat%geometry.blockSize.toNat =
        (k+1)*geometry.blockSize.toNat - position.toNat%geometry.blockSize.toNat + geometry.blockSize.toNat := by
      rw [Nat.succ_mul (k+1), Nat.succ_mul k]
      omega
    rw [hstart, Nat.mul_div_cancel_left _ hpos, Nat.mul_mod_right, hbefore, readBefore, hnext, Nat.sub_zero]
    exact ⟨rfl, by omega⟩

end Places

/-- Before round `k` of a read of so many bytes that began with `b₀`. -/
structure AtRound (geometry : Ext4Geometry) (b₀ : FileBuffer) (size k : Nat) (b : FileBuffer) : Prop where
  inode : b.handle.inode = b₀.handle.inode
  position : b.handle.position.toNat = b₀.handle.position.toNat + readBefore geometry b₀.handle.position size k
  room : b.buffer.length = b₀.buffer.length

section Loop
variable {b₀ b : FileBuffer} {size k : Nat} {blockBuffer : List Byte} {fs fs' : Ext4Filesystem D}

private theorem AtRound.start : AtRound geometry b₀ size 0 b₀ := ⟨rfl, by rw [readBefore_zero, Nat.add_zero], rfl⟩

private theorem AtRound.block (hat : AtRound geometry b₀ size k b) (hpos : 0 < geometry.blockSize.toNat)
    (hlt : readBefore geometry b₀.handle.position size k < size) :
    b.handle.position / geometry.blockSize.setWidth 64 =
      BitVec.ofNat 64 (b₀.handle.position.toNat/geometry.blockSize.toNat + k) := by
  rw [(place_of_position hat.position).1, (place_of_round hpos hlt).1]

private theorem fileReadLoop_error (hat : AtRound geometry b₀ size k b) (hpos : 0 < geometry.blockSize.toNat)
    (hlt : readBefore geometry b₀.handle.position size k < size) {e : DriverStop}
    (h : blockRead strict ops geometry b₀.handle.inode
      (BitVec.ofNat 64 (b₀.handle.position.toNat/geometry.blockSize.toNat + k)) blockBuffer fs = (.error e, fs'))
    (n : Nat) :
    fileReadLoop strict ops geometry size (n+1) (readBefore geometry b₀.handle.position size k) blockBuffer (fs, b) =
      (.error e, (fs', b)) := by
  rw [← hat.block hpos hlt, ← hat.inode] at h
  rw [fileReadLoop, if_pos hlt, Fallible.get_bind_run]
  exact Fallible.bind_of_error (fileReadChunk_error h b)

private theorem fileReadLoop_step (hat : AtRound geometry b₀ size k b) (hpos : 0 < geometry.blockSize.toNat)
    (hlt : readBefore geometry b₀.handle.position size k < size) (hsize : size ≤ b₀.buffer.length)
    (hend : b₀.handle.position.toNat+size < 2^64) (hlen : blockBuffer.length = geometry.blockSize.toNat)
    {data : List Byte} (h : blockRead strict ops geometry b₀.handle.inode
      (BitVec.ofNat 64 (b₀.handle.position.toNat/geometry.blockSize.toNat + k)) blockBuffer fs = (.ok data, fs'))
    (n : Nat) :
    ∃ b', AtRound geometry b₀ size (k+1) b' ∧ fileReadLoop strict ops geometry size (n+1)
        (readBefore geometry b₀.handle.position size k) blockBuffer (fs, b) =
      fileReadLoop strict ops geometry size n (readBefore geometry b₀.handle.position size (k+1)) data (fs', b') := by
  obtain ⟨-, hnext⟩ := place_of_round hpos hlt
  have hmod : (b.handle.position % geometry.blockSize.setWidth 64).toNat =
      (b₀.handle.position.toNat + readBefore geometry b₀.handle.position size k)%geometry.blockSize.toNat :=
    (place_of_position hat.position).2
  have hoff := Nat.mod_lt (b₀.handle.position.toNat + readBefore geometry b₀.handle.position size k) hpos
  have hroom := hat.room
  rw [← hat.block hpos hlt, ← hat.inode] at h
  rw [fileReadLoop, if_pos hlt, Fallible.get_bind_run]
  dsimp only
  rw [hmod]
  generalize hchunk : min (geometry.blockSize.toNat -
      (b₀.handle.position.toNat + readBefore geometry b₀.handle.position size k)%geometry.blockSize.toNat)
    (size - readBefore geometry b₀.handle.position size k) = c at hnext ⊢
  have hfits : readBefore geometry b₀.handle.position size k + c ≤ b.buffer.length := by omega
  obtain ⟨buffer, hbuffer, hrun⟩ := fileReadChunk_ok h hfits (by omega)
  rw [Fallible.bind_of_ok hrun, Fallible.modify_bind_run, hnext]
  refine ⟨_, ?_, rfl⟩
  refine ⟨hat.inode, ?_, hbuffer.trans hroom⟩
  have hposition := hat.position
  dsimp only
  rw [position_add (by omega)]
  omega

variable {zeros : List Byte} {fs₀ : Ext4Filesystem D}

private theorem blockReads_length {first : Nat}
    (h : blockReads strict ops geometry inode first k zeros fs₀ = (.ok blockBuffer, fs)) :
    blockBuffer.length = zeros.length := by
  induction k generalizing blockBuffer fs with
  | zero =>
    obtain ⟨rfl, -⟩ := Prod.mk.inj h |>.imp Except.ok.inj id
    rfl
  | succ k ih =>
    obtain ⟨before, fs₁, hbefore, hlast⟩ := Fallible.bind_ok h
    exact (blockRead_length hlast).trans (ih hbefore)

private theorem readBefore_mono {position : BitVec 64} (k : Nat) :
    readBefore geometry position size k ≤ readBefore geometry position size (k+1) := by
  rw [readBefore, readBefore, Nat.succ_mul]
  omega

/-- The loop stands before round `k` where the blocks before it were read. -/
private theorem fileReadLoop_reaches (hpos : 0 < geometry.blockSize.toNat) (hsize : size ≤ b₀.buffer.length)
    (hend : b₀.handle.position.toNat+size < 2^64) (hlen : zeros.length = geometry.blockSize.toNat)
    (hlt : readBefore geometry b₀.handle.position size k < size)
    (h : blockReads strict ops geometry b₀.handle.inode (b₀.handle.position.toNat/geometry.blockSize.toNat) k zeros
      fs₀ = (.ok blockBuffer, fs)) :
    ∃ b, AtRound geometry b₀ size k b ∧ fileReadLoop strict ops geometry size size 0 zeros (fs₀, b₀) =
      fileReadLoop strict ops geometry size (size-k) (readBefore geometry b₀.handle.position size k) blockBuffer
        (fs, b) := by
  induction k generalizing blockBuffer fs with
  | zero =>
    obtain ⟨rfl, rfl⟩ := Prod.mk.inj h |>.imp Except.ok.inj id
    exact ⟨b₀, .start, by rw [readBefore_zero, Nat.sub_zero]⟩
  | succ k ih =>
    obtain ⟨before, fs₁, hbefore, hlast⟩ := Fallible.bind_ok h
    have hlt' := Nat.lt_of_le_of_lt (readBefore_mono k) hlt
    obtain ⟨b₁, hat, hrun⟩ := ih hlt' hbefore
    obtain ⟨b, hat', hstep⟩ := fileReadLoop_step hat hpos hlt' hsize hend ((blockReads_length hbefore).trans hlen)
      hlast (size-(k+1))
    have hrounds := le_readBefore hpos hlt'
    rw [show size-k = size-(k+1)+1 by omega] at hrun
    exact ⟨b, hat', hrun.trans hstep⟩

/-- A loop that fails does so at some block, and leaves the position at that block's round. -/
private theorem fileReadLoop_fails (hpos : 0 < geometry.blockSize.toNat) (hsize : size ≤ b₀.buffer.length)
    (hend : b₀.handle.position.toNat+size < 2^64) (hlen : zeros.length = geometry.blockSize.toNat) (n : Nat)
    (hat : AtRound geometry b₀ size k b)
    (h : blockReads strict ops geometry b₀.handle.inode (b₀.handle.position.toNat/geometry.blockSize.toNat) k zeros
      fs₀ = (.ok blockBuffer, fs)) {e : DriverStop} {t : Ext4Filesystem D × FileBuffer}
    (hrun : fileReadLoop strict ops geometry size n (readBefore geometry b₀.handle.position size k) blockBuffer
      (fs, b) = (.error e, t)) :
    ∃ j, readBefore geometry b₀.handle.position size j < size ∧ AtRound geometry b₀ size j t.2 ∧
      FailsAt strict ops geometry b₀.handle.inode (b₀.handle.position.toNat/geometry.blockSize.toNat) j zeros fs₀
        e := by
  induction n generalizing k b blockBuffer fs with
  | zero => cases hrun
  | succ n ih =>
    by_cases hlt : readBefore geometry b₀.handle.position size k < size
    · cases hblock : blockRead strict ops geometry b₀.handle.inode
          (BitVec.ofNat 64 (b₀.handle.position.toNat/geometry.blockSize.toNat + k)) blockBuffer fs with
      | mk r fs' =>
        cases r with
        | error e' =>
          rw [fileReadLoop_error hat hpos hlt hblock] at hrun
          obtain ⟨he, rfl⟩ := Prod.mk.inj hrun
          obtain rfl := Except.error.inj he
          exact ⟨k, hlt, hat, blockBuffer, fs, h, by rw [hblock]⟩
        | ok data =>
          obtain ⟨b', hat', hstep⟩ := fileReadLoop_step hat hpos hlt hsize hend ((blockReads_length h).trans hlen)
            hblock n
          rw [hstep] at hrun
          exact ih hat' ((Fallible.bind_of_ok h).trans hblock) hrun
    · rw [fileReadLoop, if_neg hlt] at hrun
      cases hrun

end Loop

private theorem alloc_ok {size : Nat} {fs fs' : Ext4Filesystem D} {buffer : List Byte}
    (h : kernelAllocBytes size fs = (.ok buffer, fs')) : 0 < size ∧ buffer.length = size := by
  have hok := Fallible.mapError_ok (congrArg Prod.fst h)
  rw [Ext4Filesystem.kernelAllocBytes] at hok
  split_ifs at hok with hzero hmalloc
  · obtain rfl := Except.ok.inj hok
    exact ⟨Nat.pos_of_ne_zero hzero, List.length_replicate⟩

/-- A later block that fails is one the loop gets to. -/
private theorem LaterBlockFails.round {b₀ : FileBuffer} {k : Nat} (hk : 0 < k)
    (hlt : k*geometry.blockSize.toNat < b₀.handle.position.toNat%geometry.blockSize.toNat +
      readLength b₀.handle.inode b₀.handle.position b₀.buffer.length) (hpos : 0 < geometry.blockSize.toNat) :
    0 < readBefore geometry b₀.handle.position
        (readLength b₀.handle.inode b₀.handle.position b₀.buffer.length) k ∧
      readBefore geometry b₀.handle.position (readLength b₀.handle.inode b₀.handle.position b₀.buffer.length) k <
        readLength b₀.handle.inode b₀.handle.position b₀.buffer.length := by
  have hoff := Nat.mod_lt b₀.handle.position.toNat hpos
  have hmul := Nat.le_mul_of_pos_left geometry.blockSize.toNat hk
  rw [readBefore]
  omega

/-- A failed read leaves the position exactly if it does not fail at a block after its first. -/
theorem read_keepsPosition_iff (s : Ext4Filesystem D × FileBuffer) :
    (∀ e, (Ext4FileHandle.read strict ops geometry s).1 = .error (.err e) →
      (Ext4FileHandle.read strict ops geometry s).2.2.handle.position = s.2.handle.position) ↔
    ¬ LaterBlockFails strict ops geometry s := by
  obtain ⟨fs, b₀⟩ := s
  rcases halloc : kernelAllocBytes geometry.blockSize.toNat fs with ⟨e | zeros, fs₀⟩
  · -- without a block buffer the position is never touched
    constructor
    · rintro - ⟨buffer, fs₁, k, e', halloc', -⟩
      cases halloc.symm.trans halloc'
    · intro _ _ _
      rw [Ext4FileHandle.read, Fallible.get_bind_run]
      dsimp only
      split_ifs
      · rfl
      · rw [Fallible.bind_of_error (onFs_eq halloc b₀)]
  obtain ⟨hpos, hlen⟩ := alloc_ok halloc
  by_cases hpast : b₀.handle.inode.size64 ≤ b₀.handle.position
  · have hread : Ext4FileHandle.read strict ops geometry (fs, b₀) = (.ok 0, (fs, b₀)) := by
      rw [Ext4FileHandle.read, Fallible.get_bind_run, if_pos hpast]
      rfl
    rw [hread]
    refine ⟨fun _ hlater => ?_, fun _ _ _ => rfl⟩
    obtain ⟨_, _, k, _, _, hk, hlt, _⟩ := hlater
    dsimp only at hlt
    have := LaterBlockFails.round hk hlt hpos
    rw [readLength_past hpast] at this
    omega
  have hread : Ext4FileHandle.read strict ops geometry (fs, b₀) = fileReadLoop strict ops geometry
      (readLength b₀.handle.inode b₀.handle.position b₀.buffer.length)
      (readLength b₀.handle.inode b₀.handle.position b₀.buffer.length) 0 zeros (fs₀, b₀) := by
    rw [Ext4FileHandle.read, Fallible.get_bind_run]
    dsimp only
    rw [if_neg hpast, Fallible.bind_of_ok (onFs_eq halloc b₀), readLength_eq hpast]
  have hend : b₀.handle.position.toNat +
      readLength b₀.handle.inode b₀.handle.position b₀.buffer.length < 2^64 := readLength_lt _ _
  have hsize : readLength b₀.handle.inode b₀.handle.position b₀.buffer.length ≤ b₀.buffer.length := Nat.min_le_left _ _
  rw [hread]
  constructor
  · rintro hkeeps ⟨zeros', fs₁, k, e, halloc', hk, hlt, blockBuffer, fs₂, hreads, hfails⟩
    obtain ⟨hzeros, rfl⟩ := Prod.mk.inj (halloc.symm.trans halloc')
    obtain rfl := Except.ok.inj hzeros
    dsimp only at hlt hreads hfails
    obtain ⟨hbefore, hlt⟩ := LaterBlockFails.round hk hlt hpos
    obtain ⟨b, hat, hrun⟩ := fileReadLoop_reaches hpos hsize hend hlen hlt hreads
    have hrounds := le_readBefore hpos hlt
    obtain ⟨rounds, hleft⟩ : ∃ rounds, readLength b₀.handle.inode b₀.handle.position b₀.buffer.length - k = rounds+1 :=
      ⟨_, (Nat.sub_add_cancel (by omega)).symm⟩
    rw [hleft, fileReadLoop_error hat hpos hlt (Fallible.run_of_fst hfails)] at hrun
    have hkept := hkeeps e (congrArg Prod.fst hrun)
    rw [hrun] at hkept
    have hposition := hat.position
    rw [show b.handle.position = b₀.handle.position from hkept] at hposition
    omega
  · intro hlater e he
    rcases hrun : fileReadLoop strict ops geometry
      (readLength b₀.handle.inode b₀.handle.position b₀.buffer.length)
      (readLength b₀.handle.inode b₀.handle.position b₀.buffer.length) 0 zeros (fs₀, b₀) with ⟨r, t⟩
    obtain rfl : r = .error (.err e) := (congrArg Prod.fst hrun).symm.trans he
    have hnone : ∀ n, readBefore geometry b₀.handle.position n 0 = 0 := fun _ => readBefore_zero
    rw [← hnone] at hrun
    obtain ⟨j, hlt, hat, hfails⟩ := fileReadLoop_fails hpos hsize hend hlen _ AtRound.start rfl hrun
    cases j with
    | zero =>
      apply BitVec.eq_of_toNat_eq
      rw [hat.position, readBefore_zero, Nat.add_zero]
    | succ j =>
      refine absurd ⟨zeros, fs₀, j+1, e, halloc, Nat.succ_pos j, ?_, hfails⟩ hlater
      rw [readBefore] at hlt
      dsimp only
      omega

/-! ### A second block that cannot be read -/

/-- Every block but block 6 is zeros; that one cannot be read. -/
def blockSixFails : Ext4BlockOps Unit where
  readBlock := some fun block len => if block = 6 then Fallible.throw .io else pure (List.replicate len 0)
  writeBlock := none
  sync := none

/-- A file of 2048 bytes in blocks 5 and 6. -/
def twoBlockFile : Ext4Inode where
  bytes := List.replicate 4 0 ++ [0x00#8, 0x08#8] ++ List.replicate 34 0 ++ [5#8, 0#8, 0#8, 0#8, 6#8] ++
    List.replicate 115 0
  size := by simp

/-- The read fails, and the first 1024 bytes count as read. -/
theorem twoBlockFile_moves : ∃ s e,
    (Ext4FileHandle.read false blockSixFails magicOnly.geometry s).1 = .error (.err e) ∧
    (Ext4FileHandle.read false blockSixFails magicOnly.geometry s).2.2.handle.position ≠ s.2.handle.position :=
  ⟨(imageFs magicOnly.geometry.blockSize, ⟨⟨twoBlockFile, 0#64⟩, List.replicate 2048 0⟩), .io, by decide +kernel⟩

end Driver
end Nafuraito.Ext4
