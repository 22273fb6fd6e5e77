import Nafuraito.Ext4.ParseBounds

/-! The two read paths of a file and the bytes of the file. -/
namespace Nafuraito.Ext4
open Nafuraito.Library

def EXT4_MMAP_SCRATCH_SIZE : Nat := 4096

/-- `dst[start..start+data.len()].copy_from_slice(data)`, where that is in range. -/
def copyInto (dst : List Byte) (start : Nat) (data : List Byte) : List Byte :=
  dst.take start ++ data ++ dst.drop (start+data.length)

/-! ### The memory-mapped path -/

/-- The caller's buffer and the static scratch buffer. -/
structure MmapBuffers where
  dst : List Byte
  scratch : List Byte

structure Ext4FileHandle where
  inode : Ext4Inode
  position : BitVec 64

/-- A file handle and the caller's buffer. -/
structure FileBuffer where
  handle : Ext4FileHandle
  buffer : List Byte

namespace Driver
variable {D : Type} (strict : Bool) (ops : Ext4BlockOps D) (geometry : Ext4Geometry)

/-- A filesystem that is read from, and buffers that are written. -/
abbrev BufferOp (D B α : Type) := Fallible (Ext4Filesystem D × B) DriverStop α

def onFs {B α : Type} (x : Op D α) : BufferOp D B α := Fallible.zoom Prod.fst (fun fs s => (fs, s.2)) x

/-- `dst[start..start+data.len()]` becomes `data`. -/
def storeDst (start : Nat) (data : List Byte) : BufferOp D MmapBuffers Unit := do
  let s ← Fallible.get
  let _ ← onFs (slice s.2.dst start (start+data.length))
  Fallible.modify fun s => (s.1, { s.2 with dst := copyInto s.2.dst start data })

/-- One round of the loop: a hole, a whole block read in place, or a part of a block read into the scratch buffer. -/
def readChunk (inode : Ext4Inode) (currentOffset : BitVec 64) (totalRead chunk : Nat) :
    BufferOp D MmapBuffers Unit := do
  let blockSize := geometry.blockSize.toNat
  let blockOffset := (currentOffset % geometry.blockSize.setWidth 64).toNat
  let physicalBlock ← onFs (getBlock strict ops geometry inode (currentOffset / geometry.blockSize.setWidth 64))
  if physicalBlock = 0 then storeDst totalRead (List.replicate chunk 0)
  else if blockOffset = 0 ∧ chunk = blockSize then do
    let s ← Fallible.get
    let part ← onFs (slice s.2.dst totalRead (totalRead+chunk))
    let data ← onFs (readInto ops physicalBlock part)
    storeDst totalRead data
  else do
    let s ← Fallible.get
    let part ← onFs (slice s.2.scratch 0 blockSize)
    let data ← onFs (readInto ops physicalBlock part)
    Fallible.modify fun s => (s.1, { s.2 with scratch := copyInto s.2.scratch 0 data })
    let s ← Fallible.get
    let data ← onFs (slice s.2.scratch blockOffset (blockOffset+chunk))
    storeDst totalRead data

/-- The loop. Every round reads a byte, so a round for each byte is enough. -/
def readAtLoop (inode : Ext4Inode) (offset : BitVec 64) (toRead : Nat) : Nat → Nat → BufferOp D MmapBuffers Nat
  | 0, totalRead => pure totalRead
  | n+1, totalRead =>
    if totalRead < toRead then do
      let currentOffset := offset + BitVec.ofNat 64 totalRead
      let blockOffset := (currentOffset % geometry.blockSize.setWidth 64).toNat
      let chunk := min (geometry.blockSize.toNat - blockOffset) (toRead - totalRead)
      readChunk strict ops geometry inode currentOffset totalRead chunk
      readAtLoop inode offset toRead n (totalRead+chunk)
    else pure totalRead

def readAtInto (inode : Ext4Inode) (offset : BitVec 64) : BufferOp D MmapBuffers Nat := do
  let s ← Fallible.get
  if inode.size64 ≤ offset ∨ s.2.dst = [] then pure 0
  else if geometry.blockSize = 0 then Fallible.throw (.err .invalid)
  else if EXT4_MMAP_SCRATCH_SIZE < geometry.blockSize.toNat then Fallible.throw (.err .noMem)
  else
    let toRead := min s.2.dst.length (inode.size64 - offset).toNat
    readAtLoop strict ops geometry inode offset toRead toRead 0

/-! ### The path through a file handle -/

/-- `buffer[start..start+data.len()]` becomes `data`. -/
def storeBuffer (start : Nat) (data : List Byte) : BufferOp D FileBuffer Unit := do
  let s ← Fallible.get
  let _ ← onFs (slice s.2.buffer start (start+data.length))
  Fallible.modify fun s => (s.1, { s.2 with buffer := copyInto s.2.buffer start data })

/-- One round of the loop: a hole, or a part of a block read into the block buffer, which it returns. -/
def fileReadChunk (inode : Ext4Inode) (position : BitVec 64) (totalRead toRead : Nat) (blockBuffer : List Byte) :
    BufferOp D FileBuffer (List Byte) := do
  let offset := (position % geometry.blockSize.setWidth 64).toNat
  let physicalBlock ← onFs (getBlock strict ops geometry inode (position / geometry.blockSize.setWidth 64))
  if physicalBlock = 0 then do
    storeBuffer totalRead (List.replicate toRead 0)
    pure blockBuffer
  else do
    let blockBuffer ← onFs (readInto ops physicalBlock blockBuffer)
    let data ← onFs (slice blockBuffer offset (offset+toRead))
    storeBuffer totalRead data
    pure blockBuffer

/-- The loop; `total_read` and `buf_offset` are the same. Every round reads a byte, so a round for each byte is
enough. -/
def fileReadLoop (size : Nat) : Nat → Nat → List Byte → BufferOp D FileBuffer Nat
  | 0, totalRead, _ => pure totalRead
  | n+1, totalRead, blockBuffer =>
    if totalRead < size then do
      let s ← Fallible.get
      let position := s.2.handle.position
      let offset := (position % geometry.blockSize.setWidth 64).toNat
      let toRead := min (geometry.blockSize.toNat - offset) (size - totalRead)
      let blockBuffer ← fileReadChunk strict ops geometry s.2.handle.inode position totalRead toRead blockBuffer
      Fallible.modify fun s =>
        (s.1, { s.2 with handle := { s.2.handle with position := position + BitVec.ofNat 64 toRead } })
      fileReadLoop size n (totalRead+toRead) blockBuffer
    else pure totalRead

end Driver

def Ext4FileHandle.read {D : Type} (strict : Bool) (ops : Ext4BlockOps D) (geometry : Ext4Geometry) :
    Driver.BufferOp D FileBuffer Nat := do
  let s ← Fallible.get
  let fileSize := s.2.handle.inode.size64
  if fileSize ≤ s.2.handle.position then pure 0
  else do
    let size := min s.2.buffer.length (fileSize - s.2.handle.position).toNat
    let blockBuffer ← Driver.onFs (Driver.kernelAllocBytes geometry.blockSize.toNat)
    Driver.fileReadLoop strict ops geometry size size 0 blockBuffer

/-- One call with a buffer of its own: what it returned, and the buffer. -/
def Ext4FileHandle.readBuffer {D : Type} (strict : Bool) (ops : Ext4BlockOps D) (geometry : Ext4Geometry)
    (buffer : List Byte) : Fallible (Ext4Filesystem D × Ext4FileHandle) DriverStop (Nat × List Byte) := fun s =>
  match Ext4FileHandle.read strict ops geometry (s.1, ⟨s.2, buffer⟩) with
  | (.ok n, t) => (.ok (n, t.2.buffer), (t.1, t.2.handle))
  | (.error e, t) => (.error e, (t.1, t.2.handle))

/-- One call on the same handle after another. -/
def Ext4FileHandle.readAll {D : Type} (strict : Bool) (ops : Ext4BlockOps D) (geometry : Ext4Geometry) :
    List (List Byte) → Fallible (Ext4Filesystem D × Ext4FileHandle) DriverStop (List (Nat × List Byte))
  | [] => pure []
  | buffer :: buffers => do
    let first ← readBuffer strict ops geometry buffer
    let rest ← readAll strict ops geometry buffers
    pure (first :: rest)

/-! ### The bytes of a file -/

section File
variable (image : BitVec 64 → List Byte) (geometry : Ext4Geometry) (inode : Ext4Inode)

/-- A byte of the file; zero in a hole. -/
def fileByte (i : Nat) : Byte := match blockAt image geometry inode (BitVec.ofNat 64 (i/geometry.blockSize.toNat)) with
  | .ok physical => if physical = 0 then 0 else byteAt (image physical) (i%geometry.blockSize.toNat)
  | .error _ => 0

def contents (start n : Nat) : List Byte := (List.range n).map fun k => fileByte image geometry inode (start+k)

/-- The block map returns a block or a hole for each of so many bytes. -/
def Mapped (start n : Nat) : Prop :=
  ∀ k < n, ∃ physical,
    blockAt image geometry inode (BitVec.ofNat 64 ((start+k)/geometry.blockSize.toNat)) = .ok physical

/-- How much a read of so many bytes gets before the end of the file. -/
def readLength (position : BitVec 64) (len : Nat) : Nat := min len (inode.size64.toNat - position.toNat)

end File

section Contents
variable {image : BitVec 64 → List Byte} {geometry : Ext4Geometry} {inode : Ext4Inode} {start n m : Nat}

@[simp] theorem length_contents : (contents image geometry inode start n).length = n := by
  rw [contents, List.length_map, List.length_range]

theorem contents_add : contents image geometry inode start (n+m) =
    contents image geometry inode start n ++ contents image geometry inode (start+n) m := by
  rw [contents, List.range_add, List.map_append, List.map_map]
  congr 1
  apply List.map_congr_left
  intro k _
  rw [Function.comp_apply, Nat.add_assoc]

theorem Mapped.mono (h : Mapped image geometry inode start n) (hle : m ≤ n) : Mapped image geometry inode start m :=
  fun k hk => h k (hk.trans_le hle)

theorem Mapped.tail (h : Mapped image geometry inode start (n+m)) : Mapped image geometry inode (start+n) m := by
  intro k hk
  rw [Nat.add_assoc]
  exact h (n+k) (by omega)

theorem length_contents_append {dst : List Byte} (h : n ≤ dst.length) :
    (contents image geometry inode start n ++ dst.drop n).length = dst.length := by
  rw [List.length_append, length_contents, List.length_drop]
  omega

theorem copyInto_contents (dst : List Byte) :
    copyInto (contents image geometry inode start n ++ dst.drop n) n (contents image geometry inode (start+n) m) =
      contents image geometry inode start (n+m) ++ dst.drop (n+m) := by
  have hlen : (contents image geometry inode start n).length = n := length_contents
  rw [copyInto, length_contents, List.take_left' hlen, contents_add, List.drop_append, hlen, Nat.add_sub_cancel_left,
    List.drop_drop, List.drop_of_length_le (by omega), List.nil_append]

/-- Within one block the bytes are those of the block, or zeros. -/
theorem contents_block {i c : Nat} {physical : BitVec 64}
    (hblock : blockAt image geometry inode (BitVec.ofNat 64 (i/geometry.blockSize.toNat)) = .ok physical)
    (hlen : (image physical).length = geometry.blockSize.toNat)
    (hc : c ≤ geometry.blockSize.toNat - i%geometry.blockSize.toNat) :
    contents image geometry inode i c = if physical = 0 then List.replicate c 0
      else ((image physical).drop (i%geometry.blockSize.toNat)).take c := by
  have hbyte : ∀ k < c, fileByte image geometry inode (i+k) =
      if physical = 0 then 0 else byteAt (image physical) (i%geometry.blockSize.toNat+k) := by
    intro k hk
    have hin : i%geometry.blockSize.toNat+k < geometry.blockSize.toNat := by omega
    have hsplit : i+k = i/geometry.blockSize.toNat*geometry.blockSize.toNat + (i%geometry.blockSize.toNat+k) := by
      rw [← Nat.add_assoc, Nat.div_add_mod']
    have hdiv : (i+k)/geometry.blockSize.toNat = i/geometry.blockSize.toNat := by
      rw [hsplit, Nat.mul_comm, Nat.mul_add_div (by omega), Nat.div_eq_of_lt hin, Nat.add_zero]
    have hmod : (i+k)%geometry.blockSize.toNat = i%geometry.blockSize.toNat+k := by
      rw [hsplit, Nat.mul_comm, Nat.mul_add_mod, Nat.mod_eq_of_lt hin]
    rw [fileByte, hdiv, hblock, hmod]
  apply List.ext_getElem
  · split_ifs
    · rw [length_contents, List.length_replicate]
    · rw [length_contents, List.length_take, List.length_drop, hlen, Nat.min_eq_left hc]
  · intro k hk _
    rw [length_contents] at hk
    simp only [contents, List.getElem_map, List.getElem_range, hbyte k hk]
    split_ifs
    · rw [List.getElem_replicate]
    · rw [List.getElem_take, List.getElem_drop, byteAt, List.getD_eq_getElem]

end Contents

/-! ### Reading them -/

namespace Driver
variable {D : Type} {ops : Ext4BlockOps D} {image : BitVec 64 → List Byte} {geometry : Ext4Geometry}
variable {good : Ext4Filesystem D → Prop} {inode : Ext4Inode}

/-- A filesystem of this block size whose reads and allocations succeed. -/
def Serves (geometry : Ext4Geometry) (good : Ext4Filesystem D → Prop) (fs : Ext4Filesystem D) : Prop :=
  fs.blockSize = geometry.blockSize ∧ good fs

private theorem onFs_run {B α : Type} {a : α} {x : Op D α} (h : Expected geometry good (.ok a) x)
    {fs : Ext4Filesystem D} (hs : Serves geometry good fs) (b : B) :
    ∃ fs', Serves geometry good fs' ∧ onFs x (fs, b) = (.ok a, (fs', b)) := by
  obtain ⟨hr, hsize, hgood⟩ := h fs hs.1
  refine ⟨(x fs).2, ⟨hsize, hgood hs.2⟩, ?_⟩
  rcases hr with hr | ⟨hbad, -⟩
  · exact Prod.ext hr rfl
  · exact absurd hs.2 hbad

theorem slice_onFs {B : Type} {buffer : List Byte} {start stop : Nat} (h : start ≤ stop)
    (h' : stop ≤ buffer.length) (fs : Ext4Filesystem D) (b : B) :
    onFs (slice buffer start stop) (fs, b) = (.ok ((buffer.drop start).take (stop-start)), (fs, b)) := by
  rw [onFs, Fallible.zoom, slice_run h h']

private theorem storeDst_run {start : Nat} {data : List Byte} {b : MmapBuffers}
    (hfits : start+data.length ≤ b.dst.length) (fs : Ext4Filesystem D) :
    storeDst start data (fs, b) = (.ok (), (fs, { b with dst := copyInto b.dst start data })) := by
  rw [storeDst, Fallible.get_bind_run, Fallible.bind_of_ok (slice_onFs (Nat.le_add_right _ _) hfits fs b)]
  rfl

theorem storeBuffer_run {start : Nat} {data : List Byte} {b : FileBuffer}
    (hfits : start+data.length ≤ b.buffer.length) (fs : Ext4Filesystem D) :
    storeBuffer start data (fs, b) = (.ok (), (fs, { b with buffer := copyInto b.buffer start data })) := by
  rw [storeBuffer, Fallible.get_bind_run, Fallible.bind_of_ok (slice_onFs (Nat.le_add_right _ _) hfits fs b)]
  rfl

theorem position_add {position : BitVec 64} {total : Nat} (h : position.toNat+total < 2^64) :
    (position + BitVec.ofNat 64 total).toNat = position.toNat+total := by
  rw [BitVec.toNat_add, BitVec.toNat_ofNat, Nat.add_mod_mod, Nat.mod_eq_of_lt h]

/-- A position in the numbers of the block map. -/
theorem place_of_position {i : Nat} {position : BitVec 64} (hi : position.toNat = i) :
    position / geometry.blockSize.setWidth 64 = BitVec.ofNat 64 (i/geometry.blockSize.toNat) ∧
    (position % geometry.blockSize.setWidth 64).toNat = i%geometry.blockSize.toNat := by
  have hblock : (geometry.blockSize.setWidth 64).toNat = geometry.blockSize.toNat :=
    BitVec.toNat_setWidth_of_le (by decide)
  constructor
  · apply BitVec.eq_of_toNat_eq
    have hlt := Nat.lt_of_le_of_lt (Nat.div_le_self i geometry.blockSize.toNat) (hi ▸ position.isLt)
    rw [BitVec.toNat_udiv, hblock, hi, BitVec.toNat_ofNat, Nat.mod_eq_of_lt hlt]
  · rw [BitVec.toNat_umod, hblock, hi]

variable (h : ReadsOnly ops image geometry good)
include h

/-- The lookup of a block whose place is known. -/
private theorem getBlock_mapped {logicalBlock physical : BitVec 64}
    (hblock : blockAt image geometry inode logicalBlock = .ok physical) :
    Expected geometry good (.ok physical) (getBlock false ops geometry inode logicalBlock) :=
  hblock ▸ h.getBlock_returns (fun hstrict => absurd hstrict Bool.false_ne_true) inode logicalBlock
    fun hstrict => absurd hstrict Bool.false_ne_true

/-- One chunk of the memory-mapped path. -/
private theorem readChunk_run (hle : geometry.blockSize.toNat ≤ EXT4_MMAP_SCRATCH_SIZE) {i c total : Nat}
    {position physical : BitVec 64} (hi : position.toNat = i)
    (hblock : blockAt image geometry inode (BitVec.ofNat 64 (i/geometry.blockSize.toNat)) = .ok physical)
    (hpos : 0 < c) (hc : c ≤ geometry.blockSize.toNat - i%geometry.blockSize.toNat) {b : MmapBuffers}
    (hfits : total+c ≤ b.dst.length) (hscratch : b.scratch.length = EXT4_MMAP_SCRATCH_SIZE) {fs : Ext4Filesystem D}
    (hs : Serves geometry good fs) :
    ∃ fs' scratch, Serves geometry good fs' ∧ scratch.length = EXT4_MMAP_SCRATCH_SIZE ∧
      readChunk false ops geometry inode position total c (fs, b) =
        (.ok (), (fs', ⟨copyInto b.dst total (contents image geometry inode i c), scratch⟩)) := by
  obtain ⟨hdiv, hmod⟩ : position / geometry.blockSize.setWidth 64 = _ ∧ _ := place_of_position hi
  obtain ⟨fs₁, hs₁, hrun₁⟩ := onFs_run (getBlock_mapped h hblock) hs b
  have hlen := h.length physical
  have hbytes := contents_block hblock hlen hc
  rw [readChunk, hdiv, Fallible.bind_of_ok hrun₁, hmod]
  by_cases hzero : physical = 0
  · rw [if_pos hzero] at hbytes ⊢
    rw [storeDst_run (by rwa [List.length_replicate]), hbytes]
    exact ⟨fs₁, b.scratch, hs₁, hscratch, rfl⟩
  · rw [if_neg hzero] at hbytes ⊢
    by_cases hwhole : i%geometry.blockSize.toNat = 0 ∧ c = geometry.blockSize.toNat
    · have hpart : ((b.dst.drop total).take (total+c-total)).length = geometry.blockSize.toNat := by
        rw [List.length_take, List.length_drop]
        omega
      obtain ⟨fs₂, hs₂, hrun₂⟩ := onFs_run (h.readInto_returns physical hpart) hs₁ b
      rw [if_pos hwhole, Fallible.get_bind_run, Fallible.bind_of_ok (slice_onFs (by omega) hfits fs₁ b),
        Fallible.bind_of_ok hrun₂, storeDst_run (by omega)]
      rw [hwhole.1, List.drop_zero, List.take_of_length_le (by omega)] at hbytes
      exact ⟨fs₂, b.scratch, hs₂, hscratch, by rw [hbytes]⟩
    · have hpart : ((b.scratch.drop 0).take (geometry.blockSize.toNat-0)).length = geometry.blockSize.toNat := by
        rw [List.length_take, List.length_drop]
        omega
      obtain ⟨fs₂, hs₂, hrun₂⟩ := onFs_run (h.readInto_returns physical hpart) hs₁ b
      have hcopy : copyInto b.scratch 0 (image physical) =
          image physical ++ b.scratch.drop geometry.blockSize.toNat := by
        rw [copyInto, List.take_zero, List.nil_append, Nat.zero_add, hlen]
      have hscratch' : (copyInto b.scratch 0 (image physical)).length = EXT4_MMAP_SCRATCH_SIZE := by
        rw [hcopy, List.length_append, List.length_drop, hlen]
        omega
      have hdata : ((copyInto b.scratch 0 (image physical)).drop (i%geometry.blockSize.toNat)).take
          (i%geometry.blockSize.toNat+c-i%geometry.blockSize.toNat) = contents image geometry inode i c := by
        rw [hcopy, hbytes, Nat.add_sub_cancel_left, List.drop_append_of_le_length (by omega),
          List.take_append_of_le_length (by rw [List.length_drop]; omega)]
      have hroom : geometry.blockSize.toNat ≤ b.scratch.length := by omega
      have hroom' : i%geometry.blockSize.toNat+c ≤ (copyInto b.scratch 0 (image physical)).length := by omega
      rw [if_neg hwhole, Fallible.get_bind_run, Fallible.bind_of_ok (slice_onFs (Nat.zero_le _) hroom fs₁ b),
        Fallible.bind_of_ok hrun₂, Fallible.modify_bind_run, Fallible.get_bind_run,
        Fallible.bind_of_ok (slice_onFs (Nat.le_add_right _ _) hroom' fs₂ _), hdata,
        storeDst_run (by rwa [length_contents])]
      exact ⟨fs₂, _, hs₂, hscratch', rfl⟩

private theorem readAtLoop_run (hle : geometry.blockSize.toNat ≤ EXT4_MMAP_SCRATCH_SIZE) {offset : BitVec 64}
    {toRead : Nat} (n total : Nat) (hend : offset.toNat+toRead < 2^64)
    (hmapped : Mapped image geometry inode offset.toNat toRead)
    (hpos : 0 < geometry.blockSize.toNat) (htotal : total ≤ toRead) (hn : toRead ≤ total+n) {dst scratch : List Byte}
    (hdst : toRead ≤ dst.length) (hscratch : scratch.length = EXT4_MMAP_SCRATCH_SIZE) {fs : Ext4Filesystem D}
    (hs : Serves geometry good fs) :
    ∃ fs' scratch', Serves geometry good fs' ∧ scratch'.length = EXT4_MMAP_SCRATCH_SIZE ∧
      readAtLoop false ops geometry inode offset toRead n total
          (fs, ⟨contents image geometry inode offset.toNat total ++ dst.drop total, scratch⟩) =
        (.ok toRead, (fs', ⟨contents image geometry inode offset.toNat toRead ++ dst.drop toRead, scratch'⟩)) := by
  induction n generalizing total scratch fs with
  | zero =>
    obtain rfl : total = toRead := by omega
    exact ⟨fs, scratch, hs, hscratch, rfl⟩
  | succ n ih =>
    rw [readAtLoop]
    by_cases hlt : total < toRead
    · have hi := position_add (show offset.toNat+total < 2^64 by omega)
      have hmod : ((offset + BitVec.ofNat 64 total) % geometry.blockSize.setWidth 64).toNat =
          (offset.toNat+total)%geometry.blockSize.toNat := (place_of_position hi).2
      have hblockLt := Nat.mod_lt (offset.toNat+total) hpos
      obtain ⟨physical, hblock⟩ := hmapped total hlt
      rw [if_pos hlt, hmod]
      generalize hchunk : min (geometry.blockSize.toNat - (offset.toNat+total)%geometry.blockSize.toNat)
        (toRead-total) = c
      have hfits : total+c ≤ (contents image geometry inode offset.toNat total ++ dst.drop total).length := by
        rw [length_contents_append (by omega)]
        omega
      obtain ⟨fs₁, scratch₁, hs₁, hscratch₁, hrun⟩ := readChunk_run h hle hi hblock (show 0 < c by omega) (by omega)
        (b := ⟨_, scratch⟩) hfits hscratch hs
      rw [copyInto_contents] at hrun
      rw [Fallible.bind_of_ok hrun]
      exact ih (total+c) (by omega) (by omega) hscratch₁ hs₁
    · obtain rfl : total = toRead := by omega
      rw [if_neg hlt]
      exact ⟨fs, scratch, hs, hscratch, rfl⟩

omit h in
private theorem place_next (position : BitVec 64) (total c : Nat) :
    position + BitVec.ofNat 64 total + BitVec.ofNat 64 c = position + BitVec.ofNat 64 (total+c) := by
  rw [BitVec.add_assoc, ← BitVec.ofNat_add]

/-- One chunk of the path through a handle. -/
private theorem fileReadChunk_run {i c total : Nat} {position physical : BitVec 64} (hi : position.toNat = i)
    (hblock : blockAt image geometry inode (BitVec.ofNat 64 (i/geometry.blockSize.toNat)) = .ok physical)
    (hpos : 0 < c) (hc : c ≤ geometry.blockSize.toNat - i%geometry.blockSize.toNat) {b : FileBuffer}
    (hfits : total+c ≤ b.buffer.length) {blockBuffer : List Byte} (hlen : blockBuffer.length = geometry.blockSize.toNat)
    {fs : Ext4Filesystem D} (hs : Serves geometry good fs) :
    ∃ fs' blockBuffer', Serves geometry good fs' ∧ blockBuffer'.length = geometry.blockSize.toNat ∧
      fileReadChunk false ops geometry inode position total c blockBuffer (fs, b) =
        (.ok blockBuffer',
          (fs', { b with buffer := copyInto b.buffer total (contents image geometry inode i c) })) := by
  obtain ⟨hdiv, hmod⟩ : position / geometry.blockSize.setWidth 64 = _ ∧ _ := place_of_position hi
  obtain ⟨fs₁, hs₁, hrun₁⟩ := onFs_run (getBlock_mapped h hblock) hs b
  have hbytes := contents_block hblock (h.length physical) hc
  rw [fileReadChunk, hdiv, Fallible.bind_of_ok hrun₁, hmod]
  by_cases hzero : physical = 0
  · rw [if_pos hzero] at hbytes ⊢
    rw [Fallible.bind_of_ok (storeBuffer_run (by rwa [List.length_replicate]) fs₁), hbytes]
    exact ⟨fs₁, blockBuffer, hs₁, hlen, rfl⟩
  · rw [if_neg hzero] at hbytes ⊢
    obtain ⟨fs₂, hs₂, hrun₂⟩ := onFs_run (h.readInto_returns physical hlen) hs₁ b
    have hroom : i%geometry.blockSize.toNat+c ≤ (image physical).length := by
      rw [h.length physical]
      omega
    rw [Fallible.bind_of_ok hrun₂, Fallible.bind_of_ok (slice_onFs (Nat.le_add_right _ _) hroom fs₂ b),
      Nat.add_sub_cancel_left, ← hbytes, Fallible.bind_of_ok (storeBuffer_run (by rwa [length_contents]) fs₂)]
    exact ⟨fs₂, image physical, hs₂, h.length physical, rfl⟩

private theorem fileReadLoop_run {position : BitVec 64} {size : Nat} (n total : Nat) (hend : position.toNat+size < 2^64)
    (hmapped : Mapped image geometry inode position.toNat size) (hpos : 0 < geometry.blockSize.toNat)
    (htotal : total ≤ size) (hn : size ≤ total+n) {buffer blockBuffer : List Byte} (hbuffer : size ≤ buffer.length)
    (hlen : blockBuffer.length = geometry.blockSize.toNat) {fs : Ext4Filesystem D} (hs : Serves geometry good fs) :
    ∃ fs', Serves geometry good fs' ∧ fileReadLoop false ops geometry size n total blockBuffer
        (fs, ⟨⟨inode, position + BitVec.ofNat 64 total⟩,
          contents image geometry inode position.toNat total ++ buffer.drop total⟩) =
      (.ok size, (fs', ⟨⟨inode, position + BitVec.ofNat 64 size⟩,
        contents image geometry inode position.toNat size ++ buffer.drop size⟩)) := by
  induction n generalizing total blockBuffer fs with
  | zero =>
    obtain rfl : total = size := by omega
    exact ⟨fs, hs, rfl⟩
  | succ n ih =>
    rw [fileReadLoop]
    by_cases hlt : total < size
    · have hi := position_add (show position.toNat+total < 2^64 by omega)
      have hmod : ((position + BitVec.ofNat 64 total) % geometry.blockSize.setWidth 64).toNat =
          (position.toNat+total)%geometry.blockSize.toNat := (place_of_position hi).2
      have hblockLt := Nat.mod_lt (position.toNat+total) hpos
      obtain ⟨physical, hblock⟩ := hmapped total hlt
      rw [if_pos hlt, Fallible.get_bind_run, hmod]
      generalize hchunk : min (geometry.blockSize.toNat - (position.toNat+total)%geometry.blockSize.toNat)
        (size-total) = c
      have hfits : total+c ≤ (contents image geometry inode position.toNat total ++ buffer.drop total).length := by
        rw [length_contents_append (by omega)]
        omega
      obtain ⟨fs₁, blockBuffer₁, hs₁, hlen₁, hrun⟩ := fileReadChunk_run h hi hblock (show 0 < c by omega) (by omega)
        (b := ⟨⟨inode, position + BitVec.ofNat 64 total⟩, _⟩) hfits hlen hs
      rw [copyInto_contents] at hrun
      rw [Fallible.bind_of_ok hrun, Fallible.modify_bind_run]
      dsimp only
      rw [place_next]
      exact ih (total+c) (by omega) (by omega) hlen₁ hs₁
    · obtain rfl : total = size := by omega
      rw [if_neg hlt]
      exact ⟨fs, hs, rfl⟩

private theorem blockSize_pos {fs : Ext4Filesystem D} (hs : Serves geometry good fs) :
    0 < geometry.blockSize.toNat := by
  apply Nat.pos_of_ne_zero
  intro hz
  have halloc := h.alloc.eq hs.1 hs.2
  rw [hz, Ext4Filesystem.kernelAllocBytes, if_pos rfl] at halloc
  cases halloc

omit h in
theorem readLength_past {position : BitVec 64} (hpast : inode.size64 ≤ position) (len : Nat) :
    readLength inode position len = 0 := by
  have := BitVec.le_def.mp hpast
  rw [readLength]
  omega

omit h in
theorem readLength_eq {position : BitVec 64} (hpast : ¬ inode.size64 ≤ position) (len : Nat) :
    min len (inode.size64 - position).toNat = readLength inode position len := by
  rw [readLength, BitVec.toNat_sub_of_le (BitVec.le_of_lt (BitVec.not_le.mp hpast))]

omit h in
theorem readLength_lt (position : BitVec 64) (len : Nat) :
    position.toNat + readLength inode position len < 2^64 := by
  have := inode.size64.isLt
  have := position.isLt
  rw [readLength]
  omega

theorem ReadsOnly.readAtInto_run (hle : geometry.blockSize.toNat ≤ EXT4_MMAP_SCRATCH_SIZE) {offset : BitVec 64}
    {dst scratch : List Byte} (hscratch : scratch.length = EXT4_MMAP_SCRATCH_SIZE)
    (hmapped : Mapped image geometry inode offset.toNat (readLength inode offset dst.length)) {fs : Ext4Filesystem D}
    (hs : Serves geometry good fs) :
    ∃ fs' scratch', readAtInto false ops geometry inode offset (fs, ⟨dst, scratch⟩) =
      (.ok (readLength inode offset dst.length), (fs', ⟨contents image geometry inode offset.toNat
        (readLength inode offset dst.length) ++ dst.drop (readLength inode offset dst.length), scratch'⟩)) := by
  rw [readAtInto, Fallible.get_bind_run]
  by_cases hempty : inode.size64 ≤ offset ∨ dst = []
  · have hzero : readLength inode offset dst.length = 0 := by
      rcases hempty with hpast | rfl
      · exact readLength_past hpast _
      · exact Nat.zero_min _
    rw [if_pos hempty, hzero]
    exact ⟨fs, scratch, rfl⟩
  · have hpos := blockSize_pos h hs
    have hne : geometry.blockSize ≠ 0 := fun hz => by
      rw [hz] at hpos
      exact absurd hpos (by decide)
    rw [if_neg hempty, if_neg hne, if_neg (Nat.not_lt.mpr hle)]
    dsimp only
    rw [readLength_eq (fun hpast => hempty (.inl hpast))]
    obtain ⟨fs', scratch', -, -, hrun⟩ := readAtLoop_run h hle (readLength inode offset dst.length) 0
      (readLength_lt offset _) hmapped hpos (Nat.zero_le _) (Nat.le_add_left _ _) (Nat.min_le_left _ _) hscratch hs
    exact ⟨fs', scratch', hrun⟩

theorem ReadsOnly.read_run {position : BitVec 64} {buffer : List Byte}
    (hmapped : Mapped image geometry inode position.toNat (readLength inode position buffer.length))
    {fs : Ext4Filesystem D} (hs : Serves geometry good fs) :
    ∃ fs', Serves geometry good fs' ∧ Ext4FileHandle.read false ops geometry (fs, ⟨⟨inode, position⟩, buffer⟩) =
      (.ok (readLength inode position buffer.length),
        (fs', ⟨⟨inode, position + BitVec.ofNat 64 (readLength inode position buffer.length)⟩,
          contents image geometry inode position.toNat (readLength inode position buffer.length) ++
            buffer.drop (readLength inode position buffer.length)⟩)) := by
  rw [Ext4FileHandle.read, Fallible.get_bind_run]
  by_cases hpast : inode.size64 ≤ position
  · dsimp only
    rw [if_pos hpast, readLength_past hpast, BitVec.add_zero]
    exact ⟨fs, hs, rfl⟩
  · dsimp only
    obtain ⟨fs₁, hs₁, halloc⟩ :=
      onFs_run h.kernelAllocBytes_returns hs (⟨⟨inode, position⟩, buffer⟩ : FileBuffer)
    rw [if_neg hpast, Fallible.bind_of_ok halloc, readLength_eq hpast]
    have hlen : (List.replicate geometry.blockSize.toNat (0 : Byte)).length = geometry.blockSize.toNat :=
      List.length_replicate
    have hrun := fileReadLoop_run h (readLength inode position buffer.length) 0 (readLength_lt position _) hmapped
      (blockSize_pos h hs) (Nat.zero_le _) (Nat.le_add_left _ _) (Nat.min_le_left _ _) hlen hs₁
    rwa [BitVec.add_zero] at hrun

private theorem readBuffer_run {position : BitVec 64} {buffer : List Byte}
    (hmapped : Mapped image geometry inode position.toNat (readLength inode position buffer.length))
    {fs : Ext4Filesystem D} (hs : Serves geometry good fs) :
    ∃ fs', Serves geometry good fs' ∧ Ext4FileHandle.readBuffer false ops geometry buffer (fs, ⟨inode, position⟩) =
      (.ok (readLength inode position buffer.length, contents image geometry inode position.toNat
          (readLength inode position buffer.length) ++ buffer.drop (readLength inode position buffer.length)),
        (fs', ⟨inode, position + BitVec.ofNat 64 (readLength inode position buffer.length)⟩)) := by
  obtain ⟨fs', hs', hread⟩ := h.read_run hmapped hs
  refine ⟨fs', hs', ?_⟩
  rw [Ext4FileHandle.readBuffer, hread]

omit h in
private theorem position_after (inode : Ext4Inode) (position : BitVec 64) (len : Nat) :
    (position + BitVec.ofNat 64 (readLength inode position len)).toNat =
      position.toNat + readLength inode position len :=
  position_add (readLength_lt position len)

omit h in
/-- Two reads get as much as one. -/
private theorem readLength_add (position : BitVec 64) (a b : Nat) :
    readLength inode position (a+b) = readLength inode position a +
      readLength inode (position + BitVec.ofNat 64 (readLength inode position a)) b := by
  have hnext := position_after inode position a
  simp only [readLength] at hnext ⊢
  omega

/-- Consecutive reads get what one read of all the bytes gets. -/
theorem ReadsOnly.readAll_run {buffers : List (List Byte)} {position : BitVec 64}
    (hmapped : Mapped image geometry inode position.toNat (readLength inode position buffers.flatten.length))
    {fs : Ext4Filesystem D} (hs : Serves geometry good fs) :
    ∃ fs' results, Ext4FileHandle.readAll false ops geometry buffers (fs, ⟨inode, position⟩) = (.ok results, (fs',
        ⟨inode, position + BitVec.ofNat 64 (readLength inode position buffers.flatten.length)⟩)) ∧
      (results.map fun r => r.2.take r.1).flatten =
        contents image geometry inode position.toNat (readLength inode position buffers.flatten.length) := by
  induction buffers generalizing position fs with
  | nil =>
    have hzero : readLength inode position ([] : List (List Byte)).flatten.length = 0 := Nat.zero_min _
    rw [hzero, BitVec.add_zero]
    exact ⟨fs, [], rfl, rfl⟩
  | cons buffer buffers ih =>
    rw [List.flatten_cons, List.length_append, readLength_add] at hmapped ⊢
    have hnext := position_after inode position buffer.length
    obtain ⟨fs₁, hs₁, hfirst⟩ := readBuffer_run h (hmapped.mono (Nat.le_add_right _ _)) hs
    have htail := hmapped.tail
    rw [← hnext] at htail
    obtain ⟨fs', results, hrun, hresults⟩ := ih htail hs₁
    refine ⟨fs', (readLength inode position buffer.length,
      contents image geometry inode position.toNat (readLength inode position buffer.length) ++
        buffer.drop (readLength inode position buffer.length)) :: results, ?_, ?_⟩
    · rw [Ext4FileHandle.readAll, Fallible.bind_of_ok hfirst, Fallible.bind_of_ok hrun, place_next]
      rfl
    · rw [List.map_cons, List.flatten_cons, hresults, contents_add, hnext]
      congr 1
      exact List.take_left' length_contents

/-- Where the block map returns a block or a hole for the bytes concerned, both paths read the bytes of the file and
leave the rest of the buffer alone, and consecutive reads get what one read gets. -/
theorem fileReads_exact (hle : geometry.blockSize.toNat ≤ EXT4_MMAP_SCRATCH_SIZE) (inode : Ext4Inode)
    (position : BitVec 64) {fs : Ext4Filesystem D} (hs : fs.blockSize = geometry.blockSize) (hg : good fs) :
    (∀ dst scratch, scratch.length = EXT4_MMAP_SCRATCH_SIZE →
      Mapped image geometry inode position.toNat (readLength inode position dst.length) →
      ∃ fs' scratch', readAtInto false ops geometry inode position (fs, ⟨dst, scratch⟩) =
        (.ok (readLength inode position dst.length), (fs', ⟨contents image geometry inode position.toNat
          (readLength inode position dst.length) ++ dst.drop (readLength inode position dst.length), scratch'⟩))) ∧
    (∀ buffer, Mapped image geometry inode position.toNat (readLength inode position buffer.length) →
      ∃ fs', Ext4FileHandle.read false ops geometry (fs, ⟨⟨inode, position⟩, buffer⟩) =
        (.ok (readLength inode position buffer.length),
          (fs', ⟨⟨inode, position + BitVec.ofNat 64 (readLength inode position buffer.length)⟩,
            contents image geometry inode position.toNat (readLength inode position buffer.length) ++
              buffer.drop (readLength inode position buffer.length)⟩))) ∧
    (∀ buffers : List (List Byte),
      Mapped image geometry inode position.toNat (readLength inode position buffers.flatten.length) →
      ∃ fs' results, Ext4FileHandle.readAll false ops geometry buffers (fs, ⟨inode, position⟩) = (.ok results, (fs',
          ⟨inode, position + BitVec.ofNat 64 (readLength inode position buffers.flatten.length)⟩)) ∧
        (results.map fun r => r.2.take r.1).flatten =
          contents image geometry inode position.toNat (readLength inode position buffers.flatten.length)) := by
  refine ⟨fun dst scratch hscratch hmapped => ?_, fun buffer hmapped => ?_, fun buffers hmapped => ?_⟩
  · exact h.readAtInto_run hle hscratch hmapped ⟨hs, hg⟩
  · obtain ⟨fs', -, hread⟩ := h.read_run hmapped ⟨hs, hg⟩
    exact ⟨fs', hread⟩
  · exact h.readAll_run hmapped ⟨hs, hg⟩

omit h in
/-- The last four bytes of the block, read into a buffer of six. -/
theorem fullBlock_read : ∃ fs', Ext4FileHandle.read false (imageOps fun _ => fullBlock) magicOnly.geometry
      (imageFs magicOnly.geometry.blockSize, ⟨⟨oneBlockDir, 1020#64⟩, List.replicate 6 0xFF⟩) =
    (.ok 4, (fs', ⟨⟨oneBlockDir, 1024#64⟩, [0x61, 0, 0, 0, 0xFF, 0xFF]⟩)) := by
  have hsize : magicOnly.geometry.blockSize.toNat = 1024 := by decide +kernel
  have hlen : fullBlock.length = magicOnly.geometry.blockSize.toNat := by decide +kernel
  have hread : ReadsOnly (imageOps fun _ => fullBlock) (fun _ => fullBlock) magicOnly.geometry
      (fun fs => ∀ n, fs.kmalloc n = true) := imageOps_readsOnly (by omega) fun _ => hlen
  have hfour : readLength oneBlockDir 1020#64 (List.replicate 6 (0xFF : Byte)).length = 4 := by decide
  have hmapped : Mapped (fun _ => fullBlock) magicOnly.geometry oneBlockDir (1020#64).toNat 4 := by
    intro k hk
    rw [hsize, show ((1020#64).toNat+k)/1024 = 0 from Nat.div_eq_of_lt (show 1020+k < 1024 by omega)]
    exact ⟨5, by decide +kernel⟩
  have hbytes : contents (fun _ => fullBlock) magicOnly.geometry oneBlockDir (1020#64).toNat 4 = [0x61, 0, 0, 0] := by
    decide +kernel
  have hs : (imageFs magicOnly.geometry.blockSize).blockSize = magicOnly.geometry.blockSize := rfl
  have hrun := (fileReads_exact hread (by rw [hsize]; decide) oneBlockDir 1020#64 hs fun _ => rfl).2.1
    (List.replicate 6 0xFF) (hfour ▸ hmapped)
  rw [hfour, hbytes] at hrun
  exact hrun

end Driver
end Nafuraito.Ext4
