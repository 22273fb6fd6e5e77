import Nafuraito.Ext4.BootLoader

/-! Where the bootloader stores the bytes of a file, and how many of them it reports. -/
namespace Nafuraito.Ext4.Boot.Loader
open Nafuraito.Library
open Ata (Drive Io sectorBytes askedSectors)

variable {ctx : Ext4BootContext} {α β : Type}

/-! ### Reads -/

/-- The address of a block's first sector. -/
def sectorOf (ctx : Ext4BootContext) (block : BitVec 64) : BitVec 64 :=
  ctx.partitionLba + block * ctx.blockSize.setWidth 64 / 512

/-- A read stores a first part of the block's sectors, with addresses of 28 bits, and all of them if it succeeds. -/
theorem ext4ReadBlock_run (ctx : Ext4BootContext) (block : BitVec 64) (drive : Drive) :
    ∃ k ≤ (ctx.blockSize / 512).toNat, (ext4ReadBlock ctx block drive).2.memory =
        sectorBytes drive.sectors (askedSectors (· % 2^28) (sectorOf ctx block).toNat k) ∧
      (ext4ReadBlock ctx block drive).2.drive.sectors = drive.sectors ∧
      ((ext4ReadBlock ctx block drive).1 = true → k = (ctx.blockSize / 512).toNat) := by
  obtain ⟨k, hk, hmemory, hdrive, htrue⟩ := Ata.sectorLoop_reads (Ata.program28_asks (.inl rfl))
    (Ata.periodic_mod (Nat.pow_dvd_pow 2 (by decide))) (ctx.blockSize / 512).toNat (sectorOf ctx block) ⟨drive, []⟩
  exact ⟨k, hk, hmemory, hdrive, htrue⟩

theorem ext4ReadBlock_length (ctx : Ext4BootContext) (block : BitVec 64) (drive : Drive) :
    (ext4ReadBlock ctx block drive).2.memory.length ≤ ctx.blockSize.toNat := by
  obtain ⟨k, hk, hmemory, -⟩ := ext4ReadBlock_run ctx block drive
  rw [BitVec.toNat_udiv] at hk
  change k ≤ ctx.blockSize.toNat/512 at hk
  rw [hmemory, Ata.sectorBytes_length, askedSectors, List.length_map, List.length_range]
  omega

/-- What the loader leaves alone while it looks for a block. -/
structure Same (s t : Loader) : Prop where
  dest : t.dest = s.dest
  behindInode : t.behindInode = s.behindInode
  sectors : t.drive.sectors = s.drive.sectors

theorem Same.refl (s : Loader) : Same s s := ⟨rfl, rfl, rfl⟩

theorem Same.trans {s t u : Loader} (h : Same s t) (h' : Same t u) : Same s u :=
  ⟨h'.dest.trans h.dest, h'.behindInode.trans h.behindInode, h'.sectors.trans h.sectors⟩

/-- A computation that ends, and does not touch the destination. -/
def Quiet (x : Op α) : Prop := ∀ s, Same s (x s).2 ∧ (x s).1 ≠ .error .unfinished

namespace Quiet

theorem pure (a : α) : Quiet (pure a : Op α) := fun s => ⟨.refl s, fun h => by cases h⟩

theorem throw {e : BootStop} (h : e ≠ .unfinished) : Quiet (Fallible.throw e : Op α) :=
  fun s => ⟨.refl s, fun heq => h (Except.error.inj heq)⟩

theorem get : Quiet (Fallible.get : Op Loader) := fun s => ⟨.refl s, fun h => by cases h⟩

theorem bind {x : Op α} {f : α → Op β} (hx : Quiet x) (hf : ∀ a, Quiet (f a)) : Quiet (x >>= f) := by
  intro s
  obtain ⟨hsame, hends⟩ := hx s
  rw [Fallible.bind_run]
  cases hs : x s with
  | mk r t =>
    rw [hs] at hsame hends
    cases r with
    | ok a => exact ⟨hsame.trans (hf a t).1, (hf a t).2⟩
    | error e => exact ⟨hsame, fun h => hends (congrArg Except.error (Except.error.inj h))⟩

theorem readTo {put : List Byte → Loader → Loader} (hput : ∀ data s, Same s (put data s)) (block : BitVec 64) :
    Quiet (readTo ctx put block) := by
  intro s
  obtain ⟨k, -, -, hsectors, -⟩ := ext4ReadBlock_run ctx block s.drive
  have hread : Same s { s with drive := (ext4ReadBlock ctx block s.drive).2.drive } := ⟨rfl, rfl, hsectors⟩
  refine ⟨hread.trans (hput _ _), fun h => ?_⟩
  dsimp only [Loader.readTo] at h
  split at h <;> cases h

theorem readBuffer (block : BitVec 64) : Quiet (readBuffer ctx block) := by
  rw [Loader.readBuffer]
  refine readTo ?_ block
  exact fun _ _ => ⟨rfl, rfl, rfl⟩

theorem readBuffer2 (block : BitVec 64) : Quiet (readBuffer2 ctx block) := by
  rw [Loader.readBuffer2]
  refine readTo ?_ block
  exact fun _ _ => ⟨rfl, rfl, rfl⟩

theorem divide (a b : BitVec 32) : Quiet (divide a b) := by
  rw [Loader.divide]
  split
  · exact throw (by decide)
  · exact pure _

/-! ### The block map -/

theorem walkIndex (logicalBlock : BitVec 64) (depth : Nat) (header : List Byte) :
    Quiet (walkIndex ctx logicalBlock depth header) := by
  induction depth generalizing header with
  | zero => exact pure _
  | succ depth ih =>
    rw [Loader.walkIndex]
    split
    · exact pure _
    · exact bind (readBuffer2 _) fun _ => bind get fun s => ih _

theorem mapExtent (inode : Ext4Inode) (logicalBlock : BitVec 64) : Quiet (mapExtent ctx inode logicalBlock) := by
  refine bind get fun s => ?_
  dsimp only
  split
  · exact pure _
  · refine bind (walkIndex _ _ _) fun leaf => ?_
    cases leaf <;> exact pure _

theorem pointerIn (block : BitVec 64) (i : Nat) : Quiet (pointerIn ctx block i) :=
  bind (readBuffer2 _) fun _ => bind get fun _ => pure _

theorem mapIndirect (inode : Ext4Inode) (logicalBlock : BitVec 64) : Quiet (mapIndirect ctx inode logicalBlock) := by
  rw [Loader.mapIndirect]
  split_ifs
  · exact pure _
  · exact pointerIn _ _
  · exact bind (pointerIn _ _) fun _ => pointerIn _ _
  · exact bind (pointerIn _ _) fun _ => bind (pointerIn _ _) fun _ => pointerIn _ _

theorem mapBlock (inode : Ext4Inode) (logicalBlock : BitVec 64) : Quiet (mapBlock ctx inode logicalBlock) := by
  rw [Loader.mapBlock]
  split
  · exact mapExtent _ _
  · exact mapIndirect _ _

theorem ext4GetBlock (inode : Ext4Inode) (logicalBlock : BitVec 64) : Quiet (ext4GetBlock ctx inode logicalBlock) := by
  intro s
  have hquiet : Quiet (Loader.mapBlock ctx inode logicalBlock) := mapBlock inode logicalBlock
  obtain ⟨hsame, -⟩ := hquiet s
  rw [Loader.ext4GetBlock]
  split
  all_goals
    rename_i heq
    rw [heq] at hsame
    exact ⟨hsame, fun h => by cases h⟩

/-! ### The lookup -/

theorem ext4ReadInode (inodeNum : BitVec 32) : Quiet (ext4ReadInode ctx inodeNum) := by
  refine bind ?_ fun _ => bind (divide _ _) fun _ => bind (divide _ _) fun _ => bind (divide _ _) fun _ =>
    bind (readBuffer _) fun _ => bind get fun _ => bind (divide _ _) fun _ => bind (divide _ _) fun _ =>
    bind (readBuffer _) fun _ => bind get fun _ => pure _
  rw [Fallible.require]
  split
  · exact pure _
  · exact throw (by decide)

/-- A round for every block from `offset` on, and one more, bring the search of a directory to its end. -/
theorem findFrom (hpos : 0 < ctx.blockSize.toNat) (inode : Ext4Inode) (name : List Byte) {dirSize : BitVec 64}
    (hdir : dirSize.toNat < 2^32) (rounds : Nat) (offset : BitVec 64)
    (h : dirSize.toNat ≤ offset.toNat + rounds*ctx.blockSize.toNat) :
    Quiet (findFrom ctx inode name dirSize (rounds+1) offset) := by
  induction rounds generalizing offset with
  | zero =>
    have hend : ¬offset < dirSize := fun hlt => by
      have := BitVec.lt_def.mp hlt
      omega
    rw [Loader.findFrom, if_neg hend]
    exact throw (by decide)
  | succ rounds ih =>
    rw [Loader.findFrom]
    split
    next hlt =>
      have hlt := BitVec.lt_def.mp hlt
      have hsize := ctx.blockSize.isLt
      have hnext : (offset + ctx.blockSize.setWidth 64).toNat = offset.toNat + ctx.blockSize.toNat := by
        rw [BitVec.toNat_add, BitVec.toNat_setWidth]
        omega
      have hrest := ih (offset + ctx.blockSize.setWidth 64) (by rw [hnext]; rw [Nat.succ_mul] at h; omega)
      refine bind (ext4GetBlock _ _) fun physical => ?_
      split
      · exact hrest
      · refine bind (readBuffer _) fun _ => bind get fun s => ?_
        split
        · exact pure _
        · exact hrest
    next => exact throw (by decide)

theorem ext4DirFindEntry (hpos : 0 < ctx.blockSize.toNat) (inode : Ext4Inode) (name : List Byte) :
    Quiet (ext4DirFindEntry ctx inode name) := by
  have hdir : ((u32At inode.bytes 0x04).setWidth 64).toNat < 2^32 := by
    have := (u32At inode.bytes 0x04).isLt
    rw [BitVec.toNat_setWidth]
    omega
  refine findFrom hpos inode name hdir _ 0 ?_
  have := Nat.lt_div_mul_add (a := ((u32At inode.bytes 0x04).setWidth 64).toNat) hpos
  rw [Nat.succ_mul]
  exact this.le.trans (Nat.le_add_left _ _)

theorem lookupFrom (hpos : 0 < ctx.blockSize.toNat) (n : Nat) (p : List Byte) (currentInode : BitVec 32) :
    Quiet (lookupFrom ctx n p currentInode) := by
  induction n generalizing p currentInode with
  | zero => exact pure _
  | succ n ih =>
    rw [Loader.lookupFrom]
    split_ifs
    · exact pure _
    · exact ih _ _
    · exact bind (ext4ReadInode _) fun _ => bind (ext4DirFindEntry hpos _ _) fun _ => ih _ _

theorem inodeOf (hpos : 0 < ctx.blockSize.toNat) (path : List Byte) : Quiet (inodeOf ctx path) := by
  refine bind ?_ fun _ => ext4ReadInode _
  rw [Loader.ext4LookupPath]
  split_ifs
  · exact pure _
  · exact lookupFrom hpos _ _ _

end Quiet

/-! ### One round -/

theorem toRead_toNat (ctx : Ext4BootContext) (remaining : BitVec 64) :
    (toRead ctx remaining).toNat = min remaining.toNat ctx.blockSize.toNat := by
  have hwidth : (ctx.blockSize.setWidth 64).toNat = ctx.blockSize.toNat := by
    have := ctx.blockSize.isLt
    rw [BitVec.toNat_setWidth]
    omega
  rw [toRead]
  split
  next h =>
    have := BitVec.lt_def.mp h
    omega
  next h =>
    have := BitVec.not_lt.mp h
    rw [BitVec.le_def] at this
    have := ctx.blockSize.isLt
    rw [BitVec.toNat_setWidth]
    omega

theorem store_outside {dest : Nat → Byte} {place i : Nat} {data : List Byte}
    (h : i < place ∨ place + data.length ≤ i) : store dest place data i = dest i :=
  if_neg (by omega)

theorem store_inside {dest : Nat → Byte} {place i : Nat} {data : List Byte} (h : place ≤ i)
    (h' : i < place + data.length) : store dest place data i = byteAt data (i-place) :=
  if_pos ⟨h, h'⟩

/-- A round stores at most a block, and only from `buffer` on. -/
theorem readRound_run (ctx : Ext4BootContext) (inode : Ext4Inode) (buffer : Nat) (remaining logicalBlock : BitVec 64)
    (s : Loader) :
    (∀ i, i < buffer ∨ buffer + ctx.blockSize.toNat ≤ i →
      (readRound ctx inode buffer remaining logicalBlock s).2.dest i = s.dest i) ∧
    (readRound ctx inode buffer remaining logicalBlock s).1 ≠ .error .unfinished := by
  have hquiet : Quiet (ext4GetBlock ctx inode logicalBlock) := .ext4GetBlock inode logicalBlock
  obtain ⟨hsame, hends⟩ := hquiet s
  rw [readRound, Fallible.bind_run]
  rcases hblock : ext4GetBlock ctx inode logicalBlock s with ⟨e | physicalBlock, t⟩
  · rw [hblock] at hsame hends
    exact ⟨fun i _ => congrFun hsame.dest i, fun h => hends (congrArg Except.error (Except.error.inj h))⟩
  · rw [hblock] at hsame
    dsimp only
    split
    · refine ⟨fun i hi => ?_, fun h => by cases h⟩
      have hle : (List.replicate (toRead ctx remaining).toNat (0 : Byte)).length ≤ ctx.blockSize.toNat := by
        rw [List.length_replicate, toRead_toNat]
        exact Nat.min_le_right _ _
      exact (store_outside (by omega)).trans (congrFun hsame.dest i)
    · refine ⟨fun i hi => ?_, fun h => ?_⟩
      · have hle := ext4ReadBlock_length ctx physicalBlock t.drive
        have hout : i < buffer ∨ buffer + (ext4ReadBlock ctx physicalBlock t.drive).2.memory.length ≤ i := by omega
        exact (store_outside hout).trans (congrFun hsame.dest i)
      · dsimp only [readDest, readTo] at h
        split at h <;> cases h

/-! ### The loop -/

/-- With whole blocks up to the limit, the loop stays below the limit, ends, and counts every byte. -/
theorem readBlocks_run (hpos : 0 < ctx.blockSize.toNat) {limit : Nat} (hlimit : ctx.blockSize.toNat ∣ limit)
    (inode : Ext4Inode) (rounds buffer : Nat) (bytesRead remaining logicalBlock : BitVec 64) (s : Loader)
    (hrounds : remaining.toNat < rounds) (hroom : buffer + remaining.toNat ≤ limit)
    (hwhole : remaining = 0 ∨ ctx.blockSize.toNat ∣ buffer) (hcount : bytesRead.toNat + remaining.toNat < 2^64) :
    (∀ i, limit ≤ i → (readBlocks ctx inode rounds buffer bytesRead remaining logicalBlock s).2.dest i = s.dest i) ∧
      (readBlocks ctx inode rounds buffer bytesRead remaining logicalBlock s).1 ≠ .error .unfinished ∧
      ∀ size, (readBlocks ctx inode rounds buffer bytesRead remaining logicalBlock s).1 = .ok size →
        size.toNat = bytesRead.toNat + remaining.toNat := by
  induction rounds generalizing buffer bytesRead remaining logicalBlock s with
  | zero => omega
  | succ rounds ih =>
    rw [readBlocks]
    by_cases hmore : remaining > 0
    · have hsome : 0 < remaining.toNat := BitVec.lt_def.mp hmore
      have hbuffer : ctx.blockSize.toNat ∣ buffer := hwhole.resolve_left fun h => by rw [h] at hsome; exact hsome.false
      -- a whole block is left below the limit
      have hfit : buffer + ctx.blockSize.toNat ≤ limit := by
        obtain ⟨m, rfl⟩ := hbuffer
        obtain ⟨n, rfl⟩ := hlimit
        have hlt : m < n := Nat.lt_of_mul_lt_mul_left (a := ctx.blockSize.toNat) (by omega)
        rw [← Nat.mul_succ]
        exact Nat.mul_le_mul_left _ hlt
      have hn := toRead_toNat ctx remaining
      have hwide : ((toRead ctx remaining).setWidth 64).toNat = (toRead ctx remaining).toNat := by
        have := (toRead ctx remaining).isLt
        rw [BitVec.toNat_setWidth]
        omega
      have hrest : (remaining - (toRead ctx remaining).setWidth 64).toNat =
          remaining.toNat - (toRead ctx remaining).toNat := by
        rw [BitVec.toNat_sub_of_le (BitVec.le_def.mpr (by omega)), hwide]
      have hread : (bytesRead + (toRead ctx remaining).setWidth 64).toNat =
          bytesRead.toNat + (toRead ctx remaining).toNat := by
        rw [BitVec.toNat_add, hwide]
        exact Nat.mod_eq_of_lt (by omega)
      obtain ⟨hframe, hends⟩ := readRound_run ctx inode buffer remaining logicalBlock s
      rw [if_pos hmore, Fallible.bind_run]
      rcases hround : readRound ctx inode buffer remaining logicalBlock s with ⟨e | u, t⟩
      · rw [hround] at hframe hends
        exact ⟨fun i hi => hframe i (by omega), fun h => hends (congrArg Except.error (Except.error.inj h)),
          fun _ h => by cases h⟩
      · rw [hround] at hframe
        have hnext : remaining - (toRead ctx remaining).setWidth 64 = 0 ∨
            ctx.blockSize.toNat ∣ buffer + (toRead ctx remaining).toNat := by
          by_cases hlast : remaining.toNat ≤ ctx.blockSize.toNat
          · exact .inl (BitVec.eq_of_toNat_eq (by rw [hrest]; exact Nat.sub_eq_zero_of_le (by omega)))
          · have hblock : (toRead ctx remaining).toNat = ctx.blockSize.toNat := by omega
            rw [hblock]
            exact .inr (Nat.dvd_add hbuffer (Nat.dvd_refl _))
        obtain ⟨hdest, hfinishes, hsize⟩ := ih (buffer + (toRead ctx remaining).toNat)
          (bytesRead + (toRead ctx remaining).setWidth 64) (remaining - (toRead ctx remaining).setWidth 64)
          (logicalBlock + 1) t (by omega) (by omega) hnext (by omega)
        refine ⟨fun i hi => (hdest i hi).trans (hframe i (by omega)), hfinishes, fun size h => ?_⟩
        rw [hsize size h]
        omega
    · have hnone : remaining.toNat = 0 := by
        have := BitVec.le_def.mp (BitVec.not_lt.mp hmore)
        exact Nat.le_zero.mp this
      rw [if_neg hmore]
      refine ⟨fun _ _ => rfl, ?_, ?_⟩
      · intro h
        cases h
      · intro size h
        obtain rfl := Except.ok.inj h
        omega

/-! ### The file -/

private theorem shift_cases : ∀ n < 32,
    ¬(EXT4_MIN_BLOCK_SIZE <<< n > EXT4_MAX_BLOCK_SIZE ∨ EXT4_MIN_BLOCK_SIZE <<< n < EXT4_MIN_BLOCK_SIZE) →
    EXT4_MIN_BLOCK_SIZE <<< n = 1024 ∨ EXT4_MIN_BLOCK_SIZE <<< n = 2048 ∨ EXT4_MIN_BLOCK_SIZE <<< n = 4096 := by
  decide

/-- The context has one of the three block sizes. -/
theorem ext4BootInit_blockSize {partLba : BitVec 64} {s t : Loader} {ctx : Ext4BootContext}
    (h : ext4BootInit partLba s = (.ok ctx, t)) :
    ctx.blockSize = 1024 ∨ ctx.blockSize = 2048 ∨ ctx.blockSize = 4096 := by
  dsimp only [ext4BootInit] at h
  split at h
  · cases h
  split at h
  · cases h
  split at h
  · cases h
  next hsize =>
    obtain rfl := Except.ok.inj (Prod.ext_iff.mp h).1
    exact shift_cases _ (Nat.mod_lt _ (by decide)) hsize

/-- What the loader takes for the size of the file. -/
theorem fileSize_toNat (size maxSize : BitVec 64) :
    (if size > maxSize then maxSize else size).toNat = min size.toNat maxSize.toNat := by
  split
  next h =>
    have := BitVec.lt_def.mp h
    omega
  next h =>
    have := BitVec.le_def.mp (BitVec.not_lt.mp h)
    omega

/-- In a context that the initialisation accepts, with a limit of whole blocks, no byte from the limit on is stored,
whatever it holds; every loop ends; and a success reports the smaller one of the file's size and the limit. -/
theorem ext4BootReadFile_bounded {partLba : BitVec 64} {s₀ t₀ : Loader} {ctx : Ext4BootContext}
    (hinit : ext4BootInit partLba s₀ = (.ok ctx, t₀)) {maxSize : BitVec 64}
    (hmax : ctx.blockSize.toNat ∣ maxSize.toNat) (path : List Byte) (s : Loader) :
    (∀ i, maxSize.toNat ≤ i → (ext4BootReadFile ctx path maxSize s).2.dest i = s.dest i) ∧
      (ext4BootReadFile ctx path maxSize s).1 ≠ .error .unfinished ∧
      ∀ size, (ext4BootReadFile ctx path maxSize s).1 = .ok size →
        ∃ inode, (inodeOf ctx path s).1 = .ok inode ∧ size.toNat = min inode.size64.toNat maxSize.toNat := by
  have hpos : 0 < ctx.blockSize.toNat := by
    rcases ext4BootInit_blockSize hinit with h | h | h <;> rw [h] <;> decide
  obtain ⟨hsame, hends⟩ := Quiet.inodeOf hpos path s
  rw [ext4BootReadFile, Fallible.bind_run]
  rcases hinode : inodeOf ctx path s with ⟨e | inode, t⟩
  · rw [hinode] at hsame hends
    exact ⟨fun i _ => congrFun hsame.dest i, fun h => hends (congrArg Except.error (Except.error.inj h)),
      fun _ h => by cases h⟩
  · rw [hinode] at hsame
    have hfile := fileSize_toNat inode.size64 maxSize
    have hzero : (0 : BitVec 64).toNat = 0 := rfl
    have hlt := maxSize.isLt
    obtain ⟨hdest, hfinishes, hsize⟩ := readBlocks_run hpos hmax inode
      ((if inode.size64 > maxSize then maxSize else inode.size64).toNat + 1) 0 0
      (if inode.size64 > maxSize then maxSize else inode.size64) 0 t (Nat.lt_succ_self _) (by omega)
      (.inr (Nat.dvd_zero _)) (by omega)
    refine ⟨fun i hi => (hdest i hi).trans (congrFun hsame.dest i), hfinishes, fun size h => ⟨inode, rfl, ?_⟩⟩
    rw [hsize size h, hfile, hzero, Nat.zero_add]

/-! ### A sparse kernel

Blocks of 1 KiB: the superblock in block 1, the group descriptor in block 2, the inodes in block 3, the root directory
in block 4. Its file "k" has twelve holes, and then block 6, which the pointer block 5 names. -/

def sectorOfBytes (bytes : List (Nat × Byte)) : Vector (BitVec 8) 512 :=
  ⟨⟨(List.range 512).map fun i => (bytes.lookup i).getD 0⟩,
    by rw [List.size_toArray, List.length_map, List.length_range]⟩

def sparseDisk (lba : Nat) : Vector (BitVec 8) 512 := sectorOfBytes <|
  if lba = 2 then [(40, 16), (56, 0x53), (57, 0xEF), (89, 1)]
  else if lba = 4 then [(8, 3)]
  else if lba = 6 then [(261, 4), (296, 4)]
  else if lba = 7 then [(5, 0x34), (88, 5)]
  else if lba = 8 then [(0, 3), (5, 4), (6, 1), (7, 1), (8, 0x6B)]
  else if lba = 10 then [(0, 6)]
  else if lba = 12 then [(0, 1)]
  else []

/-- The drive's status register shows an error at some reads of it, else that it is ready. -/
def sparseLoader (fails : Nat → Bool) : Loader where
  drive := {
    taskFile := ⟨⟨0, 0⟩, ⟨0, 0⟩, ⟨0, 0⟩, ⟨0, 0⟩, 0⟩
    status := fun n => if fails n then Ata.ataStatusErr else Ata.ataStatusRdy ||| Ata.ataStatusDrq
    sectors := sparseDisk
    waiting := []
    accesses := []
    transferred := [] }
  blockBuffer := []
  blockBuffer2 := []
  behindInode := []
  dest := fun _ => 0xFF

def sparseContext : Ext4BootContext := ⟨⟨1024⟩, 16, 256, 32, false, 0⟩

deriving instance DecidableEq for Ext4BootCtx, Ext4BootContext

private theorem sparseContext_init : (ext4BootInit 0 (sparseLoader fun _ => false)).1 = .ok sparseContext := by
  decide +kernel

/-- The byte at the limit stays, and the call ends. -/
theorem sparseKernel_bounded :
    (ext4BootReadFile sparseContext [0x2F, 0x6B] 0xA00000 (sparseLoader (· = 20))).2.dest 0xA00000 = 0xFF ∧
      (ext4BootReadFile sparseContext [0x2F, 0x6B] 0xA00000 (sparseLoader (· = 20))).1 ≠ .error .unfinished := by
  have hmax : sparseContext.blockSize.toNat ∣ (0xA00000 : BitVec 64).toNat := by decide
  obtain ⟨hdest, hends, -⟩ := ext4BootReadFile_bounded (Fallible.run_of_fst sparseContext_init) hmax [0x2F, 0x6B]
    (sparseLoader (· = 20))
  exact ⟨hdest _ le_rfl, hends⟩

end Nafuraito.Ext4.Boot.Loader
