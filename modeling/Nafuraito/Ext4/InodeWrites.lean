import Nafuraito.Ext4.InodeTable
import Nafuraito.Ext4.ExtentTree

/-! Inodes written in a transaction and read back after its commit. The journaled copy of a block
is zeroed memory, so every inode of a block that was written reads as zeros. -/
namespace Nafuraito.Ext4.Ext4Filesystem
open Nafuraito.Library
variable {D : Type} {ops : Ext4BlockOps D} {content : D → BitVec 64 → List Byte} {s t : Ext4Filesystem D}
variable {layout : Ext4Layout}

/-- The calls in turn, and those that returned `Ok`. -/
def writeInodes (ops : Ext4BlockOps D) (layout : Ext4Layout) : List (BitVec 32 × Ext4Inode) → Ext4Filesystem D →
    List (BitVec 32 × Ext4Inode) × Ext4Filesystem D
  | [], s => ([], s)
  | call :: calls, s => match writeInode ops layout call.1 call.2 s with
    | (.ok _, t) => (call :: (writeInodes ops layout calls t).1, (writeInodes ops layout calls t).2)
    | (.error _, t) => writeInodes ops layout calls t

/-- The blocks of the inodes. -/
def inodeBlocks (layout : Ext4Layout) (blockSize : BitVec 32) (written : List (BitVec 32 × Ext4Inode)) :
    List (BitVec 64) :=
  written.filterMap fun call => (layout.inodePlace blockSize call.1).map Prod.fst

/-- Memory to spare for the buffer of a read. -/
def plenty (s : Ext4Filesystem D) : Ext4Filesystem D := { s with kmalloc := fun _ => true }

/-! ### Reading -/

/-- The inode that a block of the device holds at a place. -/
def storedInode (content : D → BitVec 64 → List Byte) (s : Ext4Filesystem D) (place : BitVec 64 × Nat) : Ext4Inode :=
  inodeAt ((content s.device place.1).take s.blockSize.toNat) place.2

theorem inodeAt_replicate (n offset : Nat) : inodeAt (List.replicate n 0) offset = zeroInode := by
  have hbyte (k : Nat) : byteAt (List.replicate n 0) k = 0 := by
    rw [byteAt, List.getD_eq_getElem?_getD, List.getElem?_replicate]
    split <;> rfl
  simp only [inodeAt, hbyte, zeroInode, List.map_const', List.length_range]

variable (layout) in
theorem Reliable.readInode_plenty (h : Reliable ops content) (hpos : 0 < s.blockSize.toNat) (inodeNum : BitVec 32) :
    (readInode ops layout inodeNum (plenty s)).1 = match layout.inodePlace s.blockSize inodeNum with
      | none => .error .invalid
      | some place => .ok (storedInode content s place) := by
  rw [readInode, Fallible.get_bind_run]
  cases hplace : layout.inodePlace s.blockSize inodeNum with
  | none =>
    rw [show (plenty s).blockSize = s.blockSize from rfl, hplace]
    rfl
  | some place =>
    rw [show (plenty s).blockSize = s.blockSize from rfl, hplace, Fallible.okOr_some, Fallible.pure_bind_run,
      Fallible.bind_run, kernelAllocBytes_pos hpos, if_pos (show (plenty s).kmalloc 0 = true from rfl)]
    dsimp only
    rw [Fallible.bind_of_ok (h.readBlock_run _ _)]
    rfl

/-! ### Writing -/

/-- A write adds a zeroed block to the transaction or fails, and leaves the device alone. -/
theorem Reliable.writeInode_run (h : Reliable ops content) {journal : Journal} (hj : s.journal = some journal)
    (hr : journal.running = true) (inodeNum : BitVec 32) (inode : Ext4Inode) {x : Except Ext4Error Unit}
    (hrun : writeInode ops layout inodeNum inode s = (x, t)) : t.device = s.device ∧ t.blockSize = s.blockSize ∧
      ((∃ place data, layout.inodePlace s.blockSize inodeNum = some place ∧ x = .ok () ∧
          t.journal = some (journal.addBlock place.1 (List.replicate (data : List Byte).length 0))) ∨
        (∃ e, x = .error e) ∧ t.journal = some journal) := by
  rw [writeInode, Fallible.get_bind_run] at hrun
  by_cases hro : s.readonly = false
  · rw [Fallible.bind_of_ok (Fallible.require_run_pos _ hro s)] at hrun
    cases hplace : layout.inodePlace s.blockSize inodeNum with
    | none =>
      rw [hplace] at hrun
      obtain ⟨rfl, rfl⟩ := Prod.mk.inj hrun
      exact ⟨rfl, rfl, .inr ⟨⟨_, rfl⟩, hj⟩⟩
    | some place =>
      rw [hplace, Fallible.okOr_some, Fallible.pure_bind_run] at hrun
      obtain ⟨later, he | he⟩ := kernelAllocBytes_run s.blockSize.toNat s
      · rw [Fallible.bind_of_ok he, Fallible.bind_of_ok (h.readBlock_run _ _)] at hrun
        obtain ⟨hd, hb, hcase⟩ := writeBlockJournaled_run (s := { s with kmalloc := later }) hj hr _ _ hrun
        exact ⟨hd, hb, hcase.imp (fun ⟨hx, hj'⟩ => ⟨place, _, rfl, hx, hj'⟩) id⟩
      · rw [Fallible.bind_of_error he] at hrun
        obtain ⟨rfl, rfl⟩ := Prod.mk.inj hrun
        exact ⟨rfl, rfl, .inr ⟨⟨_, rfl⟩, hj⟩⟩
  · rw [Fallible.bind_of_error (Fallible.require_run_neg _ hro s)] at hrun
    obtain ⟨rfl, rfl⟩ := Prod.mk.inj hrun
    exact ⟨rfl, rfl, .inr ⟨⟨_, rfl⟩, hj⟩⟩

variable (layout) in
/-- The successful writes each add the block of their inode, zeroed, to the transaction. -/
theorem Reliable.writeInodes_run (h : Reliable ops content) {journal : Journal} (hj : s.journal = some journal)
    (hr : journal.running = true) (calls : List (BitVec 32 × Ext4Inode)) :
    (writeInodes ops layout calls s).2.device = s.device ∧
      (writeInodes ops layout calls s).2.blockSize = s.blockSize ∧
      (∀ call ∈ (writeInodes ops layout calls s).1, (layout.inodePlace s.blockSize call.1).isSome) ∧
      ∃ ws, (writeInodes ops layout calls s).2.journal = some (addAll journal (zeroed ws)) ∧
        ws.map Prod.fst = inodeBlocks layout s.blockSize (writeInodes ops layout calls s).1 := by
  induction calls generalizing s journal with
  | nil => exact ⟨rfl, rfl, (by intro _ hc; cases hc), [], hj, rfl⟩
  | cons call calls ih =>
    rw [writeInodes]
    cases hrun : writeInode ops layout call.1 call.2 s with
    | mk x t =>
      obtain ⟨hd, hb, ⟨place, data, hplace, rfl, hj'⟩ | ⟨⟨e, rfl⟩, hj'⟩⟩ := h.writeInode_run hj hr call.1 call.2 hrun
      · have hr' : (journal.addBlock place.1 (List.replicate data.length 0)).running = true := by
          rw [Journal.addBlock, Journal.startTransaction]
          split <;> exact hr
        obtain ⟨hd', hb', hplaces, ws, hws, hblocks⟩ := ih hj' hr'
        rw [hb] at hplaces hblocks
        refine ⟨hd'.trans hd, hb'.trans hb, fun c hc => ?_, (place.1, data) :: ws, hws, ?_⟩
        · rcases List.mem_cons.mp hc with rfl | hc
          · rw [hplace]
            rfl
          · exact hplaces c hc
        · rw [List.map_cons, hblocks, inodeBlocks, inodeBlocks, List.filterMap_cons, hplace]
          rfl
      · obtain ⟨hd', hb', hplaces, ws, hws, hblocks⟩ := ih hj' hr
        rw [hb] at hplaces hblocks
        exact ⟨hd'.trans hd, hb'.trans hb, hplaces, ws, hws, hblocks⟩

/-! ### After the commit -/

private theorem commit_nothing {journal : Journal} (hnone : journal.currentTransaction = none)
    (hj : s.journal = some journal) (hok : journalCommit ops s = (.ok (), t)) : t = s := by
  unfold journalCommit at hok
  simp only [hj, hnone] at hok
  exact (Prod.mk.inj hok).2.symm

section Committed
variable (h : Reliable ops content) {journal : Journal} (hnone : journal.currentTransaction = none)
variable (hlen : 2 ≤ journal.journalLength.toNat) {ws : List (BitVec 64 × List Byte)}
variable (hj : s.journal = some (addAll journal (zeroed ws))) (hok : journalCommit ops s = (.ok (), t))
include h hnone hlen hj hok

theorem Reliable.committed_blockSize : t.blockSize = s.blockSize := by
  cases ws with
  | nil => rw [commit_nothing hnone hj hok]
  | cons w ws => exact (h.committed_content hj hnone hlen hok).1

/-- What an inode outside the journal reads as after the commit. -/
theorem Reliable.storedInode_committed {place : BitVec 64 × Nat} (hout : ¬ InArea journal place.1) :
    storedInode content t place =
      if place.1 ∈ ws.map Prod.fst ∨ (ws.map Prod.fst ≠ [] ∧
        place.1 = journal.journalStart + (journal.head.setWidth 64 + 1)) then zeroInode
      else if ws.map Prod.fst ≠ [] ∧ place.1 = journal.journalStart + journal.head.setWidth 64 then
        inodeAt ((headerBytes s.blockSize JBD2_DESCRIPTOR_BLOCK journal.currentSequence).take
          s.blockSize.toNat) place.2
      else storedInode content s place := by
  have hsize := h.committed_blockSize hnone hlen hj hok
  cases ws with
  | nil => simp [commit_nothing hnone hj hok]
  | cons w ws =>
    have hzeros (n : Nat) : inodeAt ((List.replicate n (0 : Byte)).take s.blockSize.toNat) place.2 = zeroInode := by
      rw [List.take_replicate, inodeAt_replicate]
    have hne : (w :: ws).map Prod.fst ≠ [] := by simp
    rw [storedInode, hsize]
    cases hl : lastWrite (w :: ws) place.1 with
    | some data =>
      have hmem : place.1 ∈ (w :: ws).map Prod.fst := List.mem_map.mpr ⟨_, lastWrite_mem hl, rfl⟩
      rw [h.committed_home hj hnone hlen hok hl, hzeros, if_pos (.inl hmem)]
    | none =>
      have hmem : place.1 ∉ (w :: ws).map Prod.fst := by
        intro hin
        obtain ⟨q, hq, he⟩ := List.mem_map.mp hin
        exact lastWrite_eq_none.mp hl q hq he
      rw [h.committed_other hj hnone hlen hok hout hl]
      by_cases hfirst : place.1 = journal.journalStart + (journal.head.setWidth 64 + 1)
      · rw [if_pos hfirst.symm, hzeros, if_pos (.inr ⟨hne, hfirst⟩)]
      · have hclear : ¬ (place.1 ∈ (w :: ws).map Prod.fst ∨ ((w :: ws).map Prod.fst ≠ [] ∧
            place.1 = journal.journalStart + (journal.head.setWidth 64 + 1))) :=
          not_or.mpr ⟨hmem, fun hh => hfirst hh.2⟩
        rw [if_neg (Ne.symm hfirst), if_neg hclear]
        by_cases hhead : place.1 = journal.journalStart + journal.head.setWidth 64
        · rw [if_pos hhead.symm, if_pos ⟨hne, hhead⟩]
        · rw [if_neg (Ne.symm hhead), if_neg fun hh => hhead hh.2]
          rfl

end Committed

/-- An inode that was not written holds what the commit puts in its block: zeros in a block that
was written and in the block after the descriptor, the descriptor's bytes in its block. -/
def Unspoiled (content : D → BitVec 64 → List Byte) (s : Ext4Filesystem D) (journal : Journal)
    (touched : List (BitVec 64)) (place : BitVec 64 × Nat) : Prop :=
  (place.1 ∈ touched ∨ (touched ≠ [] ∧ place.1 = journal.journalStart + (journal.head.setWidth 64 + 1)) →
    storedInode content s place = zeroInode) ∧
  (touched ≠ [] → place.1 ∉ touched → place.1 = journal.journalStart + journal.head.setWidth 64 →
    storedInode content s place = inodeAt ((headerBytes s.blockSize JBD2_DESCRIPTOR_BLOCK
      journal.currentSequence).take s.blockSize.toNat) place.2)

/-- One group of 16 inodes of 256 bytes, from block 200 on. -/
def oneGroup : Ext4Layout := ⟨[⟨200#32, 0#32⟩], 16#32, 256#32, 1#32, false, rfl⟩

private theorem oneGroup_place {inodeNum : BitVec 32} {place : BitVec 64 × Nat}
    (h : oneGroup.inodePlace 1024#32 inodeNum = some place) : 200 ≤ place.1.toNat ∧ place.1.toNat < 204 := by
  rw [Ext4Layout.inodePlace] at h
  split at h
  · cases h
  · split at h
    · cases h
    · rename_i hgroup
      dsimp only at h
      have htable (desc : Ext4GroupDesc) (hdesc : desc ∈ oneGroup.groupDescs) :
          oneGroup.inodeTable desc = 200#64 := by
        obtain rfl := List.mem_singleton.mp hdesc
        rfl
      rw [htable _ (List.get_mem _ _)] at h
      obtain rfl := Option.some.inj h
      have hbyte : (oneGroup.tableByte inodeNum / 1024#32).toNat < 4 := by
        have hmod : ((inodeNum - 1) % 16#32).toNat < 16 := by
          rw [BitVec.toNat_umod]
          exact Nat.mod_lt _ (by decide)
        rw [BitVec.toNat_udiv, Ext4Layout.tableByte]
        change ((inodeNum - 1) % 16#32 * 256#32).toNat / 1024 < 4
        rw [BitVec.toNat_mul]
        change _ * 256 % _ / 1024 < 4
        omega
      dsimp only
      rw [BitVec.toNat_add, BitVec.toNat_setWidth]
      change 200 ≤ (200 + _) % _ ∧ (200 + _) % _ < 204
      omega

private theorem oneGroup_area {inodeNum : BitVec 32} {place : BitVec 64 × Nat}
    (h : oneGroup.inodePlace 1024#32 inodeNum = some place) :
    ¬ InArea (.new ⟨8#32, 1#32, 1#32⟩ 100#64) place.1 := by
  obtain ⟨h₁, _⟩ := oneGroup_place h
  rintro ⟨k, hk, he⟩
  change k < 8 at hk
  change place.1 = 100#64 + BitVec.ofNat 64 k at he
  rw [he, BitVec.toNat_add, BitVec.toNat_ofNat, BitVec.toNat_ofNat] at h₁
  omega

end Nafuraito.Ext4.Ext4Filesystem
