import Nafuraito.Ext4.CommitWrites

/-! What is left of a transaction when its commit fails. -/
namespace Nafuraito.Ext4.Ext4Filesystem
open Nafuraito.Library
variable {D : Type} {ops : Ext4BlockOps D}

/-- The transaction that waits to be committed. -/
def pending (s : Ext4Filesystem D) : Option Transaction := s.journal.bind fun journal => journal.currentTransaction

/-! ### The steps of a commit and the journal -/

/-- The step changes nothing of the journal but its head, whether it returns or fails. -/
abbrev MovesHead {α : Type} (x : Op D α) : Prop := Fallible.Relates (fun s t => HeadMoved s.journal t.journal) x

section Steps
variable {α β : Type}

private theorem MovesHead.pure (a : α) : MovesHead (D := D) (Pure.pure a) :=
  Fallible.Relates.pure (fun _ => .of_eq rfl) a

private theorem MovesHead.bind {x : Op D α} {f : α → Op D β} (hx : MovesHead x) (hf : ∀ a, MovesHead (f a)) :
    MovesHead (x >>= f) := by
  refine Fallible.Relates.bind ?_ hx hf
  exact fun _ _ _ => HeadMoved.trans

private theorem headerBlock_movesHead (blocktype tid : BitVec 32) : MovesHead (D := D) (headerBlock blocktype tid) := by
  intro s
  rw [headerBlock]
  obtain ⟨later, he | he⟩ := kernelAllocBytes_run s.blockSize.toNat s
  · rw [Fallible.bind_of_ok he]
    exact .of_eq rfl
  · rw [Fallible.bind_of_error he]
    exact .of_eq rfl

private theorem writeBlock_movesHead (block : BitVec 64) (buffer : List Byte) :
    MovesHead (writeBlock ops block buffer) := by
  intro s
  rw [writeBlock]
  split
  · exact .of_eq rfl
  · cases ops.writeBlock with
    | none => exact .of_eq rfl
    | some writeFn => exact .of_eq rfl

private theorem writeData_movesHead (journalStart journalLength : BitVec 64) (data : List (List Byte))
    (place : BitVec 64) : MovesHead (writeData ops journalStart journalLength data place) := by
  induction data generalizing place with
  | nil => exact .pure place
  | cons first rest ih => exact (writeBlock_movesHead _ first).bind fun _ => ih _

private theorem writeHome_movesHead (ws : List (BitVec 64 × List Byte)) : MovesHead (writeHome ops ws) := by
  induction ws with
  | nil => exact .pure ()
  | cons w rest ih => exact (writeBlock_movesHead w.1 w.2).bind fun _ => ih

private theorem syncDevice_movesHead : MovesHead (syncDevice ops) := by
  intro s
  rw [syncDevice]
  cases ops.sync with
  | none => exact .of_eq rfl
  | some syncFn => exact .of_eq rfl

/-- No step of the commit puts a transaction back. -/
private theorem commitTransaction_movesHead (journal : Journal) (trans : Transaction) :
    MovesHead (commitTransaction ops journal trans) := by
  apply (headerBlock_movesHead _ _).bind fun descriptor => ?_
  apply (writeBlock_movesHead _ descriptor).bind fun _ => ?_
  apply (writeData_movesHead _ _ trans.data _).bind fun journalBlock => ?_
  apply (headerBlock_movesHead _ _).bind fun commit => ?_
  apply (writeBlock_movesHead _ commit).bind fun _ => ?_
  apply (writeHome_movesHead _).bind fun _ => ?_
  apply syncDevice_movesHead.bind fun _ => ?_
  exact fun s => ⟨fun _ => journalBlock.setWidth 32 + 1, rfl⟩

end Steps

private theorem HeadMoved.pending {j j' : Option Journal} (h : HeadMoved j j') :
    (j'.bind fun journal => journal.currentTransaction) = j.bind fun journal => journal.currentTransaction := by
  obtain ⟨head, rfl⟩ := h
  cases j <;> rfl

variable {s t : Ext4Filesystem D}

/-- Whatever becomes of a commit, nothing is pending after it. -/
theorem journalCommit_pending (ops : Ext4BlockOps D) (s : Ext4Filesystem D) :
    pending (journalCommit ops s).2 = none := by
  rw [journalCommit]
  cases hj : s.journal with
  | none => rw [pending, hj, Option.bind_none]
  | some journal =>
    cases ht : journal.currentTransaction with
    | none =>
      dsimp only
      rw [ht]
      dsimp only
      rw [pending, hj, Option.bind_some, ht]
    | some transaction =>
      dsimp only
      rw [ht]
      exact (commitTransaction_movesHead journal transaction _).pending

private theorem journalCommit_nothing (h : pending s = none) : journalCommit ops s = (.ok (), s) := by
  rw [journalCommit]
  rw [pending] at h
  cases hj : s.journal with
  | none => rfl
  | some journal =>
    rw [hj, Option.bind_some] at h
    dsimp only
    rw [h]

/-- A commit that fails has lost its transaction: another commit, on whatever device, returns `Ok` and writes
nothing. -/
theorem failedCommit_loses {transaction : Transaction} (hpending : pending s = some transaction) {e : Ext4Error}
    (hfail : journalCommit ops s = (.error e, t)) :
    pending t ≠ pending s ∧ ∀ (ops' : Ext4BlockOps D) (device : D) (kmalloc : Nat → Bool),
      journalCommit ops' { t with device := device, kmalloc := kmalloc } =
        (.ok (), { t with device := device, kmalloc := kmalloc }) := by
  have hnone : pending t = none := by
    rw [← journalCommit_pending ops s, hfail]
  refine ⟨fun h => ?_, fun ops' device kmalloc => journalCommit_nothing hnone⟩
  rw [hnone, hpending] at h
  cases h

/-! ### A home block that cannot be written -/

/-- A device in memory that fails every write of block 500. -/
def homeFails : Ext4BlockOps (BitVec 64 → List Byte) where
  readBlock := memoryOps.readBlock
  writeBlock := some fun block buffer d =>
    if block = 500 then (.error .io, d) else (.ok (), Function.update d block buffer)
  sync := none

/-- Block 500 is in the transaction. -/
def oneJournaled : Ext4Filesystem (BitVec 64 → List Byte) :=
  (journalAll homeFails [(500#64, List.replicate 1024 7)] memoryFs).2

private theorem oneJournaled_fails : (journalCommit homeFails oneJournaled).1 = .error .io := by
  decide +kernel

/-- After the failure a commit on the working device leaves block 500 as it was. -/
theorem oneJournaled_unwritten : ((journalCommit memoryOps
    { (journalCommit homeFails oneJournaled).2 with device := fun _ => [] }).2.device 500#64) = [] := by
  obtain ⟨transaction, hpending⟩ : ∃ transaction, pending oneJournaled = some transaction :=
    Option.isSome_iff_exists.mp (by decide +kernel)
  have hagain := (failedCommit_loses hpending (Fallible.run_of_fst oneJournaled_fails)).2 memoryOps (fun _ => [])
    (journalCommit homeFails oneJournaled).2.kmalloc
  rw [hagain]

/-- The commit fails at the home block, and the transaction is gone. -/
theorem oneJournaled_lost : (journalCommit homeFails oneJournaled).1 = .error .io ∧
    pending (journalCommit homeFails oneJournaled).2 ≠ pending oneJournaled := by
  refine ⟨oneJournaled_fails, fun h => ?_⟩
  have hsome : (pending oneJournaled).isSome = true := by decide +kernel
  rw [← h, journalCommit_pending] at hsome
  cases hsome

end Nafuraito.Ext4.Ext4Filesystem
