import Nafuraito.Library.Bitmap
import Nafuraito.Library.Fallible
import Mathlib.Logic.Function.Basic

/-! The journal of the ext4 driver: collecting a transaction and committing it. -/
namespace Nafuraito.Ext4
open Nafuraito.Library

inductive Ext4Error where
  | success
  | invalidMagic
  | io
  | noMem
  | notFound
  | invalid
  | journal
  | noSpace
  | permission
  deriving DecidableEq, Repr

def JBD2_MAGIC_NUMBER : BitVec 32 := 0xC03B3998#32
def JBD2_DESCRIPTOR_BLOCK : BitVec 32 := 1#32
def JBD2_COMMIT_BLOCK : BitVec 32 := 2#32

structure Jbd2Header where
  magic : BitVec 32
  blocktype : BitVec 32
  sequence : BitVec 32

/-- The low byte first. -/
def u32Bytes (x : BitVec 32) : List Byte := (List.range 4).map fun k => (x >>> (8*k)).setWidth 8

def Jbd2Header.bytes (h : Jbd2Header) : List Byte := u32Bytes h.magic ++ u32Bytes h.blocktype ++ u32Bytes h.sequence

/-- The fields of the journal's superblock that `Journal::new` reads. -/
structure Jbd2Superblock where
  maxlen : BitVec 32
  sequence : BitVec 32
  start : BitVec 32

/-- The callbacks of a block device whose own state is a `D`. -/
structure Ext4BlockOps (D : Type) where
  readBlock : Option (BitVec 64 → Nat → Fallible D Ext4Error (List Byte))
  writeBlock : Option (BitVec 64 → List Byte → Fallible D Ext4Error Unit)
  sync : Option (Fallible D Ext4Error Unit)

/-- The blocks of a transaction and, at the same places, their data. -/
structure Transaction where
  tid : BitVec 32
  blocks : List (BitVec 64)
  data : List (List Byte)
  same_length : blocks.length = data.length

namespace Transaction

def new (tid : BitVec 32) : Transaction := ⟨tid, [], [], rfl⟩

def addBlock (t : Transaction) (block : BitVec 64) (data : List Byte) : Transaction where
  tid := t.tid
  blocks := t.blocks ++ [block]
  data := t.data ++ [data]
  same_length := by rw [List.length_append, List.length_append, t.same_length]; rfl

end Transaction

structure Journal where
  journalStart : BitVec 64
  journalLength : BitVec 32
  currentSequence : BitVec 32
  head : BitVec 32
  tail : BitVec 32
  running : Bool
  currentTransaction : Option Transaction

namespace Journal

def new (superblock : Jbd2Superblock) (journalStart : BitVec 64) : Journal where
  journalStart := journalStart
  journalLength := superblock.maxlen
  currentSequence := superblock.sequence
  head := superblock.start
  tail := superblock.start
  running := true
  currentTransaction := none

/-- The sequence number wraps. -/
def startTransaction (j : Journal) : Journal := match j.currentTransaction with
  | some _ => j
  | none => { j with
      currentSequence := j.currentSequence + 1#32
      currentTransaction := some (.new j.currentSequence) }

def addBlock (j : Journal) (block : BitVec 64) (data : List Byte) : Journal :=
  let j := j.startTransaction
  { j with currentTransaction := j.currentTransaction.map fun t => t.addBlock block data }

end Journal

/-- The mounted filesystem, as far as the journal goes. `kmalloc` tells which of the
allocations to come succeed. -/
structure Ext4Filesystem (D : Type) where
  device : D
  journal : Option Journal
  blockSize : BitVec 32
  readonly : Bool
  kmalloc : Nat → Bool

namespace Ext4Filesystem
variable {D : Type}

abbrev Op (D α : Type) := Fallible (Ext4Filesystem D) Ext4Error α

/-- Zeroed memory; `None` is turned into `NoMem` by every caller. -/
def kernelAllocBytes (size : Nat) : Op D (List Byte) := fun fs =>
  if size = 0 then (.error .noMem, fs)
  else if fs.kmalloc 0 then (.ok (List.replicate size 0), { fs with kmalloc := fun n => fs.kmalloc (n+1) })
  else (.error .noMem, { fs with kmalloc := fun n => fs.kmalloc (n+1) })

variable (ops : Ext4BlockOps D)

def onDevice {α : Type} (x : Fallible D Ext4Error α) : Op D α :=
  Fallible.zoom (fun fs => fs.device) (fun d fs => { fs with device := d }) x

def readBlock (block : BitVec 64) (len : Nat) : Op D (List Byte) := match ops.readBlock with
  | some readFn => onDevice (readFn block len)
  | none => Fallible.throw .invalid

def writeBlock (block : BitVec 64) (buffer : List Byte) : Op D Unit := fun fs =>
  if fs.readonly then (.error .permission, fs)
  else match ops.writeBlock with
    | some writeFn => onDevice (writeFn block buffer) fs
    | none => (.error .invalid, fs)

/-- `data_copy` is the zeroed memory; nothing copies `data` there. -/
def writeBlockJournaled (block : BitVec 64) (data : List Byte) : Op D Unit := fun fs => match fs.journal with
  | some journal =>
    if journal.running then
      (kernelAllocBytes data.length >>= fun dataCopy =>
        Fallible.modify fun fs => { fs with journal := some (journal.addBlock block dataCopy) }) fs
    else writeBlock ops block data fs
  | none => writeBlock ops block data fs

/-- A block that starts with a header. -/
def headerBlock (blocktype tid : BitVec 32) : Op D (List Byte) := fun fs =>
  (kernelAllocBytes fs.blockSize.toNat >>= fun buffer =>
    let header := (Jbd2Header.mk JBD2_MAGIC_NUMBER blocktype tid).bytes
    pure (header ++ buffer.drop header.length)) fs

/-- The data blocks, from one place in the journal on; returns the place after them. -/
def writeData (journalStart journalLength : BitVec 64) : List (List Byte) → BitVec 64 → Op D (BitVec 64)
  | [], journalBlock => pure journalBlock
  | data :: rest, journalBlock => do
    writeBlock ops (journalStart + journalBlock) data
    let journalBlock := journalBlock + 1
    writeData journalStart journalLength rest (if journalBlock ≥ journalLength then 1 else journalBlock)

def writeHome : List (BitVec 64 × List Byte) → Op D Unit
  | [] => pure ()
  | (block, data) :: rest => do
    writeBlock ops block data
    writeHome rest

def syncDevice : Op D Unit := match ops.sync with
  | some syncFn => onDevice syncFn
  | none => pure ()

/-- The place is not wrapped after the descriptor, nor is the new head. -/
def commitTransaction (journal : Journal) (trans : Transaction) : Op D Unit := do
  let descriptor ← headerBlock JBD2_DESCRIPTOR_BLOCK trans.tid
  writeBlock ops (journal.journalStart + journal.head.setWidth 64) descriptor
  let journalBlock ← writeData ops journal.journalStart (journal.journalLength.setWidth 64) trans.data
    (journal.head.setWidth 64 + 1)
  let commit ← headerBlock JBD2_COMMIT_BLOCK trans.tid
  writeBlock ops (journal.journalStart + journalBlock) commit
  writeHome ops (trans.blocks.zip trans.data)
  syncDevice ops
  Fallible.modify fun fs => { fs with
    journal := fs.journal.map fun j => { j with head := journalBlock.setWidth 32 + 1 } }

/-- The transaction is taken out of the journal first, also when the commit then fails. -/
def journalCommit : Op D Unit := fun fs => match fs.journal with
  | none => (.ok (), fs)
  | some journal => match journal.currentTransaction with
    | none => (.ok (), fs)
    | some transaction => commitTransaction ops journal transaction
        { fs with journal := some { journal with currentTransaction := none } }

end Ext4Filesystem
end Nafuraito.Ext4
