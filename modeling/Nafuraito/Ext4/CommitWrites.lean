import Nafuraito.Ext4.JournalCommit
import Mathlib.Data.List.Nodup

/-! The writes a commit sends to the device, on any device, and where in the journal they go. -/
namespace Nafuraito.Ext4.Ext4Filesystem
open Nafuraito.Library

/-- The writes sent to a device, the first one first. -/
abbrev WriteLog := List (BitVec 64 × List Byte)

/-- A device that keeps the writes it was asked for, also those it fails. -/
def recorded {D : Type} (ops : Ext4BlockOps D) : Ext4BlockOps (D × WriteLog) where
  readBlock := ops.readBlock.map fun readFn block len =>
    Fallible.zoom Prod.fst (fun d p => (d, p.2)) (readFn block len)
  writeBlock := ops.writeBlock.map fun writeFn block buffer p =>
    ((writeFn block buffer p.1).1, ((writeFn block buffer p.1).2, p.2 ++ [(block, buffer)]))
  sync := ops.sync.map fun syncFn => Fallible.zoom Prod.fst (fun d p => (d, p.2)) syncFn

/-! ### The list of writes -/

def nextPlace (journalLength place : BitVec 64) : BitVec 64 :=
  if place + 1 ≥ journalLength then 1 else place + 1

def dataWrites (journalStart journalLength : BitVec 64) : List (List Byte) → BitVec 64 → WriteLog
  | [], _ => []
  | data :: rest, place =>
    (journalStart + place, data) :: dataWrites journalStart journalLength rest (nextPlace journalLength place)

def placeAfter (journalLength : BitVec 64) : List (List Byte) → BitVec 64 → BitVec 64
  | [], place => place
  | _ :: rest, place => placeAfter journalLength rest (nextPlace journalLength place)

/-- The descriptor, the data and the commit block. -/
def journalWrites (blockSize : BitVec 32) (journal : Journal) (trans : Transaction) : WriteLog :=
  (journal.journalStart + journal.head.setWidth 64, headerBytes blockSize JBD2_DESCRIPTOR_BLOCK trans.tid) ::
    dataWrites journal.journalStart (journal.journalLength.setWidth 64) trans.data (journal.head.setWidth 64 + 1) ++
    [(journal.journalStart +
        placeAfter (journal.journalLength.setWidth 64) trans.data (journal.head.setWidth 64 + 1),
      headerBytes blockSize JBD2_COMMIT_BLOCK trans.tid)]

/-- The blocks of the transaction with their data. -/
def homeWrites (trans : Transaction) : WriteLog := trans.blocks.zip trans.data

def commitWrites (blockSize : BitVec 32) (journal : Journal) (trans : Transaction) : WriteLog :=
  journalWrites blockSize journal trans ++ homeWrites trans

/-! ### What a run sends -/

section Sends
variable {D α β : Type} (ops : Ext4BlockOps D) {s t u : Ext4Filesystem (D × WriteLog)}

/-- The journals differ in their heads at most. -/
def HeadMoved (j j' : Option Journal) : Prop :=
  ∃ head : BitVec 32 → BitVec 32, j' = j.map fun journal => { journal with head := head journal.head }

theorem HeadMoved.of_eq {j j' : Option Journal} (h : j' = j) : HeadMoved j j' :=
  ⟨id, by rw [h]; cases j <;> rfl⟩

theorem HeadMoved.trans {j j' j'' : Option Journal} (h : HeadMoved j j') (h' : HeadMoved j' j'') : HeadMoved j j'' := by
  obtain ⟨head, rfl⟩ := h
  obtain ⟨head', rfl⟩ := h'
  exact ⟨head' ∘ head, by rw [Option.map_map]; rfl⟩

/-- From `s`, the run sends the writes to the device, all of them if it returns a value and the
first few if it fails; it leaves the journal alone but for the head. -/
structure Sends (ws : WriteLog) (s : Ext4Filesystem (D × WriteLog))
    (run : Except Ext4Error α × Ext4Filesystem (D × WriteLog)) : Prop where
  log : ∃ sent, sent <+: ws ∧ ((∃ a, run.1 = .ok a) → sent = ws) ∧ run.2.device.2 = s.device.2 ++ sent
  journal : HeadMoved s.journal run.2.journal
  blockSize : run.2.blockSize = s.blockSize

theorem Sends.nothing {run : Except Ext4Error α × Ext4Filesystem (D × WriteLog)}
    (hd : run.2.device.2 = s.device.2) (hj : run.2.journal = s.journal) (hb : run.2.blockSize = s.blockSize) :
    Sends [] s run :=
  ⟨⟨[], List.nil_prefix, fun _ => rfl, by rw [hd, List.append_nil]⟩, .of_eq hj, hb⟩

theorem Sends.fails {ws : WriteLog} {e : Ext4Error} {t : Ext4Filesystem (D × WriteLog)}
    (hd : t.device.2 = s.device.2) (hj : t.journal = s.journal) (hb : t.blockSize = s.blockSize) :
    Sends ws s ((.error e, t) : Except Ext4Error α × Ext4Filesystem (D × WriteLog)) :=
  ⟨⟨[], List.nil_prefix, (by rintro ⟨_, h⟩; cases h), by rw [hd, List.append_nil]⟩, .of_eq hj, hb⟩

/-- The second half starts where the first one returned a value. -/
theorem Sends.bind {ws ws' : WriteLog} {x : Op (D × WriteLog) α} {f : α → Op (D × WriteLog) β}
    (hx : Sends ws s (x s)) (hf : ∀ a t, x s = (.ok a, t) → t.blockSize = s.blockSize → Sends ws' t (f a t)) :
    Sends (ws ++ ws') s ((x >>= f) s) := by
  obtain ⟨⟨sent, hpre, hall, hlog⟩, hj, hb⟩ := hx
  rw [Fallible.bind_run]
  cases hrun : x s with
  | mk r t =>
    rw [hrun] at hall hlog hj hb
    cases r with
    | error e =>
      exact ⟨⟨sent, hpre.trans (List.prefix_append ws ws'), (by rintro ⟨_, h⟩; cases h), hlog⟩, hj, hb⟩
    | ok a =>
      obtain ⟨⟨sent', hpre', hall', hlog'⟩, hj', hb'⟩ := hf a t hrun hb
      obtain rfl := hall ⟨a, rfl⟩
      refine ⟨⟨sent ++ sent', (List.prefix_append_right_inj sent).mpr hpre', fun h => by rw [hall' h], ?_⟩,
        hj.trans hj', hb'.trans hb⟩
      rw [← List.append_assoc, ← hlog]
      exact hlog'

theorem headerBlock_sends (blocktype tid : BitVec 32) (s : Ext4Filesystem (D × WriteLog)) :
    Sends [] s (headerBlock blocktype tid s) ∧ ∀ buffer t, headerBlock blocktype tid s = (.ok buffer, t) →
      buffer = headerBytes s.blockSize blocktype tid := by
  refine ⟨?_, fun buffer t hok => (headerBlock_ok (fun (_ : D × WriteLog) _ => []) hok).1⟩
  rw [headerBlock]
  obtain ⟨later, he | he⟩ := kernelAllocBytes_run s.blockSize.toNat s
  · rw [Fallible.bind_of_ok he]
    exact .nothing rfl rfl rfl
  · rw [Fallible.bind_of_error he]
    exact .nothing rfl rfl rfl

theorem writeBlock_sends (block : BitVec 64) (buffer : List Byte) (s : Ext4Filesystem (D × WriteLog)) :
    Sends [(block, buffer)] s (writeBlock (recorded ops) block buffer s) := by
  rw [writeBlock]
  split
  · exact .fails rfl rfl rfl
  · cases hw : ops.writeBlock with
    | none =>
      simp only [recorded, hw]
      exact .fails rfl rfl rfl
    | some writeFn =>
      simp only [recorded, hw]
      exact ⟨⟨_, List.prefix_refl _, fun _ => rfl, rfl⟩, .of_eq rfl, rfl⟩

theorem writeData_sends (journalStart journalLength : BitVec 64) (data : List (List Byte)) (place : BitVec 64)
    (s : Ext4Filesystem (D × WriteLog)) :
    Sends (dataWrites journalStart journalLength data place) s
        (writeData (recorded ops) journalStart journalLength data place s) ∧
      ∀ place' t, writeData (recorded ops) journalStart journalLength data place s = (.ok place', t) →
        place' = placeAfter journalLength data place := by
  induction data generalizing place s with
  | nil =>
    refine ⟨.nothing rfl rfl rfl, fun place' t hok => ?_⟩
    exact (Except.ok.inj (Prod.mk.inj hok).1).symm
  | cons first rest ih =>
    rw [writeData]
    refine ⟨(writeBlock_sends ops (journalStart + place) first s).bind fun _ t _ _ => (ih _ t).1,
      fun place' t hok => ?_⟩
    obtain ⟨_, u, _, hrest⟩ := Fallible.bind_ok hok
    exact (ih _ u).2 place' t hrest

theorem writeHome_sends (ws : WriteLog) (s : Ext4Filesystem (D × WriteLog)) :
    Sends ws s (writeHome (recorded ops) ws s) := by
  induction ws generalizing s with
  | nil => exact .nothing rfl rfl rfl
  | cons w ws ih =>
    rw [writeHome]
    exact (writeBlock_sends ops w.1 w.2 s).bind fun _ t _ _ => ih t

theorem syncDevice_sends (s : Ext4Filesystem (D × WriteLog)) : Sends [] s (syncDevice (recorded ops) s) := by
  rw [syncDevice]
  cases hs : ops.sync with
  | none =>
    simp only [recorded, hs, Option.map_none]
    exact .nothing rfl rfl rfl
  | some syncFn =>
    simp only [recorded, hs, Option.map_some]
    exact .nothing rfl rfl rfl

theorem commitTransaction_sends (journal : Journal) (trans : Transaction) (s : Ext4Filesystem (D × WriteLog)) :
    Sends (commitWrites s.blockSize journal trans) s (commitTransaction (recorded ops) journal trans s) := by
  have hsplit : commitWrites s.blockSize journal trans =
      [] ++ ([(journal.journalStart + journal.head.setWidth 64,
          headerBytes s.blockSize JBD2_DESCRIPTOR_BLOCK trans.tid)] ++
        (dataWrites journal.journalStart (journal.journalLength.setWidth 64) trans.data
          (journal.head.setWidth 64 + 1) ++ ([] ++ ([(journal.journalStart +
          placeAfter (journal.journalLength.setWidth 64) trans.data (journal.head.setWidth 64 + 1),
            headerBytes s.blockSize JBD2_COMMIT_BLOCK trans.tid)] ++ (homeWrites trans ++ ([] ++ [])))))) := by
    simp [commitWrites, journalWrites]
  rw [commitTransaction, hsplit]
  refine (headerBlock_sends _ _ s).1.bind fun descriptor s₁ h₁ b₁ => ?_
  rw [← (headerBlock_sends _ _ s).2 _ _ h₁]
  refine (writeBlock_sends ops _ _ s₁).bind fun _ s₂ _ b₂ => ?_
  refine (writeData_sends ops _ _ _ _ s₂).1.bind fun place s₃ h₃ b₃ => ?_
  rw [← (writeData_sends ops _ _ _ _ s₂).2 _ _ h₃]
  refine (headerBlock_sends _ _ s₃).1.bind fun commit s₄ h₄ _ => ?_
  rw [← b₁, ← b₂, ← b₃, ← (headerBlock_sends _ _ s₃).2 _ _ h₄]
  refine (writeBlock_sends ops _ _ s₄).bind fun _ s₅ _ _ => ?_
  refine (writeHome_sends ops _ s₅).bind fun _ s₆ _ _ => ?_
  refine (syncDevice_sends ops s₆).bind fun _ s₇ _ _ => ?_
  exact ⟨⟨[], List.nil_prefix, fun _ => rfl, by rw [List.append_nil]; rfl⟩, ⟨fun _ => _, rfl⟩, rfl⟩

end Sends
end Nafuraito.Ext4.Ext4Filesystem
