import Nafuraito.Ext4.CommitWrites
import Mathlib.Data.Nat.ModEq

/-! Where in the journal the commits of a run write. -/
namespace Nafuraito.Ext4.Ext4Filesystem
open Nafuraito.Library

/-! ### The places of one commit -/

/-- A place and those after it. -/
def places (journalLength : BitVec 64) : Nat → BitVec 64 → List (BitVec 64)
  | 0, _ => []
  | n+1, place => place :: places journalLength n (nextPlace journalLength place)

private theorem dataWrites_places (journalStart journalLength : BitVec 64) (data : List (List Byte))
    (place : BitVec 64) : (dataWrites journalStart journalLength data place).map Prod.fst ++
      [journalStart + placeAfter journalLength data place] =
        (places journalLength (data.length+1) place).map fun p => journalStart + p := by
  induction data generalizing place with
  | nil => rfl
  | cons first rest ih =>
    rw [dataWrites, placeAfter, List.map_cons, List.cons_append, ih]
    rfl

theorem journalWrites_places (blockSize : BitVec 32) (journal : Journal) (trans : Transaction) :
    (journalWrites blockSize journal trans).map Prod.fst =
      (journal.head.setWidth 64 :: places (journal.journalLength.setWidth 64) (trans.data.length+1)
        (journal.head.setWidth 64 + 1)).map fun p => journal.journalStart + p := by
  rw [journalWrites, List.cons_append, List.map_cons, List.map_append, List.map_cons, List.map_nil,
    dataWrites_places, List.map_cons]

section Ring
variable {journalLength place : BitVec 64}

private theorem nextPlace_toNat (h₁ : 1 ≤ place.toNat) (h₂ : place.toNat < journalLength.toNat) :
    (nextPlace journalLength place).toNat = 1 + place.toNat % (journalLength.toNat - 1) := by
  have hlt := journalLength.isLt
  have hsucc : (place + 1).toNat = place.toNat + 1 := by
    rw [BitVec.toNat_add, show (1 : BitVec 64).toNat = 1 from rfl, Nat.mod_eq_of_lt (by omega)]
  have hge : place + 1 ≥ journalLength ↔ journalLength.toNat ≤ place.toNat + 1 := by
    rw [ge_iff_le, BitVec.le_def, hsucc]
  rw [nextPlace]
  split <;> rename_i h <;> rw [hge] at h
  · rw [show place.toNat = journalLength.toNat - 1 by omega, Nat.mod_self]
    rfl
  · rw [hsucc, Nat.mod_eq_of_lt (by omega), Nat.add_comm]

/-- From a place inside the journal the places go round its blocks but the first. -/
theorem places_toNat (n : Nat) (h₁ : 1 ≤ place.toNat) (h₂ : place.toNat < journalLength.toNat) :
    (places journalLength n place).map BitVec.toNat =
      (List.range n).map fun i => 1 + (place.toNat - 1 + i) % (journalLength.toNat - 1) := by
  induction n generalizing place with
  | zero => rfl
  | succ n ih =>
    have hnext := nextPlace_toNat h₁ h₂
    have hlt : place.toNat % (journalLength.toNat - 1) < journalLength.toNat - 1 := Nat.mod_lt _ (by omega)
    rw [places, List.map_cons, ih (by omega) (by omega), List.range_succ_eq_map, List.map_cons, List.map_map]
    congr 1
    · rw [Nat.add_zero, Nat.mod_eq_of_lt (by omega)]
      omega
    · apply List.map_congr_left
      intro i _
      rw [hnext, Nat.add_sub_cancel_left, Nat.mod_add_mod, Function.comp_apply,
        show place.toNat + i = place.toNat - 1 + (i+1) by omega]

/-- As many places as the ring has are different and lie in the journal, off its first block. -/
theorem places_ring {n : Nat} (hn : n + 1 ≤ journalLength.toNat) (h₁ : 1 ≤ place.toNat)
    (h₂ : place.toNat < journalLength.toNat) : (places journalLength n place).Nodup ∧
      ∀ p ∈ places journalLength n place, 1 ≤ p.toNat ∧ p.toNat < journalLength.toNat := by
  have hring := places_toNat n h₁ h₂
  constructor
  · apply List.Nodup.of_map BitVec.toNat
    rw [hring]
    refine List.nodup_range.map_on fun i hi j hj he => ?_
    rw [List.mem_range] at hi hj
    have hmod : place.toNat - 1 + i ≡ place.toNat - 1 + j [MOD journalLength.toNat - 1] := Nat.add_left_cancel he
    exact (Nat.ModEq.add_left_cancel' _ hmod).eq_of_lt_of_lt (by omega) (by omega)
  · intro p hp
    have hmem := List.mem_map_of_mem (f := BitVec.toNat) hp
    rw [hring] at hmem
    obtain ⟨i, _, hi⟩ := List.mem_map.mp hmem
    have := Nat.mod_lt (place.toNat - 1 + i) (show 0 < journalLength.toNat - 1 by omega)
    omega

end Ring

/-! ### The commits of a run -/

inductive JournalAction where
  | write (block : BitVec 64) (data : List Byte)
  | commit

/-- One commit: the head it started from, its transaction, what it sent and what it returned. -/
structure CommitRecord where
  head : BitVec 32
  trans : Transaction
  sent : WriteLog
  result : Except Ext4Error Unit

namespace CommitRecord

/-- The descriptor, data and commit blocks that were sent. -/
def journalPart (c : CommitRecord) : WriteLog := c.sent.take (c.trans.data.length + 2)

/-- Descriptor, data and commit block have room after the superblock. -/
def Fits (maxlen : BitVec 32) (c : CommitRecord) : Prop := c.trans.data.length + 2 ≤ maxlen.toNat - 1

/-- The head and the place after it lie in the journal. -/
def HeadInside (maxlen : BitVec 32) (c : CommitRecord) : Prop := 1 ≤ c.head.toNat ∧ c.head.toNat + 1 < maxlen.toNat

/-- Every journal block sent has an index in `[1, maxlen)`, and no two have the same. -/
def PlacesOk (journalStart : BitVec 64) (maxlen : BitVec 32) (c : CommitRecord) : Prop :=
  (∀ w ∈ c.journalPart, ∃ i, 1 ≤ i ∧ i < maxlen.toNat ∧ w.1 = journalStart + BitVec.ofNat 64 i) ∧
    (c.journalPart.map Prod.fst).Nodup

end CommitRecord

private theorem places_length (journalLength : BitVec 64) (n : Nat) (place : BitVec 64) :
    (places journalLength n place).length = n := by
  induction n generalizing place with
  | zero => rfl
  | succ n ih => rw [places, List.length_cons, ih]

theorem journalWrites_length (blockSize : BitVec 32) (journal : Journal) (trans : Transaction) :
    (journalWrites blockSize journal trans).length = trans.data.length + 2 := by
  have h := congrArg List.length (journalWrites_places blockSize journal trans)
  rwa [List.length_map, List.length_map, List.length_cons, places_length] at h

/-- What a commit sends first is the first part of its journal writes, all of it when the commit
returns `Ok`. -/
private theorem journalPart_prefix {c : CommitRecord} {blockSize : BitVec 32} {journal : Journal}
    (hsent : c.sent <+: commitWrites blockSize journal c.trans) :
    c.journalPart <+: journalWrites blockSize journal c.trans := by
  have h := hsent.take (c.trans.data.length + 2)
  rwa [commitWrites, List.take_append_of_le_length (journalWrites_length _ _ _).ge,
    List.take_of_length_le (journalWrites_length _ _ _).le] at h

private theorem ofNat_toNat_add {start : BitVec 64} {head : BitVec 32} {i : Nat} (hi : i < 2^32) {k : Nat}
    (hk : k < 2) (he : start + (head.setWidth 64 + BitVec.ofNat 64 k) = start + BitVec.ofNat 64 i) :
    head.toNat + k = i := by
  have h := congrArg BitVec.toNat ((BitVec.add_right_inj start).mp he)
  have := head.isLt
  rw [BitVec.toNat_add, BitVec.toNat_setWidth, BitVec.toNat_ofNat, BitVec.toNat_ofNat] at h
  omega

private theorem setWidth_toNat (x : BitVec 32) : (x.setWidth 64).toNat = x.toNat := by
  have := x.isLt
  rw [BitVec.toNat_setWidth]
  omega

/-- A commit from a head inside the journal keeps to its places. -/
theorem CommitRecord.placesOk_of_headInside {c : CommitRecord} {blockSize : BitVec 32} {journal : Journal}
    (hhead : c.head = journal.head) (hsent : c.sent <+: commitWrites blockSize journal c.trans)
    (hfits : c.Fits journal.journalLength) (hinside : c.HeadInside journal.journalLength) :
    c.PlacesOk journal.journalStart journal.journalLength := by
  obtain ⟨h₁, h₂⟩ := hinside
  rw [hhead] at h₁ h₂
  rw [CommitRecord.Fits] at hfits
  have hpre := journalPart_prefix hsent
  have hlen := setWidth_toNat journal.journalLength
  have hplace := setWidth_toNat journal.head
  have hnext : nextPlace (journal.journalLength.setWidth 64) (journal.head.setWidth 64) =
      journal.head.setWidth 64 + 1 := by
    rw [nextPlace, if_neg]
    rw [ge_iff_le, BitVec.le_def, hlen, BitVec.toNat_add, hplace]
    change ¬ _ ≤ (_ + 1) % _
    have := journal.head.isLt
    omega
  have hring : journal.head.setWidth 64 :: places (journal.journalLength.setWidth 64) (c.trans.data.length+1)
      (journal.head.setWidth 64 + 1) = places (journal.journalLength.setWidth 64) (c.trans.data.length+2)
        (journal.head.setWidth 64) := by
    rw [← hnext]
    rfl
  have hmap := journalWrites_places blockSize journal c.trans
  rw [hring] at hmap
  obtain ⟨hnodup, hplaces⟩ := places_ring (n := c.trans.data.length+2)
    (show c.trans.data.length + 2 + 1 ≤ (journal.journalLength.setWidth 64).toNat by omega)
    (show 1 ≤ (journal.head.setWidth 64).toNat by omega) (by omega)
  constructor
  · intro w hw
    have hmem := List.mem_map_of_mem (f := Prod.fst) (hpre.subset hw)
    rw [hmap] at hmem
    obtain ⟨place, hin, he⟩ := List.mem_map.mp hmem
    obtain ⟨h₃, h₄⟩ := hplaces place hin
    exact ⟨place.toNat, h₃, by omega, by rw [BitVec.ofNat_toNat, BitVec.setWidth_eq, he]⟩
  · refine List.Nodup.sublist (hpre.map Prod.fst).sublist ?_
    rw [hmap]
    exact hnodup.map fun p q h => (BitVec.add_right_inj journal.journalStart).mp h

/-- A commit that sends everything keeps to its places from no other head. -/
theorem CommitRecord.headInside_of_placesOk {c : CommitRecord} {blockSize : BitVec 32} {journal : Journal}
    (hhead : c.head = journal.head) (hall : c.sent = commitWrites blockSize journal c.trans)
    (hok : c.PlacesOk journal.journalStart journal.journalLength) : c.HeadInside journal.journalLength := by
  have hlen := journal.journalLength.isLt
  have hmap := journalWrites_places blockSize journal c.trans
  have hpart : c.journalPart = journalWrites blockSize journal c.trans := by
    rw [CommitRecord.journalPart, hall, commitWrites, List.take_append_of_le_length (journalWrites_length _ _ _).ge,
      List.take_of_length_le (journalWrites_length _ _ _).le]
  -- the descriptor and the block after it
  have hblock (k : Nat) (hk : k < 2)
      (hmem : journal.head.setWidth 64 + BitVec.ofNat 64 k ∈ journal.head.setWidth 64 ::
        places (journal.journalLength.setWidth 64) (c.trans.data.length+1) (journal.head.setWidth 64 + 1)) :
      ∃ i, 1 ≤ i ∧ i < journal.journalLength.toNat ∧ journal.head.toNat + k = i := by
    have hw := List.mem_map_of_mem (f := fun p => journal.journalStart + p) hmem
    rw [← hmap, ← hpart] at hw
    obtain ⟨w, hw, he⟩ := List.mem_map.mp hw
    obtain ⟨i, h₁, h₂, hi⟩ := hok.1 w hw
    exact ⟨i, h₁, h₂, ofNat_toNat_add (by omega) hk (he.symm.trans hi)⟩
  obtain ⟨_, h₁, _, h₂⟩ := hblock 0 (by omega) (by rw [BitVec.add_zero]; exact List.mem_cons_self)
  obtain ⟨_, _, h₃, h₄⟩ := hblock 1 (by omega) (List.mem_cons_of_mem _ List.mem_cons_self)
  rw [CommitRecord.HeadInside, hhead]
  omega

section Run
variable {D : Type} (ops : Ext4BlockOps D)

/-- The commits, with a transaction to commit, in the order they were made; the other calls of
the run journal a block. -/
def commits : List JournalAction → Ext4Filesystem (D × WriteLog) → List CommitRecord
  | [], _ => []
  | .write block data :: rest, s => commits rest (writeBlockJournaled (recorded ops) block data s).2
  | .commit :: rest, s =>
    let (result, t) := journalCommit (recorded ops) s
    ((s.journal.bind fun journal => journal.currentTransaction.map fun trans =>
      ⟨journal.head, trans, t.device.2.drop s.device.2.length, result⟩).toList) ++ commits rest t

variable {ops} {s : Ext4Filesystem (D × WriteLog)} {journalStart : BitVec 64} {maxlen : BitVec 32}

/-- The journal's area is the one it was mounted with. -/
def Mounted (journalStart : BitVec 64) (maxlen : BitVec 32) (s : Ext4Filesystem (D × WriteLog)) : Prop :=
  ∃ journal, s.journal = some journal ∧ journal.journalStart = journalStart ∧ journal.journalLength = maxlen

theorem Mounted.write (h : Mounted journalStart maxlen s) (block : BitVec 64) (data : List Byte) :
    Mounted journalStart maxlen (writeBlockJournaled (recorded ops) block data s).2 := by
  obtain ⟨journal, hj, hstart, hlength⟩ := h
  have hadd (copy : List Byte) : (journal.addBlock block copy).journalStart = journalStart ∧
      (journal.addBlock block copy).journalLength = maxlen := by
    rw [Journal.addBlock, Journal.startTransaction]
    split <;> exact ⟨hstart, hlength⟩
  cases hr : journal.running with
  | true =>
    have hrun : writeBlockJournaled (recorded ops) block data s = (_, _) := rfl
    obtain ⟨_, _, ⟨_, hj'⟩ | ⟨_, hj'⟩⟩ := writeBlockJournaled_run hj hr block data hrun
    · exact ⟨_, hj', hadd _⟩
    · exact ⟨journal, hj', hstart, hlength⟩
  | false =>
    obtain ⟨head, hmoved⟩ := (writeBlock_sends ops block data s).journal
    refine ⟨{ journal with head := head journal.head }, ?_, hstart, hlength⟩
    unfold writeBlockJournaled
    simp only [hj, hr, Bool.false_eq_true, if_false]
    rw [hmoved, hj, Option.map_some, hr]

variable (ops) in
/-- What a commit with a transaction sends, and the journal it leaves. -/
theorem Mounted.commit {journal : Journal} {trans : Transaction} (hj : s.journal = some journal)
    (ht : journal.currentTransaction = some trans) :
    (∃ sent, sent <+: commitWrites s.blockSize journal trans ∧
      ((journalCommit (recorded ops) s).1 = .ok () → sent = commitWrites s.blockSize journal trans) ∧
      (journalCommit (recorded ops) s).2.device.2 = s.device.2 ++ sent) ∧
    Mounted journal.journalStart journal.journalLength (journalCommit (recorded ops) s).2 := by
  have hrun : journalCommit (recorded ops) s = commitTransaction (recorded ops) journal trans
      { s with journal := some { journal with currentTransaction := none } } := by
    unfold journalCommit
    simp only [hj, ht]
  obtain ⟨⟨sent, hpre, hall, hlog⟩, ⟨head, hmoved⟩, _⟩ := commitTransaction_sends ops journal trans
    { s with journal := some { journal with currentTransaction := none } }
  rw [hrun]
  exact ⟨⟨sent, hpre, fun hok => hall ⟨(), hok⟩, hlog⟩, _, hmoved, rfl, rfl⟩

/-- In every run from a freshly mounted journal, each commit that fits keeps to indices in
`[1, maxlen)`, each once, if its head and the place after it lie in the journal; a commit that
returns `Ok` does so only then. -/
theorem commits_placesOk (actions : List JournalAction) {superblock : Jbd2Superblock}
    (hj : s.journal = some (.new superblock journalStart)) :
    ∀ c ∈ commits ops actions s, c.Fits superblock.maxlen →
      (c.HeadInside superblock.maxlen → c.PlacesOk journalStart superblock.maxlen) ∧
      (c.result = .ok () → c.PlacesOk journalStart superblock.maxlen → c.HeadInside superblock.maxlen) := by
  have hmounted : Mounted journalStart superblock.maxlen s := ⟨_, hj, rfl, rfl⟩
  clear hj
  induction actions generalizing s with
  | nil => intro c hc; cases hc
  | cons action rest ih =>
    cases action with
    | write block data => exact ih (hmounted.write block data)
    | commit =>
      obtain ⟨journal, hj, hstart, hlength⟩ := hmounted
      intro c hc hfits
      rw [commits, hj] at hc
      cases ht : journal.currentTransaction with
      | none =>
        have hidle : journalCommit (recorded ops) s = (.ok (), s) := by
          unfold journalCommit
          simp only [hj, ht]
        rw [hidle] at hc
        simp only [Option.bind_some, ht, Option.map_none, Option.toList_none, List.nil_append] at hc
        exact ih ⟨journal, hj, hstart, hlength⟩ c hc hfits
      | some trans =>
        obtain ⟨⟨sent, hpre, hall, hlog⟩, hnext⟩ := Mounted.commit ops hj ht
        simp only [Option.bind_some, ht, Option.map_some, Option.toList_some, List.singleton_append,
          List.mem_cons] at hc
        rcases hc with rfl | hc
        · rw [← hstart, ← hlength] at *
          rw [hlog, List.drop_left]
          exact ⟨CommitRecord.placesOk_of_headInside rfl hpre hfits,
            fun hok => CommitRecord.headInside_of_placesOk rfl (hall hok)⟩
        · exact ih (hstart ▸ hlength ▸ hnext) c hc hfits

end Run

/-! ### A device in memory -/

/-- A journal of eight blocks at block 100, mounted with the given `s_start`. -/
def mountedAt (start : BitVec 32) : Ext4Filesystem ((BitVec 64 → List Byte) × WriteLog) where
  device := (fun _ => [], [])
  journal := some (.new ⟨8#32, 1#32, start⟩ 100#64)
  blockSize := 1024#32
  readonly := false
  kmalloc _ := true

/-- Two transactions of one block. -/
def twoCommits : List JournalAction := [.write 500#64 [7#8], .commit, .write 501#64 [8#8], .commit]

theorem commits_placesOk_used : ∃ c ∈ commits memoryOps twoCommits (mountedAt 1#32),
    c.result = .ok () ∧ c.PlacesOk 100#64 8#32 := by
  have hinside : ∃ c ∈ commits memoryOps twoCommits (mountedAt 1#32), c.result = .ok () ∧
      c.trans.data.length + 2 ≤ (8#32).toNat - 1 ∧ 1 ≤ c.head.toNat ∧ c.head.toNat + 1 < (8#32).toNat := by
    decide +kernel
  obtain ⟨c, hc, hresult, hfits, hhead⟩ := hinside
  exact ⟨c, hc, hresult, (commits_placesOk twoCommits (s := mountedAt 1#32) rfl c hc hfits).1 hhead⟩

/-- From a clean journal the first commit writes its descriptor over the journal's superblock. -/
theorem clean_journal_overwritten : ∃ c ∈ commits memoryOps twoCommits (mountedAt 0#32),
    c.Fits 8#32 ∧ c.result = .ok () ∧ ¬ c.PlacesOk 100#64 8#32 := by
  have hsuper : ∃ c ∈ commits memoryOps twoCommits (mountedAt 0#32),
      c.trans.data.length + 2 ≤ (8#32).toNat - 1 ∧ c.result = .ok () ∧ 100#64 ∈ c.journalPart.map Prod.fst := by
    decide +kernel
  obtain ⟨c, hc, hfits, hresult, hmem⟩ := hsuper
  refine ⟨c, hc, hfits, hresult, fun hok => ?_⟩
  obtain ⟨w, hw, he⟩ := List.mem_map.mp hmem
  obtain ⟨i, h₁, h₂, hi⟩ := hok.1 w hw
  have := congrArg BitVec.toNat (he.symm.trans hi)
  rw [BitVec.toNat_add, BitVec.toNat_ofNat, BitVec.toNat_ofNat] at this
  change i < 8 at h₂
  omega

end Nafuraito.Ext4.Ext4Filesystem
