import Nafuraito.Ext4.Journal
import Nafuraito.Library.Writes

/-! What a committed transaction leaves on the device. The data that was journaled is not
copied, so the home blocks become zero, and the first places after the head are not wrapped. -/
namespace Nafuraito.Ext4.Ext4Filesystem
open Nafuraito.Library
variable {D : Type} {ops : Ext4BlockOps D} {content : D → BitVec 64 → List Byte} {s t u : Ext4Filesystem D}

/-- A device whose reads and writes all succeed, seen as the bytes last written to each block. -/
structure Reliable (ops : Ext4BlockOps D) (content : D → BitVec 64 → List Byte) : Prop where
  read : ∃ readFn, ops.readBlock = some readFn ∧ ∀ block len d,
    readFn block len d = (.ok ((content d block).take len), d)
  write : ∃ writeFn, ops.writeBlock = some writeFn ∧ ∀ block buffer d, (writeFn block buffer d).1 = .ok () ∧
    content (writeFn block buffer d).2 = Function.update (content d) block buffer
  sync : ∀ syncFn, ops.sync = some syncFn → ∀ d, content (syncFn d).2 = content d

/-- From `s` to `t` the device took the writes and the journal stayed as it was. -/
structure Wrote (content : D → BitVec 64 → List Byte) (ws : List (BitVec 64 × List Byte))
    (s t : Ext4Filesystem D) : Prop where
  content : content t.device = applyWrites (content s.device) ws
  journal : t.journal = s.journal
  blockSize : t.blockSize = s.blockSize

theorem Wrote.refl : Wrote content [] s s := ⟨rfl, rfl, rfl⟩

theorem Wrote.trans {ws ws' : List (BitVec 64 × List Byte)} (h : Wrote content ws s t) (h' : Wrote content ws' t u) :
    Wrote content (ws ++ ws') s u :=
  ⟨by rw [h'.content, h.content, applyWrites_append], h'.journal.trans h.journal, h'.blockSize.trans h.blockSize⟩

/-! ### The steps of a commit that returns `Ok` -/

theorem Reliable.readBlock_run (h : Reliable ops content) (block : BitVec 64) (len : Nat) :
    readBlock ops block len s = (.ok ((content s.device block).take len), s) := by
  obtain ⟨readFn, hr, hrun⟩ := h.read
  rw [readBlock, hr]
  dsimp only
  rw [onDevice, Fallible.zoom, hrun]

theorem Reliable.writeBlock_ok (h : Reliable ops content) {block : BitVec 64} {buffer : List Byte}
    (hok : writeBlock ops block buffer s = (.ok (), t)) : Wrote content [(block, buffer)] s t := by
  obtain ⟨writeFn, hw, hrun⟩ := h.write
  rw [writeBlock, hw] at hok
  split at hok
  · cases hok
  · obtain ⟨_, rfl⟩ := Prod.mk.inj hok
    exact ⟨(hrun block buffer s.device).2, rfl, rfl⟩

/-- An allocation gives zeros or fails, and uses up one answer of `kmalloc` at most. -/
theorem kernelAllocBytes_run (size : Nat) (s : Ext4Filesystem D) :
    ∃ later, kernelAllocBytes size s = (.ok (List.replicate size 0), { s with kmalloc := later }) ∨
      kernelAllocBytes size s = (.error .noMem, { s with kmalloc := later }) := by
  rw [kernelAllocBytes]
  split
  · exact ⟨s.kmalloc, .inr rfl⟩
  · split
    · exact ⟨_, .inl rfl⟩
    · exact ⟨_, .inr rfl⟩

/-- The header followed by zeros. -/
def headerBytes (blockSize : BitVec 32) (blocktype tid : BitVec 32) : List Byte :=
  let header := (Jbd2Header.mk JBD2_MAGIC_NUMBER blocktype tid).bytes
  header ++ (List.replicate blockSize.toNat 0).drop header.length

variable (content) in
theorem headerBlock_ok {blocktype tid : BitVec 32} {buffer : List Byte}
    (hok : headerBlock blocktype tid s = (.ok buffer, t)) :
    buffer = headerBytes s.blockSize blocktype tid ∧ Wrote content [] s t := by
  obtain ⟨_, u, h₁, h₂⟩ := Fallible.bind_ok hok
  obtain ⟨later, he | he⟩ := kernelAllocBytes_run s.blockSize.toNat s
  · obtain ⟨hb, rfl⟩ := Prod.mk.inj (he.symm.trans h₁)
    obtain ⟨hb', rfl⟩ := Prod.mk.inj h₂
    rw [← Except.ok.inj hb', ← Except.ok.inj hb]
    exact ⟨rfl, rfl, rfl, rfl⟩
  · cases he.symm.trans h₁

/-- The blocks of the journal. -/
def InArea (journal : Journal) (block : BitVec 64) : Prop :=
  ∃ k < journal.journalLength.toNat, block = journal.journalStart + BitVec.ofNat 64 k

/-- The place after any other is one of the journal. -/
theorem inArea_next {journal : Journal} (hlen : 2 ≤ journal.journalLength.toNat) (place : BitVec 64) :
    InArea journal (journal.journalStart +
      (if place + 1 ≥ journal.journalLength.setWidth 64 then 1 else place + 1)) := by
  split
  · exact ⟨1, by omega, rfl⟩
  · rename_i hlt
    rw [ge_iff_le, BitVec.not_le, BitVec.lt_def, BitVec.toNat_setWidth] at hlt
    have := journal.journalLength.isLt
    exact ⟨(place + 1).toNat, by omega, by rw [BitVec.ofNat_toNat, BitVec.setWidth_eq]⟩

/-- The first data block goes to the place it is given, the others and the commit block to
places of the journal. -/
theorem Reliable.writeData_ok (h : Reliable ops content) (journal : Journal) (hlen : 2 ≤ journal.journalLength.toNat)
    (data : List (List Byte)) {place place' : BitVec 64}
    (hok : writeData ops journal.journalStart (journal.journalLength.setWidth 64) data place s = (.ok place', t)) :
    ∃ ws, Wrote content ws s t ∧ match data with
      | [] => ws = [] ∧ place' = place
      | first :: _ => ∃ ws', ws = (journal.journalStart + place, first) :: ws' ∧
          (∀ w ∈ ws', InArea journal w.1) ∧ InArea journal (journal.journalStart + place') := by
  induction data generalizing place s with
  | nil =>
    obtain ⟨hp, rfl⟩ := Prod.mk.inj hok
    exact ⟨[], .refl, rfl, (Except.ok.inj hp).symm⟩
  | cons first rest ih =>
    obtain ⟨_, u, h₁, h₂⟩ := Fallible.bind_ok hok
    obtain ⟨ws, hw, hws⟩ := ih h₂
    have hnext := inArea_next hlen place
    refine ⟨_, (h.writeBlock_ok h₁).trans hw, ws, rfl, ?_⟩
    cases rest with
    | nil =>
      obtain ⟨rfl, rfl⟩ := hws
      exact ⟨by simp, hnext⟩
    | cons second rest =>
      obtain ⟨ws', rfl, harea, hplace⟩ := hws
      refine ⟨fun w hw => ?_, hplace⟩
      rcases List.mem_cons.mp hw with rfl | hw
      · exact hnext
      · exact harea w hw

theorem Reliable.writeHome_ok (h : Reliable ops content) (ws : List (BitVec 64 × List Byte))
    (hok : writeHome ops ws s = (.ok (), t)) : Wrote content ws s t := by
  induction ws generalizing s with
  | nil =>
    obtain ⟨_, rfl⟩ := Prod.mk.inj hok
    exact .refl
  | cons w ws ih =>
    obtain ⟨_, u, h₁, h₂⟩ := Fallible.bind_ok hok
    exact (h.writeBlock_ok h₁).trans (ih h₂)

theorem Reliable.syncDevice_content (h : Reliable ops content) :
    content (syncDevice ops s).2.device = content s.device ∧ (syncDevice ops s).2.blockSize = s.blockSize := by
  rw [syncDevice]
  cases hs : ops.sync with
  | none => exact ⟨rfl, rfl⟩
  | some syncFn => exact ⟨h.sync syncFn hs s.device, rfl⟩

/-- A zeroed block for each block journaled. -/
def zeroed (ws : List (BitVec 64 × List Byte)) : List (BitVec 64 × List Byte) :=
  ws.map fun w => (w.1, List.replicate w.2.length 0)

private theorem lastWrite_zeroed (ws : List (BitVec 64 × List Byte)) (block : BitVec 64) :
    lastWrite (zeroed ws) block = (lastWrite ws block).map fun data => List.replicate data.length 0 :=
  lastWrite_map ws block fun data : List Byte => List.replicate data.length 0

/-- A commit writes the descriptor at the head, the first data block after it, then to places of
the journal, and last to the home blocks. -/
theorem Reliable.commit_ok (h : Reliable ops content) {journal : Journal} {transaction : Transaction}
    (hj : s.journal = some journal) (ht : journal.currentTransaction = some transaction)
    (hlen : 2 ≤ journal.journalLength.toNat) {first : List Byte} {rest : List (List Byte)}
    (hdata : transaction.data = first :: rest) (hok : journalCommit ops s = (.ok (), t)) :
    t.blockSize = s.blockSize ∧ ∃ ws, (∀ w ∈ ws, InArea journal w.1) ∧ content t.device = applyWrites (content s.device)
      ((journal.journalStart + journal.head.setWidth 64,
          headerBytes s.blockSize JBD2_DESCRIPTOR_BLOCK transaction.tid) ::
        (journal.journalStart + (journal.head.setWidth 64 + 1), first) :: ws ++
        transaction.blocks.zip transaction.data) := by
  unfold journalCommit at hok
  simp only [hj, ht] at hok
  obtain ⟨descriptor, s₁, h₁, hok⟩ := Fallible.bind_ok hok
  obtain ⟨_, s₂, h₂, hok⟩ := Fallible.bind_ok hok
  obtain ⟨place, s₃, h₃, hok⟩ := Fallible.bind_ok hok
  obtain ⟨commit, s₄, h₄, hok⟩ := Fallible.bind_ok hok
  obtain ⟨_, s₅, h₅, hok⟩ := Fallible.bind_ok hok
  obtain ⟨_, s₆, h₆, hok⟩ := Fallible.bind_ok hok
  obtain ⟨_, s₇, h₇, hok⟩ := Fallible.bind_ok hok
  obtain ⟨_, rfl⟩ := Prod.mk.inj hok
  obtain ⟨rfl, w₁⟩ := headerBlock_ok content h₁
  obtain ⟨_, w₄⟩ := headerBlock_ok content h₄
  rw [hdata] at h₃
  obtain ⟨_, w₃, ws', rfl, harea, hplace⟩ := h.writeData_ok journal hlen (first :: rest) h₃
  have hsync : content s₇.device = content s₆.device ∧ s₇.blockSize = s₆.blockSize := by
    have := h.syncDevice_content (s := s₆)
    rwa [h₇] at this
  have hall := ((((w₁.trans (h.writeBlock_ok h₂)).trans w₃).trans w₄).trans (h.writeBlock_ok h₅)).trans
    (h.writeHome_ok _ h₆)
  refine ⟨hsync.2.trans hall.blockSize, ws' ++ [(journal.journalStart + place, commit)], fun w hw => ?_, ?_⟩
  · rcases List.mem_append.mp hw with hw | hw
    · exact harea w hw
    · rwa [List.mem_singleton.mp hw]
  · change content s₇.device = _
    rw [hsync.1, hall.content]
    simp only [List.nil_append, List.append_nil, List.append_assoc, List.cons_append]

/-! ### Journaling -/

/-- The calls in turn, and those that returned `Ok`. -/
def journalAll (ops : Ext4BlockOps D) : List (BitVec 64 × List Byte) → Ext4Filesystem D →
    List (BitVec 64 × List Byte) × Ext4Filesystem D
  | [], s => ([], s)
  | call :: calls, s => match writeBlockJournaled ops call.1 call.2 s with
    | (.ok _, t) => (call :: (journalAll ops calls t).1, (journalAll ops calls t).2)
    | (.error _, t) => journalAll ops calls t

/-- A call with a running journal adds a zeroed block to the transaction or fails, and leaves
the device alone. -/
theorem writeBlockJournaled_run {journal : Journal} (hj : s.journal = some journal) (hr : journal.running = true)
    (block : BitVec 64) (data : List Byte) {x : Except Ext4Error Unit}
    (hrun : writeBlockJournaled ops block data s = (x, t)) : t.device = s.device ∧ t.blockSize = s.blockSize ∧
      ((x = .ok () ∧ t.journal = some (journal.addBlock block (List.replicate data.length 0))) ∨
        (∃ e, x = .error e) ∧ t.journal = some journal) := by
  unfold writeBlockJournaled at hrun
  simp only [hj, hr, if_true] at hrun
  obtain ⟨later, he | he⟩ := kernelAllocBytes_run data.length s
  · rw [Fallible.bind_of_ok he] at hrun
    obtain ⟨rfl, rfl⟩ := Prod.mk.inj hrun
    exact ⟨rfl, rfl, .inl ⟨rfl, rfl⟩⟩
  · rw [Fallible.bind_of_error he] at hrun
    obtain ⟨rfl, rfl⟩ := Prod.mk.inj hrun
    exact ⟨rfl, rfl, .inr ⟨⟨_, rfl⟩, hj⟩⟩

/-- The journal after blocks were added to it. -/
def addAll (journal : Journal) (ws : List (BitVec 64 × List Byte)) : Journal :=
  ws.foldl (fun j w => j.addBlock w.1 w.2) journal

variable (ops) in
theorem journalAll_run {journal : Journal} (hj : s.journal = some journal) (hr : journal.running = true)
    (calls : List (BitVec 64 × List Byte)) : (journalAll ops calls s).2.device = s.device ∧
      (journalAll ops calls s).2.blockSize = s.blockSize ∧
      (journalAll ops calls s).2.journal = some (addAll journal (zeroed (journalAll ops calls s).1)) := by
  induction calls generalizing s journal with
  | nil => exact ⟨rfl, rfl, hj⟩
  | cons call calls ih =>
    rw [journalAll]
    cases hrun : writeBlockJournaled ops call.1 call.2 s with
    | mk x t =>
      obtain ⟨hd, hb, ⟨rfl, hj'⟩ | ⟨⟨e, rfl⟩, hj'⟩⟩ := writeBlockJournaled_run hj hr call.1 call.2 hrun
      · have hr' : (journal.addBlock call.1 (List.replicate call.2.length 0)).running = true := by
          rw [Journal.addBlock, Journal.startTransaction]
          split <;> exact hr
        obtain ⟨hd', hb', hj''⟩ := ih hj' hr'
        exact ⟨hd'.trans hd, hb'.trans hb, hj''⟩
      · obtain ⟨hd', hb', hj''⟩ := ih hj' hr
        exact ⟨hd'.trans hd, hb'.trans hb, hj''⟩

/-- Adding to a transaction that is there keeps the rest of the journal. -/
private theorem addAll_some {journal : Journal} {transaction : Transaction}
    (ht : journal.currentTransaction = some transaction) (ws : List (BitVec 64 × List Byte)) :
    (addAll journal ws).journalStart = journal.journalStart ∧
      (addAll journal ws).journalLength = journal.journalLength ∧ (addAll journal ws).head = journal.head ∧
      ∃ u, (addAll journal ws).currentTransaction = some u ∧ u.tid = transaction.tid ∧
        u.blocks = transaction.blocks ++ ws.map Prod.fst ∧ u.data = transaction.data ++ ws.map Prod.snd := by
  induction ws generalizing journal transaction with
  | nil => exact ⟨rfl, rfl, rfl, transaction, ht, rfl, by simp, by simp⟩
  | cons w ws ih =>
    have hstart : journal.startTransaction = journal := by
      rw [Journal.startTransaction]
      split
      · rfl
      · rename_i hn
        rw [ht] at hn
        cases hn
    have hadd : (journal.addBlock w.1 w.2).currentTransaction = some (transaction.addBlock w.1 w.2) := by
      rw [Journal.addBlock, hstart]
      simp only [ht, Option.map_some]
    obtain ⟨h₁, h₂, h₃, u, hu, htid, hblocks, hdata⟩ := ih hadd
    have hsame : (journal.addBlock w.1 w.2).journalStart = journal.journalStart ∧
        (journal.addBlock w.1 w.2).journalLength = journal.journalLength ∧
        (journal.addBlock w.1 w.2).head = journal.head := by
      rw [Journal.addBlock, hstart]
      exact ⟨rfl, rfl, rfl⟩
    refine ⟨h₁.trans hsame.1, h₂.trans hsame.2.1, h₃.trans hsame.2.2, u, hu, htid, ?_, ?_⟩
    · rw [hblocks, Transaction.addBlock, List.append_assoc]
      rfl
    · rw [hdata, Transaction.addBlock, List.append_assoc]
      rfl

/-- The first block added starts the transaction. -/
theorem addAll_transaction {journal : Journal} (ht : journal.currentTransaction = none) (w : BitVec 64 × List Byte)
    (ws : List (BitVec 64 × List Byte)) :
    (addAll journal (w :: ws)).journalStart = journal.journalStart ∧
      (addAll journal (w :: ws)).journalLength = journal.journalLength ∧
      (addAll journal (w :: ws)).head = journal.head ∧
      ∃ u, (addAll journal (w :: ws)).currentTransaction = some u ∧ u.tid = journal.currentSequence ∧
        u.blocks = w.1 :: ws.map Prod.fst ∧ u.data = w.2 :: ws.map Prod.snd := by
  have hadd : (journal.addBlock w.1 w.2).journalStart = journal.journalStart ∧
      (journal.addBlock w.1 w.2).journalLength = journal.journalLength ∧
      (journal.addBlock w.1 w.2).head = journal.head ∧ (journal.addBlock w.1 w.2).currentTransaction =
        some ((Transaction.new journal.currentSequence).addBlock w.1 w.2) := by
    rw [Journal.addBlock, Journal.startTransaction]
    split
    · rename_i hs
      rw [ht] at hs
      cases hs
    · exact ⟨rfl, rfl, rfl, rfl⟩
  obtain ⟨h₁, h₂, h₃, u, hu, htid, hblocks, hdata⟩ := addAll_some hadd.2.2.2 ws
  exact ⟨h₁.trans hadd.1, h₂.trans hadd.2.1, h₃.trans hadd.2.2.1, u, hu, htid, hblocks, hdata⟩

/-! ### The commit -/

/-- A block past the end of the journal that the commit writes is journaled itself or holds what
is written. -/
def Spared (content : D → BitVec 64 → List Byte) (s : Ext4Filesystem D) (journal : Journal)
    (journaled : List (BitVec 64 × List Byte)) (block : BitVec 64) (buffer : List Byte) : Prop :=
  InArea journal block ∨ lastWrite journaled block ≠ none ∨ content s.device block = buffer

section Committed
variable (h : Reliable ops content) {journal : Journal} {w : BitVec 64 × List Byte} {ws : List (BitVec 64 × List Byte)}
include h

/-- What a commit of journaled blocks that returns `Ok` writes. -/
theorem Reliable.committed_content (hj : s.journal = some (addAll journal (zeroed (w :: ws))))
    (hnone : journal.currentTransaction = none) (hlen : 2 ≤ journal.journalLength.toNat)
    (hok : journalCommit ops s = (.ok (), t)) :
    t.blockSize = s.blockSize ∧ ∃ inside, (∀ q ∈ inside, InArea journal q.1) ∧
      content t.device = applyWrites (content s.device)
      ((journal.journalStart + journal.head.setWidth 64,
          headerBytes s.blockSize JBD2_DESCRIPTOR_BLOCK journal.currentSequence) ::
        (journal.journalStart + (journal.head.setWidth 64 + 1), List.replicate w.2.length 0) :: inside ++
        zeroed (w :: ws)) := by
  obtain ⟨h₁, h₂, h₃, u, hu, htid, hblocks, hdata⟩ :=
    addAll_transaction hnone (w.1, List.replicate w.2.length 0) (zeroed ws)
  rw [show zeroed (w :: ws) = (w.1, List.replicate w.2.length 0) :: zeroed ws from rfl] at hj
  obtain ⟨hsize, inside, harea, hcontent⟩ := h.commit_ok hj hu (h₂.symm ▸ hlen) hdata hok
  have hzip : u.blocks.zip u.data = zeroed (w :: ws) := by
    rw [hblocks, hdata, List.zip_cons_cons, List.zip_map', List.map_id']
    rfl
  refine ⟨hsize, inside, fun q hq => ?_, ?_⟩
  · obtain ⟨k, hk, he⟩ := harea q hq
    exact ⟨k, by rwa [← h₂], by rwa [← h₁]⟩
  · rw [hcontent, hzip, h₁, h₃, htid]

/-- The home writes come last, so they decide what a journaled block holds. -/
theorem Reliable.committed_home (hj : s.journal = some (addAll journal (zeroed (w :: ws))))
    (hnone : journal.currentTransaction = none) (hlen : 2 ≤ journal.journalLength.toNat)
    (hok : journalCommit ops s = (.ok (), t)) {block : BitVec 64} {data : List Byte}
    (hl : lastWrite (w :: ws) block = some data) : content t.device block = List.replicate data.length 0 := by
  obtain ⟨_, _, _, hcontent⟩ := h.committed_content hj hnone hlen hok
  rw [hcontent, applyWrites_apply, lastWrite_append, lastWrite_zeroed, hl]
  rfl

/-- Of the other blocks outside the journal only the two places after the head can change. -/
theorem Reliable.committed_other (hj : s.journal = some (addAll journal (zeroed (w :: ws))))
    (hnone : journal.currentTransaction = none) (hlen : 2 ≤ journal.journalLength.toNat)
    (hok : journalCommit ops s = (.ok (), t)) {block : BitVec 64} (hout : ¬ InArea journal block)
    (hl : lastWrite (w :: ws) block = none) :
    content t.device block = if journal.journalStart + (journal.head.setWidth 64 + 1) = block then
      List.replicate w.2.length 0 else if journal.journalStart + journal.head.setWidth 64 = block then
      headerBytes s.blockSize JBD2_DESCRIPTOR_BLOCK journal.currentSequence else content s.device block := by
  obtain ⟨_, inside, harea, hcontent⟩ := h.committed_content hj hnone hlen hok
  have hin : lastWrite inside block = none := lastWrite_eq_none.mpr fun q hq he => hout (he ▸ harea q hq)
  rw [hcontent, applyWrites_apply, lastWrite_append, lastWrite_zeroed, hl, lastWrite, lastWrite, hin]
  simp only [Option.map_none, Option.none_or]
  split <;> split <;> rfl

end Committed

/-- The place of the first data block is not that of the descriptor. -/
theorem place_ne (start head : BitVec 64) : start + (head + 1) ≠ start + head := by
  bv_omega

/-- After a commit that returns `Ok` every journaled block holds the last data passed for it and
no other block outside the journal has changed, exactly when that data is zero throughout and the
two places after the head are spared. -/
theorem commit_writes_journaled_iff (h : Reliable ops content) {journal : Journal} (hj : s.journal = some journal)
    (hr : journal.running = true) (hnone : journal.currentTransaction = none) (calls : List (BitVec 64 × List Byte))
    (hfit : (journalAll ops calls s).1.length + 2 ≤ journal.journalLength.toNat)
    (hok : journalCommit ops (journalAll ops calls s).2 = (.ok (), t)) :
    ((∀ block data, lastWrite (journalAll ops calls s).1 block = some data →
        (readBlock ops block data.length t).1 = .ok data) ∧
      ∀ block, ¬ InArea journal block → lastWrite (journalAll ops calls s).1 block = none →
        content t.device block = content s.device block) ↔
      (∀ block data, lastWrite (journalAll ops calls s).1 block = some data → data = List.replicate data.length 0) ∧
      ∀ first ∈ (journalAll ops calls s).1.head?,
        Spared content s journal (journalAll ops calls s).1 (journal.journalStart + journal.head.setWidth 64)
          (headerBytes s.blockSize JBD2_DESCRIPTOR_BLOCK journal.currentSequence) ∧
        Spared content s journal (journalAll ops calls s).1 (journal.journalStart + (journal.head.setWidth 64 + 1))
          (List.replicate first.2.length 0) := by
  cases hws : (journalAll ops calls s).1 with
  | nil =>
    obtain ⟨hd, _, hj'⟩ := journalAll_run ops hj hr calls
    rw [hws] at hj'
    have ht : t.device = s.device := by
      unfold journalCommit at hok
      rw [hj'] at hok
      simp only [zeroed, List.map_nil, addAll, List.foldl_nil, hnone] at hok
      rw [← (Prod.mk.inj hok).2, hd]
    simp [lastWrite, ht]
  | cons w ws =>
    rw [hws] at hfit
    obtain ⟨hd, hb, hj'⟩ := journalAll_run ops hj hr calls
    rw [hws] at hj'
    have hhome (block : BitVec 64) (data : List Byte) (hl : lastWrite (w :: ws) block = some data) :
        content t.device block = List.replicate data.length 0 :=
      h.committed_home hj' hnone (by omega) hok hl
    have hother (block : BitVec 64) (hout : ¬ InArea journal block) (hl : lastWrite (w :: ws) block = none) :
        content t.device block = if journal.journalStart + (journal.head.setWidth 64 + 1) = block then
          List.replicate w.2.length 0 else if journal.journalStart + journal.head.setWidth 64 = block then
          headerBytes s.blockSize JBD2_DESCRIPTOR_BLOCK journal.currentSequence else content s.device block := by
      rw [h.committed_other hj' hnone (by omega) hok hout hl, hb, hd]
    have hread (block : BitVec 64) (data : List Byte) (hl : lastWrite (w :: ws) block = some data) :
        (readBlock ops block data.length t).1 = .ok (List.replicate data.length 0) := by
      rw [h.readBlock_run, hhome block data hl, List.take_of_length_le (by simp)]
    constructor
    · rintro ⟨hjournaled, hunchanged⟩
      refine ⟨fun block data hl => ?_, fun first hfirst => ⟨?_, ?_⟩⟩
      · have := (hread block data hl).symm.trans (hjournaled block data hl)
        exact (Except.ok.inj this).symm
      · by_contra hs
        simp only [Spared, not_or, not_not] at hs
        have := hother _ hs.1 hs.2.1
        rw [if_neg (place_ne _ _), if_pos rfl, hunchanged _ hs.1 hs.2.1] at this
        exact hs.2.2 this
      · by_contra hs
        simp only [Spared, not_or, not_not] at hs
        have := hother _ hs.1 hs.2.1
        rw [if_pos rfl, hunchanged _ hs.1 hs.2.1] at this
        obtain rfl : w = first := by simpa using hfirst
        exact hs.2.2 this
    · rintro ⟨hzero, hspared⟩
      obtain ⟨h₀, h₁⟩ := hspared w rfl
      refine ⟨fun block data hl => ?_, fun block hout hl => ?_⟩
      · rw [hread block data hl, ← hzero block data hl]
      · rw [hother block hout hl]
        split
        · rename_i he
          rw [he] at h₁
          rcases h₁ with h₁ | h₁ | h₁
          · exact absurd h₁ hout
          · exact absurd hl h₁
          · exact h₁.symm
        · split
          · rename_i he
            rw [he] at h₀
            rcases h₀ with h₀ | h₀ | h₀
            · exact absurd h₀ hout
            · exact absurd hl h₀
            · exact h₀.symm
          · rfl

/-! ### A device in memory -/

def memoryOps : Ext4BlockOps (BitVec 64 → List Byte) where
  readBlock := some fun block len d => (.ok ((d block).take len), d)
  writeBlock := some fun block buffer d => (.ok (), Function.update d block buffer)
  sync := none

theorem memoryOps_reliable : Reliable memoryOps id :=
  ⟨⟨_, rfl, fun _ _ _ => rfl⟩, ⟨_, rfl, fun _ _ _ => ⟨rfl, rfl⟩⟩, fun _ h => by cases h⟩

/-- A journal of eight blocks from block 100 on, not yet used. -/
def memoryFs : Ext4Filesystem (BitVec 64 → List Byte) where
  device _ := []
  journal := some (.new ⟨8#32, 1#32, 1#32⟩ 100#64)
  blockSize := 1024#32
  readonly := false
  kmalloc _ := true

/-- A block of zeros is journaled. -/
theorem commit_writes_journaled_zeros :
    (readBlock memoryOps 500#64 1024 (journalCommit memoryOps
      (journalAll memoryOps [(500#64, List.replicate 1024 0)] memoryFs).2).2).1 = .ok (List.replicate 1024 0) := by
  have hcalls : (journalAll memoryOps [(500#64, List.replicate 1024 0)] memoryFs).1 =
      [(500#64, List.replicate 1024 0)] := by decide +kernel
  have hlast : lastWrite [(500#64, List.replicate 1024 (0 : Byte))] 500#64 = some (List.replicate 1024 0) := by
    rw [lastWrite, lastWrite, if_pos rfl, Option.none_or]
  have hok : (journalCommit memoryOps
      (journalAll memoryOps [(500#64, List.replicate 1024 0)] memoryFs).2).1 = .ok () := by
    decide +kernel
  have hzeros := (commit_writes_journaled_iff (s := memoryFs) memoryOps_reliable rfl rfl rfl
    [(500#64, List.replicate 1024 0)] (by rw [hcalls]; decide) (Fallible.run_of_fst hok)).mpr
      ⟨fun block data hl => ?_, fun first hfirst => ⟨.inl ⟨1, by decide, by decide⟩, .inl ⟨2, by decide, by decide⟩⟩⟩
  · have := hzeros.1 500#64 (List.replicate 1024 0) (by rw [hcalls, hlast])
    rwa [List.length_replicate] at this
  · rw [hcalls, lastWrite, lastWrite, Option.none_or] at hl
    split at hl
    · rw [← Option.some.inj hl, List.length_replicate]
    · cases hl

/-- A block of sevens is journaled, and its home block then does not hold it. -/
theorem commit_loses_data :
    (journalCommit memoryOps (journalAll memoryOps [(500#64, List.replicate 1024 7)] memoryFs).2).1 = .ok () ∧
      (readBlock memoryOps 500#64 1024 (journalCommit memoryOps
        (journalAll memoryOps [(500#64, List.replicate 1024 7)] memoryFs).2).2).1 ≠ .ok (List.replicate 1024 7) :=
  ⟨by decide +kernel, by decide +kernel⟩

end Nafuraito.Ext4.Ext4Filesystem
