import Nafuraito.Ext4.JournalPlaces
import Nafuraito.Ext4.InodeTable

/-! A crash during a commit, and what the next mount finds. Recovery replays nothing. -/
namespace Nafuraito.Ext4.Ext4Filesystem
open Nafuraito.Library
variable {D : Type} {ops : Ext4BlockOps D} {content : D → BitVec 64 → List Byte}

/-! ### Mounting only reads -/

/-- The device holds what it held. -/
def SameContent (content : D → BitVec 64 → List Byte) (s t : Ext4Filesystem D) : Prop :=
  content t.device = content s.device

section Reads
variable {α : Type}

private theorem sameContent_bind {β : Type} {x : Op D α} {f : α → Op D β}
    (hx : Fallible.Relates (SameContent content) x) (hf : ∀ a, Fallible.Relates (SameContent content) (f a)) :
    Fallible.Relates (SameContent content) (x >>= f) :=
  Fallible.Relates.bind (fun _ _ _ h₁ h₂ => h₂.trans h₁) hx hf

private theorem sameContent_pure (a : α) :
    Fallible.Relates (SameContent content) (pure a : Op D α) := fun _ => rfl

private theorem sameContent_get : Fallible.Relates (SameContent content)
    (Fallible.get : Op D (Ext4Filesystem D)) := fun _ => rfl

private theorem sameContent_okOr (o : Option α) (e : Ext4Error) :
    Fallible.Relates (SameContent content) (Fallible.okOr o e : Op D α) := by
  cases o <;> exact fun _ => rfl

private theorem sameContent_alloc (size : Nat) :
    Fallible.Relates (SameContent content) (kernelAllocBytes size : Op D (List Byte)) := by
  intro s
  obtain ⟨later, he | he⟩ := kernelAllocBytes_run size s <;> rw [he] <;> rfl

variable (h : Reliable ops content)
include h

private theorem sameContent_read (block : BitVec 64) (len : Nat) :
    Fallible.Relates (SameContent content) (readBlock ops block len) := by
  intro s
  rw [h.readBlock_run]
  rfl

private theorem sameContent_walk (logicalBlock : BitVec 64) (depth : Nat) (node : List Byte) :
    Fallible.Relates (SameContent content) (walkIndex ops logicalBlock depth node) := by
  induction depth generalizing node with
  | zero => exact sameContent_pure node
  | succ depth ih =>
    rw [walkIndex]
    exact sameContent_bind (sameContent_okOr _ _) fun best => sameContent_bind sameContent_get fun fs =>
      sameContent_bind (sameContent_alloc _) fun _ => sameContent_bind (sameContent_read h _ _) fun buffer => ih buffer

theorem Reliable.getBlock_sameContent (inode : Ext4Inode) (logicalBlock : BitVec 64) :
    Fallible.Relates (SameContent content) (getBlock ops inode logicalBlock) := by
  have hread (block : BitVec 64) (len : Nat) := sameContent_read h block len
  rw [getBlock]
  split
  · rw [getBlockFromExtent]
    refine sameContent_bind ?_ fun _ => sameContent_bind (sameContent_walk h _ _ _) fun node =>
      sameContent_bind (sameContent_okOr _ _) fun _ => sameContent_pure _
    rw [Fallible.require]
    split <;> exact fun _ => rfl
  · rw [getBlockIndirect]
    refine sameContent_bind sameContent_get fun fs => ?_
    dsimp only
    split
    · exact sameContent_pure _
    · refine sameContent_bind (sameContent_alloc _) fun _ => ?_
      split
      · exact sameContent_bind (hread _ _) fun _ => sameContent_pure _
      · split
        · exact sameContent_bind (hread _ _) fun _ => sameContent_bind (hread _ _) fun _ => sameContent_pure _
        · exact sameContent_bind (hread _ _) fun _ => sameContent_bind (hread _ _) fun _ =>
            sameContent_bind (hread _ _) fun _ => sameContent_pure _

theorem Reliable.readInode_sameContent (layout : Ext4Layout) (inodeNum : BitVec 32) :
    Fallible.Relates (SameContent content) (readInode ops layout inodeNum) := by
  rw [readInode]
  exact sameContent_bind sameContent_get fun fs => sameContent_bind (sameContent_okOr _ _) fun place =>
    sameContent_bind (sameContent_alloc _) fun _ => sameContent_bind (sameContent_read h _ _) fun _ =>
      sameContent_pure _

/-- Mounting the journal, with recovery, changes nothing on the device. -/
theorem Reliable.initJournal_sameContent (layout : Ext4Layout) (m : Ext4Mount D) :
    content (Ext4Mount.initJournal ops layout m).2.fs.device = content m.fs.device := by
  have hbind {β γ : Type} {x : Ext4Mount.Op D β} {f : β → Ext4Mount.Op D γ}
      (hx : Fallible.Relates (fun m m' => SameContent content m.fs m'.fs) x)
      (hf : ∀ a, Fallible.Relates (fun m m' => SameContent content m.fs m'.fs) (f a)) :
      Fallible.Relates (fun m m' => SameContent content m.fs m'.fs) (x >>= f) :=
    Fallible.Relates.bind (fun _ _ _ h₁ h₂ => h₂.trans h₁) hx hf
  have hrequire {c : Prop} [Decidable c] (e : Ext4Error) :
      Fallible.Relates (fun m m' => SameContent content m.fs m'.fs) (Fallible.require c e : Ext4Mount.Op D Unit) := by
    intro m
    rw [Fallible.require]
    split <;> rfl
  have hmount : Fallible.Relates (fun m m' => SameContent content m.fs m'.fs) (Ext4Mount.initJournal ops layout) := by
    rw [Ext4Mount.initJournal]
    refine hbind (fun _ => rfl) fun m => ?_
    split
    · exact fun _ => rfl
    · refine hbind (fun m => h.readInode_sameContent layout _ m.fs) fun journalInode =>
        hbind (fun m => h.getBlock_sameContent _ _ m.fs) fun journalStart => hbind (hrequire _) fun _ =>
        hbind (fun m => sameContent_alloc _ m.fs) fun _ => hbind (fun m => sameContent_read h _ _ m.fs) fun buffer =>
        hbind (hrequire _) fun _ => hbind (fun _ => rfl) fun _ m => ?_
      rw [Ext4Mount.recoverIfNeeded]
      split <;> rfl
  exact hmount m

end Reads

/-! ### The blocks of a transaction after a crash -/

/-- What a transaction is to leave. -/
def committed (before : BitVec 64 → List Byte) (trans : Transaction) : BitVec 64 → List Byte :=
  applyWrites before (homeWrites trans)

/-- Whichever writes were sent before a crash, the next mount finds the blocks of the
transaction either all as they were or all as the commit was to leave them. -/
def CrashAtomic (ops : Ext4BlockOps D) (content : D → BitVec 64 → List Byte) (layout : Ext4Layout)
    (before : BitVec 64 → List Byte) (sent : WriteLog) (trans : Transaction) : Prop :=
  ∀ n, ∀ m : Ext4Mount D, content m.fs.device = applyWrites before (sent.take n) →
    let after := content (Ext4Mount.initJournal ops layout m).2.fs.device
    (∀ block ∈ trans.blocks, after block = before block) ∨
      (∀ block ∈ trans.blocks, after block = committed before trans block)

/-- One block alone is given anything new, and that block nothing but its old and its final value. -/
def OneBlock (before : BitVec 64 → List Byte) (trans : Transaction) (ws : WriteLog) : Prop :=
  ∃ only, ∀ w ∈ ws, w.1 ∈ trans.blocks → w.2 = before w.1 ∨ (w.1 = only ∧ w.2 = committed before trans only)

private theorem lastWrite_home {trans : Transaction} {block : BitVec 64} (h : block ∈ trans.blocks) :
    ∃ data, lastWrite (homeWrites trans) block = some data := by
  rw [← Option.ne_none_iff_exists', ne_eq, lastWrite_eq_none]
  intro hnone
  have hmap : (homeWrites trans).map Prod.fst = trans.blocks :=
    List.map_fst_zip (Nat.le_of_eq trans.same_length)
  rw [← hmap] at h
  obtain ⟨w, hw, he⟩ := List.mem_map.mp h
  exact hnone w hw he

/-- The home writes come last, so they decide what the blocks of the transaction hold. -/
private theorem commitWrites_home {trans : Transaction} {blockSize : BitVec 32} {journal : Journal}
    (before : BitVec 64 → List Byte) {block : BitVec 64} (h : block ∈ trans.blocks) :
    applyWrites before (commitWrites blockSize journal trans) block = committed before trans block := by
  obtain ⟨data, hdata⟩ := lastWrite_home h
  rw [committed, applyWrites_apply, applyWrites_apply, commitWrites, lastWrite_append, hdata]
  rfl

/-- Every sequence of writes can be made on a reliable device. -/
private theorem Reliable.exists_written (h : Reliable ops content) (d : D) (ws : WriteLog) :
    ∃ d', content d' = applyWrites (content d) ws := by
  obtain ⟨writeFn, _, hw⟩ := h.write
  induction ws generalizing d with
  | nil => exact ⟨d, rfl⟩
  | cons w ws ih =>
    obtain ⟨d', hd'⟩ := ih (writeFn w.1 w.2 d).2
    exact ⟨d', by rw [hd', (hw w.1 w.2 d).2]; rfl⟩

theorem crashAtomic_iff_allOrNothing (h : Reliable ops content) (layout : Ext4Layout) (d : D)
    {trans : Transaction} {blockSize : BitVec 32} {journal : Journal} :
    CrashAtomic ops content layout (content d) (commitWrites blockSize journal trans) trans ↔
      AllOrNothing (content d) (commitWrites blockSize journal trans) (· ∈ trans.blocks) := by
  have hcommitted {block : BitVec 64} (hb : block ∈ trans.blocks) :
      applyWrites (content d) (commitWrites blockSize journal trans) block =
        committed (content d) trans block := commitWrites_home _ hb
  constructor
  · intro hatomic n
    obtain ⟨d', hd⟩ := h.exists_written d ((commitWrites blockSize journal trans).take n)
    have := hatomic n ⟨⟨d', none, 0, false, fun _ => false⟩, ⟨0, 0, 0⟩⟩ hd
    rw [h.initJournal_sameContent] at this
    dsimp only at this
    rw [hd] at this
    exact this.imp id fun hall block hb => (hall block hb).trans (hcommitted hb).symm
  · intro hall n m hm
    dsimp only
    rw [h.initJournal_sameContent, hm]
    exact (hall n).imp id fun hfinal block hb => (hfinal block hb).trans (hcommitted hb)

/-! ### The commit -/

/-- All journal writes after the first two go to blocks of the journal. -/
private theorem journalWrites_area {blockSize : BitVec 32} {journal : Journal} {trans : Transaction}
    (hlen : 2 ≤ journal.journalLength.toNat) {w : BitVec 64 × List Byte}
    (hw : w ∈ (journalWrites blockSize journal trans).drop 2) : InArea journal w.1 := by
  have hnext (place : BitVec 64) :
      InArea journal (journal.journalStart + nextPlace (journal.journalLength.setWidth 64) place) :=
    inArea_next hlen place
  have hplaces (n : Nat) (place : BitVec 64) : ∀ q ∈ places (journal.journalLength.setWidth 64) n place,
      q = place ∨ InArea journal (journal.journalStart + q) := by
    induction n generalizing place with
    | zero => intro q hq; cases hq
    | succ n ih =>
      intro q hq
      rcases List.mem_cons.mp hq with rfl | hq
      · exact .inl rfl
      · exact .inr ((ih _ q hq).elim (fun he => he ▸ hnext place) id)
  have hmem := List.mem_map_of_mem (f := Prod.fst) hw
  rw [List.map_drop, journalWrites_places, places] at hmem
  obtain ⟨q, hq, he⟩ := List.mem_map.mp hmem
  rw [← he]
  exact (hplaces _ _ q hq).elim (fun heq => heq ▸ hnext _) id

theorem oneBlock_iff {before : BitVec 64 → List Byte} {blockSize : BitVec 32} {journal : Journal}
    {trans : Transaction} (hlen : 2 ≤ journal.journalLength.toNat)
    (hhome : ∀ block ∈ trans.blocks, ¬ InArea journal block) :
    AllOrNothing before (commitWrites blockSize journal trans) (· ∈ trans.blocks) ↔
      OneBlock before trans ((journalWrites blockSize journal trans).take 2 ++ homeWrites trans) := by
  rw [allOrNothing_iff]
  refine exists_congr fun only => ?_
  have hsplit {w : BitVec 64 × List Byte} : w ∈ commitWrites blockSize journal trans ↔
      w ∈ (journalWrites blockSize journal trans).drop 2 ∨
        w ∈ (journalWrites blockSize journal trans).take 2 ++ homeWrites trans := by
    rw [commitWrites]
    conv_lhs => rw [← List.take_append_drop 2 (journalWrites blockSize journal trans)]
    simp only [List.mem_append]
    tauto
  constructor
  · intro h w hw hin
    refine (h w (hsplit.mpr (.inr hw)) hin).imp id fun hfinal => ⟨hfinal.1, ?_⟩
    rw [hfinal.2]
    exact commitWrites_home before (hfinal.1 ▸ hin)
  · intro h w hw hin
    rcases hsplit.mp hw with hw | hw
    · exact absurd (journalWrites_area hlen hw) (hhome _ hin)
    · refine (h w hw hin).imp id fun hfinal => ⟨hfinal.1, ?_⟩
      rw [hfinal.2]
      exact (commitWrites_home before (hfinal.1 ▸ hin)).symm

/-- A commit survives every crash whole or not at all if one block of the transaction alone is
given anything new, by its own writes and by the first two journal writes. A commit that returns
`Ok` survives in no other case. -/
theorem commit_crashAtomic_iff (h : Reliable ops content) (layout : Ext4Layout) {s : Ext4Filesystem (D × WriteLog)}
    {journal : Journal} {trans : Transaction} (hj : s.journal = some journal)
    (ht : journal.currentTransaction = some trans) (hlen : 2 ≤ journal.journalLength.toNat)
    (hhome : ∀ block ∈ trans.blocks, ¬ InArea journal block) :
    let sent := (journalCommit (recorded ops) s).2.device.2.drop s.device.2.length
    let alone := OneBlock (content s.device.1) trans
      ((journalWrites s.blockSize journal trans).take 2 ++ homeWrites trans)
    (alone → CrashAtomic ops content layout (content s.device.1) sent trans) ∧
      ((journalCommit (recorded ops) s).1 = .ok () →
        CrashAtomic ops content layout (content s.device.1) sent trans → alone) := by
  obtain ⟨⟨sent, hpre, hall, hlog⟩, _⟩ := Mounted.commit ops hj ht
  have hiff : CrashAtomic ops content layout (content s.device.1) (commitWrites s.blockSize journal trans) trans ↔
      OneBlock (content s.device.1) trans ((journalWrites s.blockSize journal trans).take 2 ++ homeWrites trans) :=
    (crashAtomic_iff_allOrNothing h layout s.device.1).trans (oneBlock_iff hlen hhome)
  dsimp only
  rw [hlog, List.drop_left]
  constructor
  · intro halone n m hm
    obtain ⟨rest, hrest⟩ := hpre
    refine hiff.mpr halone (min n sent.length) m ?_
    rw [hm, ← hrest, List.take_append_of_le_length (Nat.min_le_right _ _), ← List.take_take, List.take_length]
  · intro hok hatomic
    rw [hall hok] at hatomic
    exact hiff.mp hatomic

/-! ### A device in memory -/

/-- A journal at block 100 on a device of ones, with blocks journaled that hold their data as zeros. -/
def journaled (calls : List (BitVec 64 × List Byte)) : Ext4Filesystem ((BitVec 64 → List Byte) × WriteLog) :=
  (journalAll (recorded memoryOps) calls { mountedAt 1#32 with device := (fun _ => [1#8], []) }).2

def emptyLayout : Ext4Layout := ⟨[], 0, 0, 0, false, rfl⟩

/-- What the commit of the journaled blocks sends. -/
def sentBy (calls : List (BitVec 64 × List Byte)) : WriteLog :=
  (journalCommit (recorded memoryOps) (journaled calls)).2.device.2.drop (journaled calls).device.2.length

/-- With one block journaled the commit survives every crash. -/
theorem commit_crashAtomic_single : CrashAtomic memoryOps id emptyLayout (fun _ => [1#8]) (sentBy [(500#64, [7#8])])
    ⟨1#32, [500#64], [[0#8]], rfl⟩ := by
  obtain ⟨journal, hj, ht, hstart, hlength, hfirst⟩ : ∃ journal, (journaled [(500#64, [7#8])]).journal = some journal ∧
      journal.currentTransaction = some ⟨1#32, [500#64], [[0#8]], rfl⟩ ∧ journal.journalStart = 100#64 ∧
      journal.journalLength = 8#32 ∧ ∀ w ∈ (journalWrites (journaled [(500#64, [7#8])]).blockSize journal
        ⟨1#32, [500#64], [[0#8]], rfl⟩).take 2, w.1 ≠ 500#64 := ⟨_, rfl, rfl, rfl, rfl, by decide +kernel⟩
  have hhome : ∀ block ∈ [500#64], ¬ InArea journal block := by
    intro block hb
    obtain rfl := List.mem_singleton.mp hb
    rintro ⟨k, hk, he⟩
    rw [hlength] at hk
    rw [hstart] at he
    have := congrArg BitVec.toNat he
    rw [BitVec.toNat_add, BitVec.toNat_ofNat, BitVec.toNat_ofNat, BitVec.toNat_ofNat] at this
    change k < 8 at hk
    omega
  refine (commit_crashAtomic_iff memoryOps_reliable emptyLayout hj ht (by rw [hlength]; decide) hhome).1 ⟨500#64, ?_⟩
  intro w hw hin
  obtain he : w.1 = 500#64 := List.mem_singleton.mp hin
  rcases List.mem_append.mp hw with hw | hw
  · exact absurd he (hfirst w hw)
  · obtain rfl := List.mem_singleton.mp hw
    exact .inr ⟨rfl, rfl⟩

/-- With two blocks journaled a crash between the two home writes leaves one new and one old. -/
theorem commit_torn :
    ((journaled [(500#64, [7#8]), (501#64, [8#8])]).journal.bind Journal.currentTransaction =
      some ⟨1#32, [500#64, 501#64], [[0#8], [0#8]], rfl⟩) ∧
    (journalCommit (recorded memoryOps) (journaled [(500#64, [7#8]), (501#64, [8#8])])).1 = .ok () ∧
    ¬ CrashAtomic memoryOps id emptyLayout (fun _ => [1#8]) (sentBy [(500#64, [7#8]), (501#64, [8#8])])
      ⟨1#32, [500#64, 501#64], [[0#8], [0#8]], rfl⟩ := by
  refine ⟨rfl, by decide +kernel, fun hatomic => ?_⟩
  -- the descriptor, two data blocks, the commit block and the first home block
  have h := hatomic 5 ⟨⟨applyWrites (fun _ => [1#8]) ((sentBy [(500#64, [7#8]), (501#64, [8#8])]).take 5), none, 0,
    false, fun _ => false⟩, ⟨0, 0, 0⟩⟩ rfl
  rcases h with hold | hnew
  · exact absurd (hold 500#64 List.mem_cons_self) (by decide +kernel)
  · exact absurd (hnew 501#64 (List.mem_cons_of_mem _ List.mem_cons_self)) (by decide +kernel)

end Nafuraito.Ext4.Ext4Filesystem
