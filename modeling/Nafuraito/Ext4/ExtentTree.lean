import Nafuraito.Ext4.BlockMap
import Nafuraito.Ext4.JournalCommit
import Nafuraito.Library.Spans

/-! Extent trees as the format defines them, and what the kernel's lookup finds in them. -/
namespace Nafuraito.Ext4
open Nafuraito.Library

namespace Ext4Extent

/-- The number of blocks: an unwritten extent has 32768 added to its length. -/
def count (extent : Ext4Extent) : Nat :=
  if extent.eeLen.toNat ≤ 32768 then extent.eeLen.toNat else extent.eeLen.toNat - 32768

def Initialised (extent : Ext4Extent) : Prop := extent.eeLen.toNat ≤ 32768

theorem count_of_initialised {extent : Ext4Extent} (h : extent.Initialised) : extent.count = extent.eeLen.toNat :=
  if_pos h

instance (extent : Ext4Extent) : Decidable extent.Initialised := inferInstanceAs (Decidable (_ ≤ _))

def first (extent : Ext4Extent) : Nat := extent.eeBlock.toNat

def stop (extent : Ext4Extent) : Nat := extent.first + extent.count

def Covers (extent : Ext4Extent) (block : Nat) : Prop := extent.first ≤ block ∧ block < extent.stop

instance (extent : Ext4Extent) (block : Nat) : Decidable (extent.Covers block) :=
  inferInstanceAs (Decidable (_ ∧ _))

end Ext4Extent

/-! ### Well-formed trees -/

def entries (node : List Byte) : Nat := (readHeader node).ehEntries.toNat

/-- The header of a node `depth` levels above the leaves. -/
structure IsNode (depth : Nat) (node : List Byte) : Prop where
  magic : (readHeader node).ehMagic = EXT4_EXT_MAGIC
  depth_eq : (readHeader node).ehDepth.toNat = depth
  room : 12 + 12*entries node ≤ node.length

def extentFirst (node : List Byte) (i : Nat) : Nat := (readExtent node i).first

def extentStop (node : List Byte) (i : Nat) : Nat := (readExtent node i).stop

def idxKey (node : List Byte) (i : Nat) : Nat := (readIdx node i).eiBlock.toNat

/-- The blocks that the child of entry `i` may map end here. -/
def idxUpper (node : List Byte) (hi i : Nat) : Nat := upper (idxKey node) (entries node) hi i

/-- The tree under `node` maps blocks of `[lo, hi)`, its entries sorted and apart. -/
def WellFormed (image : BitVec 64 → List Byte) : Nat → Nat → Nat → List Byte → Prop
  | 0, lo, hi, node => IsNode 0 node ∧ Spans (extentFirst node) (extentStop node) (entries node) hi ∧
      ∀ i < entries node, lo ≤ extentFirst node i ∧ 0 < (readExtent node i).eeLen.toNat
  | depth+1, lo, hi, node => IsNode (depth+1) node ∧
      Spans (idxKey node) (idxUpper node hi) (entries node) hi ∧
      ∀ i < entries node, lo ≤ idxKey node i ∧
        WellFormed image depth (idxKey node i) (idxUpper node hi i) (image (readIdx node i).leaf)

/-- The extents of the leaves, from left to right. -/
def extents (image : BitVec 64 → List Byte) : Nat → List Byte → List Ext4Extent
  | 0, node => (List.range (entries node)).map (readExtent node)
  | depth+1, node => (List.range (entries node)).flatMap fun i => extents image depth (image (readIdx node i).leaf)

/-- The block the format gives for a logical block; 0 in a hole. -/
def mapped (es : List Ext4Extent) (block : Nat) : BitVec 64 :=
  match es.find? fun extent => extent.Initialised ∧ extent.Covers block with
  | some extent => BitVec.ofNat 64 (extent.start.toNat + (block - extent.first))
  | none => 0

section Trees
variable {image : BitVec 64 → List Byte} {depth lo hi : Nat} {node : List Byte} {extent : Ext4Extent}

theorem mem_extents_zero : extent ∈ extents image 0 node ↔ ∃ i < entries node, readExtent node i = extent := by
  simp [extents]

theorem mem_extents_succ : extent ∈ extents image (depth+1) node ↔
    ∃ i < entries node, extent ∈ extents image depth (image (readIdx node i).leaf) := by
  simp [extents]

/-- Every extent lies in the range of its tree and has a length. -/
theorem WellFormed.range (h : WellFormed image depth lo hi node) (he : extent ∈ extents image depth node) :
    lo ≤ extent.first ∧ extent.stop ≤ hi ∧ 0 < extent.eeLen.toNat := by
  induction depth generalizing lo hi node with
  | zero =>
    obtain ⟨i, hi', rfl⟩ := mem_extents_zero.mp he
    exact ⟨(h.2.2 i hi').1, h.2.1.stop_le hi', (h.2.2 i hi').2⟩
  | succ depth ih =>
    obtain ⟨i, hi', hmem⟩ := mem_extents_succ.mp he
    obtain ⟨h₁, h₂, h₃⟩ := ih (h.2.2 i hi').2 hmem
    exact ⟨(h.2.2 i hi').1.trans h₁, h₂.trans (h.2.1.stop_le hi'), h₃⟩

/-- The child an extent of the tree belongs to has the blocks of the extent in its span. -/
theorem WellFormed.child_span (h : WellFormed image (depth+1) lo hi node) {i : Nat} (hi' : i < entries node)
    (he : extent ∈ extents image depth (image (readIdx node i).leaf)) {block : Nat} (hc : extent.Covers block) :
    idxKey node i ≤ block ∧ block < idxUpper node hi i := by
  obtain ⟨h₁, h₂, _⟩ := (h.2.2 i hi').2.range he
  exact ⟨h₁.trans hc.1, hc.2.trans_le h₂⟩

/-- No block is covered twice. -/
theorem WellFormed.unique (h : WellFormed image depth lo hi node) {other : Ext4Extent} {block : Nat}
    (he : extent ∈ extents image depth node) (ho : other ∈ extents image depth node)
    (hc : extent.Covers block) (hco : other.Covers block) : extent = other := by
  induction depth generalizing lo hi node with
  | zero =>
    obtain ⟨i, hi', rfl⟩ := mem_extents_zero.mp he
    obtain ⟨j, hj, rfl⟩ := mem_extents_zero.mp ho
    rw [h.2.1.unique hi' hj hc hco]
  | succ depth ih =>
    obtain ⟨i, hi', he⟩ := mem_extents_succ.mp he
    obtain ⟨j, hj, ho⟩ := mem_extents_succ.mp ho
    obtain rfl := h.2.1.unique hi' hj (h.child_span hi' he hc) (h.child_span hj ho hco)
    exact ih (h.2.2 i hi').2 he ho

end Trees

/-! ### The kernel's lookup -/

namespace Ext4Extent

private theorem len_toNat (extent : Ext4Extent) : extent.len.toNat = extent.eeLen.toNat % 32768 := by
  rw [len, BitVec.toNat_and]
  exact Nat.and_two_pow_sub_one_eq_mod _ 15

/-- The kernel's test fails on extents of 32768 blocks and on those that end at block `2^32`. -/
theorem holds_iff {extent : Ext4Extent} (hlen : 0 < extent.eeLen.toNat) (hstop : extent.stop ≤ 2^32)
    (logicalBlock : BitVec 64) : extent.holds logicalBlock ↔
      extent.Covers logicalBlock.toNat ∧ extent.stop < 2^32 ∧ extent.eeLen.toNat ≠ 32768 := by
  have h := extent.len_toNat
  have hbound := extent.eeLen.isLt
  rw [holds, ge_iff_le, BitVec.le_def, BitVec.lt_def, BitVec.toNat_setWidth, BitVec.toNat_setWidth,
    BitVec.toNat_add, BitVec.toNat_setWidth, h]
  simp only [Covers, stop, first, count] at hstop ⊢
  have := extent.eeBlock.isLt
  split at hstop <;> rename_i hinit
  · rw [if_pos hinit]
    omega
  · rw [if_neg hinit]
    omega

/-- Physical block numbers have 48 bits. -/
theorem start_lt (extent : Ext4Extent) : extent.start.toNat < 2^48 := by
  have hlo := extent.eeStartLo.isLt
  have hhi := extent.eeStartHi.isLt
  rw [start, BitVec.toNat_or, BitVec.toNat_setWidth, BitVec.toNat_shiftLeft, BitVec.toNat_setWidth]
  refine Nat.or_lt_two_pow (by omega) ?_
  rw [Nat.shiftLeft_eq]
  omega

/-- The kernel's sum is the format's. -/
theorem physical_eq {extent : Ext4Extent} {logicalBlock : BitVec 64} (h : extent.first ≤ logicalBlock.toNat) :
    extent.physical logicalBlock = BitVec.ofNat 64 (extent.start.toNat + (logicalBlock.toNat - extent.first)) := by
  apply BitVec.eq_of_toNat_eq
  unfold first at h ⊢
  have := extent.eeBlock.isLt
  rw [physical, BitVec.toNat_add, BitVec.toNat_sub, BitVec.toNat_setWidth, BitVec.toNat_ofNat]
  omega

end Ext4Extent

section Lookup
variable {image : BitVec 64 → List Byte} {depth lo hi : Nat} {node : List Byte} {extent : Ext4Extent}
variable {logicalBlock : BitVec 64}

/-- With `m` small keys and then a larger one or none, the loop returns the last small one. -/
private theorem scanIdx_eq {i n m : Nat} {best : Option Ext4ExtentIdx} (hm : m < n)
    (hsmall : ∀ j, i ≤ j → j ≤ i+m → (readIdx node j).eiBlock ≤ logicalBlock.setWidth 32)
    (hlarge : m+1 < n → ¬ (readIdx node (i+m+1)).eiBlock ≤ logicalBlock.setWidth 32) :
    scanIdx node logicalBlock i n best = some (readIdx node (i+m)) := by
  induction m generalizing i n best with
  | zero =>
    obtain ⟨n, rfl⟩ := Nat.exists_eq_add_one.mpr hm
    rw [scanIdx, if_pos (hsmall i (Nat.le_refl i) (Nat.le_refl i))]
    cases n with
    | zero => rfl
    | succ n =>
      rw [scanIdx]
      exact if_neg (hlarge (by omega))
  | succ m ih =>
    obtain ⟨n, rfl⟩ := Nat.exists_eq_add_one.mpr (Nat.zero_lt_of_lt hm)
    rw [scanIdx, if_pos (hsmall i (Nat.le_refl i) (by omega)), show i+(m+1) = i+1+m by omega]
    refine ih (by omega) (fun j h₁ h₂ => hsmall j (by omega) (by omega)) fun hlt => ?_
    have := hlarge (by omega)
    rwa [show i+(m+1)+1 = i+1+m+1 by omega] at this

/-- The index entry whose span has the block is the one the kernel follows. -/
theorem bestIdx_of_span (hs : Spans (idxKey node) (idxUpper node hi) (entries node) hi)
    (hlb : logicalBlock.toNat < 2^32) {i : Nat} (hi' : i < entries node)
    (hb : idxKey node i ≤ logicalBlock.toNat ∧ logicalBlock.toNat < idxUpper node hi i) :
    bestIdx node logicalBlock = some (readIdx node i) := by
  have hle (j : Nat) : (readIdx node j).eiBlock ≤ logicalBlock.setWidth 32 ↔
      idxKey node j ≤ logicalBlock.toNat := by
    rw [BitVec.le_def, BitVec.toNat_setWidth, Nat.mod_eq_of_lt hlb]
    rfl
  rw [bestIdx, show readIdx node i = readIdx node (0+i) by rw [Nat.zero_add]]
  refine scanIdx_eq hi' (fun j _ hj => (hle j).mpr ?_) fun hlt => ?_
  · rcases Nat.lt_or_eq_of_le hj with hlt | heq
    · have h₁ := (hs j (by omega)).1
      have h₂ := hs.apart (show j < i by omega) hi'
      omega
    · rw [heq, Nat.zero_add]
      exact hb.1
  · rw [hle, Nat.zero_add]
    have : idxUpper node hi i = idxKey node (i+1) := if_pos hlt
    omega

private theorem scanExtent_some {i n : Nat} (h : scanExtent node logicalBlock i n = some extent) :
    extent.holds logicalBlock ∧ ∃ j < i+n, readExtent node j = extent := by
  induction n generalizing i with
  | zero => cases h
  | succ n ih =>
    rw [scanExtent] at h
    split at h
    · rename_i hh
      obtain rfl := Option.some.inj h
      exact ⟨hh, i, by omega, rfl⟩
    · obtain ⟨hh, j, hj, he⟩ := ih h
      exact ⟨hh, j, by omega, he⟩

private theorem scanExtent_isSome {i n j : Nat} (hij : i ≤ j) (hj : j < i+n)
    (hh : (readExtent node j).holds logicalBlock) : ∃ found, scanExtent node logicalBlock i n = some found := by
  induction n generalizing i with
  | zero => omega
  | succ n ih =>
    rw [scanExtent]
    split
    · exact ⟨_, rfl⟩
    · rename_i hn
      have : i ≠ j := fun he => hn (he ▸ hh)
      exact ih (by omega) (by omega)

theorem lookupExtent_mem (h : lookupExtent image logicalBlock depth node = some extent) :
    extent ∈ extents image depth node ∧ extent.holds logicalBlock := by
  induction depth generalizing node with
  | zero =>
    obtain ⟨hh, j, hj, he⟩ := scanExtent_some h
    exact ⟨mem_extents_zero.mpr ⟨j, by rwa [Nat.zero_add] at hj, he⟩, hh⟩
  | succ depth ih =>
    rw [lookupExtent, leafOf, Option.bind_assoc] at h
    obtain ⟨best, hbest, h⟩ := Option.bind_eq_some_iff.mp h
    obtain ⟨i, hi', rfl⟩ := bestIdx_mem hbest
    obtain ⟨hmem, hh⟩ := ih h
    exact ⟨mem_extents_succ.mpr ⟨i, hi', hmem⟩, hh⟩

/-- In a well-formed tree the lookup finds the extent that passes the kernel's test. -/
theorem WellFormed.lookupExtent_iff (h : WellFormed image depth lo hi node) (hhi : hi ≤ 2^32)
    (hlb : logicalBlock.toNat < 2^32) : lookupExtent image logicalBlock depth node = some extent ↔
      extent ∈ extents image depth node ∧ extent.holds logicalBlock := by
  refine ⟨lookupExtent_mem, ?_⟩
  rintro ⟨he, hh⟩
  have hcovers {extent : Ext4Extent} (he : extent ∈ extents image depth node) (hh : extent.holds logicalBlock) :
      extent.Covers logicalBlock.toNat := by
    obtain ⟨_, h₂, h₃⟩ := h.range he
    exact ((Ext4Extent.holds_iff h₃ (h₂.trans hhi) logicalBlock).mp hh).1
  induction depth generalizing lo hi node with
  | zero =>
    obtain ⟨i, hi', rfl⟩ := mem_extents_zero.mp he
    obtain ⟨found, hfound⟩ : ∃ found, lookupExtent image logicalBlock 0 node = some found :=
      scanExtent_isSome (Nat.zero_le i) (by rwa [Nat.zero_add]) hh
    obtain ⟨hmem, hholds⟩ := lookupExtent_mem hfound
    rw [h.unique he hmem (hcovers he hh) (hcovers hmem hholds)]
    exact hfound
  | succ depth ih =>
    obtain ⟨i, hi', hmem⟩ := mem_extents_succ.mp he
    have hspan := h.child_span hi' hmem (hcovers he hh)
    rw [lookupExtent, leafOf, Option.bind_assoc, bestIdx_of_span h.2.1 hlb hi' hspan, Option.bind_some]
    exact ih (h.2.2 i hi').2 ((h.2.1.stop_le hi').trans hhi) hmem
      fun hmem' hh' => hcovers (mem_extents_succ.mpr ⟨i, hi', hmem'⟩) hh'

theorem WellFormed.fits (h : WellFormed image depth lo hi node) : Fits image depth node := by
  induction depth generalizing lo hi node with
  | zero => exact h.1.room
  | succ depth ih => exact ⟨h.1.room, fun i hi' => ih (h.2.2 i hi').2⟩

/-- In a well-formed tree at most one extent can give the block. -/
theorem WellFormed.mapped_eq (h : WellFormed image depth lo hi node) {block : Nat}
    (he : extent ∈ extents image depth node) (hc : extent.Covers block) :
    mapped (extents image depth node) block =
      if extent.Initialised then BitVec.ofNat 64 (extent.start.toNat + (block - extent.first)) else 0 := by
  rw [mapped]
  cases hfind : (extents image depth node).find? fun extent => extent.Initialised ∧ extent.Covers block with
  | none =>
    have hnone := List.find?_eq_none.mp hfind extent he
    rw [decide_eq_true_eq] at hnone
    rw [if_neg fun hinit => hnone ⟨hinit, hc⟩]
  | some found =>
    have hfound := List.find?_some hfind
    rw [decide_eq_true_eq] at hfound
    obtain rfl := h.unique he (List.mem_of_find?_eq_some hfind) hc hfound.2
    rw [if_pos hfound.1]

variable {D : Type} {ops : Ext4BlockOps D} {s : Ext4Filesystem D}

/-- The kernel's lookup in a well-formed tree returns what the format says exactly when the
buffers are there and the block lies in an initialised extent of fewer than 32768 blocks, or is
the first block of an unwritten extent at physical block 0; and the extent ends below `2^32`. -/
theorem getBlockFromExtent_iff (hpos : 0 < s.blockSize.toNat)
    (himage : Ext4Filesystem.ReadsImage ops s.device image s.blockSize.toNat) {inode : Ext4Inode}
    (h : WellFormed image depth 0 (2^32) (inode.iBlockPtr.take 60)) (hlb : logicalBlock.toNat < 2^32) :
    (Ext4Filesystem.getBlockFromExtent ops inode logicalBlock s).1 =
        .ok (mapped (extents image depth (inode.iBlockPtr.take 60)) logicalBlock.toNat) ↔
      (∀ k < depth, s.kmalloc k = true) ∧ ∃ extent ∈ extents image depth (inode.iBlockPtr.take 60),
        extent.Covers logicalBlock.toNat ∧ extent.stop < 2^32 ∧ ((extent.Initialised ∧ extent.count < 32768) ∨
          (¬ extent.Initialised ∧ extent.start = 0 ∧ logicalBlock.toNat = extent.first)) := by
  have hroom := h.fits.room
  have hroot : inode.iBlockPtr.take 60 ++ inode.iBlockPtr.drop 60 = inode.iBlockPtr := List.take_append_drop 60 _
  have hheader := readHeader_append (inode.iBlockPtr.drop 60)
    (show 12 ≤ (inode.iBlockPtr.take 60).length by omega)
  have hnode : IsNode depth (inode.iBlockPtr.take 60) := by
    cases depth with
    | zero => exact h.1
    | succ depth => exact h.1
  have hlookup := lookupExtent_append (inode.iBlockPtr.drop 60) logicalBlock h.fits
  rw [hroot] at hheader hlookup
  have hok := himage.getBlockFromExtent_ok_iff hpos (hheader ▸ hnode.magic) logicalBlock
  rw [hheader, hnode.depth_eq] at hok
  rw [hok, hlookup]
  refine and_congr_right fun _ => ?_
  rw [Option.map_eq_some_iff]
  constructor
  · rintro ⟨extent, hfound, hphysical⟩
    obtain ⟨he, hh⟩ := (h.lookupExtent_iff (Nat.le_refl _) hlb).mp hfound
    obtain ⟨_, hstop, hlen⟩ := h.range he
    obtain ⟨hc, hend, hfull⟩ := (Ext4Extent.holds_iff hlen hstop logicalBlock).mp hh
    refine ⟨extent, he, hc, hend, ?_⟩
    rw [h.mapped_eq he hc, Ext4Extent.physical_eq hc.1] at hphysical
    by_cases hinit : extent.Initialised
    · refine .inl ⟨hinit, ?_⟩
      rw [Ext4Extent.count_of_initialised hinit]
      exact Nat.lt_of_le_of_ne hinit hfull
    · rw [if_neg hinit] at hphysical
      have hzero : (extent.start.toNat + (logicalBlock.toNat - extent.first)) % 2^64 = 0 := by
        rw [← BitVec.toNat_ofNat, hphysical]
        rfl
      have hsmall := extent.start_lt
      have hstart : extent.start.toNat = 0 := by omega
      exact .inr ⟨hinit, BitVec.eq_of_toNat_eq hstart, by have := hc.1; omega⟩
  · rintro ⟨extent, he, hc, hend, hcase⟩
    obtain ⟨_, hstop, hlen⟩ := h.range he
    have hfull : extent.eeLen.toNat ≠ 32768 := by
      rcases hcase with ⟨hinit, hcount⟩ | ⟨hinit, _⟩
      · rw [Ext4Extent.count_of_initialised hinit] at hcount
        omega
      · intro heq
        exact hinit heq.le
    have hh := (Ext4Extent.holds_iff hlen hstop logicalBlock).mpr ⟨hc, hend, hfull⟩
    refine ⟨extent, (h.lookupExtent_iff (Nat.le_refl _) hlb).mpr ⟨he, hh⟩, ?_⟩
    rw [h.mapped_eq he hc, Ext4Extent.physical_eq hc.1]
    rcases hcase with ⟨hinit, _⟩ | ⟨hinit, hstart, hfirst⟩
    · rw [if_pos hinit]
    · rw [if_neg hinit, hstart, hfirst, Nat.sub_self]
      rfl

end Lookup

/-! ### Trees of one node -/

open Ext4Filesystem (memoryOps memoryFs)

/-- A device in memory whose blocks are all of one size is its own image. -/
theorem memoryOps_readsImage {d : BitVec 64 → List Byte} {size : Nat} (h : ∀ block, (d block).length = size) :
    Ext4Filesystem.ReadsImage memoryOps d d size :=
  ⟨⟨_, rfl, fun block => by rw [List.take_of_length_le (h block).le]⟩, h⟩

/-- An inode with one extent from block 0 on, at physical block 500, with a given length field. -/
def oneExtent (len : BitVec 16) : Ext4Inode where
  bytes := List.replicate 34 0#8 ++ [8#8] ++ List.replicate 5 0#8 ++ [0x0A#8, 0xF3#8, 1#8, 0#8, 4#8] ++
    List.replicate 11 0#8 ++ [len.setWidth 8, (len >>> 8).setWidth 8, 0#8, 0#8, 0xF4#8, 1#8] ++ List.replicate 98 0#8
  size := rfl

/-- A mounted filesystem on a device of zeros. -/
def zerosFs : Ext4Filesystem (BitVec 64 → List Byte) := { memoryFs with device := fun _ => List.replicate 1024 0 }

theorem zerosFs_readsImage : Ext4Filesystem.ReadsImage memoryOps zerosFs.device (fun _ => List.replicate 1024 0)
    zerosFs.blockSize.toNat := memoryOps_readsImage fun _ => List.length_replicate

/-- A leaf with one extent is well formed. -/
private theorem WellFormed.one {image : BitVec 64 → List Byte} {node : List Byte} (hnode : IsNode 0 node)
    (hone : entries node = 1) (hstop : extentStop node 0 ≤ 2^32) (hlen : 0 < (readExtent node 0).eeLen.toNat) :
    WellFormed image 0 0 (2^32) node := by
  refine ⟨hnode, fun i hi => ?_, fun i hi => ?_⟩ <;> obtain rfl : i = 0 := by omega
  · exact ⟨Nat.le_add_right _ _, by rwa [upper, if_neg (by omega)]⟩
  · exact ⟨Nat.zero_le _, hlen⟩

theorem getBlockFromExtent_oneExtent :
    (Ext4Filesystem.getBlockFromExtent memoryOps (oneExtent 4#16) 2#64 zerosFs).1 = .ok (mapped
      (extents (fun _ => List.replicate 1024 0) 0 ((oneExtent 4#16).iBlockPtr.take 60)) (2#64).toNat) :=
  (getBlockFromExtent_iff (by decide) zerosFs_readsImage (.one ⟨by decide +kernel, by decide +kernel, by decide +kernel⟩
    (by decide +kernel) (by decide +kernel) (by decide +kernel)) (by decide)).mpr
      ⟨fun _ _ => rfl, readExtent ((oneExtent 4#16).iBlockPtr.take 60) 0,
        mem_extents_zero.mpr ⟨0, by decide +kernel, rfl⟩, by decide +kernel, by decide +kernel,
        .inl (by decide +kernel)⟩

/-- An initialised extent of 32768 blocks is not found. -/
theorem full_extent_missed :
    WellFormed (fun _ => List.replicate 1024 0) 0 0 (2^32) ((oneExtent 32768#16).iBlockPtr.take 60) ∧
      mapped (extents (fun _ => List.replicate 1024 0) 0 ((oneExtent 32768#16).iBlockPtr.take 60))
        (0#64).toNat = 500#64 ∧
      (Ext4Filesystem.getBlockFromExtent memoryOps (oneExtent 32768#16) 0#64 zerosFs).1 = .error .notFound :=
  ⟨.one ⟨by decide +kernel, by decide +kernel, by decide +kernel⟩ (by decide +kernel) (by decide +kernel)
    (by decide +kernel), by decide +kernel, by decide +kernel⟩

end Nafuraito.Ext4
