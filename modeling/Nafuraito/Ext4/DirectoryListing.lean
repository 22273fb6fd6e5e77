import Nafuraito.Ext4.ParseBounds

/-! The entries that an iteration over a directory yields, and what a search for a name finds among them. -/
namespace Nafuraito.Ext4
open Nafuraito.Library

/-! ### The entries of a directory -/

/-- The records of a block from `offset` on hold their names and end with the block. -/
inductive Tiles (block : List Byte) : Nat → Prop
  | done : Tiles block block.length
  | record {offset : Nat}
      (hname : 8 + (readDirEntry block offset).nameLen.toNat ≤ (readDirEntry block offset).recLen.toNat)
      (hfits : offset + (readDirEntry block offset).recLen.toNat ≤ block.length)
      (hrest : Tiles block (offset + (readDirEntry block offset).recLen.toNat)) : Tiles block offset

section Image
variable (image : BitVec 64 → List Byte) (geometry : Ext4Geometry)

/-- Whole blocks, each a hole, an error of the block map, or tiled by records. -/
structure TiledDirectory (inode : Ext4Inode) : Prop where
  size : geometry.blockSize.toNat ∣ inode.size64.toNat
  blocks : ∀ k physical, k*geometry.blockSize.toNat < inode.size64.toNat →
    blockAt image geometry inode (BitVec.ofNat 64 k) = .ok physical → physical ≠ 0 → Tiles (image physical) 0

/-- The entries in use from a position on, up to the end or to the first block that cannot be mapped. -/
inductive Lists (inode : Ext4Inode) : BitVec 64 → List Ext4DirEntry → DriverStop → Prop
  | past {position : BitVec 64} (hlt : ¬ position < inode.size64) : Lists inode position [] (.err .notFound)
  | stuck {position : BitVec 64} {e : DriverStop} (hlt : position < inode.size64)
      (hround : roundAt image geometry inode position = .stop e) : Lists inode position [] e
  | skip {position after : BitVec 64} {entries : List Ext4DirEntry} {e : DriverStop} (hlt : position < inode.size64)
      (hround : roundAt image geometry inode position = .skip after) (hrest : Lists inode after entries e) :
      Lists inode position entries e
  | entry {position after : BitVec 64} {entry : Ext4DirEntry} {entries : List Ext4DirEntry} {e : DriverStop}
      (hlt : position < inode.size64) (hround : roundAt image geometry inode position = .entry entry after)
      (hrest : Lists inode after entries e) : Lists inode position (entry :: entries) e

end Image

/-- The inode of the first entry with a name. -/
def firstNamed (entries : List Ext4DirEntry) (name : List Byte) : Option (BitVec 32) :=
  (entries.find? fun entry => entry.nameBytes = name).map Ext4DirEntry.inode

/-! ### The search -/

theorem readDirEntry_name_length (block : List Byte) (offset : Nat) :
    (readDirEntry block offset).name.length = EXT4_NAME_LEN := by
  rw [readDirEntry, List.length_map, List.length_range]

/-- A used entry has the name exactly if the name is the one that it yields. -/
theorem named_iff {block : List Byte} {offset : Nat} (hused : (readDirEntry block offset).inode ≠ 0)
    (name : List Byte) :
    (readDirEntry block offset).Named name ↔ (readDirEntry block offset).nameBytes = name := by
  constructor
  · intro h
    exact h.2.2
  · intro h
    refine ⟨hused, ?_, h⟩
    have hlen : (readDirEntry block offset).nameBytes.length = (readDirEntry block offset).nameLen.toNat := by
      have := (readDirEntry block offset).nameLen.isLt
      rw [Ext4DirEntry.nameBytes, List.length_take, readDirEntry_name_length, EXT4_NAME_LEN]
      omega
    rw [← h, hlen]

theorem firstNamed_cons (entry : Ext4DirEntry) (entries : List Ext4DirEntry) (name : List Byte) :
    firstNamed (entry :: entries) name =
      if entry.nameBytes = name then some entry.inode else firstNamed entries name := by
  rw [firstNamed, List.find?_cons]
  by_cases h : entry.nameBytes = name
  · simp [h]
  · simp [h, firstNamed]

theorem firstNamed_append (entries rest : List Ext4DirEntry) (name : List Byte) :
    firstNamed (entries ++ rest) name = (firstNamed entries name).or (firstNamed rest name) := by
  induction entries with
  | nil => rfl
  | cons entry entries ih =>
    rw [List.cons_append, firstNamed_cons, firstNamed_cons, ih]
    split_ifs <;> rfl

section Search
variable {image : BitVec 64 → List Byte} {geometry : Ext4Geometry} {inode : Ext4Inode}

/-- The places in a block of a directory, in 64 bits. -/
private theorem place_in_block {k offset : Nat} (hlast : (k+1)*geometry.blockSize.toNat ≤ inode.size64.toNat)
    (hoffset : offset < geometry.blockSize.toNat) :
    BitVec.ofNat 64 (k*geometry.blockSize.toNat+offset) < inode.size64 ∧
    BitVec.ofNat 64 (k*geometry.blockSize.toNat+offset) / geometry.blockSize.setWidth 64 = BitVec.ofNat 64 k ∧
    (BitVec.ofNat 64 (k*geometry.blockSize.toNat+offset) % geometry.blockSize.setWidth 64).toNat = offset := by
  have hsize := inode.size64.isLt
  have hk : k ≤ k*geometry.blockSize.toNat := Nat.le_mul_of_pos_right k (by omega)
  rw [Nat.succ_mul] at hlast
  have hplace : (BitVec.ofNat 64 (k*geometry.blockSize.toNat+offset)).toNat = k*geometry.blockSize.toNat+offset :=
    Nat.mod_eq_of_lt (by omega)
  have hblock : (geometry.blockSize.setWidth 64).toNat = geometry.blockSize.toNat :=
    BitVec.toNat_setWidth_of_le (by decide)
  refine ⟨?_, BitVec.eq_of_toNat_eq ?_, ?_⟩
  · rw [BitVec.lt_def, hplace]
    omega
  · rw [BitVec.toNat_udiv, hplace, hblock, BitVec.toNat_ofNat, Nat.mod_eq_of_lt (by omega), Nat.mul_comm,
      Nat.mul_add_div (by omega), Nat.div_eq_of_lt hoffset, Nat.add_zero]
  · rw [BitVec.toNat_umod, hplace, hblock, Nat.mul_comm, Nat.mul_add_mod, Nat.mod_eq_of_lt hoffset]

/-- The rest of a block is skipped as a whole. -/
private theorem place_after {k : Nat} (hlast : (k+1)*geometry.blockSize.toNat ≤ inode.size64.toNat)
    (hpos : 0 < geometry.blockSize.toNat) :
    BitVec.ofNat 64 (k*geometry.blockSize.toNat) + (geometry.blockSize.setWidth 64 -
        BitVec.ofNat 64 (k*geometry.blockSize.toNat) % geometry.blockSize.setWidth 64) =
      BitVec.ofNat 64 ((k+1)*geometry.blockSize.toNat) := by
  have hzero : BitVec.ofNat 64 (k*geometry.blockSize.toNat) % geometry.blockSize.setWidth 64 = 0#64 :=
    BitVec.eq_of_toNat_eq (place_in_block hlast hpos).2.2
  rw [hzero, BitVec.sub_zero, Nat.succ_mul]
  apply BitVec.eq_of_toNat_eq
  rw [BitVec.toNat_add, BitVec.toNat_ofNat, BitVec.toNat_ofNat, BitVec.toNat_setWidth_of_le (by decide),
    Nat.mod_add_mod]

/-- What a block lists before the rest of the directory, and what the search of the block finds. -/
private theorem lists_block {k : Nat} {physical : BitVec 64} {rest : List Ext4DirEntry} {e : DriverStop}
    (hblock : blockAt image geometry inode (BitVec.ofNat 64 k) = .ok physical) (hmapped : physical ≠ 0)
    (hlen : (image physical).length = geometry.blockSize.toNat)
    (hlast : (k+1)*geometry.blockSize.toNat ≤ inode.size64.toNat)
    (hrest : Lists image geometry inode (BitVec.ofNat 64 ((k+1)*geometry.blockSize.toNat)) rest e)
    {offset : Nat} (htiles : Tiles (image physical) offset) :
    ∃ entries, Lists image geometry inode (BitVec.ofNat 64 (k*geometry.blockSize.toNat+offset)) (entries ++ rest) e ∧
      ∀ name n, (image physical).length - offset ≤ n →
        findEntry (image physical) name n offset = firstNamed entries name := by
  induction htiles with
  | done =>
    refine ⟨[], ?_, fun name n _ => ?_⟩
    · rw [hlen, ← Nat.succ_mul]
      exact hrest
    · cases n with
      | zero => rfl
      | succ n => rw [findEntry, if_neg fun hc => Nat.lt_irrefl _ hc.1]; rfl
  | @record offset hname hfits _ ih =>
    obtain ⟨entries, hlists, hfind⟩ := ih
    have hlt : offset < geometry.blockSize.toNat := by omega
    have hreclen : (readDirEntry (image physical) offset).recLen ≠ 0 := fun hz => by
      have : (readDirEntry (image physical) offset).recLen.toNat = 0 := congrArg BitVec.toNat hz
      omega
    obtain ⟨hin, hdiv, hmod⟩ := place_in_block hlast hlt
    have hafter : BitVec.ofNat 64 (k*geometry.blockSize.toNat+offset) +
        (readDirEntry (image physical) offset).recLen.setWidth 64 =
          BitVec.ofNat 64
            (k*geometry.blockSize.toNat+(offset+(readDirEntry (image physical) offset).recLen.toNat)) := by
      apply BitVec.eq_of_toNat_eq
      rw [BitVec.toNat_add, BitVec.toNat_ofNat, BitVec.toNat_ofNat, BitVec.toNat_setWidth_of_le (by decide),
        Nat.mod_add_mod, Nat.add_assoc]
    have hround : roundAt image geometry inode (BitVec.ofNat 64 (k*geometry.blockSize.toNat+offset)) =
        if (readDirEntry (image physical) offset).inode ≠ 0 then .entry (readDirEntry (image physical) offset)
          (BitVec.ofNat 64 (k*geometry.blockSize.toNat+(offset+(readDirEntry (image physical) offset).recLen.toNat)))
        else .skip
          (BitVec.ofNat 64
            (k*geometry.blockSize.toNat+(offset+(readDirEntry (image physical) offset).recLen.toNat))) := by
      rw [roundAt, hdiv, hblock]
      dsimp only
      rw [hmod, if_neg (not_or.mpr ⟨hmapped, hreclen⟩), hafter]
    have hin' : offset < (image physical).length ∧ (readDirEntry (image physical) offset).recLen ≠ 0 :=
      ⟨by omega, hreclen⟩
    by_cases hused : (readDirEntry (image physical) offset).inode ≠ 0
    · rw [if_pos hused] at hround
      refine ⟨readDirEntry (image physical) offset :: entries, .entry hin hround hlists, fun name n hn => ?_⟩
      obtain ⟨n, rfl⟩ := Nat.exists_eq_succ_of_ne_zero (show n ≠ 0 by omega)
      rw [findEntry, if_pos hin', firstNamed_cons, hfind name n (by omega)]
      exact if_congr (named_iff hused name) rfl rfl
    · rw [if_neg hused] at hround
      refine ⟨entries, .skip hin hround hlists, fun name n hn => ?_⟩
      obtain ⟨n, rfl⟩ := Nat.exists_eq_succ_of_ne_zero (show n ≠ 0 by omega)
      rw [findEntry, if_pos hin', if_neg fun hnamed => hused hnamed.1, hfind name n (by omega)]

/-- The result of a search among the entries. -/
def foundIn (entries : List Ext4DirEntry) (e : DriverStop) (name : List Byte) : Except DriverStop (BitVec 32) :=
  match firstNamed entries name with
  | some found => .ok found
  | none => .error e

/-- A search from a position on finds the first of the entries that are listed from there. -/
private def SearchLists (image : BitVec 64 → List Byte) (geometry : Ext4Geometry) (inode : Ext4Inode) (n : Nat)
    (position : BitVec 64) : Prop :=
  ∃ entries e, Lists image geometry inode position entries e ∧
    ∀ rounds name, n < rounds → searchFrom image geometry inode name rounds position = foundIn entries e name

private theorem searchLists_past {n : Nat} {position : BitVec 64} (hlt : ¬ position < inode.size64) :
    SearchLists image geometry inode n position := by
  refine ⟨[], _, .past hlt, fun rounds name hrounds => ?_⟩
  obtain ⟨rounds, rfl⟩ := Nat.exists_eq_succ_of_ne_zero (Nat.ne_zero_of_lt hrounds)
  rw [searchFrom, if_neg hlt]
  rfl

private theorem searchLists_block (hdir : TiledDirectory image geometry inode)
    (hlen : ∀ block, (image block).length = geometry.blockSize.toNat) {k n : Nat}
    (hlast : (k+1)*geometry.blockSize.toNat ≤ inode.size64.toNat) (hpos : 0 < geometry.blockSize.toNat)
    (hrest : SearchLists image geometry inode n (BitVec.ofNat 64 ((k+1)*geometry.blockSize.toNat))) :
    SearchLists image geometry inode (n+1) (BitVec.ofNat 64 (k*geometry.blockSize.toNat)) := by
  obtain ⟨rest, e, hlists, hsearch⟩ := hrest
  obtain ⟨hlt, hdiv, hmod⟩ := place_in_block hlast hpos
  rw [Nat.add_zero] at hlt hdiv hmod
  have hnext : BitVec.ofNat 64 (k*geometry.blockSize.toNat) + geometry.blockSize.setWidth 64 =
      BitVec.ofNat 64 ((k+1)*geometry.blockSize.toNat) := by
    have hskip := place_after hlast hpos
    rwa [show BitVec.ofNat 64 (k*geometry.blockSize.toNat) % geometry.blockSize.setWidth 64 = 0#64 from
      BitVec.eq_of_toNat_eq hmod, BitVec.sub_zero] at hskip
  cases hblock : blockAt image geometry inode (BitVec.ofNat 64 k) with
  | error e' =>
    have hround : roundAt image geometry inode (BitVec.ofNat 64 (k*geometry.blockSize.toNat)) = .stop e' := by
      rw [roundAt, hdiv, hblock]
    refine ⟨[], e', .stuck hlt hround, fun rounds name hrounds => ?_⟩
    obtain ⟨rounds, rfl⟩ := Nat.exists_eq_succ_of_ne_zero (Nat.ne_zero_of_lt hrounds)
    rw [searchFrom, if_pos hlt, hdiv, hblock]
    rfl
  | ok physical =>
    by_cases hzero : physical = 0
    · have hround : roundAt image geometry inode (BitVec.ofNat 64 (k*geometry.blockSize.toNat)) =
          .skip (BitVec.ofNat 64 ((k+1)*geometry.blockSize.toNat)) := by
        rw [roundAt, hdiv, hblock]
        dsimp only
        rw [if_pos (.inl hzero), place_after hlast hpos]
      refine ⟨rest, e, .skip hlt hround hlists, fun rounds name hrounds => ?_⟩
      obtain ⟨rounds, rfl⟩ := Nat.exists_eq_succ_of_ne_zero (Nat.ne_zero_of_lt hrounds)
      rw [searchFrom, if_pos hlt, hdiv, hblock]
      dsimp only
      rw [if_pos hzero, hnext]
      exact hsearch rounds name (Nat.lt_of_succ_lt_succ hrounds)
    · have hk : k*geometry.blockSize.toNat < inode.size64.toNat := by
        rw [Nat.succ_mul] at hlast
        omega
      obtain ⟨entries, hblocks, hfind⟩ :=
        lists_block hblock hzero (hlen physical) hlast hlists (hdir.blocks k physical hk hblock hzero)
      refine ⟨entries ++ rest, e, hblocks, fun rounds name hrounds => ?_⟩
      obtain ⟨rounds, rfl⟩ := Nat.exists_eq_succ_of_ne_zero (Nat.ne_zero_of_lt hrounds)
      rw [searchFrom, if_pos hlt, hdiv, hblock]
      dsimp only
      rw [if_neg hzero, hfind name _ (hlen physical).le, hnext, foundIn, firstNamed_append]
      cases firstNamed entries name with
      | some found => rfl
      | none => exact hsearch rounds name (Nat.lt_of_succ_lt_succ hrounds)

private theorem searchLists_from (hdir : TiledDirectory image geometry inode)
    (hlen : ∀ block, (image block).length = geometry.blockSize.toNat) {blocks n k : Nat}
    (hsize : inode.size64.toNat = blocks*geometry.blockSize.toNat) (hk : blocks = k+n) :
    SearchLists image geometry inode n (BitVec.ofNat 64 (k*geometry.blockSize.toNat)) := by
  induction n generalizing k with
  | zero =>
    apply searchLists_past
    have := inode.size64.isLt
    rw [BitVec.lt_def, BitVec.toNat_ofNat, hsize, hk, Nat.add_zero] at *
    rw [Nat.mod_eq_of_lt this]
    exact Nat.lt_irrefl _
  | succ n ih =>
    rcases Nat.eq_zero_or_pos geometry.blockSize.toNat with hz | hpos
    · apply searchLists_past
      rw [BitVec.lt_def, hsize, hz]
      exact Nat.not_lt_zero _
    · refine searchLists_block hdir hlen ?_ hpos (ih (by omega))
      rw [hsize]
      exact Nat.mul_le_mul_right _ (by omega)

theorem searchLists (hdir : TiledDirectory image geometry inode)
    (hlen : ∀ block, (image block).length = geometry.blockSize.toNat) :
    ∃ bound entries e, Lists image geometry inode 0 entries e ∧
      ∀ rounds name, bound < rounds → searchFrom image geometry inode name rounds 0 = foundIn entries e name := by
  obtain ⟨blocks, hblocks⟩ := hdir.size
  rw [Nat.mul_comm] at hblocks
  have hall := searchLists_from hdir hlen hblocks (Nat.zero_add blocks).symm
  rw [Nat.zero_mul] at hall
  exact ⟨blocks, hall⟩

/-- An error of the block map, or a block past the last pointer of an inode without extents. -/
theorem blockAt_error {block : BitVec 64} {e : DriverStop} (h : blockAt image geometry inode block = .error e) :
    (∃ e', e = .err e') ∨
      e = .panic .outOfRange ∧ ¬ inode.usesExtents ∧ Driver.indirectBlocks geometry ≤ block.toNat := by
  rw [blockAt] at h
  by_cases hext : inode.usesExtents
  · rw [if_pos hext] at h
    split at h
    · split at h
      · cases h
      · exact .inl ⟨_, (Except.error.inj h).symm⟩
    · exact .inl ⟨_, (Except.error.inj h).symm⟩
  · rw [if_neg hext] at h
    split at h
    · cases h
    · rename_i hlt
      exact .inr ⟨(Except.error.inj h).symm, hext, Nat.le_of_not_lt hlt⟩

/-- The iteration ends in an error, unless the directory has more blocks than its pointers reach. -/
theorem Lists.ends {position : BitVec 64} {entries : List Ext4DirEntry} {e : DriverStop}
    (h : Lists image geometry inode position entries e) :
    (∃ e', e = .err e') ∨ e = .panic .outOfRange ∧ ¬ inode.usesExtents ∧
      Driver.indirectBlocks geometry*geometry.blockSize.toNat < inode.size64.toNat := by
  induction h with
  | past => exact .inl ⟨_, rfl⟩
  | @stuck position e hlt hround =>
    refine (blockAt_error (roundAt_stop hround)).imp id fun ⟨he, hext, hle⟩ => ⟨he, hext, ?_⟩
    rw [BitVec.toNat_udiv, BitVec.toNat_setWidth_of_le (by decide)] at hle
    exact (Nat.mul_le_of_le_div _ _ _ hle).trans_lt (BitVec.lt_def.mp hlt)
  | skip _ _ _ ih => exact ih
  | entry _ _ _ ih => exact ih

end Search

/-! ### The iteration -/

namespace Ext4DirIterator
variable {D : Type} {ops : Ext4BlockOps D} {image : BitVec 64 → List Byte} {geometry : Ext4Geometry}
variable {good : Ext4Filesystem D → Prop} {inode : Ext4Inode}

/-- The loop of one call, and the calls after it. -/
private def Continues (ops : Ext4BlockOps D) (geometry : Ext4Geometry) (rounds n : Nat) (buffer : List Byte)
    (s : Ext4Filesystem D × Ext4DirIterator) (entries : List Ext4DirEntry) (e : DriverStop) : Prop :=
  (∃ t, entries = [] ∧ readFrom false ops geometry n buffer s = (.error e, t)) ∨
    ∃ entry rest t, entries = entry :: rest ∧ readFrom false ops geometry n buffer s = (.ok entry, t) ∧
      Fallible.Yields (read false ops geometry rounds) t rest e

variable (h : Driver.ReadsOnly ops image geometry good)
include h

private theorem round_lenient {fs : Ext4Filesystem D} (hs : fs.blockSize = geometry.blockSize) (hg : good fs)
    {position : BitVec 64} (hlt : position < inode.size64) {buffer : List Byte}
    (hlen : buffer.length = geometry.blockSize.toNat) :
    ∃ fs' buffer', fs'.blockSize = geometry.blockSize ∧ good fs' ∧ buffer'.length = geometry.blockSize.toNat ∧
      ∀ rounds, readFrom false ops geometry (rounds+1) buffer (fs, ⟨inode, position, inode.size64⟩) =
        afterRound false ops geometry fs' ⟨inode, position, inode.size64⟩ buffer' rounds
          (roundAt image geometry inode position) := by
  have hround := readFrom_round (s := (fs, ⟨inode, position, inode.size64⟩)) h
    (fun hstrict => absurd hstrict Bool.false_ne_true) hs hlen hlt fun hstrict => absurd hstrict Bool.false_ne_true
  obtain ⟨fs', buffer', hs', hgood, hlen', hrun | ⟨hbad, -⟩⟩ := hround
  · exact ⟨fs', buffer', hs', hgood hg, hlen', hrun⟩
  · exact absurd hg hbad

private theorem Continues.yields {rounds : Nat} {position : BitVec 64} {entries : List Ext4DirEntry} {e : DriverStop}
    (hcontinues : ∀ fs buffer, fs.blockSize = geometry.blockSize → good fs →
      buffer.length = geometry.blockSize.toNat →
      Continues ops geometry rounds rounds buffer (fs, ⟨inode, position, inode.size64⟩) entries e)
    {fs : Ext4Filesystem D} (hs : fs.blockSize = geometry.blockSize) (hg : good fs) :
    Fallible.Yields (read false ops geometry rounds) (fs, ⟨inode, position, inode.size64⟩) entries e := by
  obtain ⟨fs', hs', hgood, hrun | ⟨hbad, -⟩⟩ :=
    onFs_cases h.kernelAllocBytes_returns (fs, ⟨inode, position, inode.size64⟩) hs
  · have hread : read false ops geometry rounds (fs, ⟨inode, position, inode.size64⟩) = readFrom false ops geometry
        rounds (List.replicate geometry.blockSize.toNat 0) (fs', ⟨inode, position, inode.size64⟩) :=
      Fallible.bind_of_ok hrun
    rcases hcontinues fs' _ hs' (hgood hg) List.length_replicate with ⟨t, rfl, h⟩ | ⟨entry, rest, t, rfl, h, hrest⟩
    · exact .stop (hread.trans h)
    · exact .next (hread.trans h) hrest
  · exact absurd hg hbad

/-- With rounds enough every call comes to the next entry of the directory. -/
private theorem continues_of_lists {position : BitVec 64} {entries : List Ext4DirEntry} {e : DriverStop}
    (hlists : Lists image geometry inode position entries e) :
    ∃ bound, ∀ rounds n, bound ≤ rounds → bound ≤ n → ∀ fs buffer, fs.blockSize = geometry.blockSize → good fs →
      buffer.length = geometry.blockSize.toNat →
      Continues ops geometry rounds n buffer (fs, ⟨inode, position, inode.size64⟩) entries e := by
  induction hlists with
  | past hlt =>
    refine ⟨1, fun rounds n _ hn fs buffer hs hg hlen => ?_⟩
    obtain ⟨n, rfl⟩ := Nat.exists_eq_succ_of_ne_zero (Nat.pos_iff_ne_zero.mp hn)
    exact .inl ⟨_, rfl, readFrom_past hlt n buffer⟩
  | stuck hlt hround =>
    refine ⟨1, fun rounds n _ hn fs buffer hs hg hlen => ?_⟩
    obtain ⟨n, rfl⟩ := Nat.exists_eq_succ_of_ne_zero (Nat.pos_iff_ne_zero.mp hn)
    obtain ⟨fs', buffer', -, -, -, hrun⟩ := round_lenient h hs hg hlt hlen
    rw [hround] at hrun
    exact .inl ⟨_, rfl, hrun n⟩
  | skip hlt hround _ ih =>
    obtain ⟨bound, ih⟩ := ih
    refine ⟨bound+1, fun rounds n hrounds hn fs buffer hs hg hlen => ?_⟩
    obtain ⟨n, rfl⟩ := Nat.exists_eq_succ_of_ne_zero (Nat.ne_zero_of_lt hn)
    obtain ⟨fs', buffer', hs', hg', hlen', hrun⟩ := round_lenient h hs hg hlt hlen
    rw [hround] at hrun
    have hrest := ih rounds n (by omega) (by omega) fs' buffer' hs' hg' hlen'
    rcases hrest with ⟨t, hnil, hstop⟩ | ⟨entry, rest, t, hcons, hok, hyields⟩
    · exact .inl ⟨t, hnil, (hrun n).trans hstop⟩
    · exact .inr ⟨entry, rest, t, hcons, (hrun n).trans hok, hyields⟩
  | entry hlt hround _ ih =>
    obtain ⟨bound, ih⟩ := ih
    refine ⟨bound+1, fun rounds n hrounds hn fs buffer hs hg hlen => ?_⟩
    obtain ⟨n, rfl⟩ := Nat.exists_eq_succ_of_ne_zero (Nat.ne_zero_of_lt hn)
    obtain ⟨fs', buffer', hs', hg', -, hrun⟩ := round_lenient h hs hg hlt hlen
    rw [hround] at hrun
    exact .inr ⟨_, _, _, rfl, hrun n, Continues.yields h (ih rounds rounds (by omega) (by omega)) hs' hg'⟩

/-- The calls yield the entries of the directory. -/
theorem yields_of_lists {position : BitVec 64} {entries : List Ext4DirEntry} {e : DriverStop}
    (hlists : Lists image geometry inode position entries e) :
    ∃ bound, ∀ rounds, bound ≤ rounds → ∀ fs, fs.blockSize = geometry.blockSize → good fs →
      Fallible.Yields (read false ops geometry rounds) (fs, ⟨inode, position, inode.size64⟩) entries e := by
  obtain ⟨bound, hbound⟩ := continues_of_lists h hlists
  exact ⟨bound, fun rounds hrounds fs hs hg => Continues.yields h (hbound rounds rounds hrounds hrounds) hs hg⟩

end Ext4DirIterator
/-! ### Search and iteration -/

namespace Driver
variable {D : Type} {ops : Ext4BlockOps D} {image : BitVec 64 → List Byte} {geometry : Ext4Geometry}
variable {good : Ext4Filesystem D → Prop}

/-- A search returns the first entry with the name among those that an iteration yields until it ends, and without
one it ends alike. -/
theorem dirFindEntry_iteration (h : ReadsOnly ops image geometry good) {inode : Ext4Inode}
    (hdir : TiledDirectory image geometry inode) :
    ∃ bound entries stop,
      ((∃ e, stop = .err e) ∨ stop = .panic .outOfRange ∧ ¬ inode.usesExtents ∧
        indirectBlocks geometry*geometry.blockSize.toNat < inode.size64.toNat) ∧
      ∀ rounds, bound < rounds → ∀ fs, fs.blockSize = geometry.blockSize → good fs →
        Fallible.Yields (Ext4DirIterator.read false ops geometry rounds) (fs, ⟨inode, 0, inode.size64⟩) entries stop ∧
        ∀ name, (dirFindEntry false ops geometry rounds inode name fs).1 = foundIn entries stop name := by
  obtain ⟨boundSearch, entries, stop, hlists, hsearch⟩ := searchLists hdir h.length
  obtain ⟨boundRead, hread⟩ := Ext4DirIterator.yields_of_lists h hlists
  refine ⟨max boundSearch boundRead, entries, stop, hlists.ends, fun rounds hrounds fs hs hg => ⟨?_, fun name => ?_⟩⟩
  · exact hread rounds (by omega) fs hs hg
  · have hfind : Expected geometry good _ (dirFindEntry false ops geometry rounds inode name) :=
      h.dirFindEntry_returns (fun hstrict => absurd hstrict Bool.false_ne_true) inode name rounds
        fun hstrict => absurd hstrict Bool.false_ne_true
    rw [hfind.eq hs hg]
    exact hsearch rounds name (by omega)

/-- The directory with the entries "." and "a". -/
theorem fullBlock_iteration : ∃ bound entries stop,
    ((∃ e, stop = .err e) ∨ stop = .panic .outOfRange ∧ ¬ oneBlockDir.usesExtents ∧
      indirectBlocks magicOnly.geometry*magicOnly.geometry.blockSize.toNat < oneBlockDir.size64.toNat) ∧
    ∀ rounds, bound < rounds → ∀ fs, fs.blockSize = magicOnly.geometry.blockSize → (∀ n, fs.kmalloc n = true) →
      Fallible.Yields (Ext4DirIterator.read false (imageOps fun _ => fullBlock) magicOnly.geometry rounds)
        (fs, ⟨oneBlockDir, 0, oneBlockDir.size64⟩) entries stop ∧
      ∀ name, (dirFindEntry false (imageOps fun _ => fullBlock) magicOnly.geometry rounds oneBlockDir name fs).1 =
        foundIn entries stop name := by
  have hsize : magicOnly.geometry.blockSize.toNat = 1024 := by decide +kernel
  have hlen : fullBlock.length = magicOnly.geometry.blockSize.toNat := by decide +kernel
  have hread : ReadsOnly (imageOps fun _ => fullBlock) (fun _ => fullBlock) magicOnly.geometry
      (fun fs => ∀ n, fs.kmalloc n = true) := imageOps_readsOnly (by omega) fun _ => hlen
  have hlast : Tiles fullBlock 1024 := by
    rw [show 1024 = fullBlock.length by decide +kernel]
    exact .done
  have htiles : Tiles fullBlock 0 := by
    refine .record (by decide +kernel) (by decide +kernel) (.record (by decide +kernel) (by decide +kernel) ?_)
    exact (show 0 + (readDirEntry fullBlock 0).recLen.toNat +
      (readDirEntry fullBlock (0 + (readDirEntry fullBlock 0).recLen.toNat)).recLen.toNat = 1024
      by decide +kernel) ▸ hlast
  exact dirFindEntry_iteration hread ⟨by rw [hsize]; decide +kernel, fun _ _ _ _ _ => htiles⟩

end Driver
end Nafuraito.Ext4
