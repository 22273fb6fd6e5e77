import Nafuraito.Ext4.BootDirectories
import Nafuraito.Ext4.PathComponents

/-! When the bootloader and the kernel look up a path alike. -/
namespace Nafuraito.Ext4
open Nafuraito.Library

theorem length_of_mem_pieces {name piece : List Byte} (h : piece ∈ pieces name) : piece.length ≤ EXT4_NAME_LEN := by
  by_cases hne : name = []
  · rw [hne, pieces_nil] at h
    cases h
  · rw [pieces_of_ne_nil hne] at h
    rcases List.mem_cons.mp h with rfl | h
    · exact List.length_take_le _ _
    · exact length_of_mem_pieces h
termination_by name.length
decreasing_by
  have := List.length_pos_iff.mpr hne
  rw [List.length_drop, EXT4_NAME_LEN]
  omega

namespace Boot.Loader
open Ata (Drive)

/-! ### The bootloader's fold over the pieces -/

section Fold
variable (ctx : Ext4BootContext)

/-- The pieces from left to right. -/
def resolve : List (List Byte) → BitVec 32 → Op (BitVec 32)
  | [], current => pure current
  | name :: names, current => do
    let inode ← ext4ReadInode ctx current
    let found ← ext4DirFindEntry ctx inode name
    resolve names found

theorem deref_iff {p : List Byte} (hnul : 0 ∉ p) : deref p = 0 ↔ p = [] := by
  cases p with
  | nil => exact ⟨fun _ => rfl, fun _ => rfl⟩
  | cons b p => exact ⟨fun hb => absurd (hb ▸ List.mem_cons_self) hnul, fun h => by cases h⟩

theorem pathComponent_eq {p : List Byte} (hnul : 0 ∉ p) : pathComponent p = Driver.pathComponent p := by
  rw [pathComponent, Driver.pathComponent]
  congr 1
  induction p with
  | nil => rfl
  | cons b p ih =>
    have hb : b ≠ 0 := fun h => hnul (h ▸ List.mem_cons_self)
    rw [List.takeWhile_cons, List.takeWhile_cons, ih fun h => hnul (List.mem_cons_of_mem _ h)]
    simp only [ne_eq, hb, not_false_eq_true, true_and]

private theorem lookupFrom_pieces {n : Nat} {p : List Byte} (hn : p.length ≤ n) (hnul : 0 ∉ p) (current : BitVec 32) :
    lookupFrom ctx n p current = resolve ctx ((pathComponents p).flatMap pieces) current := by
  induction n generalizing p current with
  | zero =>
    rw [List.length_eq_zero_iff.mp (Nat.le_zero.mp hn)]
    rfl
  | succ n ih =>
    rw [lookupFrom, pathComponent_eq hnul]
    by_cases hp : p = []
    · rw [if_pos ((deref_iff hnul).mpr hp), hp]
      rfl
    · rw [if_neg fun hd => hp ((deref_iff hnul).mp hd)]
      by_cases hname : Driver.pathComponent p = []
      · rw [if_pos hname]
        obtain ⟨q, rfl⟩ := Driver.slash_of_pathComponent_nil hp hname
        rw [pathComponents_slash]
        exact ih (Nat.le_of_succ_le_succ hn) (fun h => hnul (List.mem_cons_of_mem _ h)) current
      · rw [if_neg hname, flatMap_pieces_step hname, resolve]
        have hlt := Driver.pathComponent_length_pos hname
        have hrest : 0 ∉ Driver.skipSlashes (p.drop (Driver.pathComponent p).length) := fun h =>
          hnul (List.mem_of_mem_drop ((List.dropWhile_suffix _).subset h))
        exact congrArg _ (funext fun inode => congrArg _ (funext fun found => ih (by omega) hrest found))

/-- A path without a NUL is looked up as the fold over the pieces of its components. -/
theorem ext4LookupPath_pieces {path : List Byte} (hnul : 0 ∉ path) :
    ext4LookupPath ctx path = resolve ctx ((pathComponents path).flatMap pieces) EXT4_ROOT_INODE := by
  have hskip : 0 ∉ Driver.skipSlashes path := fun h => hnul ((List.dropWhile_suffix _).subset h)
  rw [ext4LookupPath, ← pathComponents_skip path]
  by_cases hp : Driver.skipSlashes path = []
  · rw [if_pos ((deref_iff hskip).mpr hp), hp]
    rfl
  · rw [if_neg fun hd => hp ((deref_iff hskip).mp hd), lookupFrom_pieces ctx le_rfl hskip]

end Fold
/-! ### Its way through an image -/

section Way
variable (image : BitVec 64 → List Byte) (sb : PackedSuperblock)

/-- Where the pieces lead the bootloader that reads the kernel's inodes. -/
def bootResolve : List (List Byte) → BitVec 32 → Except BootStop (BitVec 32)
  | [], current => .ok current
  | name :: names, current => match inodeIn image sb.geometry current with
    | .error _ => .error (.err .invalid)
    | .ok inode => (bootSearch image sb.geometry inode name).bind (bootResolve names)

/-- Each inode on the bootloader's way has its table where the bootloader looks for it. -/
def HighHalves : List (List Byte) → BitVec 32 → Prop
  | [], current => HighHalf image sb current
  | name :: names, current => HighHalf image sb current ∧ ∀ inode, inodeIn image sb.geometry current = .ok inode →
      ∀ k < sb.geometry.blocksOf inode.iSizeLo.toNat, ∀ found,
        FirstHit (entryIn image sb.geometry inode name) k found → HighHalves names found

/-- Each inode that is searched is a directory or else searchable for the name. -/
def Searched : List (List Byte) → BitVec 32 → Prop
  | [], _ => True
  | name :: names, current => ∀ inode, inodeIn image sb.geometry current = .ok inode →
      (inode.isDir ∨ Searchable image sb.geometry inode name) ∧
      ∀ k < sb.geometry.blocksOf inode.size64.toNat, ∀ found,
        FirstHit (entryIn image sb.geometry inode name) k found → Searched names found

/-- The names have first entries, one after the other, in blocks that `near` allows. -/
def Leads (near : Ext4Inode → List Byte → Nat → Prop) : List (List Byte) → BitVec 32 → Prop
  | [], _ => True
  | name :: names, current => ∃ inode, inodeIn image sb.geometry current = .ok inode ∧
      ∃ found, (∃ k, near inode name k ∧ FirstHit (entryIn image sb.geometry inode name) k found) ∧
        Leads near names found

/-- The block lies in the low half of the size. -/
def InLow (inode : Ext4Inode) (_name : List Byte) (k : Nat) : Prop := k < sb.geometry.blocksOf inode.iSizeLo.toNat

/-- All blocks of the file before this one are mapped. -/
def Mapped (inode : Ext4Inode) (name : List Byte) (k : Nat) : Prop :=
  k < sb.geometry.blocksOf inode.size64.toNat ∧ ∀ j < k, Readable (entryIn image sb.geometry inode name) j

/-- Wherever a search comes to an entry, its block lies in the low half of the size and all blocks before it are
mapped, or neither, or the rest of the path has no entries for the one that finds this entry alone. -/
def Alike : List (List Byte) → BitVec 32 → Prop
  | [], _ => True
  | name :: names, current => ∀ inode, inodeIn image sb.geometry current = .ok inode →
      ∀ k < sb.geometry.blocksOf inode.size64.toNat, ∀ found,
        FirstHit (entryIn image sb.geometry inode name) k found →
        let low := k < sb.geometry.blocksOf inode.iSizeLo.toNat
        let mapped := ∀ j < k, Readable (entryIn image sb.geometry inode name) j
        (low → mapped → Alike names found) ∧
        (low → ¬mapped → ¬Leads image sb (InLow sb) names found) ∧
        (¬low → mapped → ¬Leads image sb (Mapped image sb) names found)

end Way

/-- The groups have an inode for every number in use. -/
theorem inodeIn_found {image : BitVec 64 → List Byte} {sb : PackedSuperblock} (hw : WellFormedImage sb image)
    {inodeNum : BitVec 32} (h : InUse image sb.geometry inodeNum) :
    ∃ inode, inodeIn image sb.geometry inodeNum = .ok inode :=
  ⟨_, inodeIn_eq hw h⟩

/-- The high halves of the tables are found without the 64-bit feature and in descriptors that have them. -/
theorem highHalves_of_wide {image : BitVec 64 → List Byte} {sb : PackedSuperblock} (hw : WellFormedImage sb image)
    (hwide : sb.use64bit = true → 0x2C ≤ sb.descSize.toNat) (names : List (List Byte)) (current : BitVec 32) :
    HighHalves image sb names current := by
  induction names generalizing current with
  | nil => exact highHalf_of_wide hw hwide current
  | cons name names ih => exact ⟨highHalf_of_wide hw hwide current, fun _ _ _ _ found _ => ih found⟩

/-- A search finds inodes in use, and the rest of the path is searched from there. -/
theorem Searched.step {image : BitVec 64 → List Byte} {sb : PackedSuperblock} (hw : WellFormedImage sb image)
    {current : BitVec 32} (hn : InUse image sb.geometry current) {name : List Byte} {names : List (List Byte)}
    (h : Searched image sb (name :: names) current) {inode : Ext4Inode}
    (hinode : inodeIn image sb.geometry current = .ok inode) :
    Searchable image sb.geometry inode name ∧ ∀ k < sb.geometry.blocksOf inode.size64.toNat, ∀ found,
      FirstHit (entryIn image sb.geometry inode name) k found →
        InUse image sb.geometry found ∧ Searched image sb names found := by
  obtain ⟨hsearch, hrest⟩ := h inode hinode
  have hsearchable : Searchable image sb.geometry inode name :=
    hsearch.elim (fun hdir => hw.searchable hn hinode hdir name) id
  exact ⟨hsearchable, fun k hk found hfirst => ⟨hsearchable.found k hk found hfirst.hit, hrest k hk found hfirst⟩⟩

section Gives
variable {sb : PackedSuperblock} {partLba : BitVec 64} {good : Drive → Prop} {sectors : Nat → Vector (BitVec 8) 512}
variable (hw : WellFormedImage sb (seen (contextOf sb partLba) sectors)) (h : ReadsBlocks (contextOf sb partLba) good)
include hw h

/-- The fold over the pieces, and what follows it at an inode in use. -/
theorem resolve_gives {α : Type} {f : BitVec 32 → Op α} {r : BitVec 32 → Except BootStop α}
    (hf : ∀ last, InUse (seen (contextOf sb partLba) sectors) sb.geometry last →
      HighHalf (seen (contextOf sb partLba) sectors) sb last → Gives good sectors (r last) (f last))
    {names : List (List Byte)} (hnames : ∀ name ∈ names, name.length ≤ EXT4_NAME_LEN) {current : BitVec 32}
    (hn : InUse (seen (contextOf sb partLba) sectors) sb.geometry current)
    (hhigh : HighHalves (seen (contextOf sb partLba) sectors) sb names current)
    (hsearched : Searched (seen (contextOf sb partLba) sectors) sb names current) :
    Gives good sectors ((bootResolve (seen (contextOf sb partLba) sectors) sb names current).bind r)
      (resolve (contextOf sb partLba) names current >>= f) := by
  induction names generalizing current with
  | nil => exact hf current hn hhigh
  | cons name names ih =>
    obtain ⟨hhigh, hhighs⟩ := hhigh
    obtain ⟨inode', hinode⟩ := inodeIn_found hw hn
    obtain ⟨hsearchable, hrest⟩ := hsearched.step hw hn hinode
    rw [resolve, bootResolve, hinode, Fallible.bind_assoc]
    apply ext4ReadInode_gives hw h hn hhigh hinode
    intro inode hsame
    rw [Fallible.bind_assoc]
    have hfind := ext4DirFindEntry_gives hw h hsame (hw.files current inode' hn hinode) hsearchable.inside
      (hnames name List.mem_cons_self)
    dsimp only
    cases hboot : bootSearch (seen (contextOf sb partLba) sectors) sb.geometry inode' name with
    | error e =>
      rw [hboot] at hfind
      exact hfind.bind_error
    | ok found =>
      rw [hboot] at hfind
      obtain ⟨k, hk, hfirst⟩ := search_skipping_ok_iff.mp hboot
      have hpos : 0 < sb.geometry.blockSize.toNat := (Nat.lt_of_lt_of_le (by decide) (blockSize_bounds hw).1)
      obtain ⟨hfound, hnext⟩ := hrest k (hk.trans_le (blocksOf_mono hpos (iSizeLo_le inode'))) found hfirst
      exact .bind hfind (ih (fun name hmem => hnames name (List.mem_cons_of_mem _ hmem)) hfound
        (hhighs inode' hinode k hk found hfirst) hnext)

end Gives
/-! ### The two ways -/

section Ways
variable {sb : PackedSuperblock} {image : BitVec 64 → List Byte}

theorem IsFile.size_le {blockSize : Nat} {inode : Ext4Inode} (h : IsFile image blockSize inode)
    (hle : blockSize ≤ 4096) : inode.size64.toNat ≤ 2^32 * blockSize := by
  by_cases hext : inode.usesExtents
  · exact h.size_tree hext
  · refine (h.size_pointers hext).trans (Nat.mul_le_mul_right _ ?_)
    have hq : blockSize/4 ≤ 1024 := by omega
    have hsquare := Nat.mul_le_mul hq hq
    have hcube := Nat.mul_le_mul hq hsquare
    omega

/-- The kernel's search with rounds for every block. -/
theorem searchFrom_search (hw : WellFormedImage sb image) {inode : Ext4Inode}
    (hfile : IsFile image sb.blockSize.toNat inode) {rounds : Nat} (hrounds : 2^32 < rounds) (name : List Byte) :
    searchFrom image sb.geometry inode name rounds 0 =
      search (entryIn image sb.geometry inode name) (.err .notFound) 0 (sb.geometry.blocksOf inode.size64.toNat) := by
  have hb := blockSize_bounds hw
  have hpos : 0 < sb.geometry.blockSize.toNat := by change 0 < sb.blockSize.toNat; omega
  have hsize : inode.size64.toNat ≤ 2^32 * sb.geometry.blockSize.toNat := IsFile.size_le hfile hb.2
  have hall := blocksOf_le hpos hsize
  have hsearch : searchFrom image sb.geometry inode name rounds (BitVec.ofNat 64 (0*sb.geometry.blockSize.toNat)) = _ :=
    searchFrom_eq hpos hb.2 hsize name rounds 0 (Nat.zero_le _) (by omega)
  rwa [Nat.zero_mul, Nat.sub_zero] at hsearch

private theorem bind_ok_iff {ε α β : Type} {x : Except ε α} {f : α → Except ε β} {b : β} :
    x.bind f = .ok b ↔ ∃ a, x = .ok a ∧ f a = .ok b := by
  cases x with
  | error e =>
    refine ⟨fun h => (by cases h), fun h => ?_⟩
    obtain ⟨_, h, -⟩ := h
    cases h
  | ok a =>
    refine ⟨fun h => ⟨a, rfl, h⟩, fun h => ?_⟩
    obtain ⟨_, h, hf⟩ := h
    exact Except.ok.inj h ▸ hf

/-- The bootloader comes to an end exactly if it is led there. -/
theorem bootResolve_leads {names : List (List Byte)} {current : BitVec 32} :
    (∃ last, bootResolve image sb names current = .ok last) ↔ Leads image sb (InLow sb) names current := by
  induction names generalizing current with
  | nil => exact ⟨fun _ => trivial, fun _ => ⟨current, rfl⟩⟩
  | cons name names ih =>
    rw [bootResolve, Leads]
    cases hinode : inodeIn image sb.geometry current with
    | error e =>
      constructor
      · rintro ⟨_, h⟩
        cases h
      · rintro ⟨_, h, -⟩
        cases h
    | ok inode =>
      simp only [bind_ok_iff, bootSearch, search_skipping_ok_iff]
      rw [exists_comm]
      constructor
      · rintro ⟨found, last, hfirst, hlast⟩
        exact ⟨inode, rfl, found, hfirst, ih.mp ⟨last, hlast⟩⟩
      · rintro ⟨inode', heq, found, hfirst, hleads⟩
        obtain ⟨last, hlast⟩ := ih.mpr hleads
        obtain rfl := Except.ok.inj heq
        exact ⟨found, last, hfirst, hlast⟩

/-- The kernel comes to an end exactly if it is led there. -/
theorem resolveIn_leads (hw : WellFormedImage sb image) {rounds : Nat} (hrounds : 2^32 < rounds)
    {names : List (List Byte)} {current : BitVec 32} (hn : InUse image sb.geometry current)
    (hsearched : Searched image sb names current) :
    (∃ last, resolveIn image sb.geometry (groupDescsOf image sb.geometry) rounds names current = .ok last) ↔
      Leads image sb (Mapped image sb) names current := by
  induction names generalizing current with
  | nil => exact ⟨fun _ => trivial, fun _ => ⟨current, rfl⟩⟩
  | cons name names ih =>
    obtain ⟨inode, hinode⟩ := inodeIn_found hw hn
    obtain ⟨-, hrest⟩ := hsearched.step hw hn hinode
    rw [resolveIn_ok hinode, searchFrom_search hw (hw.files current inode hn hinode) hrounds, Leads]
    simp only [bind_ok_iff, search_ok_iff]
    rw [exists_comm]
    constructor
    · rintro ⟨found, last, ⟨k, hk, hfirst, hread⟩, hlast⟩
      obtain ⟨hfound, hnext⟩ := hrest k hk found hfirst
      exact ⟨inode, hinode, found, ⟨k, ⟨hk, hread⟩, hfirst⟩, (ih hfound hnext).mp ⟨last, hlast⟩⟩
    · rintro ⟨inode', heq, found, ⟨k, ⟨hk, hread⟩, hfirst⟩, hleads⟩
      obtain rfl := Except.ok.inj (hinode.symm.trans heq)
      obtain ⟨hfound, hnext⟩ := hrest k hk found hfirst
      obtain ⟨last, hlast⟩ := (ih hfound hnext).mpr hleads
      exact ⟨found, last, ⟨k, hk, hfirst, hread⟩, hlast⟩

/-- The two resolve searched pieces alike exactly if the searches are alike. -/
theorem bootResolve_iff (hw : WellFormedImage sb image) {rounds : Nat} (hrounds : 2^32 < rounds)
    {names : List (List Byte)} {current : BitVec 32} (hn : InUse image sb.geometry current)
    (hsearched : Searched image sb names current) :
    (∀ last, bootResolve image sb names current = .ok last ↔
        resolveIn image sb.geometry (groupDescsOf image sb.geometry) rounds names current = .ok last) ↔
      Alike image sb names current := by
  induction names generalizing current with
  | nil =>
    exact ⟨fun _ => trivial, fun _ last =>
      ⟨fun h => congrArg Except.ok (Except.ok.inj h), fun h => congrArg Except.ok (Except.ok.inj h)⟩⟩
  | cons name names ih =>
    obtain ⟨inode, hinode⟩ := inodeIn_found hw hn
    obtain ⟨-, hrest⟩ := hsearched.step hw hn hinode
    have hpos : 0 < sb.geometry.blockSize.toNat := (Nat.lt_of_lt_of_le (by decide) (blockSize_bounds hw).1)
    have hle := blocksOf_mono hpos (iSizeLo_le inode)
    have hone (P : Ext4Inode → Prop) : (∀ inode', inodeIn image sb.geometry current = .ok inode' → P inode') ↔
        P inode := by
      rw [hinode]
      exact ⟨fun h => h inode rfl, fun h inode' heq => Except.ok.inj heq ▸ h⟩
    rw [Alike, hone, bootResolve, hinode, resolveIn_ok hinode,
      searchFrom_search hw (hw.files current inode hn hinode) hrounds]
    simp only [bind_ok_iff, bootSearch, search_skipping_ok_iff]
    simp only [search_ok_iff]
    rw [follows_alike_iff hle fun k hk found hfirst =>
      ih (hrest k (hk.trans_le hle) found hfirst).1 (hrest k (hk.trans_le hle) found hfirst).2]
    refine forall₂_congr fun k hk => forall₂_congr fun found hfirst => ?_
    rw [bootResolve_leads, resolveIn_leads hw hrounds (hrest k hk found hfirst).1 (hrest k hk found hfirst).2]

end Ways
/-! ### Whole paths -/

/-- Both find the same inode number and the same size of the file, or neither finds one. -/
structure ResolvesAlike {D : Type} (ctx : Ext4BootContext) (ops : Ext4BlockOps D) (geometry : Ext4Geometry)
    (groupDescs : List Ext4GroupDesc) (rounds : Nat) (path : List Byte) (s : Loader) (fs : Ext4Filesystem D) :
      Prop where
  number : ∀ inodeNum, (ext4LookupPath ctx path s).1 = .ok inodeNum ↔
    (Driver.lookupPath false ops geometry groupDescs rounds path fs).1 = .ok inodeNum
  size : ∀ size, (inodeOf ctx path s).1.map Ext4Inode.size64 = .ok size ↔
    (Driver.openMmapFile false ops geometry groupDescs rounds path fs).1.map Ext4MmapFile.fileSize = .ok size

section Paths
variable {sb : PackedSuperblock} {partLba : BitVec 64} {good : Drive → Prop} {sectors : Nat → Vector (BitVec 8) 512}

/-- The size of the file that the image has an inode for. -/
def sizeIn (image : BitVec 64 → List Byte) (sb : PackedSuperblock) (inodeNum : BitVec 32) :
    Except BootStop (BitVec 64) :=
  match inodeIn image sb.geometry inodeNum with
  | .error _ => .error (.err .invalid)
  | .ok inode => .ok inode.size64

private theorem sizeIn_ok {image : BitVec 64 → List Byte} {inodeNum : BitVec 32} {size : BitVec 64} :
    sizeIn image sb inodeNum = .ok size ↔ (inodeIn image sb.geometry inodeNum).map Ext4Inode.size64 = .ok size := by
  rw [sizeIn]
  cases inodeIn image sb.geometry inodeNum with
  | error e => exact ⟨fun h => (by cases h), fun h => (by cases h)⟩
  | ok inode => exact ⟨fun h => congrArg Except.ok (Except.ok.inj h), fun h => congrArg Except.ok (Except.ok.inj h)⟩

/-- What the two functions of the bootloader return. -/
theorem bootLookup_eq (hw : WellFormedImage sb (seen (contextOf sb partLba) sectors))
    (h : ReadsBlocks (contextOf sb partLba) good) {s : Loader} (hs : s.drive.sectors = sectors) (hgood : good s.drive)
    {path : List Byte} (hnul : 0 ∉ path)
    (hhigh : HighHalves (seen (contextOf sb partLba) sectors) sb ((pathComponents path).flatMap pieces) EXT4_ROOT_INODE)
    (hsearched : Searched (seen (contextOf sb partLba) sectors) sb ((pathComponents path).flatMap pieces)
      EXT4_ROOT_INODE) :
    (ext4LookupPath (contextOf sb partLba) path s).1 = bootResolve (seen (contextOf sb partLba) sectors) sb
        ((pathComponents path).flatMap pieces) EXT4_ROOT_INODE ∧
    (inodeOf (contextOf sb partLba) path s).1.map Ext4Inode.size64 = (bootResolve (seen (contextOf sb partLba) sectors)
      sb ((pathComponents path).flatMap pieces) EXT4_ROOT_INODE).bind
        (sizeIn (seen (contextOf sb partLba) sectors) sb) := by
  have hnames : ∀ name ∈ (pathComponents path).flatMap pieces, name.length ≤ EXT4_NAME_LEN := fun name hmem => by
    obtain ⟨component, -, hpiece⟩ := List.mem_flatMap.mp hmem
    exact length_of_mem_pieces hpiece
  have hnumber := (resolve_gives hw h (f := pure) (r := Except.ok) (fun last _ _ => .pure last)
      hnames hw.root hhigh hsearched).eq hs hgood
  have hsize := (resolve_gives hw h (r := sizeIn (seen (contextOf sb partLba) sectors) sb)
    (f := fun last => ext4ReadInode (contextOf sb partLba) last >>= fun inode => pure inode.size64)
    (fun last hn hhigh => by
      obtain ⟨inode', hinode⟩ := inodeIn_found hw hn
      apply ext4ReadInode_gives hw h hn hhigh hinode
      intro inode hsame
      rw [sizeIn, hinode, hsame.size64]
      exact .pure _) hnames hw.root hhigh hsearched).eq hs hgood
  rw [Fallible.bind_pure_run] at hnumber
  rw [← Fallible.bind_assoc, Fallible.bind_map_fst] at hsize
  rw [inodeOf, ext4LookupPath_pieces _ hnul]
  refine ⟨hnumber.trans ?_, hsize⟩
  cases bootResolve (seen (contextOf sb partLba) sectors) sb ((pathComponents path).flatMap pieces)
    EXT4_ROOT_INODE <;> rfl

/-- What the two functions of the kernel return. -/
theorem kernelLookup_eq {D : Type} {ops : Ext4BlockOps D} {image : BitVec 64 → List Byte} {geometry : Ext4Geometry}
    {goodFs : Ext4Filesystem D → Prop} (h : Driver.ReadsOnly ops image geometry goodFs)
    (hblock : geometry.blockSize ≠ 0) {fs : Ext4Filesystem D} (hfs : fs.blockSize = geometry.blockSize)
    (hgood : goodFs fs)
    (groupDescs : List Ext4GroupDesc) (rounds : Nat) (path : List Byte) :
    (Driver.lookupPath false ops geometry groupDescs rounds path fs).1 =
        resolveIn image geometry groupDescs rounds ((pathComponents path).flatMap pieces) EXT4_ROOT_INODE ∧
    (Driver.openMmapFile false ops geometry groupDescs rounds path fs).1.map Ext4MmapFile.fileSize =
      (resolveIn image geometry groupDescs rounds ((pathComponents path).flatMap pieces) EXT4_ROOT_INODE).bind
        fun last => (Ext4.inodeOf image geometry groupDescs last).map Ext4Inode.size64 := by
  have hresolve : Driver.Expected geometry goodFs (resolveIn image geometry groupDescs rounds _ _)
      (Driver.resolve false ops geometry groupDescs rounds _ _) :=
    h.resolve_returns hblock rounds ((pathComponents path).flatMap pieces) EXT4_ROOT_INODE
  have hnumber := hresolve.eq hfs hgood
  have hlookup := (h.lookupPath_returns hblock groupDescs rounds path).eq hfs hgood
  have hopen := (h.openMmapFile_returns hblock groupDescs rounds path).eq hfs hgood
  rw [← Driver.lookupPath_pieces, hlookup] at hnumber
  refine ⟨hlookup.trans hnumber, ?_⟩
  rw [hopen, hnumber]
  cases resolveIn image geometry groupDescs rounds ((pathComponents path).flatMap pieces) EXT4_ROOT_INODE with
  | error e => rfl
  | ok last =>
    change ((Ext4.inodeOf image geometry groupDescs last).bind _).map _ =
      (Ext4.inodeOf image geometry groupDescs last).map _
    cases Ext4.inodeOf image geometry groupDescs last <;> rfl

end Paths

/-! ### A directory with a hole -/

/-- A root directory of three blocks whose second one is a hole; the file `k` has its entry in the third. -/
def holeDisk (lba : Nat) : Vector (BitVec 8) 512 := sectorOfBytes <|
  if lba = 2 then [(4, 16), (33, 0x20), (40, 16), (56, 0x53), (57, 0xEF), (89, 1)]
  else if lba = 4 then [(8, 3)]
  else if lba = 6 then [(257, 0x40), (261, 12), (282, 2), (290, 8), (296, 0x0A), (297, 0xF3), (298, 2), (300, 4),
    (312, 1), (316, 8), (320, 2), (324, 1), (328, 9)]
  else if lba = 7 then [(1, 0x80), (26, 1)]
  else if lba = 16 then [(0, 2), (4, 12), (6, 1), (7, 2), (8, 0x2E), (12, 2), (16, 0xF4), (17, 3), (18, 2), (19, 2),
    (20, 0x2E), (21, 0x2E)]
  else if lba = 18 then [(0, 3), (5, 4), (6, 1), (7, 1), (8, 0x6B)]
  else []

def holeSb : PackedSuperblock := .ofBytes (Ata.sectorBytes holeDisk [2, 3])

def holeImage : BitVec 64 → List Byte := seen (contextOf holeSb 0) holeDisk

/-- A loader with a drive that is always ready. -/
def holeLoader : Loader := { sparseLoader fun _ => false with
  drive := { (sparseLoader fun _ => false).drive with sectors := holeDisk } }

private theorem holeSb_blockSize : holeSb.blockSize = 1024 := by decide +kernel

private theorem holeImage_length (block : BitVec 64) : (holeImage block).length = holeSb.blockSize.toNat := by
  have hsized : BlockSized (contextOf holeSb 0) := .inl holeSb_blockSize
  rw [holeImage, seen]
  exact blockSectors_length hsized holeDisk _ _

private theorem holeImage_numbers {n : BitVec 32} (h : InUse holeImage holeSb.geometry n) : n = 2 ∨ n = 3 := by
  have hunused : ∀ i < 16, i ≠ 1 → i ≠ 2 → (inodeIn holeImage holeSb.geometry (BitVec.ofNat 32 (i+1))).toOption.any
      fun inode => inode.iLinksCount = 0 := by decide +kernel
  have hgroup := BitVec.lt_def.mp h.group
  have hone : holeSb.geometry.groupCount = 1 ∧ holeSb.geometry.inodesPerGroup = 16 := by decide +kernel
  rw [BitVec.toNat_udiv, hone.1, hone.2] at hgroup
  have hlt : (n-1).toNat < 16 := by
    change (n-1).toNat / 16 < 1 at hgroup
    omega
  have hn : n = BitVec.ofNat 32 ((n-1).toNat + 1) := by
    rw [BitVec.ofNat_add, BitVec.ofNat_toNat, BitVec.setWidth_eq]
    exact (BitVec.sub_add_cancel n 1).symm
  by_contra hother
  have hne (i : Nat) (hi : BitVec.ofNat 32 (i+1) ≠ n) : (n-1).toNat ≠ i := by
    rintro rfl
    exact hi hn.symm
  obtain ⟨inode, hinode, hlinks⟩ := Fallible.ok_of_any
    (hunused _ hlt (hne 1 fun h => hother (.inl h.symm)) (hne 2 fun h => hother (.inr h.symm)))
  rw [← hn] at hinode
  exact h.links inode hinode (of_decide_eq_true hlinks)

/-- What the root directory of the image has. -/
structure IsHoleRoot (inode : Ext4Inode) : Prop where
  dir : inode.isDir
  extents : inode.usesExtents
  size : inode.size64 = 3072
  low : inode.iSizeLo = 3072
  links : inode.iLinksCount ≠ 0
  first : (blockAt holeImage holeSb.geometry inode 0#64).toOption = some 8
  hole : (blockAt holeImage holeSb.geometry inode 1#64).toOption = none
  third : (blockAt holeImage holeSb.geometry inode 2#64).toOption = some 9
  dot : entryIn holeImage holeSb.geometry inode [0x2E] 0 = .ok (some 2)
  tree : WellFormed holeImage (treeDepth inode) 0 (2^32) (rootNode inode)

private theorem holeImage_root : ∃ inode, inodeIn holeImage holeSb.geometry 2 = .ok inode ∧ IsHoleRoot inode := by
  have hcheck : (inodeIn holeImage holeSb.geometry 2).toOption.any fun inode => inode.isDir ∧ inode.usesExtents ∧
      inode.size64 = 3072 ∧ inode.iSizeLo = 3072 ∧ inode.iLinksCount ≠ 0 ∧
      (blockAt holeImage holeSb.geometry inode 0#64).toOption = some 8 ∧
      (blockAt holeImage holeSb.geometry inode 1#64).toOption = none ∧
      (blockAt holeImage holeSb.geometry inode 2#64).toOption = some 9 ∧
      entryIn holeImage holeSb.geometry inode [0x2E] 0 = .ok (some 2) ∧ treeDepth inode = 0 ∧
      (readHeader (rootNode inode)).ehMagic = EXT4_EXT_MAGIC ∧ entries (rootNode inode) = 2 ∧
      36 ≤ (rootNode inode).length ∧ ∀ i < 2, extentFirst (rootNode inode) i ≤ extentStop (rootNode inode) i ∧
        extentStop (rootNode inode) i ≤ upper (extentFirst (rootNode inode)) 2 (2^32) i ∧
        0 < (readExtent (rootNode inode) i).eeLen.toNat := by decide +kernel
  obtain ⟨inode, hinode, hroot⟩ := Fallible.ok_of_any hcheck
  obtain ⟨hdir, hextents, hsize, hlow, hlinks, hfirst, hhole, hthird, hdot, hdepth, hmagic, hentries, hroom, hspans⟩ :=
    of_decide_eq_true hroot
  refine ⟨inode, hinode, hdir, hextents, hsize, hlow, hlinks, hfirst, hhole, hthird, hdot, ?_⟩
  rw [hdepth]
  refine ⟨⟨hmagic, hdepth, by rw [hentries]; exact hroom⟩, fun i hi => ?_, fun i hi => ⟨Nat.zero_le _, ?_⟩⟩
  · rw [hentries] at hi ⊢
    exact ⟨(hspans i hi).1, (hspans i hi).2.1⟩
  · exact (hspans i (hentries ▸ hi)).2.2

private theorem holeImage_file : ∃ inode, inodeIn holeImage holeSb.geometry 3 = .ok inode ∧ ¬inode.usesExtents ∧
    ¬inode.isDir ∧ inode.size64 = 0 ∧ inode.iLinksCount ≠ 0 := by
  have hcheck : (inodeIn holeImage holeSb.geometry 3).toOption.any fun inode => ¬inode.usesExtents ∧ ¬inode.isDir ∧
      inode.size64 = 0 ∧ inode.iLinksCount ≠ 0 := by decide +kernel
  obtain ⟨inode, hinode, hfile⟩ := Fallible.ok_of_any hcheck
  exact ⟨inode, hinode, of_decide_eq_true hfile⟩

private theorem holeImage_inUse {n : BitVec 32} (h : n = 2 ∨ n = 3) : InUse holeImage holeSb.geometry n := by
  have hgroup : (2-1 : BitVec 32) / holeSb.geometry.inodesPerGroup < holeSb.geometry.groupCount ∧
      (3-1 : BitVec 32) / holeSb.geometry.inodesPerGroup < holeSb.geometry.groupCount := by decide +kernel
  rcases h with rfl | rfl
  · obtain ⟨root, hroot, hfacts⟩ := holeImage_root
    refine ⟨by decide, hgroup.1, fun inode h => ?_⟩
    obtain rfl := Except.ok.inj (hroot.symm.trans h)
    exact hfacts.links
  · obtain ⟨file, hfile, -, -, -, hlinks⟩ := holeImage_file
    refine ⟨by decide, hgroup.2, fun inode h => ?_⟩
    obtain rfl := Except.ok.inj (hfile.symm.trans h)
    exact hlinks

/-- A block whose entries begin at the offsets of a list. -/
private theorem holeImage_block {block : BitVec 64} {offsets : List Nat} (hzero : 0 ∈ offsets)
    (hcheck : ∀ offset ∈ offsets, let entry := readDirEntry (holeImage block) offset
      8 + entry.nameLen.toNat ≤ entry.recLen.toNat ∧ offset + entry.recLen.toNat ≤ 1024 ∧
      (entry.inode = 2 ∨ entry.inode = 3) ∧
      (offset + entry.recLen.toNat ∈ offsets ∨ 1024 ≤ offset + entry.recLen.toNat)) :
    DirectoryBlock (InUse holeImage holeSb.geometry) (holeImage block) := by
  have hlen : (holeImage block).length = 1024 := by
    rw [holeImage_length, holeSb_blockSize]
    rfl
  intro offset hat hlt
  have hmem : offset ∈ offsets ∨ 1024 ≤ offset := by
    clear hlt
    induction hat with
    | first => exact .inl hzero
    | next _ hlt ih => exact (hcheck _ (ih.resolve_right (by omega))).2.2.2
  obtain ⟨hname, hroom, hnumber, -⟩ := hcheck offset (hmem.resolve_right (by omega))
  exact ⟨hname, by omega, fun _ => holeImage_inUse hnumber⟩

theorem holeImage_wellFormed : WellFormedImage holeSb holeImage where
  magic := by decide +kernel
  blockSize := .inl holeSb_blockSize
  blocks := holeImage_length
  sound := ⟨by decide +kernel, by decide +kernel, by decide +kernel, by decide +kernel⟩
  descBlocks := by decide +kernel
  inodesPerGroup := by decide +kernel
  inodeSize := by decide +kernel
  root := holeImage_inUse (.inl rfl)
  files n inode hn h := by
    rw [holeSb_blockSize]
    rcases holeImage_numbers hn with rfl | rfl
    · obtain ⟨root, hroot, hfacts⟩ := holeImage_root
      obtain rfl := Except.ok.inj (hroot.symm.trans h)
      exact ⟨fun _ => hfacts.tree, fun _ => by rw [hfacts.size]; decide, fun hext => absurd hfacts.extents hext⟩
    · obtain ⟨file, hfile, hext, -, hsize, -⟩ := holeImage_file
      obtain rfl := Except.ok.inj (hfile.symm.trans h)
      exact ⟨fun hext' => absurd hext' hext, fun hext' => absurd hext' hext,
        fun _ => by rw [hsize]; exact Nat.zero_le _⟩
  directories n inode hn h hdir k hk physical hmap _ := by
    rcases holeImage_numbers hn with rfl | rfl
    · obtain ⟨root, hroot, hfacts⟩ := holeImage_root
      obtain rfl := Except.ok.inj (hroot.symm.trans h)
      have hthree : holeSb.geometry.blocksOf (3072 : BitVec 64).toNat = 3 := by decide +kernel
      rw [hfacts.size, hthree] at hk
      have hsome : (blockAt holeImage holeSb.geometry root (BitVec.ofNat 64 k)).toOption = some physical := by
        rw [hmap]
        rfl
      obtain rfl | rfl | rfl : k = 0 ∨ k = 1 ∨ k = 2 := by omega
      · obtain rfl := Option.some.inj (hfacts.first.symm.trans hsome)
        exact holeImage_block (show 0 ∈ [0, 12] by decide) (by decide +kernel)
      · cases hfacts.hole.symm.trans hsome
      · obtain rfl := Option.some.inj (hfacts.third.symm.trans hsome)
        exact holeImage_block (show 0 ∈ [0] by decide) (by decide +kernel)
    · obtain ⟨file, hfile, -, hreg, -⟩ := holeImage_file
      obtain rfl := Except.ok.inj (hfile.symm.trans h)
      exact absurd hdir hreg

private theorem holeImage_readsOnly : Driver.ReadsOnly (Driver.imageOps holeImage) holeImage holeSb.geometry
    fun fs => ∀ n, fs.kmalloc n = true :=
  Driver.imageOps_readsOnly (by decide +kernel) holeImage_length

private theorem holeImage_mount : (Driver.readGroupDescriptors (Driver.imageOps holeImage) holeSb.geometry
    (Driver.imageFs holeSb.blockSize)).1 = .ok (groupDescsOf holeImage holeSb.geometry) :=
  (holeImage_readsOnly.readGroupDescriptors_returns holeImage_wellFormed.sound).eq
    (s := Driver.imageFs holeSb.blockSize) rfl fun _ => rfl

end Boot.Loader
end Nafuraito.Ext4
