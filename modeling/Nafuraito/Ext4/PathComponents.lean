import Nafuraito.Ext4.ParseBounds
import Mathlib.Data.List.TakeWhile

/-! Path lookups as a fold over the components of the path, and what becomes of components that are too long. -/
namespace Nafuraito.Ext4
open Nafuraito.Library

/-- The parts between slashes, without the empty ones. -/
def pathComponents (path : List Byte) : List (List Byte) := (path.splitOn 0x2F).filter (· ≠ [])

/-- A name cut after every 255 bytes. -/
def pieces (name : List Byte) : List (List Byte) :=
  if _h : name = [] then [] else name.take EXT4_NAME_LEN :: pieces (name.drop EXT4_NAME_LEN)
termination_by name.length
decreasing_by
  have hpos := List.length_pos_iff.mpr _h
  rw [List.length_drop, EXT4_NAME_LEN]
  omega

/-! ### Components and pieces -/

section Components
variable {name p : List Byte}

@[simp] theorem pathComponents_nil : pathComponents [] = [] := by
  rw [pathComponents, List.splitOn_nil]
  rfl

@[simp] theorem pathComponents_slash (p : List Byte) : pathComponents (0x2F :: p) = pathComponents p := by
  rw [pathComponents, List.splitOn_cons_eq_if_modifyHead, if_pos (beq_self_eq_true _),
    List.filter_cons_of_neg (by simp)]
  rfl

theorem pathComponents_skip (p : List Byte) : pathComponents (Driver.skipSlashes p) = pathComponents p := by
  induction p with
  | nil => rfl
  | cons b p ih =>
    rw [Driver.skipSlashes, List.dropWhile_cons]
    split
    · rename_i hb
      rw [of_decide_eq_true hb, pathComponents_slash]
      exact ih
    · rfl

/-- What follows a component is nothing or starts with a slash. -/
theorem pathComponents_append (hne : name ≠ []) (hname : 0x2F ∉ name) (hp : p = [] ∨ ∃ q, p = 0x2F :: q) :
    pathComponents (name ++ p) = name :: pathComponents p := by
  rcases hp with rfl | ⟨q, rfl⟩
  · rw [List.append_nil, pathComponents, List.splitOn_eq_singleton hname,
      List.filter_cons_of_pos (by simpa using hne), pathComponents_nil]
    rfl
  · rw [pathComponents_slash, pathComponents, List.splitOn_append_cons_of_beq name q (beq_self_eq_true _),
      List.splitOn_eq_singleton hname, List.singleton_append, List.filter_cons_of_pos (by simpa using hne)]
    rfl

theorem pathComponents_single (hne : name ≠ []) (hname : 0x2F ∉ name) : pathComponents name = [name] := by
  have h := pathComponents_append hne hname (.inl rfl)
  rwa [List.append_nil, pathComponents_nil] at h

@[simp] theorem pieces_nil : pieces [] = [] := by rw [pieces, dif_pos rfl]

theorem pieces_of_ne_nil (h : name ≠ []) :
    pieces name = name.take EXT4_NAME_LEN :: pieces (name.drop EXT4_NAME_LEN) := by
  rw [pieces, dif_neg h]

theorem pieces_short (h : name ≠ []) (hle : name.length ≤ EXT4_NAME_LEN) : pieces name = [name] := by
  rw [pieces_of_ne_nil h, List.take_of_length_le hle, List.drop_of_length_le hle, pieces_nil]

theorem ne_nil_of_mem_pathComponents (h : name ∈ pathComponents p) : name ≠ [] := by
  simpa using List.of_mem_filter h

private theorem flatMap_pieces_append (hname : 0x2F ∉ name) (hp : p = [] ∨ ∃ q, p = 0x2F :: q) :
    (pathComponents (name ++ p)).flatMap pieces = pieces name ++ (pathComponents p).flatMap pieces := by
  by_cases hne : name = []
  · rw [hne, pieces_nil, List.nil_append, List.nil_append]
  · rw [pathComponents_append hne hname hp, List.flatMap_cons]

/-- The loop takes the first piece of the first component. -/
theorem flatMap_pieces_step (hname : Driver.pathComponent p ≠ []) :
    (pathComponents p).flatMap pieces = Driver.pathComponent p ::
      (pathComponents (Driver.skipSlashes (p.drop (Driver.pathComponent p).length))).flatMap pieces := by
  rw [pathComponents_skip]
  unfold Driver.pathComponent at hname ⊢
  have hsplit := List.takeWhile_append_dropWhile (p := (· ≠ (0x2F : Byte))) (l := p)
  have hfirst : (0x2F : Byte) ∉ p.takeWhile (· ≠ 0x2F) := fun hmem => by simpa using List.mem_takeWhile_imp hmem
  have hrest : p.dropWhile (· ≠ 0x2F) = [] ∨ ∃ q, p.dropWhile (· ≠ 0x2F) = 0x2F :: q := by
    have hhead := List.head?_dropWhile_not (· ≠ (0x2F : Byte)) p
    cases hdrop : p.dropWhile (· ≠ 0x2F) with
    | nil => exact .inl rfl
    | cons b q =>
      rw [hdrop] at hhead
      exact .inr ⟨q, by simpa using hhead⟩
  generalize p.takeWhile (· ≠ 0x2F) = name at hname hsplit hfirst ⊢
  generalize p.dropWhile (· ≠ 0x2F) = rest at hsplit hrest
  have hdrop : p.drop (name.take EXT4_NAME_LEN).length = name.drop EXT4_NAME_LEN ++ rest := by
    rw [← hsplit, List.length_take]
    rcases Nat.le_total EXT4_NAME_LEN name.length with hle | hle
    · rw [Nat.min_eq_left hle, List.drop_append_of_le_length hle]
    · rw [Nat.min_eq_right hle, List.drop_of_length_le hle, List.drop_left, List.nil_append]
  rw [hdrop, flatMap_pieces_append (fun hmem => hfirst (List.mem_of_mem_drop hmem)) hrest, ← hsplit,
    flatMap_pieces_append hfirst hrest, pieces_of_ne_nil fun h => hname (by rw [h, List.take_nil]), List.cons_append]

end Components

/-! ### The fold -/

namespace Driver
variable {D : Type} (strict : Bool) (ops : Ext4BlockOps D) (geometry : Ext4Geometry)
variable (groupDescs : List Ext4GroupDesc) (rounds : Nat)

/-- One component: read the current inode and search it. -/
def resolveStep (current : BitVec 32) (name : List Byte) : Op D (BitVec 32) := do
  let inode ← readInode strict ops geometry groupDescs current
  dirFindEntry strict ops geometry rounds inode name

/-- The components from left to right. -/
def resolve (names : List (List Byte)) (current : BitVec 32) : Op D (BitVec 32) :=
  names.foldlM (resolveStep strict ops geometry groupDescs rounds) current

theorem resolve_cons (name : List Byte) (names : List (List Byte)) (current : BitVec 32) :
    resolve strict ops geometry groupDescs rounds (name :: names) current =
      (resolveStep strict ops geometry groupDescs rounds current name >>=
        resolve strict ops geometry groupDescs rounds names) := rfl

theorem slash_of_pathComponent_nil {p : List Byte} (hp : p ≠ []) (hname : pathComponent p = []) :
    ∃ q, p = 0x2F :: q := by
  cases p with
  | nil => exact absurd rfl hp
  | cons b q =>
    refine ⟨q, ?_⟩
    by_contra hb
    rw [pathComponent, List.takeWhile_cons_of_pos (by simpa using hb), EXT4_NAME_LEN, List.take_succ_cons] at hname
    cases hname

theorem pathComponent_length_pos {p : List Byte} (hname : pathComponent p ≠ []) :
    (skipSlashes (p.drop (pathComponent p).length)).length < p.length := by
  have hskip : (skipSlashes (p.drop (pathComponent p).length)).length ≤ (p.drop (pathComponent p).length).length :=
    (List.dropWhile_suffix _).length_le
  have hp : p ≠ [] := fun hnil => hname (by rw [hnil]; rfl)
  have := List.length_pos_iff.mpr hname
  have := List.length_pos_iff.mpr hp
  rw [List.length_drop] at hskip
  omega

private theorem lookupFrom_pieces {n : Nat} {p : List Byte} (hn : p.length ≤ n) (current : BitVec 32) :
    lookupFrom strict ops geometry groupDescs rounds n p current =
      resolve strict ops geometry groupDescs rounds ((pathComponents p).flatMap pieces) current := by
  induction n generalizing p current with
  | zero =>
    rw [List.length_eq_zero_iff.mp (Nat.le_zero.mp hn)]
    rfl
  | succ n ih =>
    rw [lookupFrom]
    by_cases hp : p = []
    · rw [if_pos hp, hp]
      rfl
    · rw [if_neg hp]
      by_cases hname : pathComponent p = []
      · rw [if_pos hname]
        obtain ⟨q, rfl⟩ := slash_of_pathComponent_nil hp hname
        rw [pathComponents_slash]
        exact ih (Nat.le_of_succ_le_succ hn) current
      · rw [if_neg hname, flatMap_pieces_step hname, resolve_cons, resolveStep, Fallible.bind_assoc]
        refine congrArg _ (funext fun inode => congrArg _ (funext fun found => ih ?_ found))
        have := pathComponent_length_pos hname
        omega

/-- The lookup is the fold over the pieces of the components. -/
theorem lookupPath_pieces (path : List Byte) :
    lookupPath strict ops geometry groupDescs rounds path =
      resolve strict ops geometry groupDescs rounds ((pathComponents path).flatMap pieces) EXT4_ROOT_INODE := by
  rw [lookupPath, ← pathComponents_skip path]
  by_cases hp : skipSlashes path = []
  · rw [if_pos hp, hp]
    rfl
  · rw [if_neg hp, lookupFrom_pieces strict ops geometry groupDescs rounds (Nat.le_refl _)]

private theorem flatMap_pieces_short {names : List (List Byte)} (hne : ∀ name ∈ names, name ≠ [])
    (hshort : ∀ name ∈ names, name.length ≤ EXT4_NAME_LEN) : names.flatMap pieces = names := by
  induction names with
  | nil => rfl
  | cons name names ih =>
    rw [List.flatMap_cons, pieces_short (hne name List.mem_cons_self) (hshort name List.mem_cons_self),
      ih (fun name h => hne name (List.mem_cons_of_mem _ h)) fun name h => hshort name (List.mem_cons_of_mem _ h)]
    rfl

/-- Where no component is too long, it is the fold over the components, whatever the calls below return. -/
theorem lookupPath_short {path : List Byte} (hshort : ∀ name ∈ pathComponents path, name.length ≤ EXT4_NAME_LEN) :
    lookupPath strict ops geometry groupDescs rounds path =
      resolve strict ops geometry groupDescs rounds (pathComponents path) EXT4_ROOT_INODE := by
  rw [lookupPath_pieces, flatMap_pieces_short (fun _ => ne_nil_of_mem_pathComponents) hshort]

end Driver

/-! ### Components that are too long -/

section Long
variable {image : BitVec 64 → List Byte} {geometry : Ext4Geometry}

/-- No entry has a name of more than 255 bytes. -/
theorem findEntry_long {name : List Byte} (hlong : EXT4_NAME_LEN < name.length) (block : List Byte) (n offset : Nat) :
    findEntry block name n offset = none := by
  induction n generalizing offset with
  | zero => rfl
  | succ n ih =>
    have hname : ¬ (readDirEntry block offset).Named name := by
      intro hnamed
      have := hnamed.2.1
      have := (readDirEntry block offset).nameLen.isLt
      rw [EXT4_NAME_LEN] at hlong
      omega
    rw [findEntry, if_neg hname]
    split
    · exact ih _
    · rfl

/-- The search for such a name ends as any search that finds nothing. -/
theorem searchFrom_long {name : List Byte} (hlong : EXT4_NAME_LEN < name.length) (other : List Byte)
    (inode : Ext4Inode) (rounds : Nat) (offset : BitVec 64) :
    ∃ e, searchFrom image geometry inode name rounds offset = .error e ∧
      ∀ e', searchFrom image geometry inode other rounds offset = .error e' → e' = e := by
  induction rounds generalizing offset with
  | zero => exact ⟨_, rfl, fun e' h => (Except.error.inj h).symm⟩
  | succ rounds ih =>
    rw [searchFrom, searchFrom]
    by_cases hlt : offset < inode.size64
    · rw [if_pos hlt, if_pos hlt]
      cases blockAt image geometry inode (offset / geometry.blockSize.setWidth 64) with
      | error e => exact ⟨e, rfl, fun e' h => (Except.error.inj h).symm⟩
      | ok physical =>
        dsimp only
        by_cases hzero : physical = 0
        · rw [if_pos hzero, if_pos hzero]
          exact ih _
        · rw [if_neg hzero, if_neg hzero, findEntry_long hlong]
          obtain ⟨e, hlongEnd, hother⟩ := ih (offset + geometry.blockSize.setWidth 64)
          refine ⟨e, hlongEnd, fun e' h => ?_⟩
          cases hfound : findEntry (image physical) other geometry.blockSize.toNat 0 with
          | none =>
            rw [hfound] at h
            exact hother e' h
          | some found =>
            rw [hfound] at h
            cases h
    · rw [if_neg hlt, if_neg hlt]
      exact ⟨_, rfl, fun e' h => (Except.error.inj h).symm⟩

end Long

/-! ### Lookups in an image -/

section Image
variable (image : BitVec 64 → List Byte) (geometry : Ext4Geometry) (groupDescs : List Ext4GroupDesc) (rounds : Nat)

def resolveStepIn (current : BitVec 32) (name : List Byte) : Except DriverStop (BitVec 32) := do
  let inode ← inodeOf image geometry groupDescs current
  searchFrom image geometry inode name rounds 0

/-- The fold over the components, on the blocks of the image. -/
def resolveIn (names : List (List Byte)) (current : BitVec 32) : Except DriverStop (BitVec 32) :=
  names.foldlM (resolveStepIn image geometry groupDescs rounds) current

/-- Wherever the directory has an entry under the first 255 bytes of the first component that is too long, the walk
on from it ends in the same error as the search for the whole component. -/
def SplitHarmless : List (List Byte) → BitVec 32 → Prop
  | [], _ => True
  | name :: names, current => ∀ inode, inodeOf image geometry groupDescs current = .ok inode →
      if name.length ≤ EXT4_NAME_LEN then
        ∀ child, searchFrom image geometry inode name rounds 0 = .ok child → SplitHarmless names child
      else ∀ child, searchFrom image geometry inode (name.take EXT4_NAME_LEN) rounds 0 = .ok child →
        resolveIn image geometry groupDescs rounds (pieces (name.drop EXT4_NAME_LEN) ++ names.flatMap pieces) child =
          searchFrom image geometry inode name rounds 0

end Image

section Split
variable {image : BitVec 64 → List Byte} {geometry : Ext4Geometry} {groupDescs : List Ext4GroupDesc} {rounds : Nat}

theorem resolveIn_error {current : BitVec 32} {e : DriverStop}
    (h : inodeOf image geometry groupDescs current = .error e) (name : List Byte) (names : List (List Byte)) :
    resolveIn image geometry groupDescs rounds (name :: names) current = .error e := by
  rw [resolveIn, List.foldlM_cons, resolveStepIn, h]
  rfl

theorem resolveIn_ok {current : BitVec 32} {inode : Ext4Inode}
    (h : inodeOf image geometry groupDescs current = .ok inode) (name : List Byte) (names : List (List Byte)) :
    resolveIn image geometry groupDescs rounds (name :: names) current =
      (searchFrom image geometry inode name rounds 0).bind (resolveIn image geometry groupDescs rounds names) := by
  rw [resolveIn, List.foldlM_cons, resolveStepIn, h]
  rfl

/-- A component that is too long makes no difference exactly where the walk on from its first 255 bytes fails alike. -/
private theorem resolveIn_long {name : List Byte} (hlong : EXT4_NAME_LEN < name.length) (names : List (List Byte))
    {current : BitVec 32} {inode : Ext4Inode} (hinode : inodeOf image geometry groupDescs current = .ok inode) :
    resolveIn image geometry groupDescs rounds ((name :: names).flatMap pieces) current =
        resolveIn image geometry groupDescs rounds (name :: names) current ↔
      ∀ child, searchFrom image geometry inode (name.take EXT4_NAME_LEN) rounds 0 = .ok child →
        resolveIn image geometry groupDescs rounds (pieces (name.drop EXT4_NAME_LEN) ++ names.flatMap pieces) child =
          searchFrom image geometry inode name rounds 0 := by
  obtain ⟨e, he, hsame⟩ : ∃ e, searchFrom image geometry inode name rounds 0 = .error e ∧ _ :=
    searchFrom_long hlong (name.take EXT4_NAME_LEN) inode rounds 0
  have hne : name ≠ [] := List.ne_nil_of_length_pos (by omega)
  rw [List.flatMap_cons, pieces_of_ne_nil hne, List.cons_append, resolveIn_ok hinode, resolveIn_ok hinode, he]
  cases hfirst : searchFrom image geometry inode (name.take EXT4_NAME_LEN) rounds 0 with
  | error e' =>
    rw [hsame e' hfirst]
    exact ⟨fun _ child h => (by cases h), fun _ => rfl⟩
  | ok child =>
    constructor
    · intro h child' hchild
      obtain rfl := Except.ok.inj hchild
      exact h
    · intro h
      exact h child rfl

theorem resolveIn_pieces_iff {names : List (List Byte)} (hne : ∀ name ∈ names, name ≠ []) (current : BitVec 32) :
    resolveIn image geometry groupDescs rounds (names.flatMap pieces) current =
        resolveIn image geometry groupDescs rounds names current ↔
      SplitHarmless image geometry groupDescs rounds names current := by
  induction names generalizing current with
  | nil => exact ⟨fun _ => trivial, fun _ => rfl⟩
  | cons name names ih =>
    have hname := hne name List.mem_cons_self
    have hrest : ∀ name ∈ names, name ≠ [] := fun name h => hne name (List.mem_cons_of_mem _ h)
    rw [SplitHarmless]
    cases hinode : inodeOf image geometry groupDescs current with
    | error e =>
      refine ⟨fun _ inode h => (by cases h), fun _ => ?_⟩
      rw [List.flatMap_cons, pieces_of_ne_nil hname, List.cons_append, resolveIn_error hinode, resolveIn_error hinode]
    | ok inode =>
      have hinode' (inode' : Ext4Inode) : Except.ok (ε := DriverStop) inode = .ok inode' ↔ inode' = inode :=
        ⟨fun h => (Except.ok.inj h).symm, fun h => congrArg _ h.symm⟩
      simp only [hinode', forall_eq]
      by_cases hle : name.length ≤ EXT4_NAME_LEN
      · rw [if_pos hle, List.flatMap_cons, pieces_short hname hle, List.singleton_append, resolveIn_ok hinode,
          resolveIn_ok hinode]
        cases hsearch : searchFrom image geometry inode name rounds 0 with
        | error e => exact ⟨fun _ child h => (by cases h), fun _ => rfl⟩
        | ok child =>
          constructor
          · intro h child' hchild
            obtain rfl := Except.ok.inj hchild
            exact (ih hrest _).mp h
          · intro h
            exact (ih hrest child).mpr (h child rfl)
      · rw [if_neg hle]
        exact resolveIn_long (Nat.lt_of_not_le hle) names hinode

end Split

namespace Driver
variable {D : Type} {ops : Ext4BlockOps D} {image : BitVec 64 → List Byte} {geometry : Ext4Geometry}
variable {good : Ext4Filesystem D → Prop} {groupDescs : List Ext4GroupDesc}

theorem ReadsOnly.resolve_returns (h : ReadsOnly ops image geometry good) (hblock : geometry.blockSize ≠ 0)
    (rounds : Nat) (names : List (List Byte)) (current : BitVec 32) :
    Expected geometry good (resolveIn image geometry groupDescs rounds names current)
      (resolve false ops geometry groupDescs rounds names current) := by
  induction names generalizing current with
  | nil => exact .pure _
  | cons name names ih =>
    refine expected_bind (expected_bind ?_ fun inode => ?_) ih
    · exact h.readInode_returns hblock groupDescs current fun hs => by cases hs
    · exact h.dirFindEntry_returns (fun hs => by cases hs) inode name rounds fun hs => by cases hs

/-- With blocks of no bytes no inode has a place. -/
private theorem readInode_noBlock (hblock : geometry.blockSize = 0) (current : BitVec 32) (fs : Ext4Filesystem D) :
    ∃ e t, readInode false ops geometry groupDescs current fs = (.error e, t) := by
  rcases hrun : readInode false ops geometry groupDescs current fs with ⟨e | inode, t⟩
  · exact ⟨e, t, rfl⟩
  · obtain ⟨_, _, hplace, -⟩ := Fallible.bind_ok hrun
    obtain ⟨_, _, -, hplace⟩ := Fallible.bind_ok hplace
    obtain ⟨_, _, -, hplace⟩ := Fallible.bind_ok hplace
    obtain ⟨_, _, -, hplace⟩ := Fallible.bind_ok hplace
    obtain ⟨_, _, -, hplace⟩ := Fallible.bind_ok hplace
    obtain ⟨_, _, -, hplace⟩ := Fallible.bind_ok hplace
    obtain ⟨_, _, hdivide, -⟩ := Fallible.bind_ok hplace
    rw [divide, if_pos hblock] at hdivide
    cases hdivide

private theorem resolve_noBlock (hblock : geometry.blockSize = 0) (rounds : Nat) {names : List (List Byte)}
    (hne : ∀ name ∈ names, name ≠ []) (current : BitVec 32) (fs : Ext4Filesystem D) :
    resolve false ops geometry groupDescs rounds (names.flatMap pieces) current fs =
      resolve false ops geometry groupDescs rounds names current fs := by
  cases names with
  | nil => rfl
  | cons name names =>
    obtain ⟨e, t, hrun⟩ : ∃ e t, readInode false ops geometry groupDescs current fs = (.error e, t) :=
      readInode_noBlock hblock current fs
    have hfails (first : List Byte) (rest : List (List Byte)) :
        resolve false ops geometry groupDescs rounds (first :: rest) current fs = (.error e, t) :=
      Fallible.bind_of_error (Fallible.bind_of_error hrun)
    rw [List.flatMap_cons, pieces_of_ne_nil (hne name List.mem_cons_self), List.cons_append, hfails, hfails]

/-- Where the blocks are read, a lookup is the fold over the components exactly if the first component that is too
long, cut after every 255 bytes, leads to no other end. -/
theorem lookupPath_components_iff (h : ReadsOnly ops image geometry good) {fs : Ext4Filesystem D}
    (hs : fs.blockSize = geometry.blockSize) (hg : good fs) (rounds : Nat) (path : List Byte) :
    (lookupPath false ops geometry groupDescs rounds path fs).1 =
        (resolve false ops geometry groupDescs rounds (pathComponents path) EXT4_ROOT_INODE fs).1 ↔
      (geometry.blockSize ≠ 0 →
        SplitHarmless image geometry groupDescs rounds (pathComponents path) EXT4_ROOT_INODE) := by
  have hne : ∀ name ∈ pathComponents path, name ≠ [] := fun _ => ne_nil_of_mem_pathComponents
  rw [lookupPath_pieces]
  by_cases hblock : geometry.blockSize = 0
  · rw [resolve_noBlock hblock rounds hne]
    exact ⟨fun _ hpos => absurd hblock hpos, fun _ => rfl⟩
  · rw [(h.resolve_returns hblock rounds _ _).eq hs hg, (h.resolve_returns hblock rounds _ _).eq hs hg,
      resolveIn_pieces_iff hne]
    exact ⟨fun hharmless _ => hharmless, fun hharmless => hharmless hblock⟩

/-! ### A directory with a name of 255 bytes -/

def longName : List Byte := List.replicate EXT4_NAME_LEN 0x61

/-- Blocks of 1024 bytes, and an inode table from block 1 on. -/
def longNameGeometry : Ext4Geometry :=
  { magicOnly.geometry with inodesPerGroup := 16, inodeSize := 256, groupCount := 1 }

def longNameDesc : Ext4GroupDesc := ⟨1, 0⟩

/-- The entry of the name has inode 3, a directory with an entry "b" of inode 4. -/
def longNameImage (block : BitVec 64) : List Byte :=
  if block = 1 then
    List.replicate 256 0 ++ (oneBlockDir.bytes ++ List.replicate 96 0) ++
      ((oneBlockDir.bytes.take 0x28 ++ [6#8] ++ oneBlockDir.bytes.drop 0x29) ++ List.replicate 96 0) ++
      List.replicate 256 0
  else if block = 5 then [3#8, 0#8, 0#8, 0#8, 0#8, 4#8, 255#8, 2#8] ++ longName ++ List.replicate 761 0
  else if block = 6 then [4#8, 0#8, 0#8, 0#8, 0#8, 4#8, 1#8, 1#8, 0x62#8] ++ List.replicate 1015 0
  else List.replicate 1024 0

/-- The name with one more letter leads to inode 4, as if a slash stood after its first 255 bytes. -/
theorem longName_split :
    (lookupPath false (imageOps longNameImage) longNameGeometry [longNameDesc] 2 (0x2F :: longName ++ [0x62])
      (imageFs longNameGeometry.blockSize)).1 = .ok 4 ∧
    pathComponents (0x2F :: longName ++ [0x62]) = [longName ++ [0x62]] ∧
    (resolve false (imageOps longNameImage) longNameGeometry [longNameDesc] 2 [longName ++ [0x62]] EXT4_ROOT_INODE
      (imageFs longNameGeometry.blockSize)).1 = .error (.err .notFound) := by
  refine ⟨by decide +kernel, ?_, by decide +kernel⟩
  have hname : (0x2F : Byte) ∉ longName ++ [0x62] := by decide
  rw [List.cons_append, pathComponents_slash, pathComponents_single (List.concat_ne_nil _ _) hname]

/-- The name itself is found. -/
theorem longName_found : (lookupPath false (imageOps longNameImage) longNameGeometry [longNameDesc] 2 (0x2F :: longName)
      (imageFs longNameGeometry.blockSize)).1 =
    (resolve false (imageOps longNameImage) longNameGeometry [longNameDesc] 2 (pathComponents (0x2F :: longName))
      EXT4_ROOT_INODE (imageFs longNameGeometry.blockSize)).1 := by
  have hsize : longNameGeometry.blockSize.toNat = 1024 := by decide +kernel
  have hread : ReadsOnly (imageOps longNameImage) longNameImage longNameGeometry
      (fun fs => ∀ n, fs.kmalloc n = true) := by
    apply imageOps_readsOnly (by omega)
    intro block
    rw [hsize, longNameImage]
    split_ifs <;> decide +kernel
  have hne : longName ≠ [] := List.ne_nil_of_length_pos (Nat.lt_of_lt_of_eq (by decide) List.length_replicate.symm)
  have hname : (0x2F : Byte) ∉ longName := fun h => absurd (List.eq_of_mem_replicate h) (by decide)
  have hcomponents := (pathComponents_slash longName).trans (pathComponents_single hne hname)
  have hgood : ∀ n, (imageFs longNameGeometry.blockSize).kmalloc n = true := fun _ => rfl
  have hs : (imageFs longNameGeometry.blockSize).blockSize = longNameGeometry.blockSize := rfl
  apply (lookupPath_components_iff hread hs hgood 2 (0x2F :: longName)).mpr
  rw [hcomponents]
  intro _ inode _
  have hlen : longName.length ≤ EXT4_NAME_LEN := List.length_replicate.le
  rw [if_pos hlen]
  exact fun _ _ => trivial

end Driver
end Nafuraito.Ext4
