import Mathlib.Logic.Function.Basic
import Mathlib.Tactic.Common

/-! Trees of tables: every table is an array of entries, an entry of a table at level `l+1`
may link a table at level `l`, and a lookup follows one index a level from the root. -/
namespace Nafuraito.Library

/-- What an entry is, read at a level. -/
inductive Slot (F : Type) where
  | absent
  | leaf
  | link (table : F)
  deriving DecidableEq

namespace TableTree
variable {F ι E : Type}

section Paths
variable (kind : Nat → E → Slot F) (mem : F → ι → E) (top : Nat) (root : F)

/-- The tables reachable from the root by links, with their levels. -/
inductive Reach : Nat → F → Prop where
  | root : Reach top root
  | link {l : Nat} {f : F} {i : ι} {g : F} :
      Reach (l+1) f → kind (l+1) (mem f i) = .link g → Reach l g

/-- The tables the indices `idx` lead through. -/
inductive Path (idx : Nat → ι) : Nat → F → Prop where
  | root : Path idx top root
  | step {l : Nat} {f g : F} :
      Path idx (l+1) f → kind (l+1) (mem f (idx (l+1))) = .link g → Path idx l g

/-- The entry the indices end at, with its level; `none` if an entry on the way is absent. -/
def lookup (idx : Nat → ι) : Nat → F → Option (Nat × E)
  | 0, f => match kind 0 (mem f (idx 0)) with
    | .absent => none
    | _ => some (0, mem f (idx 0))
  | l+1, f => match kind (l+1) (mem f (idx (l+1))) with
    | .absent => none
    | .leaf => some (l+1, mem f (idx (l+1)))
    | .link g => lookup idx l g

/-- The entries a lookup reads: the links on the way, from the top down, and the entry it finds. -/
def trail (idx : Nat → ι) : Nat → F → Option (List E × Nat × E)
  | 0, f => match kind 0 (mem f (idx 0)) with
    | .absent => none
    | _ => some ([], 0, mem f (idx 0))
  | l+1, f => match kind (l+1) (mem f (idx (l+1))) with
    | .absent => none
    | .leaf => some ([], l+1, mem f (idx (l+1)))
    | .link g => (trail idx l g).map fun t => (mem f (idx (l+1)) :: t.1, t.2)

/-- The links form a tree: no link leads to the root, and no two lead to one table. -/
structure IsTree : Prop where
  root_unlinked : ∀ {l : Nat} {f : F} {i : ι}, Reach kind mem top root (l+1) f →
    kind (l+1) (mem f i) ≠ .link root
  linked_once : ∀ {l l' : Nat} {f f' g : F} {i i' : ι}, Reach kind mem top root (l+1) f →
    kind (l+1) (mem f i) = .link g → Reach kind mem top root (l'+1) f' →
    kind (l'+1) (mem f' i') = .link g → f = f' ∧ i = i'

end Paths

variable {kind : Nat → E → Slot F} {mem mem' : F → ι → E} {top : Nat} {root : F}

theorem Path.reach {idx : Nat → ι} {l : Nat} {f : F} (h : Path kind mem top root idx l f) :
    Reach kind mem top root l f := by
  induction h with
  | root => exact .root
  | step _ hk ih => exact .link ih hk

theorem Reach.le_top {l : Nat} {f : F} (h : Reach kind mem top root l f) : l ≤ top := by
  induction h with
  | root => exact Nat.le_refl _
  | link _ _ ih => omega

/-- The indices lead to one table a level. -/
theorem Path.functional {idx : Nat → ι} {l : Nat} {f f' : F} (h : Path kind mem top root idx l f)
    (h' : Path kind mem top root idx l f') : f = f' := by
  induction h generalizing f' with
  | root =>
    cases h' with
    | root => rfl
    | step hr _ =>
      have := hr.reach.le_top
      omega
  | step hr hk ih =>
    cases h' with
    | root =>
      have := hr.reach.le_top
      omega
    | step hr' hk' =>
      rw [ih hr', hk'] at hk
      exact (Slot.link.inj hk).symm

/-- A table below the root was reached through a link of the table above it. -/
theorem Path.link {idx : Nat → ι} {l : Nat} {f g : F} (hf : Path kind mem top root idx (l+1) f)
    (hg : Path kind mem top root idx l g) : kind (l+1) (mem f (idx (l+1))) = .link g := by
  cases hg with
  | root =>
    have := hf.reach.le_top
    omega
  | step hr hk => rwa [hf.functional hr]

/-- A table is reached at one level only. -/
theorem IsTree.level_unique (h : IsTree kind mem top root) {l l' : Nat} {f : F}
    (hf : Reach kind mem top root l f) (hf' : Reach kind mem top root l' f) : l = l' := by
  induction hf generalizing l' with
  | root =>
    cases hf' with
    | root => rfl
    | link hr hk => exact absurd hk (h.root_unlinked hr)
  | link hr hk ih =>
    cases hf' with
    | root => exact absurd hk (h.root_unlinked hr)
    | link hr' hk' =>
      obtain ⟨rfl, _⟩ := h.linked_once hr hk hr' hk'
      have := ih hr'
      omega

/-- Two index tuples that lead to one table agree on every level above it. -/
theorem IsTree.path_unique (h : IsTree kind mem top root) {idx idx' : Nat → ι} {l : Nat} {f : F}
    (hp : Path kind mem top root idx l f) (hp' : Path kind mem top root idx' l f) {k : Nat}
    (hl : l < k) (hk : k ≤ top) : idx k = idx' k := by
  induction hp generalizing k with
  | root => omega
  | @step l _ _ hr hs ih =>
    cases hp' with
    | root => exact absurd hs (h.root_unlinked hr.reach)
    | step hr' hs' =>
      obtain ⟨rfl, hi⟩ := h.linked_once hr.reach hs hr'.reach hs'
      rcases Nat.lt_or_ge (l+1) k with hlt | hge
      · exact ih hr' hlt hk
      · obtain rfl : k = l+1 := by omega
        exact hi

theorem lookup_eq_trail (idx : Nat → ι) (l : Nat) (f : F) :
    lookup kind mem idx l f = (trail kind mem idx l f).map Prod.snd := by
  induction l generalizing f with
  | zero =>
    rw [lookup, trail]
    cases kind 0 (mem f (idx 0)) <;> rfl
  | succ l ih =>
    rw [lookup, trail]
    cases kind (l+1) (mem f (idx (l+1))) with
    | absent => rfl
    | leaf => rfl
    | link g =>
      simp only [ih g, Option.map_map]
      rfl

/-- A lookup continues from any table on its path. -/
theorem Path.lookup_eq {idx : Nat → ι} {l : Nat} {f : F} (h : Path kind mem top root idx l f) :
    lookup kind mem idx top root = lookup kind mem idx l f := by
  induction h with
  | root => rfl
  | step _ hk ih => rw [ih, lookup, hk]

theorem lookup_of_leaf {idx : Nat → ι} {l : Nat} {f : F} (h : Path kind mem top root idx l f)
    (hk : kind l (mem f (idx l)) = .leaf) :
    lookup kind mem idx top root = some (l, mem f (idx l)) := by
  rw [h.lookup_eq]
  cases l <;> rw [lookup, hk]

theorem lookup_of_absent {idx : Nat → ι} {l : Nat} {f : F} (h : Path kind mem top root idx l f)
    (hk : kind l (mem f (idx l)) = .absent) : lookup kind mem idx top root = none := by
  rw [h.lookup_eq]
  cases l <;> rw [lookup, hk]

/-- A lookup reads no index above its level. -/
theorem lookup_indices {idx idx' : Nat → ι} {l : Nat} (h : ∀ k ≤ l, idx k = idx' k) (f : F) :
    lookup kind mem idx l f = lookup kind mem idx' l f := by
  induction l generalizing f with
  | zero => rw [lookup, lookup, h 0 (Nat.le_refl 0)]
  | succ l ih =>
    rw [lookup, lookup, h (l+1) (Nat.le_refl _)]
    cases kind (l+1) (mem f (idx' (l+1))) with
    | absent => rfl
    | leaf => rfl
    | link g => exact ih (fun k hk => h k (by omega)) g

theorem lookup_present {idx : Nat → ι} {l k : Nat} {f : F} {e : E} (h : lookup kind mem idx l f = some (k, e)) :
    kind k e ≠ .absent := by
  induction l generalizing f with
  | zero =>
    rw [lookup] at h
    cases hk : kind 0 (mem f (idx 0)) <;> rw [hk] at h <;> cases h <;> rw [hk] <;> simp
  | succ l ih =>
    rw [lookup] at h
    cases hk : kind (l+1) (mem f (idx (l+1))) <;> rw [hk] at h
    · cases h
    · cases h
      rw [hk]
      simp
    · exact ih h

/-! ### Changes that leave the links alone -/

section SameLinks
variable (hsame : ∀ {l : Nat} {f : F} (i : ι), Reach kind mem top root (l+1) f →
  kind (l+1) (mem' f i) = kind (l+1) (mem f i))
include hsame

theorem reach_of_same {l : Nat} {f : F} (h : Reach kind mem top root l f) : Reach kind mem' top root l f := by
  induction h with
  | root => exact .root
  | link hr hk ih => exact .link ih ((hsame _ hr).trans hk)

theorem reach_to_same {l : Nat} {f : F} (h : Reach kind mem' top root l f) : Reach kind mem top root l f := by
  induction h with
  | root => exact .root
  | link _ hk ih => exact .link ih ((hsame _ ih).symm.trans hk)

theorem reach_same_iff {l : Nat} {f : F} : Reach kind mem' top root l f ↔ Reach kind mem top root l f :=
  ⟨reach_to_same hsame, reach_of_same hsame⟩

theorem path_of_same {idx : Nat → ι} {l : Nat} {f : F} (h : Path kind mem top root idx l f) :
    Path kind mem' top root idx l f := by
  induction h with
  | root => exact .root
  | step hr hk ih => exact .step ih ((hsame _ hr.reach).trans hk)

theorem IsTree.of_same (h : IsTree kind mem top root) : IsTree kind mem' top root where
  root_unlinked hr := by
    have hr := reach_to_same hsame hr
    rw [hsame _ hr]
    exact h.root_unlinked hr
  linked_once hr hk hr' hk' := by
    have hr := reach_to_same hsame hr
    have hr' := reach_to_same hsame hr'
    exact h.linked_once hr ((hsame _ hr).symm.trans hk) hr' ((hsame _ hr').symm.trans hk')

end SameLinks

/-- A lookup is the same if each entry on its path is, or the lookup from there on. -/
theorem trail_congr_of_or {idx : Nat → ι}
    (h : ∀ l f, Path kind mem top root idx l f →
      mem' f (idx l) = mem f (idx l) ∨ trail kind mem' idx l f = trail kind mem idx l f) :
    trail kind mem' idx top root = trail kind mem idx top root := by
  have hgo : ∀ l f, Path kind mem top root idx l f → trail kind mem' idx l f = trail kind mem idx l f := by
    intro l
    induction l with
    | zero =>
      intro f hp
      rcases h 0 f hp with he | htrail
      · rw [trail, trail, he]
      · exact htrail
    | succ l ih =>
      intro f hp
      rcases h (l+1) f hp with he | htrail
      · rw [trail, trail, he]
        cases hk : kind (l+1) (mem f (idx (l+1))) with
        | absent => rfl
        | leaf => rfl
        | link g => simp only [ih g (.step hp hk)]
      · exact htrail
  exact hgo top root .root

/-- A lookup reads only the entries on its path. -/
theorem trail_congr {idx : Nat → ι}
    (h : ∀ l f, Path kind mem top root idx l f → mem' f (idx l) = mem f (idx l)) :
    trail kind mem' idx top root = trail kind mem idx top root :=
  trail_congr_of_or fun l f hp => .inl (h l f hp)

theorem lookup_congr {idx : Nat → ι}
    (h : ∀ l f, Path kind mem top root idx l f → mem' f (idx l) = mem f (idx l)) :
    lookup kind mem' idx top root = lookup kind mem idx top root := by
  rw [lookup_eq_trail, lookup_eq_trail, trail_congr h]

/-- A path depends only on the links on it. -/
theorem path_congr {idx : Nat → ι} (h : ∀ {l f}, Path kind mem top root idx (l+1) f →
    kind (l+1) (mem' f (idx (l+1))) = kind (l+1) (mem f (idx (l+1)))) {l : Nat} {f : F} :
    Path kind mem' top root idx l f ↔ Path kind mem top root idx l f := by
  constructor
  · intro hp
    induction hp with
    | root => exact .root
    | step _ hk ih => exact .step ih ((h ih).symm.trans hk)
  · intro hp
    induction hp with
    | root => exact .root
    | step hr hk ih => exact .step ih ((h hr).trans hk)

/-- A path passes through every level above its end. -/
theorem Path.exists_above {idx : Nat → ι} {l : Nat} {f : F} (hp : Path kind mem top root idx l f) {k : Nat}
    (hl : l ≤ k) (hk : k ≤ top) : ∃ g, Path kind mem top root idx k g := by
  induction hp with
  | root =>
    obtain rfl : k = top := by omega
    exact ⟨root, .root⟩
  | step hr hs ih =>
    rcases Nat.eq_or_lt_of_le hl with rfl | hlt
    · exact ⟨_, .step hr hs⟩
    · exact ih hlt

/-- On the path of a lookup that finds an entry no entry is absent. -/
theorem Path.present {idx : Nat → ι} {l : Nat} {f : F} (hp : Path kind mem top root idx l f)
    (h : lookup kind mem idx top root ≠ none) : kind l (mem f (idx l)) ≠ .absent :=
  fun hk => h (lookup_of_absent hp hk)

/-! ### Writing an entry of a bottom table -/

/-- Other indices do not come to the bottom entry some indices lead to. -/
theorem IsTree.entry_apart (h : IsTree kind mem top root) {idx idx' : Nat → ι} {f : F}
    (hp : Path kind mem top root idx 0 f) (hne : ∃ k ≤ top, idx k ≠ idx' k) {l : Nat} {g : F}
    (hg : Path kind mem top root idx' l g) : (g, idx' l) ≠ (f, idx 0) := by
  rintro he
  obtain ⟨rfl, hi⟩ := Prod.mk.inj he
  obtain rfl := h.level_unique hp.reach hg.reach
  obtain ⟨k, hk, hkne⟩ := hne
  apply hkne
  rcases Nat.eq_zero_or_pos k with rfl | hpos
  · exact hi.symm
  · exact h.path_unique hp hg hpos hk

theorem IsTree.leaf_same (h : IsTree kind mem top root) {f : F} {i : ι} (hf : Reach kind mem top root 0 f)
    (hrest : ∀ g j, (g, j) ≠ (f, i) → mem' g j = mem g j) {l : Nat} {g : F} (j : ι)
    (hg : Reach kind mem top root (l+1) g) : kind (l+1) (mem' g j) = kind (l+1) (mem g j) := by
  rw [hrest g j]
  rintro he
  obtain ⟨rfl, _⟩ := Prod.mk.inj he
  have := h.level_unique hf hg
  omega

section LeafWrite
variable {f : F} {idx idx' : Nat → ι} (h : IsTree kind mem top root) (hp : Path kind mem top root idx 0 f)
  (hrest : ∀ g j, (g, j) ≠ (f, idx 0) → mem' g j = mem g j) (hne : ∃ k ≤ top, idx k ≠ idx' k)
include h hp hrest hne

/-- Only the indices that lead to the written entry see the write. -/
theorem IsTree.trail_leafWrite : trail kind mem' idx' top root = trail kind mem idx' top root :=
  trail_congr fun _ g hg => hrest g _ (h.entry_apart hp hne hg)

theorem IsTree.lookup_leafWrite : lookup kind mem' idx' top root = lookup kind mem idx' top root := by
  rw [lookup_eq_trail, lookup_eq_trail, h.trail_leafWrite hp hrest hne]

end LeafWrite

/-! ### Linking a fresh table -/

/-- From `mem` to `mem'`: an absent entry now links the table `n`, which is new and empty. -/
structure Links (kind : Nat → E → Slot F) (mem mem' : F → ι → E) (top : Nat) (root : F)
    (l : Nat) (f : F) (i : ι) (n : F) : Prop where
  parent : Reach kind mem top root (l+1) f
  before : kind (l+1) (mem f i) = .absent
  fresh : ∀ k, ¬ Reach kind mem top root k n
  after : kind (l+1) (mem' f i) = .link n
  empty : ∀ k j, kind k (mem' n j) = .absent
  rest : ∀ g j, g ≠ n → (g, j) ≠ (f, i) → mem' g j = mem g j

section Link
variable {l : Nat} {f n : F} {i : ι} (hs : Links kind mem mem' top root l f i n)
include hs

/-- The entries of old tables but the written one are the old ones. -/
theorem Links.entry {k : Nat} {g : F} {j : ι} (hg : Reach kind mem top root k g) (hne : (g, j) ≠ (f, i)) :
    mem' g j = mem g j :=
  hs.rest g j (fun he => hs.fresh k (he ▸ hg)) hne

private theorem Links.link_entry (h : IsTree kind mem top root) {k : Nat} {g m : F} {j : ι}
    (hg : Reach kind mem top root (k+1) g) (hk : kind (k+1) (mem g j) = .link m) : mem' g j = mem g j := by
  refine hs.entry hg fun he => ?_
  obtain ⟨rfl, rfl⟩ := Prod.mk.inj he
  obtain rfl : k = l := by
    have := h.level_unique hg hs.parent
    omega
  rw [hs.before] at hk
  cases hk

theorem Links.reach (h : IsTree kind mem top root) {k : Nat} {g : F} (hg : Reach kind mem top root k g) :
    Reach kind mem' top root k g := by
  induction hg with
  | root => exact .root
  | link hr hk ih => exact .link ih (by rwa [hs.link_entry h hr hk])

theorem Links.path (h : IsTree kind mem top root) {idx : Nat → ι} {k : Nat} {g : F}
    (hg : Path kind mem top root idx k g) : Path kind mem' top root idx k g := by
  induction hg with
  | root => exact .root
  | step hr hk ih => exact .step ih (by rwa [hs.link_entry h hr.reach hk])

/-- The path that met the absent entry now reaches the new table. -/
theorem Links.path_new (h : IsTree kind mem top root) {idx : Nat → ι}
    (hp : Path kind mem top root idx (l+1) f) (hi : idx (l+1) = i) : Path kind mem' top root idx l n :=
  .step (hs.path h hp) (by rw [hi]; exact hs.after)

/-- One link of the new tree: an old one, or the one just written. -/
private theorem Links.cases_link (h : IsTree kind mem top root) {k : Nat} {g m : F} {j : ι}
    (hg : Reach kind mem top root (k+1) g ∨ (k+1 = l ∧ g = n)) (hk : kind (k+1) (mem' g j) = .link m) :
    (Reach kind mem top root (k+1) g ∧ kind (k+1) (mem g j) = .link m ∧ m ≠ n) ∨
      (k = l ∧ g = f ∧ j = i ∧ m = n) := by
  rcases hg with hg | ⟨_, rfl⟩
  · by_cases he : (g, j) = (f, i)
    · obtain ⟨rfl, rfl⟩ := Prod.mk.inj he
      have := h.level_unique hg hs.parent
      obtain rfl : k = l := by omega
      rw [hs.after] at hk
      exact .inr ⟨rfl, rfl, rfl, (Slot.link.inj hk).symm⟩
    · rw [hs.entry hg he] at hk
      refine .inl ⟨hg, hk, ?_⟩
      rintro rfl
      exact hs.fresh k (.link hg hk)
  · rw [hs.empty] at hk
    cases hk

theorem Links.reach_iff (h : IsTree kind mem top root) {k : Nat} {g : F} :
    Reach kind mem' top root k g ↔ Reach kind mem top root k g ∨ (k = l ∧ g = n) := by
  constructor
  · intro hg
    induction hg with
    | root => exact .inl .root
    | link _ hk ih =>
      rcases hs.cases_link h ih hk with ⟨hg, hk, _⟩ | ⟨rfl, _, _, rfl⟩
      · exact .inl (.link hg hk)
      · exact .inr ⟨rfl, rfl⟩
  · rintro (hg | ⟨rfl, rfl⟩)
    · exact hs.reach h hg
    · exact .link (hs.reach h hs.parent) hs.after

/-- A path of the new tree is an old one, or ends in the new table. -/
theorem Links.path_old (h : IsTree kind mem top root) {idx : Nat → ι} {k : Nat} {g : F}
    (hg : Path kind mem' top root idx k g) : Path kind mem top root idx k g ∨ g = n := by
  induction hg with
  | root => exact .inl .root
  | @step k g _ hr hk ih =>
    rcases ih with hp | rfl
    · rcases hs.cases_link h (.inl hp.reach) hk with ⟨_, hk, _⟩ | ⟨_, _, _, hm⟩
      · exact .inl (.step hp hk)
      · exact .inr hm
    · rw [hs.empty] at hk
      cases hk

theorem Links.isTree (h : IsTree kind mem top root) : IsTree kind mem' top root where
  root_unlinked hg hk := by
    rcases hs.cases_link h ((hs.reach_iff h).mp hg) hk with ⟨hg, hk, _⟩ | ⟨_, _, _, rfl⟩
    · exact h.root_unlinked hg hk
    · exact hs.fresh top .root
  linked_once hg hk hg' hk' := by
    rcases hs.cases_link h ((hs.reach_iff h).mp hg) hk with ⟨hg, hk, hm⟩ | ⟨_, rfl, rfl, hm⟩ <;>
      rcases hs.cases_link h ((hs.reach_iff h).mp hg') hk' with ⟨hg', hk', hm'⟩ | ⟨_, rfl, rfl, hm'⟩
    · exact h.linked_once hg hk hg' hk'
    · exact absurd hm' hm
    · exact absurd hm hm'
    · exact ⟨rfl, rfl⟩

/-- Linking an empty table changes no lookup. -/
theorem Links.trail_eq (h : IsTree kind mem top root) (idx : Nat → ι) :
    trail kind mem' idx top root = trail kind mem idx top root := by
  refine trail_congr_of_or fun k g hp => ?_
  by_cases he : (g, idx k) = (f, i)
  · obtain ⟨rfl, rfl⟩ := Prod.mk.inj he
    obtain rfl := h.level_unique hp.reach hs.parent
    rw [trail, hs.after, trail, hs.before]
    cases l <;> simp only [trail, hs.empty, Option.map_none, or_true]
  · exact .inl (hs.entry hp.reach he)

theorem Links.lookup_eq (h : IsTree kind mem top root) (idx : Nat → ι) :
    lookup kind mem' idx top root = lookup kind mem idx top root := by
  rw [lookup_eq_trail, lookup_eq_trail, hs.trail_eq h]

end Link

/-! ### Unlinking a table without links -/

/-- From `mem` to `mem'`: the entry that linked the empty table `n` is absent. -/
structure Unlinks (kind : Nat → E → Slot F) (mem mem' : F → ι → E) (top : Nat) (root : F)
    (l : Nat) (f : F) (i : ι) (n : F) : Prop where
  parent : Reach kind mem top root (l+1) f
  before : kind (l+1) (mem f i) = .link n
  empty : ∀ j, kind l (mem n j) = .absent
  after : kind (l+1) (mem' f i) = .absent
  rest : ∀ g j, (g, j) ≠ (f, i) → mem' g j = mem g j

section Unlink
variable {l : Nat} {f n : F} {i : ι} (hs : Unlinks kind mem mem' top root l f i n)
include hs

private theorem Unlinks.cases_entry (h : IsTree kind mem top root) {k : Nat} {g : F} (j : ι)
    (hg : Reach kind mem top root k g) : (k = l+1 ∧ g = f ∧ j = i) ∨ mem' g j = mem g j := by
  by_cases he : (g, j) = (f, i)
  · obtain ⟨rfl, rfl⟩ := Prod.mk.inj he
    exact .inl ⟨h.level_unique hg hs.parent, rfl, rfl⟩
  · exact .inr (hs.rest g j he)

/-- One link of the old tree: kept, or the one taken out. -/
private theorem Unlinks.cases_link (h : IsTree kind mem top root) {k : Nat} {g m : F} {j : ι}
    (hg : Reach kind mem top root (k+1) g) (hk : kind (k+1) (mem g j) = .link m) :
    (g = f ∧ j = i ∧ m = n) ∨ (kind (k+1) (mem' g j) = .link m ∧ m ≠ n) := by
  rcases hs.cases_entry h j hg with ⟨hkl, rfl, rfl⟩ | he
  · obtain rfl : k = l := by omega
    rw [hs.before] at hk
    exact .inl ⟨rfl, rfl, (Slot.link.inj hk).symm⟩
  · by_cases hm : m = n
    · subst hm
      obtain ⟨rfl, rfl⟩ := h.linked_once hg hk hs.parent hs.before
      exact .inl ⟨rfl, rfl, rfl⟩
    · exact .inr ⟨by rwa [he], hm⟩

/-- A link of the new tree is one of the old. -/
private theorem Unlinks.link_old (h : IsTree kind mem top root) {k : Nat} {g m : F} {j : ι}
    (hg : Reach kind mem top root (k+1) g) (hk : kind (k+1) (mem' g j) = .link m) :
    kind (k+1) (mem g j) = .link m := by
  rcases hs.cases_entry h j hg with ⟨hkl, rfl, rfl⟩ | he
  · obtain rfl : k = l := by omega
    rw [hs.after] at hk
    cases hk
  · rwa [← he]

theorem Unlinks.reach_old (h : IsTree kind mem top root) {k : Nat} {g : F}
    (hg : Reach kind mem' top root k g) : Reach kind mem top root k g := by
  induction hg with
  | root => exact .root
  | link _ hk ih => exact .link ih (hs.link_old h ih hk)

/-- The table taken out is the only one lost. -/
theorem Unlinks.reach_iff (h : IsTree kind mem top root) {k : Nat} {g : F} :
    Reach kind mem' top root k g ↔ Reach kind mem top root k g ∧ g ≠ n := by
  constructor
  · intro hg
    refine ⟨hs.reach_old h hg, ?_⟩
    rintro rfl
    cases hg with
    | root => exact h.root_unlinked hs.parent hs.before
    | link hr hk =>
      have hr := hs.reach_old h hr
      obtain ⟨rfl, rfl⟩ := h.linked_once hr (hs.link_old h hr hk) hs.parent hs.before
      have := h.level_unique hr hs.parent
      obtain rfl : k = l := by omega
      rw [hs.after] at hk
      cases hk
  · rintro ⟨hg, hne⟩
    induction hg with
    | root => exact .root
    | @link k m j g hr hk ih =>
      have hm : m ≠ n := by
        rintro rfl
        have hl := h.level_unique hr (.link hs.parent hs.before)
        rw [hl, hs.empty] at hk
        cases hk
      rcases hs.cases_link h hr hk with ⟨_, _, rfl⟩ | ⟨hk', _⟩
      · exact absurd rfl hne
      · exact .link (ih hm) hk'

/-- Paths down to the level of the written table survive. -/
theorem Unlinks.path (h : IsTree kind mem top root) {idx : Nat → ι} {k : Nat} {g : F}
    (hg : Path kind mem top root idx k g) (hk : l < k) : Path kind mem' top root idx k g := by
  induction hg with
  | root => exact .root
  | step hr hm ih =>
    refine .step (ih (by omega)) ?_
    rcases hs.cases_entry h (idx _) hr.reach with ⟨hkl, _⟩ | he
    · omega
    · rwa [he]

theorem Unlinks.isTree (h : IsTree kind mem top root) : IsTree kind mem' top root where
  root_unlinked hg hk := by
    have hg := hs.reach_old h hg
    exact h.root_unlinked hg (hs.link_old h hg hk)
  linked_once hg hk hg' hk' := by
    have hg := hs.reach_old h hg
    have hg' := hs.reach_old h hg'
    exact h.linked_once hg (hs.link_old h hg hk) hg' (hs.link_old h hg' hk')

/-- Taking an empty table out changes no lookup. -/
theorem Unlinks.trail_eq (h : IsTree kind mem top root) (idx : Nat → ι) :
    trail kind mem' idx top root = trail kind mem idx top root := by
  refine trail_congr_of_or fun k g hp => ?_
  rcases hs.cases_entry h (idx k) hp.reach with ⟨rfl, hgf, hji⟩ | he
  · rw [trail, trail, hgf, hji, hs.after, hs.before]
    cases l <;> simp only [trail, hs.empty, Option.map_none, or_true]
  · exact .inl he

theorem Unlinks.lookup_eq (h : IsTree kind mem top root) (idx : Nat → ι) :
    lookup kind mem' idx top root = lookup kind mem idx top root := by
  rw [lookup_eq_trail, lookup_eq_trail, hs.trail_eq h]

end Unlink

end TableTree
end Nafuraito.Library
