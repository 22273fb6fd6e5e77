import Nafuraito.Memory.DemandPaging
import Nafuraito.Memory.Footprint

/-! The region registry over runs: page-aligned regions that do not overlap, from which
`munmap` takes exactly the pages of the call. -/
namespace Nafuraito.Memory
open Nafuraito.Library
open Slots (At Apart covered)

/-! ### Address arithmetic -/

theorem alignDown_toNat (a : BitVec 64) : (alignDown a).toNat = a.toNat/4096*4096 :=
  Words.and_not_toNat (k := 12) offsetMask_bits

theorem alignUp_toNat (a : BitVec 64) : (alignUp a).toNat = (a.toNat+4095) % 2^64/4096*4096 := by
  rw [alignUp, Words.and_not_toNat (k := 12) offsetMask_bits]
  have : (a + 4096#64 - 1#64).toNat = (a.toNat+4095) % 2^64 := by
    rw [BitVec.toNat_sub, BitVec.toNat_add, BitVec.toNat_ofNat, BitVec.toNat_ofNat]
    omega
  rw [this, show (2 : Nat)^12 = 4096 from rfl]

theorem checkedAdd_some {a b c : BitVec 64} (h : checkedAdd a b = some c) : c.toNat = a.toNat + b.toNat := by
  rw [checkedAdd] at h
  split at h
  · rw [← Option.some.inj h, BitVec.toNat_add]
    omega
  · cases h

/-- The range from `lo` to `hi` is that of the pages of the call, none of them at the very
top of the address space. -/
structure PageRange (start : VirtAddr) (size lo hi : BitVec 64) : Prop where
  lo_eq : lo.toNat = start.addr.toNat/4096*4096
  hi_eq : hi.toNat = (start.addr.toNat + size.toNat + 4095)/4096*4096
  lt : lo.toNat < hi.toNat

theorem Machine.pageRange_run (start : VirtAddr) (size : BitVec 64) (s : Machine) :
    (∃ lo hi, pageRange start size s = (.ok (lo, hi), s) ∧ PageRange start size lo hi) ∨
      ∃ message, pageRange start size s = (.error (.err message), s) := by
  rw [pageRange]
  cases hc : checkedAdd start.addr size with
  | none => exact .inr ⟨_, rfl⟩
  | some sum =>
    have hsum := checkedAdd_some hc
    rw [Fallible.okOr_some, Fallible.pure_bind_run]
    by_cases hle : alignUp sum ≤ alignDown start.addr
    · exact .inr ⟨_, Fallible.bind_of_error (Fallible.require_run_neg _ (not_not.mpr hle) s)⟩
    · rw [Fallible.bind_of_ok (Fallible.require_run_pos _ hle s)]
      refine .inl ⟨_, _, rfl, alignDown_toNat _, ?_, by rwa [BitVec.not_le, BitVec.lt_def] at hle⟩
      -- had the rounding wrapped, the range would end at 0
      have hlt := sum.isLt
      rw [BitVec.not_le, BitVec.lt_def, alignUp_toNat] at hle
      rw [alignUp_toNat, ← hsum]
      omega

theorem PageRange.unique {start : VirtAddr} {size lo hi lo' hi' : BitVec 64} (h : PageRange start size lo hi)
    (h' : PageRange start size lo' hi') : lo' = lo ∧ hi' = hi :=
  ⟨BitVec.toNat_inj.mp (h'.lo_eq.trans h.lo_eq.symm), BitVec.toNat_inj.mp (h'.hi_eq.trans h.hi_eq.symm)⟩

theorem PageRange.run {start : VirtAddr} {size lo hi : BitVec 64} (h : PageRange start size lo hi) (s : Machine) :
    Machine.pageRange start size s = (.ok (lo, hi), s) := by
  obtain ⟨hlo, hhi, hlt⟩ := h
  have hbound := hi.isLt
  have hsum : (start.addr + size).toNat = start.addr.toNat + size.toNat := by
    rw [BitVec.toNat_add]
    omega
  have hlo' : alignDown start.addr = lo := BitVec.toNat_inj.mp ((alignDown_toNat _).trans hlo.symm)
  have hhi' : alignUp (start.addr + size) = hi := by
    rw [← BitVec.toNat_inj, alignUp_toNat, hsum]
    omega
  rw [Machine.pageRange, checkedAdd, if_pos (by omega), Fallible.okOr_some, Fallible.pure_bind_run, hlo', hhi']
  exact Fallible.bind_of_ok (Fallible.require_run_pos _ (by rwa [BitVec.not_le, BitVec.lt_def]) s)

/-! ### The invariant -/

namespace VmRegion
variable {r : VmRegion} {addr : BitVec 64}

/-- The addresses of a region. -/
def span (r : VmRegion) : Set Nat := Set.Ico r.start.toNat r.endAddr.toNat

structure Paged (r : VmRegion) : Prop where
  start_mod : r.start.toNat % 4096 = 0
  end_mod : r.endAddr.toNat % 4096 = 0
  lt : r.start.toNat < r.endAddr.toNat

theorem Paged.shrinkFront (h : r.Paged) (ha : addr.toNat % 4096 = 0) (hlt : addr.toNat < r.endAddr.toNat) :
    (r.shrinkFront addr).Paged := ⟨ha, h.end_mod, hlt⟩

theorem Paged.shrinkBack (h : r.Paged) (ha : addr.toNat % 4096 = 0) (hlt : r.start.toNat < addr.toNat) :
    (r.shrinkBack addr).Paged := ⟨h.start_mod, ha, hlt⟩

theorem shrinkFront_subset (h : r.start.toNat ≤ addr.toNat) : (r.shrinkFront addr).span ⊆ r.span :=
  Set.Ico_subset_Ico_left h

theorem shrinkBack_subset (h : addr.toNat ≤ r.endAddr.toNat) : (r.shrinkBack addr).span ⊆ r.span :=
  Set.Ico_subset_Ico_right h

end VmRegion

namespace Regions

/-- Every region is page-aligned, not empty and does not wrap, and no two overlap. -/
structure Ok (regions : Regions) : Prop where
  paged : ∀ i r, regions i = some r → r.Paged
  apart : Apart VmRegion.span regions

/-- The registered addresses. -/
def addresses (regions : Regions) : Set Nat := covered VmRegion.span regions

variable {R R' R'' : Regions} {i : Fin 64} {r r' : VmRegion} {us ue : BitVec 64}

theorem rangesOverlap_eq_false : rangesOverlap us ue r.start r.endAddr = false ↔
    ue.toNat ≤ r.start.toNat ∨ r.endAddr.toNat ≤ us.toNat := by
  simp only [rangesOverlap, Bool.and_eq_false_iff, decide_eq_false_iff_not, BitVec.lt_def]
  omega

/-- Nothing registered is in a range that overlaps no region. -/
theorem disjoint_of_not_overlaps (h : R.overlaps us ue = false) : Disjoint (Set.Ico us.toNat ue.toNat) R.addresses := by
  rw [Set.disjoint_left]
  rintro a ⟨h₁, h₂⟩ ⟨r, i, hi, h₃, h₄⟩
  have := (List.any_eq_false.mp h) i (List.mem_finRange i)
  rw [hi] at this
  simp only [rangesOverlap, Bool.and_eq_true, decide_eq_true_eq, BitVec.lt_def] at this
  omega

private theorem filter_some {o : Option VmRegion} {a : BitVec 64} :
    (o.filter fun region => region.start ≤ a && a < region.endAddr) = some r ↔
      o = some r ∧ a.toNat ∈ r.span := by
  rw [Option.filter_eq_some_iff, Bool.and_eq_true, decide_eq_true_eq, decide_eq_true_eq, BitVec.le_def, BitVec.lt_def]
  rfl

theorem findRegion_iff {a : BitVec 64} (h : R.Ok) : R.findRegion a = some r ↔ At VmRegion.span R a.toNat r := by
  have hat {q : VmRegion} (hq : R.findRegion a = some q) : At VmRegion.span R a.toNat q := by
    obtain ⟨i, _, hi⟩ := List.exists_of_findSome?_eq_some hq
    exact ⟨i, filter_some.mp hi⟩
  refine ⟨hat, fun hr => ?_⟩
  cases hq : R.findRegion a with
  | none =>
    obtain ⟨i, hi⟩ := hr
    have := List.findSome?_eq_none_iff.mp hq i (List.mem_finRange i)
    rw [filter_some.mpr hi] at this
    cases this
  | some q => rw [h.apart.unique (hat hq) hr]

theorem store_run (r : VmRegion) (message : String) (R : Regions) :
    (∃ i, R i = none ∧ store r message R = (.ok (), Function.update R i (some r))) ∨
      store r message R = (.error (.err message), R) := by
  rw [store]
  split
  · exact .inl ⟨_, Slots.firstFree_eq_none ‹_›, rfl⟩
  · exact .inr rfl

theorem Ok.update (h : R.Ok) {x : Option VmRegion} (hx : ∀ r, x = some r → r.Paged)
    (ha : Apart VmRegion.span (Function.update R i x)) : Ok (Function.update R i x) := by
  refine ⟨fun j r hj => ?_, ha⟩
  rw [Function.update_apply] at hj
  split at hj
  · exact hx r hj
  · exact h.paged j r hj

/-! ### Cutting a range out -/

/-- `r'` is what is left of `r` at one side of a cut that ends at `ue`. -/
structure CutFrom (ue : BitVec 64) (r r' : VmRegion) : Prop where
  flags : r'.flags = r.flags
  backing : r'.backing = r.backing
  start : r'.start = r.start ∨ (r.start.toNat < ue.toNat ∧ r'.start = ue)

theorem CutFrom.refl : CutFrom ue r r := ⟨rfl, rfl, .inl rfl⟩

theorem CutFrom.shrinkFront (h : r.start.toNat < ue.toNat) : CutFrom ue r (r.shrinkFront ue) :=
  ⟨rfl, rfl, .inr ⟨h, rfl⟩⟩

theorem CutFrom.shrinkBack : CutFrom ue r (r.shrinkBack us) := ⟨rfl, rfl, .inl rfl⟩

theorem CutFrom.trans {r'' : VmRegion} (h : CutFrom ue r r') (h' : CutFrom ue r' r'') : CutFrom ue r r'' := by
  refine ⟨h'.flags.trans h.flags, h'.backing.trans h.backing, ?_⟩
  rcases h'.start with he | ⟨hlt, he⟩
  · rw [he]
    exact h.start
  · rcases h.start with he' | ⟨hlt', -⟩
    · exact .inr ⟨by rwa [he'] at hlt, he⟩
    · exact .inr ⟨hlt', he⟩

/-- Every address of `R'` was one of `R`, in a region that differs by cuts only. -/
def Pieces (ue : BitVec 64) (R R' : Regions) : Prop :=
  ∀ a r', At VmRegion.span R' a r' → ∃ r, At VmRegion.span R a r ∧ CutFrom ue r r'

/-- No address outside the range is lost. -/
def KeepsOutside (us ue : BitVec 64) (R R' : Regions) : Prop :=
  ∀ a ∈ R.addresses, a ∉ Set.Ico us.toNat ue.toNat → a ∈ R'.addresses

theorem Pieces.refl : Pieces ue R R := fun _ r h => ⟨r, h, .refl⟩

theorem Pieces.trans (h : Pieces ue R R') (h' : Pieces ue R' R'') : Pieces ue R R'' := by
  intro a r'' ha
  obtain ⟨r', hr', hc'⟩ := h' a r'' ha
  obtain ⟨r, hr, hc⟩ := h a r' hr'
  exact ⟨r, hr, hc.trans hc'⟩

/-- One region replaced by a piece of it, or removed. -/
theorem replace_spec (h : R.Ok) (hi : R i = some r) {x : Option VmRegion}
    (hx : ∀ r', x = some r' → r'.Paged ∧ r'.span ⊆ r.span ∧ CutFrom ue r r') :
    Ok (Function.update R i x) ∧ Pieces ue R (Function.update R i x) := by
  constructor
  · cases x with
    | none => exact h.update (by simp) h.apart.clear
    | some r' =>
      obtain ⟨hp, hs, _⟩ := hx r' rfl
      refine h.update (fun q hq => ?_) (h.apart.shrink hi hs)
      rwa [← Option.some.inj hq]
  · intro a r' ha
    rcases Slots.at_update.mp ha with ⟨he, ha⟩ | ⟨j, _, hj, ha⟩
    · obtain ⟨_, hs, hc⟩ := hx r' he
      exact ⟨r, ⟨i, hi, hs ha⟩, hc⟩
    · exact ⟨r', ⟨j, hj, ha⟩, .refl⟩

/-- It keeps what is outside the range if the piece does. -/
theorem replace_keeps (hi : R i = some r) {x : Option VmRegion}
    (hx : ∀ a ∈ r.span, a ∉ Set.Ico us.toNat ue.toNat → ∃ r', x = some r' ∧ a ∈ r'.span) :
    KeepsOutside us ue R (Function.update R i x) := by
  rintro a ⟨q, j, hj, ha⟩ hout
  by_cases hij : j = i
  · subst hij
    obtain rfl := Option.some.inj (hi.symm.trans hj)
    obtain ⟨r', he, ha'⟩ := hx a ha hout
    exact ⟨r', Slots.at_update.mpr (.inl ⟨he, ha'⟩)⟩
  · exact ⟨q, Slots.at_update.mpr (.inr ⟨j, hij, hj, ha⟩)⟩

/-- The region is outside the range. -/
def Clear (us ue : BitVec 64) (r : VmRegion) : Prop := ue.toNat ≤ r.start.toNat ∨ r.endAddr.toNat ≤ us.toNat

/-- What one round makes of the registry. -/
structure CutSpec (ue : BitVec 64) (R R' : Regions) : Prop where
  ok : R'.Ok
  pieces : Pieces ue R R'

/-- What it makes of it where it returns `Ok`. -/
structure CutDone (us ue : BitVec 64) (i : Fin 64) (R R' : Regions) : Prop where
  keeps : KeepsOutside us ue R R'
  here : ∀ r, R' i = some r → Clear us ue r
  elsewhere : ∀ j ≠ i, R' j = R j ∨ ∃ r, R' j = some r ∧ Clear us ue r

/-- A round that only rewrites its own slot. -/
private theorem cutDone_replace {x : Option VmRegion} (hk : KeepsOutside us ue R (Function.update R i x))
    (hx : ∀ r, x = some r → Clear us ue r) : CutDone us ue i R (Function.update R i x) :=
  ⟨hk, fun r hr => hx r (by rwa [Function.update_self] at hr), fun j hj => .inl (Function.update_of_ne hj _ _)⟩

/-- The split: the left part replaces the region, the right part goes into a free slot. -/
private theorem split_spec (h : R.Ok) (hus : us.toNat % 4096 = 0) (hue : ue.toNat % 4096 = 0)
    (hlt : us.toNat < ue.toNat) (hi : R i = some r) (h₁ : r.start.toNat < us.toNat) (h₂ : ue.toNat < r.endAddr.toNat)
    (message : String) {x : Except Stop Unit}
    (hrun : store (r.shrinkFront ue) message (Function.update R i (some (r.shrinkBack us))) = (x, R')) :
    CutSpec ue R R' ∧ (x = .ok () → CutDone us ue i R R') := by
  have hr := h.paged i r hi
  have hback (r' : VmRegion) (hr' : some (r.shrinkBack us) = some r') :
      r'.Paged ∧ r'.span ⊆ r.span ∧ CutFrom ue r r' := by
    rw [← Option.some.inj hr']
    exact ⟨hr.shrinkBack hus h₁, VmRegion.shrinkBack_subset (by omega), .shrinkBack⟩
  obtain ⟨hok, hp⟩ := replace_spec h hi hback
  rcases store_run (r.shrinkFront ue) message (Function.update R i (some (r.shrinkBack us))) with ⟨j, hj, he⟩ | he
  · obtain ⟨rfl, rfl⟩ := Prod.mk.inj (he.symm.trans hrun)
    have hji : j ≠ i := by
      rintro rfl
      rw [Function.update_self] at hj
      cases hj
    have hsub : (r.shrinkFront ue).span ⊆ r.span := VmRegion.shrinkFront_subset (by omega)
    have hnew : Disjoint (r.shrinkFront ue).span
        (covered VmRegion.span (Function.update R i (some (r.shrinkBack us)))) := by
      rw [Set.disjoint_left]
      rintro a ha ⟨q, hq⟩
      rcases Slots.at_update.mp hq with ⟨hq, ha'⟩ | ⟨k, hk, hq, ha'⟩
      · rw [← Option.some.inj hq] at ha'
        have h₃ : a < us.toNat := ha'.2
        have h₄ : ue.toNat ≤ a := ha.1
        omega
      · exact hk (h.apart.slot_unique hq hi ha' (hsub ha))
    refine ⟨⟨hok.update (fun q hq => ?_) (hok.apart.insert hnew), fun a q hq => ?_⟩, fun _ => ⟨?_, ?_, ?_⟩⟩
    · rw [← Option.some.inj hq]
      exact hr.shrinkFront hue h₂
    · rcases Slots.at_update.mp hq with ⟨hq, ha⟩ | ⟨k, _, hq, ha⟩
      · rw [← Option.some.inj hq] at ha ⊢
        exact ⟨r, ⟨i, hi, hsub ha⟩, .shrinkFront (by omega)⟩
      · exact hp a q ⟨k, hq, ha⟩
    · rintro a ⟨q, k, hk, ha⟩ hout
      by_cases hki : k = i
      · rw [hki, hi] at hk
        obtain rfl := Option.some.inj hk
        by_cases hau : a < us.toNat
        · exact ⟨r.shrinkBack us, i, by rw [Function.update_of_ne hji.symm, Function.update_self], ha.1, hau⟩
        · have hae : ue.toNat ≤ a := by
            by_contra hae
            exact hout ⟨by omega, by omega⟩
          exact ⟨_, j, Function.update_self _ _ _, hae, ha.2⟩
      · have hkj : k ≠ j := by
          rintro rfl
          rw [Function.update_of_ne hki, hk] at hj
          cases hj
        exact ⟨q, k, by rw [Function.update_of_ne hkj, Function.update_of_ne hki, hk], ha⟩
    · intro q hq
      rw [Function.update_of_ne hji.symm, Function.update_self] at hq
      rw [← Option.some.inj hq]
      exact .inr (Nat.le_refl _)
    · intro k hk
      by_cases hkj : k = j
      · subst hkj
        exact .inr ⟨_, Function.update_self _ _ _, .inl (Nat.le_refl _)⟩
      · exact .inl (by rw [Function.update_of_ne hkj, Function.update_of_ne hk])
  · obtain ⟨rfl, rfl⟩ := Prod.mk.inj (he.symm.trans hrun)
    exact ⟨⟨hok, hp⟩, fun h => by cases h⟩

/-- One round: it keeps the invariant, cuts regions only, and if it returns `Ok` loses nothing
outside the range and leaves nothing of the slot inside. -/
theorem cutSlot_spec (h : R.Ok) (hus : us.toNat % 4096 = 0) (hue : ue.toNat % 4096 = 0) (hlt : us.toNat < ue.toNat)
    {x : Except Stop Unit} (hrun : cutSlot us ue i R = (x, R')) :
    CutSpec ue R R' ∧ (x = .ok () → CutDone us ue i R R') := by
  unfold cutSlot at hrun
  split at hrun
  · obtain ⟨rfl, rfl⟩ := Prod.mk.inj hrun
    exact ⟨⟨h, .refl⟩, fun _ => ⟨fun _ ha _ => ha, by simp [*], fun _ _ => .inl rfl⟩⟩
  rename_i r hi
  have hr := h.paged i r hi
  split at hrun
  · rename_i hno
    obtain ⟨rfl, rfl⟩ := Prod.mk.inj hrun
    rw [Bool.not_eq_true', rangesOverlap_eq_false] at hno
    refine ⟨⟨h, .refl⟩, fun _ => ⟨fun _ ha _ => ha, fun q hq => ?_, fun _ _ => .inl rfl⟩⟩
    rwa [← Option.some.inj (hi.symm.trans hq)]
  rename_i hover
  rw [Bool.not_eq_true', rangesOverlap_eq_false] at hover
  simp only [BitVec.le_def, BitVec.lt_def, ge_iff_le, gt_iff_lt] at hrun
  split at hrun
  -- the region is covered
  · obtain ⟨rfl, rfl⟩ := Prod.mk.inj hrun
    obtain ⟨hok, hp⟩ : _ ∧ Pieces ue R (Function.update R i none) := replace_spec h hi (by simp)
    refine ⟨⟨hok, hp⟩, fun _ => cutDone_replace (replace_keeps hi fun a ha hout => ?_) (by simp)⟩
    exact absurd (Set.Ico_subset_Ico (by omega) (by omega) ha) hout
  split at hrun
  -- only its front is
  · obtain ⟨rfl, rfl⟩ := Prod.mk.inj hrun
    have hfront (r' : VmRegion) (hr' : some (r.shrinkFront ue) = some r') :
        r'.Paged ∧ r'.span ⊆ r.span ∧ CutFrom ue r r' := by
      rw [← Option.some.inj hr']
      exact ⟨hr.shrinkFront hue (by omega), VmRegion.shrinkFront_subset (by omega), .shrinkFront (by omega)⟩
    obtain ⟨hok, hp⟩ := replace_spec h hi hfront
    refine ⟨⟨hok, hp⟩, fun _ => cutDone_replace (replace_keeps hi fun a ha hout => ⟨_, rfl, ?_, ha.2⟩) fun q hq => ?_⟩
    · have h₁ : r.start.toNat ≤ a := ha.1
      change ue.toNat ≤ a
      by_contra hae
      exact hout ⟨by omega, by omega⟩
    · rw [← Option.some.inj hq]
      exact .inl (Nat.le_refl _)
  split at hrun
  -- only its back is
  · obtain ⟨rfl, rfl⟩ := Prod.mk.inj hrun
    have hback (r' : VmRegion) (hr' : some (r.shrinkBack us) = some r') :
        r'.Paged ∧ r'.span ⊆ r.span ∧ CutFrom ue r r' := by
      rw [← Option.some.inj hr']
      exact ⟨hr.shrinkBack hus (by omega), VmRegion.shrinkBack_subset (by omega), .shrinkBack⟩
    obtain ⟨hok, hp⟩ := replace_spec h hi hback
    refine ⟨⟨hok, hp⟩, fun _ => cutDone_replace (replace_keeps hi fun a ha hout => ⟨_, rfl, ha.1, ?_⟩) fun q hq => ?_⟩
    · have h₁ : a < r.endAddr.toNat := ha.2
      change a < us.toNat
      by_contra hau
      exact hout ⟨by omega, by omega⟩
    · rw [← Option.some.inj hq]
      exact .inr (Nat.le_refl _)
  · exact split_spec h hus hue hlt hi (by omega) (by omega) _ hrun

/-- The loop: the invariant is kept whatever it returns, and where it returns `Ok` the range is
cut out of the registered addresses. -/
theorem cut_spec (h : R.Ok) (hus : us.toNat % 4096 = 0) (hue : ue.toNat % 4096 = 0) (hlt : us.toNat < ue.toNat)
    {x : Except Stop Unit} (hrun : cut us ue R = (x, R')) :
    R'.Ok ∧ Pieces ue R R' ∧ (x = .ok () →
      KeepsOutside us ue R R' ∧ ∀ i r, R' i = some r → Clear us ue r) := by
  have hrel : Fallible.Relates (fun S T => Ok S → CutSpec ue S T) (cut us ue) := by
    rw [cut]
    refine Fallible.Relates.forRange (fun _ hS => ⟨hS, .refl⟩) (fun _ _ _ h₁ h₂ hS => ?_) (fun i => ?_) 0 64
    · exact ⟨(h₂ (h₁ hS).ok).ok, (h₁ hS).pieces.trans (h₂ (h₁ hS).ok).pieces⟩
    · exact fun S hS => (cutSlot_spec hS hus hue hlt (Prod.eta _).symm).1
  have hspec := hrel R h
  rw [hrun] at hspec
  refine ⟨hspec.ok, hspec.pieces, ?_⟩
  rintro rfl
  -- after round `i` the slots below `i` are clear of the range
  have hend := Fallible.forRange_ok (P := fun i S => Ok S ∧ KeepsOutside us ue R S ∧
      ∀ j : Fin 64, j.val < i → ∀ r, S j = some r → Clear us ue r)
    (fun i S T _ hi ⟨hS, hk, hc⟩ hstep => by
      obtain ⟨hspec, hdone⟩ := cutSlot_spec hS hus hue hlt hstep
      obtain ⟨hk', hhere, helse⟩ := hdone rfl
      refine ⟨hspec.ok, fun a ha hout => hk' a (hk a ha hout) hout, fun j hj r hr => ?_⟩
      by_cases hji : j = Fin.ofNat 64 i
      · exact hhere r (hji ▸ hr)
      · have hval : (Fin.ofNat 64 i).val = i := Nat.mod_eq_of_lt (by omega)
        have hne : j.val ≠ i := fun he => hji (Fin.ext (he.trans hval.symm))
        rcases helse j hji with he | ⟨q, hq, hclear⟩
        · exact hc j (by omega) r (he ▸ hr)
        · rwa [← Option.some.inj (hq.symm.trans hr)])
    ⟨h, fun _ ha _ => ha, fun j hj => absurd hj (Nat.not_lt_zero _)⟩ hrun
  exact ⟨hend.2.1, fun i r hr => hend.2.2 i (by omega) r hr⟩

theorem cut_addresses (h : R.Ok) (hus : us.toNat % 4096 = 0) (hue : ue.toNat % 4096 = 0) (hlt : us.toNat < ue.toNat)
    (hrun : cut us ue R = (.ok (), R')) : R'.addresses = R.addresses \ Set.Ico us.toNat ue.toNat := by
  obtain ⟨_, hp, hdone⟩ := cut_spec h hus hue hlt hrun
  obtain ⟨hk, hclear⟩ := hdone rfl
  apply Set.Subset.antisymm
  · rintro a ⟨r', hr'⟩
    obtain ⟨r, hr, _⟩ := hp a r' hr'
    obtain ⟨i, hi, h₁, h₂⟩ := hr'
    refine ⟨⟨r, hr⟩, fun ⟨h₃, h₄⟩ => ?_⟩
    rcases hclear i r' hi with h | h <;> omega
  · exact fun a ⟨ha, hout⟩ => hk a ha hout

end Regions

namespace Machine
open Fallible (Relates)
variable {s t : Machine}

/-! ### The calls -/

theorem tryOk_relates {R : Machine → Machine → Prop} {α : Type} {x : Op α} (h : Relates R x) : Relates R (tryOk x) := by
  intro s
  have hs := h s
  rw [tryOk]
  generalize x s = result at hs ⊢
  rcases result with ⟨(_ | _) | _, t⟩ <;> exact hs

/-- Releasing pages leaves the registry alone, whatever the page-table calls return. -/
theorem releasePages_statics (us ue : BitVec 64) : Relates SameStatics (releasePages us ue) := by
  refine Relates.forRange (fun _ => .rfl) (fun _ _ _ h₁ h₂ => h₁.trans h₂) (fun page => ?_) _ _
  refine Relates.bind (fun _ _ _ h₁ h₂ => h₁.trans h₂) (tryOk_relates ?_) fun phys => ?_
  · exact translateAddress_relates (fun _ => .rfl) (fun _ _ _ h₁ h₂ => h₁.trans h₂) _
  · cases phys with
    | none => exact Relates.pure (fun _ => .rfl) _
    | some phys =>
      exact Relates.bind (fun _ _ _ h₁ h₂ => h₁.trans h₂) (unmapPage_statics _) fun _ s => freeFrame_statics _ s

private theorem requireBacking_run (backing : BackingKind) (s : Machine) :
    requireBacking backing s = (.ok (), s) ∨ ∃ message, requireBacking backing s = (.error (.err message), s) := by
  cases backing with
  | zeroFill => exact .inl rfl
  | fileBacked file =>
    by_cases h : file.fileOffset % 4096#64 = 0
    · exact .inl (Fallible.require_run_pos _ h s)
    · exact .inr ⟨_, Fallible.require_run_neg _ h s⟩

/-- `mmap` fails and changes nothing, or puts a region for the pages of the call, which
overlaps no other, into a free slot. -/
theorem mmap_run (start : VirtAddr) (size : BitVec 64) (flags : PageTableFlags) (backing : BackingKind)
    (s : Machine) : (∃ message, mmap start size flags backing s = (.error (.err message), s)) ∨
      ∃ i lo hi, s.regions i = none ∧ PageRange start size lo hi ∧ s.regions.overlaps lo hi = false ∧
        mmap start size flags backing s =
          (.ok ⟨lo⟩, { s with regions := Function.update s.regions i (some ⟨lo, hi, flags, backing⟩) }) := by
  rw [mmap]
  by_cases hsize : size ≠ 0
  swap
  · exact .inl ⟨_, Fallible.bind_of_error (Fallible.require_run_neg _ hsize s)⟩
  rw [Fallible.bind_of_ok (Fallible.require_run_pos _ hsize s)]
  rcases requireBacking_run backing s with hb | ⟨message, hb⟩
  swap
  · exact .inl ⟨_, Fallible.bind_of_error hb⟩
  rw [Fallible.bind_of_ok hb]
  rcases pageRange_run start size s with ⟨lo, hi, hp, hrange⟩ | ⟨message, hp⟩
  swap
  · exact .inl ⟨_, Fallible.bind_of_error hp⟩
  rw [Fallible.bind_of_ok hp]
  dsimp only
  rw [Fallible.get_bind_run]
  by_cases hover : ¬ s.regions.overlaps lo hi
  swap
  · exact .inl ⟨_, Fallible.bind_of_error (Fallible.require_run_neg _ hover s)⟩
  rw [Fallible.bind_of_ok (Fallible.require_run_pos _ hover s), Fallible.bind_run, onRegions, Fallible.zoom]
  rcases Regions.store_run ⟨lo, hi, flags, backing⟩ "No free region slots" s.regions with ⟨i, hi', he⟩ | he
  · rw [he]
    exact .inr ⟨i, lo, hi, hi', hrange, by simpa using hover, rfl⟩
  · rw [he]
    exact .inl ⟨_, rfl⟩

theorem mmapFile_run (start : VirtAddr) (size : BitVec 64) (flags : PageTableFlags) (file : FileBacking)
    (s : Machine) : (∃ message, mmapFile start size flags file s = (.error (.err message), s)) ∨
      mmapFile start size flags file s = mmap start size flags (.fileBacked file) s := by
  rw [mmapFile]
  by_cases h : file.fileOffset % 4096#64 = 0
  · exact .inr (Fallible.bind_of_ok (Fallible.require_run_pos _ h s))
  · exact .inl ⟨_, Fallible.bind_of_error (Fallible.require_run_neg _ h s)⟩

/-- The checks of `munmap` let a call through, and its loop runs from `lo` to `hi`. -/
structure Admits (start : VirtAddr) (size lo hi : BitVec 64) (s : Machine) : Prop where
  size_ne : size ≠ 0
  range : PageRange start size lo hi
  overlaps : s.regions.overlaps lo hi = true

/-- `munmap` fails in its checks, or runs its two loops. -/
theorem munmap_cases (start : VirtAddr) (size : BitVec 64) (s : Machine) :
    (∃ lo hi, Admits start size lo hi s ∧
      munmap start size s = (releasePages lo hi >>= fun _ => onRegions (Regions.cut lo hi)) s) ∨
    (∀ lo hi, ¬ Admits start size lo hi s) ∧ ∃ message, munmap start size s = (.error (.err message), s) := by
  rw [munmap]
  by_cases hsize : size ≠ 0
  swap
  · exact .inr ⟨fun _ _ h => hsize h.size_ne, _, Fallible.bind_of_error (Fallible.require_run_neg _ hsize s)⟩
  rw [Fallible.bind_of_ok (Fallible.require_run_pos _ hsize s)]
  rcases pageRange_run start size s with ⟨lo, hi, hp, hrange⟩ | ⟨message, hp⟩
  swap
  · refine .inr ⟨fun lo hi h => ?_, _, Fallible.bind_of_error hp⟩
    cases hp.symm.trans (h.range.run s)
  rw [Fallible.bind_of_ok hp]
  dsimp only
  rw [Fallible.get_bind_run]
  by_cases hover : s.regions.overlaps lo hi
  swap
  · refine .inr ⟨fun lo' hi' h => hover ?_, _, Fallible.bind_of_error (Fallible.require_run_neg _ hover s)⟩
    obtain ⟨rfl, rfl⟩ := Prod.mk.inj (Except.ok.inj (Prod.mk.inj (hp.symm.trans (h.range.run s))).1)
    exact h.overlaps
  rw [Fallible.bind_of_ok (Fallible.require_run_pos _ hover s)]
  exact .inl ⟨lo, hi, ⟨hsize, hrange, hover⟩, rfl⟩

/-- `munmap` fails before it touches the registry, in its checks or while it releases the pages of
the call, or it cuts these pages out of the registry and returns what the cutting returns. -/
theorem munmap_run (start : VirtAddr) (size : BitVec 64) (s : Machine) :
    (∃ e t, munmap start size s = (.error e, t) ∧ t.regions = s.regions ∧
      (t = s ∨ ∃ lo hi, PageRange start size lo hi ∧ releasePages lo hi s = (.error e, t))) ∨
    ∃ lo hi, ∃ u : Machine, PageRange start size lo hi ∧ releasePages lo hi s = (.ok (), u) ∧ munmap start size s =
      ((Regions.cut lo hi s.regions).1, { u with regions := (Regions.cut lo hi s.regions).2 }) := by
  rcases munmap_cases start size s with ⟨lo, hi, hadmits, he⟩ | ⟨-, message, he⟩
  swap
  · exact .inl ⟨_, s, he, rfl, .inl rfl⟩
  rw [he]
  have hsame := (releasePages_statics lo hi s).regions
  rcases hr : releasePages lo hi s with ⟨e | x, u⟩ <;> rw [hr] at hsame
  · exact .inl ⟨e, u, Fallible.bind_of_error hr, hsame, .inr ⟨lo, hi, hadmits.range, hr⟩⟩
  · rw [Fallible.bind_of_ok hr]
    refine .inr ⟨lo, hi, u, hadmits.range, hr, ?_⟩
    rw [← hsame]
    rfl

/-! ### Runs -/

/-- The machines reached from an empty registry by `mmap`, `mmap_file` and `munmap`, each
returning anything, with other code in between that does not write the registry. -/
inductive RegistryRun : Machine → Prop where
  | start {s : Machine} : (∀ i, s.regions i = none) → RegistryRun s
  | mmap {s : Machine} (start : VirtAddr) (size : BitVec 64) (flags : PageTableFlags) (backing : BackingKind) :
      RegistryRun s → RegistryRun (Machine.mmap start size flags backing s).2
  | mmapFile {s : Machine} (start : VirtAddr) (size : BitVec 64) (flags : PageTableFlags) (file : FileBacking) :
      RegistryRun s → RegistryRun (Machine.mmapFile start size flags file s).2
  | munmap {s : Machine} (start : VirtAddr) (size : BitVec 64) :
      RegistryRun s → RegistryRun (Machine.munmap start size s).2
  | other {s t : Machine} : RegistryRun s → t.regions = s.regions → RegistryRun t

theorem mmap_keeps (h : s.regions.Ok) (start : VirtAddr) (size : BitVec 64) (flags : PageTableFlags)
    (backing : BackingKind) : (mmap start size flags backing s).2.regions.Ok := by
  rcases mmap_run start size flags backing s with ⟨_, he⟩ | ⟨i, lo, hi, _, hrange, hover, he⟩
  · rwa [he]
  · rw [he]
    have hmod := hrange.lo_eq
    have hmod' := hrange.hi_eq
    refine h.update (fun r hr => ?_) (h.apart.insert (Regions.disjoint_of_not_overlaps hover))
    rw [← Option.some.inj hr]
    exact ⟨by dsimp only; omega, by dsimp only; omega, hrange.lt⟩

theorem munmap_keeps (h : s.regions.Ok) (start : VirtAddr) (size : BitVec 64) :
    (munmap start size s).2.regions.Ok := by
  rcases munmap_run start size s with ⟨_, t, he, hsame, -⟩ | ⟨lo, hi, u, hrange, -, he⟩
  · rw [he]
    rwa [← hsame] at h
  · rw [he]
    have hmod := hrange.lo_eq
    have hmod' := hrange.hi_eq
    exact (Regions.cut_spec h (by omega) (by omega) hrange.lt (Prod.eta _).symm).1

theorem RegistryRun.ok (h : RegistryRun s) : s.regions.Ok := by
  induction h with
  | start h => exact ⟨fun i r hr => by simp [h] at hr, fun i j r q _ hr _ => by simp [h] at hr⟩
  | mmap start size flags backing _ ih => exact mmap_keeps ih start size flags backing
  | @mmapFile s start size flags file _ ih =>
    rcases mmapFile_run start size flags file s with ⟨_, he⟩ | he
    · rwa [he]
    · rw [he]
      exact mmap_keeps ih start size flags _
  | munmap start size _ ih => exact munmap_keeps ih start size
  | other _ hs ih => rwa [hs]

/-- In every machine reached the regions are page-aligned, not empty, do not wrap and do not
overlap, and a `munmap` that returns `Ok` takes exactly the pages of the call out. -/
theorem registryRun_invariant (h : RegistryRun s) :
    (∀ i r, s.regions i = some r → r.Paged) ∧
      (∀ i j r q, i ≠ j → s.regions i = some r → s.regions j = some q → Disjoint r.span q.span) ∧
      ∀ start size t, munmap start size s = (.ok (), t) → t.regions.addresses = s.regions.addresses \
        Set.Ico (start.addr.toNat/4096*4096) ((start.addr.toNat + size.toNat + 4095)/4096*4096) := by
  refine ⟨h.ok.paged, h.ok.apart, fun start size t hok => ?_⟩
  rcases munmap_run start size s with ⟨_, u, he, _⟩ | ⟨lo, hi, u, hrange, -, he⟩
  · rw [he] at hok
    cases hok
  · obtain ⟨hx, rfl⟩ := Prod.mk.inj (he.symm.trans hok)
    have hmod := hrange.lo_eq
    have hmod' := hrange.hi_eq
    rw [← hmod, ← hmod']
    exact Regions.cut_addresses h.ok (by omega) (by omega) hrange.lt (Prod.ext hx rfl)

/-- The statics as the program starts with them. -/
def initial : Machine := ⟨none, none, fun _ => none, fun _ => 0, fun _ _ => 0, []⟩

/-- Three pages are mapped and the middle one is unmapped. -/
theorem registryRun_invariant_split :
    (munmap ⟨0x11000#64⟩ 0x1000#64 (mmap ⟨0x10000#64⟩ 0x3000#64 ⟨3#64⟩ .zeroFill initial).2).2.regions.addresses =
      (mmap ⟨0x10000#64⟩ 0x3000#64 ⟨3#64⟩ .zeroFill initial).2.regions.addresses \ Set.Ico 0x11000 0x12000 :=
  (registryRun_invariant (s := (mmap ⟨0x10000#64⟩ 0x3000#64 ⟨3#64⟩ .zeroFill initial).2)
    (.mmap _ _ _ _ (.start fun _ => rfl))).2.2 ⟨0x11000#64⟩ 0x1000#64 _ (Prod.ext (by decide +kernel) rfl)

end Machine
end Nafuraito.Memory
