import Nafuraito.Memory.RegionRegistry

/-! When the splits of a `munmap` find a slot: a region around the range takes one more, and the slots that are free
then are the vacant ones and those of the regions already removed, less the ones that earlier splits took. -/
namespace Nafuraito.Memory.Regions
open Nafuraito.Library
open Slots (countBefore vacant)
variable {R S : Regions} {i : Fin 64} {r : VmRegion} {us ue : BitVec 64}

/-- The slot holds a region that goes on at both ends of the range. -/
def splits (us ue : BitVec 64) (R : Regions) (i : Fin 64) : Bool :=
  (R i).any fun r => r.start < us && ue < r.endAddr

/-- The slot holds a region that the range overlaps and covers. -/
def removes (us ue : BitVec 64) (R : Regions) (i : Fin 64) : Bool :=
  (R i).any fun r => rangesOverlap us ue r.start r.endAddr && (us ≤ r.start && r.endAddr ≤ ue)

/-- There is a slot for the right part of each region that is split. -/
def SplitsFit (us ue : BitVec 64) (R : Regions) : Prop := ∀ i, splits us ue R i →
  countBefore (splits us ue R) i < (vacant R).card + countBefore (removes us ue R) i

/-- The registry before round `k`: the slots ahead are as they were, but for right parts in vacant ones. -/
structure Cutting (us ue : BitVec 64) (R : Regions) (k : Nat) (S : Regions) : Prop where
  ahead : ∀ j : Fin 64, k ≤ j → S j = R j ∨ R j = none ∧ ∃ r, S j = some r ∧ ue ≤ r.start
  count : (vacant S).card + countBefore (splits us ue R) k = (vacant R).card + countBefore (removes us ue R) k

theorem Cutting.start : Cutting us ue R 0 R :=
  ⟨fun _ _ => .inl rfl, by rw [Slots.countBefore_zero, Slots.countBefore_zero]⟩

/-- A round that neither removes nor splits. -/
private theorem Cutting.keep (h : Cutting us ue R i S) {S' : Regions} (hvacant : (vacant S').card = (vacant S).card)
    (hsame : ∀ j ≠ i, S' j = S j) (hsplits : splits us ue R i = false) (hremoves : removes us ue R i = false) :
    Cutting us ue R (i+1) S' where
  ahead j hj := by
    rw [hsame j (by rintro rfl; omega)]
    exact h.ahead j (by omega)
  count := by
    rw [Slots.countBefore_succ, Slots.countBefore_succ, hsplits, hremoves, hvacant, Bool.toNat_false]
    exact h.count

/-- A slot that is vacant in `R` holds nothing to cut. -/
private theorem Cutting.round_vacant (h : Cutting us ue R i S) (hi : R i = none) :
    cutSlot us ue i S = (.ok (), S) ∧ Cutting us ue R (i+1) S ∧ splits us ue R i = false := by
  have hno : splits us ue R i = false := by rw [splits, hi, Option.any_none]
  have hno' : removes us ue R i = false := by rw [removes, hi, Option.any_none]
  refine ⟨?_, h.keep rfl (fun _ _ => rfl) hno hno', hno⟩
  rw [cutSlot]
  rcases h.ahead i le_rfl with hsame | ⟨-, r, hr, hpast⟩
  · rw [hsame, hi]
  · have hclear : rangesOverlap us ue r.start r.endAddr = false := rangesOverlap_eq_false.mpr (.inl hpast)
    rw [hr]
    dsimp only
    rw [hclear]
    rfl

section Held
variable (h : Cutting us ue R i S) (hi : R i = some r)

private theorem splits_iff (hi : R i = some r) :
    splits us ue R i = true ↔ r.start.toNat < us.toNat ∧ ue.toNat < r.endAddr.toNat := by
  rw [splits, hi, Option.any_some, Bool.and_eq_true, decide_eq_true_eq, decide_eq_true_eq]
  rfl

private theorem removes_iff (hi : R i = some r) : removes us ue R i = true ↔
    rangesOverlap us ue r.start r.endAddr = true ∧ us.toNat ≤ r.start.toNat ∧ r.endAddr.toNat ≤ ue.toNat := by
  rw [removes, hi, Option.any_some, Bool.and_eq_true, Bool.and_eq_true, decide_eq_true_eq, decide_eq_true_eq]
  rfl

include h hi

private theorem Cutting.here : S i = some r := by
  rcases h.ahead i le_rfl with hsame | ⟨hnone, -⟩
  · exact hsame.trans hi
  · cases hnone.symm.trans hi

private theorem Cutting.vacant_replace (r' : VmRegion) : vacant (Function.update S i (some r')) = vacant S := by
  rw [Slots.vacant_fill, Finset.erase_eq_of_notMem fun hm => ?_]
  cases (h.here hi).symm.trans (Slots.mem_vacant.mp hm)

/-- A region that only gets shorter. -/
private theorem Cutting.shorten (hno : splits us ue R i = false) (hkept : removes us ue R i = false) (r' : VmRegion) :
    Cutting us ue R (i+1) (Function.update S i (some r')) :=
  h.keep (congrArg Finset.card (h.vacant_replace hi r')) (fun _ hj => Function.update_of_ne hj _ _) hno hkept

/-- A region that is taken out. -/
private theorem Cutting.remove (hno : splits us ue R i = false) (hremoved : removes us ue R i = true) :
    Cutting us ue R (i+1) (Function.update S i none) where
  ahead j hj := by
    rw [Function.update_of_ne (by rintro rfl; omega)]
    exact h.ahead j (by omega)
  count := by
    have hheld : i ∉ vacant S := fun hm => by cases (h.here hi).symm.trans (Slots.mem_vacant.mp hm)
    have hcount := h.count
    rw [Slots.vacant_clear, Finset.card_insert_of_notMem hheld, Slots.countBefore_succ, Slots.countBefore_succ,
      hno, hremoved, Bool.toNat_false, Bool.toNat_true]
    omega

/-- A region that is split: the right part goes into a vacant slot, or there is none. -/
private theorem Cutting.split (hlt : us.toNat < ue.toNat) (hinside : splits us ue R i = true) (message : String) :
    (∃ S', store (r.shrinkFront ue) message (Function.update S i (some (r.shrinkBack us))) = (.ok (), S') ∧
      Cutting us ue R (i+1) S' ∧ 0 < (vacant S).card) ∨
    ∃ S', store (r.shrinkFront ue) message (Function.update S i (some (r.shrinkBack us))) =
      (.error (.err message), S') ∧ S' i ≠ some r ∧ (vacant S).card = 0 := by
  obtain ⟨hstart, hend⟩ := (splits_iff hi).mp hinside
  have hkept : removes us ue R i = false := Bool.eq_false_iff.mpr fun hr => by
    have := (removes_iff hi).mp hr
    omega
  have hvacant := h.vacant_replace hi (r.shrinkBack us)
  have hfree := Slots.firstFree_isSome_iff (t := Function.update S i (some (r.shrinkBack us)))
  rw [hvacant] at hfree
  rw [store]
  cases hfirst : Slots.firstFree (Function.update S i (some (r.shrinkBack us))) with
  | none =>
    rw [hfirst, Option.isSome_none] at hfree
    refine .inr ⟨_, rfl, fun he => ?_, by simpa using hfree⟩
    rw [Function.update_self] at he
    have hsame : us = r.endAddr := congrArg VmRegion.endAddr (Option.some.inj he)
    rw [hsame] at hlt
    omega
  | some k =>
    rw [hfirst, Option.isSome_some] at hfree
    have hk : k ∈ vacant S := hvacant ▸ Slots.mem_vacant.mpr (Slots.firstFree_eq_none hfirst)
    refine .inl ⟨_, rfl, ⟨fun j hj => ?_, ?_⟩, hfree.mp rfl⟩
    · by_cases hjk : j = k
      · subst hjk
        refine .inr ⟨?_, _, Function.update_self _ _ _, Nat.le_refl ue.toNat⟩
        rcases h.ahead j (by omega) with hsame | ⟨hnone, -⟩
        · exact hsame.symm.trans (Slots.mem_vacant.mp hk)
        · exact hnone
      · rw [Function.update_of_ne hjk, Function.update_of_ne (by rintro rfl; omega)]
        exact h.ahead j (by omega)
    · have hcount := h.count
      have hpos := hfree.mp rfl
      rw [Slots.vacant_fill, hvacant, Finset.card_erase_of_mem hk, Slots.countBefore_succ, Slots.countBefore_succ,
        hkept, hinside, Bool.toNat_false, Bool.toNat_true]
      omega

end Held

/-- A round goes through, or a split finds no slot, with the left part written already. -/
theorem Cutting.round (h : Cutting us ue R i S) (hlt : us.toNat < ue.toNat) :
    (∃ S', cutSlot us ue i S = (.ok (), S') ∧ Cutting us ue R (i+1) S' ∧ (splits us ue R i → 0 < (vacant S).card)) ∨
    ∃ message S', cutSlot us ue i S = (.error (.err message), S') ∧ S' i ≠ R i ∧ splits us ue R i ∧
      (vacant S).card = 0 := by
  cases hi : R i with
  | none =>
    obtain ⟨hrun, hnext, hno⟩ := h.round_vacant hi
    refine .inl ⟨S, hrun, hnext, fun hs => ?_⟩
    cases hno.symm.trans hs
  | some r =>
    have hno (hout : us.toNat ≤ r.start.toNat ∨ r.endAddr.toNat ≤ ue.toNat) : splits us ue R i = false :=
      Bool.eq_false_iff.mpr fun hs => by
        have := (splits_iff hi).mp hs
        omega
    rw [cutSlot, h.here hi]
    dsimp only
    simp only [BitVec.le_def, BitVec.lt_def, ge_iff_le, gt_iff_lt]
    by_cases hover : rangesOverlap us ue r.start r.endAddr = true
    swap
    · have hclear := rangesOverlap_eq_false.mp (Bool.eq_false_iff.mpr hover)
      have hsplit : splits us ue R i = false := Bool.eq_false_iff.mpr fun hs => by
        have := (splits_iff hi).mp hs
        omega
      have hkept : removes us ue R i = false := Bool.eq_false_iff.mpr fun hr => hover ((removes_iff hi).mp hr).1
      rw [Bool.eq_false_iff.mpr hover, Bool.not_false, if_pos rfl]
      exact .inl ⟨S, rfl, h.keep rfl (fun _ _ => rfl) hsplit hkept, fun hs => by cases hsplit.symm.trans hs⟩
    rw [hover, Bool.not_true, if_neg Bool.false_ne_true]
    by_cases hcover : us.toNat ≤ r.start.toNat ∧ r.endAddr.toNat ≤ ue.toNat
    · rw [if_pos hcover]
      exact .inl ⟨_, rfl, h.remove hi (hno (.inl hcover.1)) ((removes_iff hi).mpr ⟨hover, hcover⟩),
        fun hs => by cases (hno (.inl hcover.1)).symm.trans hs⟩
    rw [if_neg hcover]
    have hkept : removes us ue R i = false := Bool.eq_false_iff.mpr fun hr => hcover ((removes_iff hi).mp hr).2
    by_cases hfront : us.toNat ≤ r.start.toNat ∧ ue.toNat < r.endAddr.toNat
    · rw [if_pos hfront]
      exact .inl ⟨_, rfl, h.shorten hi (hno (.inl hfront.1)) hkept _,
        fun hs => by cases (hno (.inl hfront.1)).symm.trans hs⟩
    rw [if_neg hfront]
    by_cases hback : r.start.toNat < us.toNat ∧ r.endAddr.toNat ≤ ue.toNat
    · rw [if_pos hback]
      exact .inl ⟨_, rfl, h.shorten hi (hno (.inr hback.2)) hkept _,
        fun hs => by cases (hno (.inr hback.2)).symm.trans hs⟩
    rw [if_neg hback]
    have hinside : splits us ue R i = true := (splits_iff hi).mpr (by omega)
    rcases h.split hi hlt hinside "No free region slots for split" with ⟨S', hrun, hnext, hpos⟩ | ⟨S', hrun, hne, hzero⟩
    · exact .inl ⟨S', hrun, hnext, fun _ => hpos⟩
    · exact .inr ⟨_, S', hrun, hne, hinside, hzero⟩

private theorem rounds_cases (hlt : us.toNat < ue.toNat) (R : Regions) {k : Nat} (hk : k ≤ 64) :
    (∃ S, Fallible.forRange (fun i => cutSlot us ue (Fin.ofNat 64 i)) 0 k R = (.ok (), S) ∧ Cutting us ue R k S ∧
      ∀ i : Fin 64, i.val < k → splits us ue R i →
        countBefore (splits us ue R) i < (vacant R).card + countBefore (removes us ue R) i) ∨
    ¬ SplitsFit us ue R ∧ ∃ message S,
      Fallible.forRange (fun i => cutSlot us ue (Fin.ofNat 64 i)) 0 k R = (.error (.err message), S) ∧ S ≠ R := by
  induction k with
  | zero => exact .inl ⟨R, rfl, .start, fun i hi => absurd hi (Nat.not_lt_zero _)⟩
  | succ k ih =>
    rw [Fallible.forRange_last, Nat.zero_add]
    rcases ih (by omega) with ⟨S, hrun, hS, hfit⟩ | ⟨hnot, message, S, hrun, hne⟩
    swap
    · exact .inr ⟨hnot, message, S, Fallible.bind_of_error hrun, hne⟩
    rw [Fallible.bind_of_ok hrun]
    have hval : (Fin.ofNat 64 k).val = k := Nat.mod_eq_of_lt hk
    have hcount := hS.count
    rw [← hval] at hS hcount
    rcases hS.round hlt with ⟨S', hstep, hnext, hpos⟩ | ⟨message, S', hstep, hne, hsplit, hzero⟩
    · rw [hval] at hnext
      refine .inl ⟨S', hstep, hnext, fun i hi hs => ?_⟩
      by_cases hik : i.val = k
      · have hi' : i = Fin.ofNat 64 k := Fin.ext (hik.trans hval.symm)
        subst hi'
        have := hpos hs
        omega
      · exact hfit i (by omega) hs
    · refine .inr ⟨fun hall => ?_, message, S', hstep, fun he => hne (congrFun he _)⟩
      have := hall _ hsplit
      omega

/-- Cutting goes through exactly if the splits fit, and where it fails it has changed the registry. -/
theorem cut_cases (hlt : us.toNat < ue.toNat) (R : Regions) :
    (SplitsFit us ue R ∧ ∃ S, cut us ue R = (.ok (), S)) ∨
      ¬ SplitsFit us ue R ∧ ∃ message S, cut us ue R = (.error (.err message), S) ∧ S ≠ R :=
  (rounds_cases hlt R le_rfl).imp_left fun ⟨S, hrun, _, hfit⟩ => ⟨fun i hs => hfit i i.isLt hs, S, hrun⟩

end Nafuraito.Memory.Regions
