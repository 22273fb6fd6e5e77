import Nafuraito.Memory.KernelAllocator
import Mathlib.Order.Interval.Set.Basic

/-! The early bump allocator under interleaving: any number of calls of `alloc_early`, each load and each
compare-and-exchange a step of its own. -/
namespace Nafuraito.Memory
open Nafuraito.Library

/-- A call before its load, in the loop with the offset it last read, or after its return. -/
inductive EarlyCall where
  | entered
  | loop (current : Nat)
  | returned (block : Option Nat)
  deriving DecidableEq

/-- `EARLY_HEAP_OFFSET` and the calls. -/
structure EarlyCalls (ι : Type) where
  offset : Nat
  call : ι → EarlyCall

namespace EarlyCalls
variable {ι : Type} [DecidableEq ι] (base : Nat) (layouts : ι → Layout)

def aligned (layout : Layout) (current : Nat) : Nat := Heap.alignUp current (max layout.align 16)

def next (layout : Layout) (current : Nat) : Nat := min (aligned layout current + layout.size) (2^64-1)

def set (s : EarlyCalls ι) (i : ι) (c : EarlyCall) : EarlyCalls ι := { s with call := Function.update s.call i c }

/-- One step of call `i`. The weak exchange may fail also where the offset is what it expects. -/
def step (i : ι) (spurious : Bool) (s : EarlyCalls ι) : EarlyCalls ι := match s.call i with
  | .entered => s.set i (.loop s.offset)
  | .loop current =>
    if next (layouts i) current > earlyHeapSize then s.set i (.returned none)
    else if s.offset = current ∧ spurious = false then
      { s.set i (.returned (some (base + aligned (layouts i) current))) with offset := next (layouts i) current }
    else s.set i (.loop s.offset)
  | .returned _ => s

/-- An interleaving: which call takes the next step, and whether its exchange fails spuriously. -/
def run (schedule : List (ι × Bool)) (s : EarlyCalls ι) : EarlyCalls ι :=
  schedule.foldl (fun s turn => step base layouts turn.1 turn.2 s) s

def start : EarlyCalls ι := ⟨0, fun _ => .entered⟩

/-- Call `i` returned a block at `ptr`. -/
def Holds (s : EarlyCalls ι) (i : ι) (ptr : Nat) : Prop := s.call i = .returned (some ptr)

def bytes (layouts : ι → Layout) (i : ι) (ptr : Nat) : Set Nat := Set.Ico ptr (ptr + (layouts i).size)

/-- What the callers rely on. -/
structure Correct (s : EarlyCalls ι) : Prop where
  apart : ∀ i j, i ≠ j → ∀ p q, s.Holds i p → s.Holds j q → ∀ x ∈ bytes layouts i p, x ∉ bytes layouts j q
  inside : ∀ i p, s.Holds i p → bytes layouts i p ⊆ Set.Ico base (base + earlyHeapSize)
  aligned : ∀ i p, s.Holds i p → (layouts i).align ∣ p

/-! ### What holds in every state -/

/-- The blocks lie below the offset, and no call has read more than the offset. -/
structure Inv (s : EarlyCalls ι) : Prop where
  offset_le : s.offset ≤ earlyHeapSize
  current_le : ∀ i current, s.call i = .loop current → current ≤ s.offset
  block : ∀ i p, s.Holds i p →
    ∃ a, p = base + a ∧ max (layouts i).align 16 ∣ a ∧ a + (layouts i).size ≤ s.offset
  apart : ∀ i j, i ≠ j → ∀ p q, s.Holds i p → s.Holds j q →
    p + (layouts i).size ≤ q ∨ q + (layouts j).size ≤ p

variable {base layouts} {s : EarlyCalls ι} {i j : ι} {p current : Nat}

theorem set_self (c : EarlyCall) : (s.set i c).call i = c := Function.update_self ..

theorem set_other (h : j ≠ i) (c : EarlyCall) : (s.set i c).call j = s.call j := Function.update_of_ne h ..

/-- A call that does not return a block leaves the blocks of the others. -/
private theorem holds_set {c : EarlyCall} (hc : ∀ p, c ≠ .returned (some p)) (h : (s.set i c).Holds j p) :
    s.Holds j p := by
  by_cases hji : j = i
  · rw [Holds, hji, set_self] at h
    exact absurd h (hc p)
  · rwa [Holds, set_other hji] at h

omit [DecidableEq ι] in
theorem Inv.start : Inv base layouts (start : EarlyCalls ι) where
  offset_le := Nat.zero_le _
  current_le i current h := by cases h
  block i p h := by cases h
  apart i j hij p q h := by cases h

/-- The step does not hand out a block. -/
private theorem Inv.set (h : Inv base layouts s) {c : EarlyCall} (hc : ∀ p, c ≠ .returned (some p))
    (hcurrent : ∀ current, c = .loop current → current ≤ s.offset) : Inv base layouts (s.set i c) where
  offset_le := h.offset_le
  current_le j current hj := by
    by_cases hji : j = i
    · rw [hji, set_self] at hj
      exact hcurrent current hj
    · rw [set_other hji] at hj
      exact h.current_le j current hj
  block j p hj := h.block j p (holds_set hc hj)
  apart j k hjk p q hj hk := h.apart j k hjk p q (holds_set hc hj) (holds_set hc hk)

/-- The exchange hands out the bytes from the aligned offset on. -/
private theorem Inv.exchange (h : Inv base layouts s) (hfits : ¬ next (layouts i) s.offset > earlyHeapSize) :
    Inv base layouts { s.set i (.returned (some (base + EarlyCalls.aligned (layouts i) s.offset))) with
      offset := next (layouts i) s.offset } := by
  have hle : s.offset ≤ EarlyCalls.aligned (layouts i) s.offset :=
    KernelAllocator.le_alignUp_layout _ h.offset_le
  have hnext : next (layouts i) s.offset = EarlyCalls.aligned (layouts i) s.offset + (layouts i).size := by
    unfold next earlyHeapSize at hfits
    rw [next, Nat.min_eq_left (by omega)]
  have hself : (s.set i (.returned (some (base + EarlyCalls.aligned (layouts i) s.offset)))).call i = _ := set_self _
  have hdvd : max (layouts i).align 16 ∣ EarlyCalls.aligned (layouts i) s.offset := by
    rw [EarlyCalls.aligned, KernelAllocator.alignUp_layout _ h.offset_le]
    exact Nat.dvd_mul_left _ _
  refine ⟨Nat.le_of_not_lt hfits, fun j current hj => ?_, fun j p hj => ?_, fun j k hjk p q hj hk => ?_⟩
  · by_cases hji : j = i
    · rw [hji] at hj
      cases hself.symm.trans hj
    · have := h.current_le j current ((set_other hji _).symm.trans hj)
      dsimp only
      omega
  · by_cases hji : j = i
    · subst hji
      obtain rfl := Option.some.inj (EarlyCall.returned.inj (hself.symm.trans hj))
      exact ⟨_, rfl, hdvd, hnext.ge⟩
    · obtain ⟨a, hp, ha, hend⟩ := h.block j p ((set_other hji _).symm.trans hj)
      exact ⟨a, hp, ha, by dsimp only; omega⟩
  -- Every older block ends at or below the offset that the new one is aligned from.
  · by_cases hji : j = i
    · by_cases hki : k = i
      · exact absurd (hji.trans hki.symm) hjk
      · subst hji
        obtain rfl := Option.some.inj (EarlyCall.returned.inj (hself.symm.trans hj))
        obtain ⟨a, rfl, -, hend⟩ := h.block k q ((set_other hki _).symm.trans hk)
        exact .inr (by omega)
    · by_cases hki : k = i
      · subst hki
        obtain rfl := Option.some.inj (EarlyCall.returned.inj (hself.symm.trans hk))
        obtain ⟨a, rfl, -, hend⟩ := h.block j p ((set_other hji _).symm.trans hj)
        exact .inl (by omega)
      · exact h.apart j k hjk p q ((set_other hji _).symm.trans hj) ((set_other hki _).symm.trans hk)

theorem Inv.step (h : Inv base layouts s) (i : ι) (spurious : Bool) :
    Inv base layouts (step base layouts i spurious s) := by
  rw [EarlyCalls.step]
  cases hcall : s.call i with
  | entered => exact h.set (fun p hp => by cases hp) fun current hc => (EarlyCall.loop.inj hc).ge
  | loop current =>
    dsimp only
    by_cases hfull : next (layouts i) current > earlyHeapSize
    · rw [if_pos hfull]
      exact h.set (fun p hp => by cases hp) fun current hc => by cases hc
    · rw [if_neg hfull]
      by_cases hsame : s.offset = current ∧ spurious = false
      · rw [if_pos hsame]
        obtain ⟨rfl, -⟩ := hsame
        exact h.exchange hfull
      · rw [if_neg hsame]
        exact h.set (fun p hp => by cases hp) fun current hc => (EarlyCall.loop.inj hc).ge
  | returned block => exact h

theorem Inv.run (h : Inv base layouts s) (schedule : List (ι × Bool)) :
    Inv base layouts (run base layouts schedule s) := by
  induction schedule generalizing s with
  | nil => exact h
  | cons turn schedule ih => exact ih (h.step turn.1 turn.2)

/-- A call takes effect in the step it returns in, as if it ran there alone. -/
theorem step_allocEarly (st : HeapStatics) (h : Inv st.earlyHeap layouts s) (heap : Heap) {spurious : Bool}
    {block : Option Nat} (hbefore : s.call i ≠ .returned block)
    (hreturn : (EarlyCalls.step st.earlyHeap layouts i spurious s).call i = .returned block) :
    KernelAllocator.allocEarly st (layouts i) ⟨s.offset, heap⟩ =
      (block.getD 0, ⟨(EarlyCalls.step st.earlyHeap layouts i spurious s).offset, heap⟩) := by
  have hmono {c : Nat} (hc : c ≤ s.offset) :
      EarlyCalls.aligned (layouts i) c ≤ EarlyCalls.aligned (layouts i) s.offset := by
    have hle := h.offset_le
    rw [EarlyCalls.aligned, EarlyCalls.aligned, KernelAllocator.alignUp_layout _ (hc.trans hle),
      KernelAllocator.alignUp_layout _ hle]
    exact Nat.mul_le_mul_right _ (Nat.div_le_div_right (by omega))
  change (if next (layouts i) s.offset > earlyHeapSize then _ else _) = _
  rw [EarlyCalls.step] at hreturn ⊢
  cases hcall : s.call i with
  | entered =>
    simp only [hcall, set_self] at hreturn
    cases hreturn
  | loop current =>
    have hcurrent := h.current_le i current hcall
    simp only [hcall] at hreturn ⊢
    by_cases hfull : next (layouts i) current > earlyHeapSize
    · have hnow : next (layouts i) s.offset > earlyHeapSize := by
        have := hmono hcurrent
        unfold next at hfull ⊢
        omega
      rw [if_pos hfull, set_self] at hreturn
      obtain rfl := EarlyCall.returned.inj hreturn
      rw [if_pos hfull, if_pos hnow]
      rfl
    · rw [if_neg hfull] at hreturn ⊢
      by_cases hsame : s.offset = current ∧ spurious = false
      · rw [if_pos hsame] at hreturn ⊢
        obtain ⟨rfl, -⟩ := hsame
        obtain rfl := EarlyCall.returned.inj ((set_self _).symm.trans hreturn)
        rw [if_neg hfull]
        rfl
      · rw [if_neg hsame, set_self] at hreturn
        cases hreturn
  | returned other =>
    simp only [hcall] at hreturn
    exact absurd (hcall.trans hreturn) hbefore

/-- In every state of every interleaving the blocks are apart, inside the early heap and aligned, exactly if the
alignment of each layout that the early heap has room for divides its base. -/
theorem run_correct_iff (base : Nat) (layouts : ι → Layout) :
    (∀ schedule, Correct base layouts (EarlyCalls.run base layouts schedule EarlyCalls.start)) ↔
      ∀ i, (layouts i).size ≤ earlyHeapSize → (layouts i).align ∣ base := by
  constructor
  · intro h i hsize
    have hzero : EarlyCalls.aligned (layouts i) 0 = 0 := by
      have hpos : 0 < max (layouts i).align 16 := Nat.lt_of_lt_of_le (by decide) (Nat.le_max_right _ _)
      rw [EarlyCalls.aligned, KernelAllocator.alignUp_layout _ (Nat.zero_le _), Nat.div_eq_of_lt (by omega),
        Nat.zero_mul]
    have hnext : ¬ next (layouts i) 0 > earlyHeapSize := by
      unfold next
      omega
    -- Alone, the call gets the bytes from the base on.
    have hexchange : (EarlyCalls.step base layouts i false (EarlyCalls.start.set i (.loop 0))).Holds i base := by
      rw [Holds, EarlyCalls.step, set_self]
      dsimp only
      rw [if_neg hnext, if_pos ⟨rfl, rfl⟩, hzero]
      exact set_self _
    exact (h [(i, false), (i, false)]).aligned i base hexchange
  · intro h schedule
    have hstart : Inv base layouts start := Inv.start
    have hinv := hstart.run schedule
    refine ⟨fun i j hij p q hp hq => ?_, fun i p hp => ?_, fun i p hp => ?_⟩
    · intro a ha hb
      have h₁ := ha.1
      have h₂ := ha.2
      have h₃ := hb.1
      have h₄ := hb.2
      rcases hinv.apart i j hij p q hp hq with hle | hle <;> omega
    · obtain ⟨a, rfl, -, hend⟩ := hinv.block i p hp
      have hle := hinv.offset_le
      exact Set.Ico_subset_Ico (by omega) (by omega)
    · obtain ⟨a, rfl, hdvd, hend⟩ := hinv.block i p hp
      have hle := hinv.offset_le
      refine Nat.dvd_add (h i (by omega)) (Nat.dvd_trans ?_ hdvd)
      obtain ⟨k, hk⟩ := (layouts i).align_pow
      rcases Nat.le_total (layouts i).align 16 with hsmall | hlarge
      · rw [Nat.max_eq_right hsmall, hk]
        exact Nat.pow_dvd_pow 2 (by
          rw [hk] at hsmall
          exact (Nat.pow_le_pow_iff_right (by decide : 1 < 2)).mp hsmall : k ≤ 4)
      · rw [Nat.max_eq_left hlarge]

/-- A block aligned to 32 bytes in an early heap that lies 16 bytes past such an address. -/
theorem alloc_misaligned : ∃ layout : Layout, layout.align = 32 ∧ 16 ∣ 0x100010 ∧
    (run 0x100010 (fun _ : Unit => layout) [((), false), ((), false)] start).Holds () 0x100010 ∧
    ¬ Correct 0x100010 (fun _ : Unit => layout) (run 0x100010 (fun _ => layout) [((), false), ((), false)] start) := by
  have hholds : (run 0x100010 (fun _ : Unit => ⟨32, 32, ⟨5, rfl⟩, by decide, by decide⟩)
      [((), false), ((), false)] start).Holds () 0x100010 := by
    unfold Holds
    decide +kernel
  refine ⟨⟨32, 32, ⟨5, rfl⟩, by decide, by decide⟩, rfl, by decide, hholds, fun h => ?_⟩
  have := h.aligned () _ hholds
  revert this
  decide

end EarlyCalls
end Nafuraito.Memory
