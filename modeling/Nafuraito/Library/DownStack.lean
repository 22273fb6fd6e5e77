import Mathlib.Algebra.Ring.Nat
import Mathlib.Data.List.Basic
import Mathlib.Data.Set.Lattice
import Mathlib.Logic.Function.Basic
import Mathlib.Order.CompletePartialOrder
import Mathlib.Tactic.Common

/-! A stack in memory that grows down from its top in slots of eight addresses. -/
namespace Nafuraito.Library
variable {α : Type*}

/-- The `i`-th slot below `top`, from 0. -/
def slot (top : BitVec 64) (i : Nat) : BitVec 64 := top - BitVec.ofNat 64 (8*(i+1))

/-- The stack pointer over `n` slots in use. -/
def stackPointer (top : BitVec 64) (n : Nat) : BitVec 64 := top - BitVec.ofNat 64 (8*n)

def slots (top : BitVec 64) (n : Nat) : Set (BitVec 64) := {a | ∃ i < n, a = slot top i}

variable {top : BitVec 64} {i j m n : Nat}

theorem stackPointer_zero (top : BitVec 64) : stackPointer top 0 = top := BitVec.sub_zero top

theorem stackPointer_succ (top : BitVec 64) (n : Nat) : stackPointer top (n+1) = slot top n := rfl

/-- One slot more. -/
theorem stackPointer_sub (top : BitVec 64) (n : Nat) : stackPointer top n - 8 = slot top n := by
  rw [stackPointer, slot, Nat.mul_add, BitVec.ofNat_add]
  bv_omega

theorem slot_add (top : BitVec 64) (n : Nat) : slot top n + 8 = stackPointer top n := by
  rw [← stackPointer_sub, BitVec.sub_add_cancel]

/-- The slot `k` above the stack pointer. -/
theorem stackPointer_add (top : BitVec 64) {k : Nat} (hk : k < n) :
    stackPointer top n + BitVec.ofNat 64 (8*k) = slot top (n-1-k) := by
  obtain ⟨m, rfl⟩ : ∃ m, n = m+1+k := ⟨n-1-k, by omega⟩
  have hm : m+1+k-1-k = m := by omega
  rw [hm, stackPointer, slot, Nat.mul_add, BitVec.ofNat_add]
  bv_omega

theorem slot_injective (hi : i < 2^60) (hj : j < 2^60) (h : slot top i = slot top j) : i = j := by
  have hofNat : BitVec.ofNat 64 (8*(i+1)) = BitVec.ofNat 64 (8*(j+1)) := by
    simpa [slot] using congrArg (top - ·) h
  have := congrArg BitVec.toNat hofNat
  rw [BitVec.toNat_ofNat, BitVec.toNat_ofNat, Nat.mod_eq_of_lt (by omega), Nat.mod_eq_of_lt (by omega)] at this
  omega

theorem slots_mono (h : m ≤ n) : slots top m ⊆ slots top n :=
  fun _ ⟨i, hi, ha⟩ => ⟨i, hi.trans_le h, ha⟩

theorem slot_mem_slots (h : i < n) : slot top i ∈ slots top n := ⟨i, h, rfl⟩

theorem slot_notMem_slots (h : n ≤ i) (hi : i < 2^60) : slot top i ∉ slots top n := by
  rintro ⟨j, hj, heq⟩
  have := slot_injective hi (by omega) heq
  omega

/-- The stack below `top` holds these words, the oldest first. -/
def Stacked (mem : BitVec 64 → α) (top : BitVec 64) (ws : List α) : Prop :=
  ∀ i (h : i < ws.length), mem (slot top i) = ws[i]

namespace Stacked
variable {mem mem' : BitVec 64 → α} {ws vs : List α} {v : α}

theorem nil (mem : BitVec 64 → α) (top : BitVec 64) : Stacked mem top [] := fun _ h => absurd h (Nat.not_lt_zero _)

/-- Its own slots are all it depends on. -/
theorem congr (h : Stacked mem top ws) (hsame : ∀ a ∈ slots top ws.length, mem' a = mem a) : Stacked mem' top ws :=
  fun i hi => (hsame _ (slot_mem_slots hi)).trans (h i hi)

theorem push (h : Stacked mem top ws) (hlen : ws.length < 2^60) (v : α) :
    Stacked (Function.update mem (slot top ws.length) v) top (ws ++ [v]) := by
  intro i hi
  rcases Nat.lt_or_ge i ws.length with hlt | hge
  · have hne : slot top i ≠ slot top ws.length := fun heq => by
      have := slot_injective (by omega) hlen heq
      omega
    rw [Function.update_of_ne hne, List.getElem_append_left hlt]
    exact h i hlt
  · have hlast : i = ws.length := by
      rw [List.length_append, List.length_singleton] at hi
      omega
    subst hlast
    simp

theorem left (h : Stacked mem top (ws ++ vs)) : Stacked mem top ws := by
  intro i hi
  rw [h i (by rw [List.length_append]; omega), List.getElem_append_left hi]

theorem last (h : Stacked mem top (ws ++ [v])) : mem (slot top ws.length) = v := by
  rw [h ws.length (by simp)]
  simp

end Stacked

end Nafuraito.Library
