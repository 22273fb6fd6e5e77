import Nafuraito.Library.Sharing
import Nafuraito.Memory.CopyOnWrite
import Nafuraito.Memory.Pages

/-! Who shares which frame: what the copy-on-write calls do to pages, contents and counts. -/
namespace Nafuraito.Memory
open Nafuraito.Library
open PhysicalMemoryManager (FreeIn)

/-! ### The entries the calls write -/

namespace PageTableEntry

theorem flags_flagBits (e : PageTableEntry) : FlagBits e.flags := by
  have h : e.raw &&& offsetMask = offsetMask &&& e.raw := BitVec.and_comm _ _
  rw [flags, h]
  exact FlagBits.and (show FlagBits ⟨offsetMask⟩ by decide) _

theorem flags_bit (e : PageTableEntry) (i : Nat) :
    e.flags.raw.getLsbD i = (e.raw.getLsbD i && decide (i < 12)) := by
  rw [flags, Words.getLsbD_and_mask offsetMask_bits]
  simp

theorem of_frame {e : PageTableEntry} {flags : PageTableFlags} (h : FlagBits flags) :
    (of e.address flags).frame = e.frame := by
  rw [frame, frame, of_address e.address_mod e.address_lt h]

theorem of_getLsbD {addr : BitVec 64} {flags : PageTableFlags} {i : Nat} (hi : i < 12) :
    (of addr flags).raw.getLsbD i = flags.raw.getLsbD i := by
  rw [of, BitVec.getLsbD_or, Words.getLsbD_and_mask addressMask_bits, decide_eq_false (by omega), Bool.and_false,
    Bool.false_or]

theorem flags_present {e : PageTableEntry} (h : e.isPresent = true) : e.flags.raw.getLsbD 0 = true := by
  rw [isPresent_iff] at h
  rw [flags_bit, h]
  rfl

end PageTableEntry

open PageTableEntry (FlagBits)

/-- The other bits stay. -/
theorem cowFlags_other (f : PageTableFlags) {i : Nat} (h₁ : i ≠ 1) (h₉ : i ≠ 9) :
    (cowFlags f).raw.getLsbD i = f.raw.getLsbD i := by
  rw [cowFlags, BitVec.getLsbD_or, PageTableFlags.clear, BitVec.getLsbD_and, BitVec.getLsbD_not,
    PageTableFlags.WRITABLE, COW_BIT, Words.getLsbD_bit (by decide), Words.getLsbD_bit (by decide)]
  by_cases hi : i < 64
  · simp [h₁, h₉, hi]
  · simp [hi, h₉, BitVec.getLsbD_of_ge _ i (Nat.not_lt.mp hi)]

theorem ownedFlags_other (f : PageTableFlags) {i : Nat} (h₁ : i ≠ 1) (h₉ : i ≠ 9) :
    (ownedFlags f).raw.getLsbD i = f.raw.getLsbD i := by
  rw [ownedFlags, BitVec.getLsbD_and, PageTableFlags.set, BitVec.getLsbD_or, BitVec.getLsbD_not,
    PageTableFlags.WRITABLE, COW_BIT, Words.getLsbD_bit (by decide), Words.getLsbD_bit (by decide)]
  by_cases hi : i < 64
  · simp [h₁, h₉, hi]
  · simp [hi, BitVec.getLsbD_of_ge _ i (Nat.not_lt.mp hi)]

theorem cowFlags_present {flags : PageTableFlags} (hpr : flags.raw.getLsbD 0 = true) :
    (cowFlags flags).raw.getLsbD 0 = true := (cowFlags_other flags (by decide) (by decide)).trans hpr

theorem cowFlags_bits {flags : PageTableFlags} (h : FlagBits flags) : FlagBits (cowFlags flags) ∧
    (cowFlags flags).raw.getLsbD 0 = flags.raw.getLsbD 0 ∧ (cowFlags flags).raw.getLsbD 1 = false := by
  refine ⟨(h.and _).or (by decide), cowFlags_other flags (by decide) (by decide), ?_⟩
  rw [cowFlags, BitVec.getLsbD_or, PageTableFlags.clear, BitVec.getLsbD_and,
    show (~~~PageTableFlags.WRITABLE).getLsbD 1 = false by decide, show COW_BIT.getLsbD 1 = false by decide,
    Bool.and_false, Bool.or_false]

theorem ownedFlags_bits {flags : PageTableFlags} (h : FlagBits flags) : FlagBits (ownedFlags flags) ∧
    (ownedFlags flags).raw.getLsbD 0 = flags.raw.getLsbD 0 ∧ (ownedFlags flags).raw.getLsbD 1 = true := by
  refine ⟨(h.or (show FlagBits ⟨PageTableFlags.WRITABLE⟩ by decide)).and _,
    ownedFlags_other flags (by decide) (by decide), ?_⟩
  rw [ownedFlags, BitVec.getLsbD_and, PageTableFlags.set, BitVec.getLsbD_or,
    show (~~~COW_BIT).getLsbD 1 = true by decide, show PageTableFlags.WRITABLE.getLsbD 1 = true by decide,
    Bool.or_true, Bool.and_true]

theorem contains_writable {flags : PageTableFlags} :
    flags.contains PageTableFlags.WRITABLE = flags.raw.getLsbD 1 := Words.and_bit_ne_zero _ (by decide)

/-! ### Counts -/

namespace Machine
variable {s : Machine} {phys : PhysAddr}

def frameCount (s : Machine) (f : Nat) : Nat := if f < MAX_FRAMES then (s.refcounts f).toNat else 0

theorem getRefcount_toNat : (getRefcount phys s).toNat = s.frameCount (physToFrameIndex phys) := by
  rw [getRefcount, frameCount]
  by_cases h : physToFrameIndex phys ≥ MAX_FRAMES
  · rw [if_pos h, if_neg (by omega)]
    rfl
  · rw [if_neg h, if_pos (by omega)]

/-- A call that writes the count of one frame. -/
structure Counts (s t : Machine) (f count : Nat) : Prop where
  only : t = { s with refcounts := t.refcounts }
  count : f < MAX_FRAMES → t.frameCount f = count
  rest : ∀ g ≠ f, t.frameCount g = s.frameCount g

theorem setRefcount_counts (phys : PhysAddr) (count : BitVec 32) :
    Counts s (setRefcount phys count s) (physToFrameIndex phys) count.toNat := by
  rw [setRefcount]
  split
  · exact ⟨rfl, fun h => by omega, fun _ _ => rfl⟩
  · refine ⟨rfl, fun h => ?_, fun g hg => ?_⟩
    · rw [frameCount, if_pos h]
      exact congrArg BitVec.toNat (Function.update_self _ _ _)
    · have hsame : Function.update s.refcounts (physToFrameIndex phys) count g = s.refcounts g :=
        Function.update_of_ne hg _ _
      simp only [frameCount, hsame]

theorem incRefcount_counts (phys : PhysAddr) (h : (getRefcount phys s).toNat + 1 < 2^32) : ∃ c t,
    incRefcount phys s = (.ok c, t) ∧
    Counts s t (physToFrameIndex phys) (s.frameCount (physToFrameIndex phys) + 1) := by
  have hset := setRefcount_counts (s := s) phys (getRefcount phys s + 1)
  rw [BitVec.toNat_add, show ((1 : BitVec 32)).toNat = 1 from rfl, Nat.mod_eq_of_lt h, getRefcount_toNat] at hset
  rw [incRefcount]
  split
  · exact ⟨_, s, rfl, rfl, fun h => by omega, fun _ _ => rfl⟩
  · exact ⟨_, _, rfl, hset⟩

/-- A count of 2 or more goes down by 1, to what is returned; any other ends somewhere. -/
theorem decRefcount_counts (phys : PhysAddr) : ∃ c t count, decRefcount phys s = (.ok c, t) ∧
    Counts s t (physToFrameIndex phys) count ∧
    (2 ≤ s.frameCount (physToFrameIndex phys) → c ≠ 0 ∧ count + 1 = s.frameCount (physToFrameIndex phys)) := by
  have hset := setRefcount_counts (s := s) phys (getRefcount phys s - 1)
  rw [decRefcount]
  by_cases h : physToFrameIndex phys ≥ MAX_FRAMES
  · rw [if_pos h]
    refine ⟨_, s, 0, rfl, ⟨rfl, fun h => by omega, fun _ _ => rfl⟩, fun h₂ => ?_⟩
    rw [frameCount, if_neg (by omega)] at h₂
    omega
  · rw [if_neg h]
    refine ⟨_, _, _, rfl, hset, fun h₂ => ?_⟩
    rw [← getRefcount_toNat] at h₂ ⊢
    have hgt : getRefcount phys s > 0 := by
      rw [gt_iff_lt, BitVec.lt_def]
      exact Nat.lt_of_lt_of_le (by decide) h₂
    have hsub : (getRefcount phys s - 1).toNat = (getRefcount phys s).toNat - 1 :=
      BitVec.toNat_sub_of_le (by rw [BitVec.le_def]; exact Nat.le_trans (by decide) h₂)
    rw [if_pos hgt]
    refine ⟨fun h₀ => ?_, by omega⟩
    have := congrArg BitVec.toNat h₀
    rw [hsub] at this
    have h0 : (0 : BitVec 32).toNat = 0 := rfl
    omega

theorem allocCowFrame_run (message : String) (s : Machine) : ∃ p, (∀ f, FreeIn p f → FreeIn s.pmm f) ∧
    ((∃ n, allocCowFrame message s = (.ok ⟨BitVec.ofNat 64 (n*4096)⟩, { s with pmm := p }) ∧
      FreeIn s.pmm n ∧ ¬ FreeIn p n) ∨
    ∃ e, allocCowFrame message s = (.error e, { s with pmm := p })) := by
  obtain ⟨r, p, hrun, -, hfree, htakes⟩ := allocFrame_run s
  refine ⟨p, hfree, ?_⟩
  rw [allocCowFrame, hrun]
  rcases r with e | addr
  · exact .inr ⟨_, rfl⟩
  · by_cases h₀ : addr = 0
    · exact .inr ⟨_, if_pos h₀⟩
    · obtain ⟨hmod, hf, hused⟩ := (htakes addr rfl).taken h₀
      refine .inl ⟨addr/4096, ?_, hf, hused⟩
      rw [Nat.div_mul_cancel (Nat.dvd_of_mod_eq_zero hmod)]
      exact if_neg h₀

end Machine

/-! ### Pages and their contents -/

namespace PagingManager
open Machine (physToFrameIndex frameCount Counts)
variable {m : PagingManager} {P A B : Set m.Page} {s t u : Machine} {v : VirtAddr} {f : Nat} {e : BitVec 64}

/-- What is read through a page. -/
def contentOf (m : PagingManager) (s : Machine) (k : m.Page) : Option (Fin 512 → BitVec 64) :=
  (m.frameOf s k).map s.mem

/-- The pages `P` are mapped by 4 KiB entries, if at all, to frames that are neither tables nor
free. Frame addresses have 52 bits. -/
structure DataPages (m : PagingManager) (P : Set m.Page) (s : Machine) : Prop where
  paging : s.paging = some m
  wellFormed : m.WellFormed s.mem
  used : m.TablesUsed s
  small : ∀ k ∈ P, ∀ l e, m.entryOf s.mem k = some (l, e) → l = 0
  data : ∀ k ∈ P, ∀ f, m.frameOf s k = some f → m.IsData s f
  bits : ∀ f, FreeIn s.pmm f → f < 2^40

/-- The pages as owners of their frames. -/
def sharing (m : PagingManager) (P : Set m.Page) (s : Machine) : Sharing P Nat where
  target k := m.frameOf s k
  writable k := ∃ e, m.entryOf s.mem k = some (0, e) ∧ e.getLsbD 1 = true
  count := s.frameCount

theorem DataPages.noHugeLeaf (h : m.DataPages P s) (hv : m.pageOf v ∈ P) : m.NoHugeLeaf s.mem v :=
  noHugeLeaf_of_page (h.small _ hv)

/-- Pages that get new entries for data frames are still data pages. -/
theorem DataPages.relinked (h : m.DataPages P s) {entries : m.Page → Option (Nat × BitVec 64)}
    (hr : m.Relinked s t entries)
    (hnew : ∀ k ∈ P, entries k = m.entryOf s.mem k ∨ ∃ e, entries k = some (0, e) ∧
      m.IsData s (PageTableEntry.frame ⟨e⟩)) :
    m.DataPages P t where
  paging := hr.paging.trans h.paging
  wellFormed := hr.wellFormed
  used := hr.used
  small k hk l e he := by
    rw [hr.entries] at he
    rcases hnew k hk with hold | ⟨e', he', _⟩
    · exact h.small k hk l e (hold ▸ he)
    · rw [he'] at he
      exact (Prod.mk.inj (Option.some.inj he)).1.symm
  data k hk f hf := by
    refine IsData.relinked ?_ hr
    rw [frameOf, hr.entries] at hf
    rcases hnew k hk with hold | ⟨e', he', hdata⟩
    · rw [hold] at hf
      exact h.data k hk f hf
    · rw [he'] at hf
      exact Option.some.inj hf ▸ hdata
  bits f hf := h.bits f (hr.free f hf)

/-- Frames other than tables and free ones keep their contents. -/
theorem DataPages.content_relinked (h : m.DataPages P s) {entries : m.Page → Option (Nat × BitVec 64)}
    (hr : m.Relinked s t entries) {k j : m.Page} (hk : k ∈ P) (hsame : m.frameOf t j = m.frameOf s k) :
    m.contentOf t j = m.contentOf s k := by
  rw [contentOf, contentOf, hsame]
  cases hf : m.frameOf s k with
  | none => rfl
  | some f => exact congrArg some (hr.rest f (h.data k hk f hf).1 (h.data k hk f hf).2)

end PagingManager
end Nafuraito.Memory
