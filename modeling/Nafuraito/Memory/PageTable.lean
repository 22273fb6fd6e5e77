import Nafuraito.Library.TableTree
import Nafuraito.Library.Words

/-! Page-table entries, virtual and physical addresses, and how an entry reads at each level. -/
namespace Nafuraito.Memory
open Nafuraito.Library

structure PageTableFlags where
  raw : BitVec 64
  deriving DecidableEq

namespace PageTableFlags

def PRESENT : BitVec 64 := 1#64 <<< 0
def WRITABLE : BitVec 64 := 1#64 <<< 1
def USER : BitVec 64 := 1#64 <<< 2
def HUGE_PAGE : BitVec 64 := 1#64 <<< 7
def GLOBAL : BitVec 64 := 1#64 <<< 8
def NO_EXECUTE : BitVec 64 := 1#64 <<< 63

def new : PageTableFlags := ⟨0⟩

def contains (f : PageTableFlags) (flag : BitVec 64) : Bool := f.raw &&& flag != 0

def set (f : PageTableFlags) (flag : BitVec 64) : PageTableFlags := ⟨f.raw ||| flag⟩

def clear (f : PageTableFlags) (flag : BitVec 64) : PageTableFlags := ⟨f.raw &&& ~~~flag⟩

end PageTableFlags

structure PageTableEntry where
  raw : BitVec 64
  deriving DecidableEq

/-- The bits 12..51 of an entry. -/
def addressMask : BitVec 64 := 0x000FFFFFFFFFF000#64

/-- The bits 0..11 of an address or entry. -/
def offsetMask : BitVec 64 := 0xFFF#64

namespace PageTableEntry

def isPresent (e : PageTableEntry) : Bool := e.raw &&& PageTableFlags.PRESENT != 0

def isHuge (e : PageTableEntry) : Bool := e.raw &&& PageTableFlags.HUGE_PAGE != 0

def address (e : PageTableEntry) : BitVec 64 := e.raw &&& addressMask

def flags (e : PageTableEntry) : PageTableFlags := ⟨e.raw &&& offsetMask⟩

/-- `set`: the entry with an address and flags. -/
def of (addr : BitVec 64) (flags : PageTableFlags) : PageTableEntry := ⟨(addr &&& addressMask) ||| flags.raw⟩

/-- `clear`. -/
def new : PageTableEntry := ⟨0⟩

end PageTableEntry

inductive PagingMode where
  | fourLevel
  | fiveLevel
  deriving DecidableEq, Repr

structure VirtAddr where
  addr : BitVec 64
  deriving DecidableEq

namespace VirtAddr

/-- The nine index bits from bit `shift` on. -/
def indexAt (v : VirtAddr) (shift : Nat) : Fin 512 :=
  ⟨((v.addr >>> shift) &&& 0x1FF#64).toNat, by
    rw [BitVec.toNat_and]
    exact Nat.lt_of_le_of_lt Nat.and_le_right (by decide)⟩

def pml5Index (v : VirtAddr) : Fin 512 := v.indexAt 48
def pml4Index (v : VirtAddr) : Fin 512 := v.indexAt 39
def pdptIndex (v : VirtAddr) : Fin 512 := v.indexAt 30
def pdIndex (v : VirtAddr) : Fin 512 := v.indexAt 21
def ptIndex (v : VirtAddr) : Fin 512 := v.indexAt 12

/-- The index a walk uses at a level, counted from the page table up. -/
def index (v : VirtAddr) (level : Nat) : Fin 512 := v.indexAt (12+9*level)

def pageOffset (v : VirtAddr) : BitVec 64 := v.addr &&& offsetMask

/-- All ones or all zeros above bit 47; bit 47 itself is not compared. -/
def isCanonicalLa48 (v : VirtAddr) : Bool := v.addr >>> 48 == 0 || v.addr >>> 48 == 0xFFFF#64

def isCanonicalLa57 (v : VirtAddr) : Bool := v.addr >>> 57 == 0 || v.addr >>> 57 == 0x7F#64

def isCanonical (v : VirtAddr) : PagingMode → Bool
  | .fourLevel => v.isCanonicalLa48
  | .fiveLevel => v.isCanonicalLa57

/-- The base of the page an address is in. -/
def page (v : VirtAddr) : VirtAddr := ⟨v.addr &&& ~~~offsetMask⟩

/-- The address `o` bytes on. -/
def plus (v : VirtAddr) (o : Nat) : VirtAddr := ⟨v.addr + BitVec.ofNat 64 o⟩

end VirtAddr

structure PhysAddr where
  addr : BitVec 64
  deriving DecidableEq

namespace PhysAddr

def isAligned (p : PhysAddr) : Bool := p.addr &&& offsetMask == 0

def alignDown (p : PhysAddr) : PhysAddr := ⟨p.addr &&& ~~~offsetMask⟩

def plus (p : PhysAddr) (o : Nat) : PhysAddr := ⟨p.addr + BitVec.ofNat 64 o⟩

end PhysAddr

/-- `root_table_phys` comes from `paging_init`, which masks the low bits out. -/
structure PagingManager where
  mode : PagingMode
  rootTablePhys : BitVec 64
  root_aligned : rootTablePhys.toNat % 4096 = 0

/-- The levels of a mode above the page table. -/
def PagingMode.top : PagingMode → Nat
  | .fourLevel => 3
  | .fiveLevel => 4

theorem PagingMode.top_succ (mode : PagingMode) : mode.top-1+1 = mode.top := by cases mode <;> rfl

def PagingManager.rootFrame (m : PagingManager) : Nat := m.rootTablePhys.toNat / 4096

/-! ### Masks -/

theorem addressMask_bits : Words.IsMask addressMask 12 52 := by
  intro i
  rcases Nat.lt_or_ge i 64 with h | h
  · have : ∀ i : Fin 64, addressMask.getLsbD i = decide (12 ≤ i.val ∧ i.val < 52) := by decide
    exact this ⟨i, h⟩
  · rw [BitVec.getLsbD_of_ge _ _ h, decide_eq_false (by omega)]

theorem offsetMask_bits : Words.IsMask offsetMask 0 12 := by
  intro i
  rcases Nat.lt_or_ge i 64 with h | h
  · have : ∀ i : Fin 64, offsetMask.getLsbD i = decide (0 ≤ i.val ∧ i.val < 12) := by decide
    exact this ⟨i, h⟩
  · rw [BitVec.getLsbD_of_ge _ _ h, decide_eq_false (by omega)]

theorem PhysAddr.isAligned_iff {p : PhysAddr} : p.isAligned = true ↔ p.addr.toNat % 4096 = 0 := by
  have h := Words.and_low_toNat (x := p.addr) offsetMask_bits
  rw [isAligned, beq_iff_eq, ← BitVec.toNat_inj, h]
  rfl

/-! ### Addresses of one page -/

namespace VirtAddr
variable {v w : VirtAddr}

private theorem shift_eq (h : v.addr.toNat/4096 = w.addr.toNat/4096) {shift : Nat} (hs : 12 ≤ shift) :
    v.addr >>> shift = w.addr >>> shift := by
  have hpow : 2^shift = 4096*2^(shift-12) := by
    rw [show (4096 : Nat) = 2^12 from rfl, ← Nat.pow_add, Nat.add_sub_cancel' hs]
  rw [← BitVec.toNat_inj, BitVec.toNat_ushiftRight, BitVec.toNat_ushiftRight, Nat.shiftRight_eq_div_pow,
    Nat.shiftRight_eq_div_pow, hpow, ← Nat.div_div_eq_div_mul, ← Nat.div_div_eq_div_mul, h]

/-- A walk sees only the page number. -/
theorem index_eq (h : v.addr.toNat/4096 = w.addr.toNat/4096) : v.index = w.index := by
  funext level
  unfold index indexAt
  simp only [shift_eq h (by omega : 12 ≤ 12+9*level)]

theorem isCanonical_eq (h : v.addr.toNat/4096 = w.addr.toNat/4096) (mode : PagingMode) :
    v.isCanonical mode = w.isCanonical mode := by
  cases mode
  · simp only [isCanonical, isCanonicalLa48, shift_eq h (by decide : 12 ≤ 48)]
  · simp only [isCanonical, isCanonicalLa57, shift_eq h (by decide : 12 ≤ 57)]

theorem page_plus_toNat (v : VirtAddr) {o : Nat} (ho : o < 4096) :
    (v.page.plus o).addr.toNat = v.addr.toNat/4096*4096 + o := by
  have h : v.page.addr.toNat = v.addr.toNat/4096*4096 := Words.and_not_toNat (k := 12) offsetMask_bits
  have hlt := v.addr.isLt
  rw [plus, BitVec.toNat_add, h, BitVec.toNat_ofNat]
  omega

theorem page_plus_div (v : VirtAddr) {o : Nat} (ho : o < 4096) :
    (v.page.plus o).addr.toNat/4096 = v.addr.toNat/4096 := by
  rw [page_plus_toNat v ho]
  omega

end VirtAddr

/-! ### Sign-extended addresses -/

namespace VirtAddr
variable {v w : VirtAddr} {mode : PagingMode}

/-- The bits above the highest index are copies of its top bit, which the code does not check. -/
def SignExtended (v : VirtAddr) : PagingMode → Prop
  | .fourLevel => v.addr.toNat < 2^47 ∨ 2^64 - 2^47 ≤ v.addr.toNat
  | .fiveLevel => v.addr.toNat < 2^56 ∨ 2^64 - 2^56 ≤ v.addr.toNat

theorem index_toNat (v : VirtAddr) (level : Nat) : (v.index level).val = v.addr.toNat/2^(12+9*level) % 512 := by
  change ((v.addr >>> (12+9*level)) &&& 0x1FF#64).toNat = _
  rw [BitVec.toNat_and, BitVec.toNat_ushiftRight, Nat.shiftRight_eq_div_pow]
  exact Nat.and_two_pow_sub_one_eq_mod _ 9

theorem SignExtended.canonical (h : v.SignExtended mode) : v.isCanonical mode = true := by
  have hlt := v.addr.isLt
  have h₀ : (0 : BitVec 64).toNat = 0 := rfl
  cases mode
  · simp only [isCanonical, isCanonicalLa48, Bool.or_eq_true, beq_iff_eq, ← BitVec.toNat_inj, BitVec.toNat_ushiftRight,
      Nat.shiftRight_eq_div_pow, BitVec.toNat_ofNat]
    simp only [SignExtended] at h
    omega
  · simp only [isCanonical, isCanonicalLa57, Bool.or_eq_true, beq_iff_eq, ← BitVec.toNat_inj, BitVec.toNat_ushiftRight,
      Nat.shiftRight_eq_div_pow, BitVec.toNat_ofNat]
    simp only [SignExtended] at h
    omega

/-- An address with a 48-bit extension has a 57-bit one. -/
theorem SignExtended.five (h : v.SignExtended .fourLevel) : v.SignExtended .fiveLevel := by
  simp only [SignExtended] at h ⊢
  omega

/-- The indices tell the pages of such addresses apart. -/
theorem SignExtended.page_eq (hv : v.SignExtended mode) (hw : w.SignExtended mode)
    (h : ∀ k ≤ mode.top, v.index k = w.index k) : v.addr.toNat/4096 = w.addr.toNat/4096 := by
  have hvlt := v.addr.isLt
  have hwlt := w.addr.isLt
  have hi (k : Nat) (hk : k ≤ mode.top) : v.addr.toNat/2^(12+9*k) % 512 = w.addr.toNat/2^(12+9*k) % 512 := by
    rw [← index_toNat, ← index_toNat, h k hk]
  have h₀ := hi 0 (Nat.zero_le _)
  cases mode
  · have h₁ := hi 1 (by decide)
    have h₂ := hi 2 (by decide)
    have h₃ := hi 3 (by decide)
    simp only [SignExtended] at hv hw
    omega
  · have h₁ := hi 1 (by decide)
    have h₂ := hi 2 (by decide)
    have h₃ := hi 3 (by decide)
    have h₄ := hi 4 (by decide)
    simp only [SignExtended] at hv hw
    omega

end VirtAddr

/-! ### Entries -/

namespace PageTableEntry

/-- The frame number of the entry's address. -/
def frame (e : PageTableEntry) : Nat := e.address.toNat / 4096

theorem address_mod (e : PageTableEntry) : e.address.toNat % 4096 = 0 := Words.and_mask_mod addressMask_bits

theorem address_lt (e : PageTableEntry) : e.address.toNat < 2^52 := Words.and_mask_lt addressMask_bits

theorem address_eq (e : PageTableEntry) : e.address.toNat = e.frame*4096 := by
  have := e.address_mod
  unfold frame
  omega

/-- How an entry reads at a level: the tables of levels 1 and 2 may hold huge leaves, a page
table holds only leaves, and every other present entry links a table. -/
def kind (level : Nat) (e : BitVec 64) : Slot Nat :=
  if !isPresent ⟨e⟩ then .absent
  else if level = 0 then .leaf
  else if level ≤ 2 ∧ isHuge ⟨e⟩ then .leaf
  else .link (frame ⟨e⟩)

theorem kind_zero (level : Nat) : kind level 0 = .absent := rfl

theorem kind_absent {level : Nat} {e : BitVec 64} : kind level e = .absent ↔ isPresent ⟨e⟩ = false := by
  unfold kind
  cases isPresent ⟨e⟩
  · simp
  · simp only [Bool.not_true, Bool.false_eq_true, if_false]
    split_ifs <;> simp

theorem kind_link {level : Nat} {e : BitVec 64} {g : Nat} : kind level e = .link g ↔
    isPresent ⟨e⟩ = true ∧ level ≠ 0 ∧ ¬ (level ≤ 2 ∧ isHuge ⟨e⟩ = true) ∧ g = frame ⟨e⟩ := by
  unfold kind
  cases isPresent ⟨e⟩
  · simp
  · simp only [Bool.not_true, Bool.false_eq_true, if_false, true_and]
    split_ifs with h₀ h₁
    · simp [h₀]
    · simp [h₁]
    · rw [Slot.link.injEq]
      exact ⟨fun h => ⟨h₀, h₁, h.symm⟩, fun h => h.2.2.symm⟩

theorem isPresent_iff (e : PageTableEntry) : e.isPresent = e.raw.getLsbD 0 :=
  Words.and_bit_ne_zero e.raw (by decide)

theorem isHuge_iff (e : PageTableEntry) : e.isHuge = e.raw.getLsbD 7 :=
  Words.and_bit_ne_zero e.raw (by decide)

/-- A flag word that keeps out of the address bits. -/
def FlagBits (flags : PageTableFlags) : Prop := flags.raw &&& addressMask = 0

instance (flags : PageTableFlags) : Decidable (FlagBits flags) := inferInstanceAs (Decidable (_ = _))

theorem FlagBits.and {a : BitVec 64} (h : FlagBits ⟨a⟩) (b : BitVec 64) : FlagBits ⟨a &&& b⟩ := by
  have h : a &&& addressMask = 0#64 := h
  change a &&& b &&& addressMask = 0#64
  rw [BitVec.and_assoc, BitVec.and_comm b, ← BitVec.and_assoc, h, BitVec.zero_and]

theorem FlagBits.or {a b : BitVec 64} (ha : FlagBits ⟨a⟩) (hb : FlagBits ⟨b⟩) : FlagBits ⟨a ||| b⟩ := by
  have ha : a &&& addressMask = 0#64 := ha
  have hb : b &&& addressMask = 0#64 := hb
  change (a ||| b) &&& addressMask = 0#64
  rw [BitVec.and_or_distrib_right, ha, hb, BitVec.or_zero]

/-- What `set` stores reads back. -/
theorem of_address {addr : BitVec 64} {flags : PageTableFlags} (ha : addr.toNat % 4096 = 0)
    (hlt : addr.toNat < 2^52) (hf : FlagBits flags) : (of addr flags).address = addr := by
  rw [address, of, Words.and_mask_or hf, Words.and_mask_of_aligned addressMask_bits ha hlt]

theorem of_kind_zero {addr : BitVec 64} {flags : PageTableFlags} (hf : flags.raw.getLsbD 0 = true) :
    kind 0 (of addr flags).raw = .leaf := by
  have : (of addr flags).isPresent = true := by
    rw [isPresent_iff, of, BitVec.getLsbD_or, hf, Bool.or_true]
  unfold kind
  rw [this]
  rfl

theorem of_present {addr : BitVec 64} {flags : PageTableFlags} (hf : flags.raw.getLsbD 0 = true) :
    (of addr flags).isPresent = true := by
  rw [isPresent_iff, of, BitVec.getLsbD_or, hf, Bool.or_true]

theorem of_huge {addr : BitVec 64} {flags : PageTableFlags} :
    (of addr flags).isHuge = flags.raw.getLsbD 7 := by
  rw [isHuge_iff, of, BitVec.getLsbD_or, Words.getLsbD_and_mask addressMask_bits]
  simp

end PageTableEntry

end Nafuraito.Memory
