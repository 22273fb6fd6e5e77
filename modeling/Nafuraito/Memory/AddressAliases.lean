import Nafuraito.Memory.UnmapPage

/-! Which addresses the walks confuse. The canonical check compares the bits above the highest
index with each other but not with its top bit, so two accepted addresses may share all indices. -/
namespace Nafuraito.Memory

namespace VirtAddr
variable {v w : VirtAddr}

/-- The bits no walk sees, set to copies of the highest bit one does. -/
def signExtend (v : VirtAddr) : PagingMode → VirtAddr
  | .fourLevel => ⟨(v.addr.setWidth 48).signExtend 64⟩
  | .fiveLevel => ⟨(v.addr.setWidth 57).signExtend 64⟩

private theorem canonicalLa48_iff : v.isCanonicalLa48 = true ↔ v.addr.toNat < 2^48 ∨ 2^64-2^48 ≤ v.addr.toNat := by
  have hlt := v.addr.isLt
  have h₀ : (0 : BitVec 64).toNat = 0 := rfl
  simp only [isCanonicalLa48, Bool.or_eq_true, beq_iff_eq, ← BitVec.toNat_inj, BitVec.toNat_ushiftRight,
    Nat.shiftRight_eq_div_pow, BitVec.toNat_ofNat]
  omega

private theorem canonicalLa57_iff : v.isCanonicalLa57 = true ↔ v.addr.toNat < 2^57 ∨ 2^64-2^57 ≤ v.addr.toNat := by
  have hlt := v.addr.isLt
  have h₀ : (0 : BitVec 64).toNat = 0 := rfl
  simp only [isCanonicalLa57, Bool.or_eq_true, beq_iff_eq, ← BitVec.toNat_inj, BitVec.toNat_ushiftRight,
    Nat.shiftRight_eq_div_pow, BitVec.toNat_ofNat]
  omega

private theorem signExtend_four : (v.signExtend .fourLevel).addr.toNat =
    v.addr.toNat % 2^48 + if v.addr.toNat / 2^47 % 2 = 1 then 2^64-2^48 else 0 := by
  change ((v.addr.setWidth 48).signExtend 64).toNat = _
  rw [BitVec.toNat_signExtend, BitVec.toNat_setWidth, BitVec.toNat_setWidth, BitVec.msb_eq_decide,
    BitVec.toNat_setWidth]
  have hlt := v.addr.isLt
  split <;> split <;> simp_all <;> omega

private theorem signExtend_five : (v.signExtend .fiveLevel).addr.toNat =
    v.addr.toNat % 2^57 + if v.addr.toNat / 2^56 % 2 = 1 then 2^64-2^57 else 0 := by
  change ((v.addr.setWidth 57).signExtend 64).toNat = _
  rw [BitVec.toNat_signExtend, BitVec.toNat_setWidth, BitVec.toNat_setWidth, BitVec.msb_eq_decide,
    BitVec.toNat_setWidth]
  have hlt := v.addr.isLt
  split <;> split <;> simp_all <;> omega

theorem signExtended_signExtend (v : VirtAddr) (mode : PagingMode) : (v.signExtend mode).SignExtended mode := by
  have hlt := v.addr.isLt
  cases mode with
  | fourLevel =>
    rw [SignExtended, signExtend_four]
    split <;> omega
  | fiveLevel =>
    rw [SignExtended, signExtend_five]
    split <;> omega

private theorem digits_eq_iff {a b n : Nat} :
    (∀ k < n, a/512^k % 512 = b/512^k % 512) ↔ a % 512^n = b % 512^n := by
  induction n with
  | zero => simp [Nat.mod_one]
  | succ n ih =>
    have hpos : 0 < 512^n := Nat.pow_pos (by decide)
    rw [Nat.mod_pow_succ, Nat.mod_pow_succ]
    constructor
    · intro h
      rw [ih.mp fun k hk => h k (by omega), h n (by omega)]
    · intro h
      have hlow : a % 512^n = b % 512^n := by
        have := congrArg (· % 512^n) h
        simpa using this
      rw [hlow, Nat.add_left_cancel_iff] at h
      have htop := Nat.eq_of_mul_eq_mul_left hpos h
      intro k hk
      rcases Nat.lt_succ_iff_lt_or_eq.mp hk with hlt | rfl
      · exact ih.mpr hlow k hlt
      · exact htop

/-- The indices of a mode are the low digits of the page number. -/
theorem index_eq_iff (mode : PagingMode) : (∀ k ≤ mode.top, v.index k = w.index k) ↔
    v.addr.toNat/4096 % 512^(mode.top+1) = w.addr.toNat/4096 % 512^(mode.top+1) := by
  rw [← digits_eq_iff]
  have hdigit (v : VirtAddr) (k : Nat) : (v.index k).val = v.addr.toNat/4096/512^k % 512 := by
    rw [index_toNat, Nat.div_div_eq_div_mul, Nat.pow_add, Nat.pow_mul]
  simp only [Fin.ext_iff, hdigit, Nat.lt_succ_iff]

/-- The sign extension changes no bit a walk sees. -/
theorem signExtend_index (v : VirtAddr) (mode : PagingMode) : ∀ k ≤ mode.top,
    (v.signExtend mode).index k = v.index k := by
  have hlt := v.addr.isLt
  rw [index_eq_iff]
  cases mode with
  | fourLevel =>
    rw [signExtend_four]
    simp only [PagingMode.top]
    split <;> omega
  | fiveLevel =>
    rw [signExtend_five]
    simp only [PagingMode.top]
    split <;> omega

/-- Two accepted addresses on different pages share their indices exactly when one is the
sign extension of the other. -/
theorem index_eq_iff_signExtend {mode : PagingMode} (hv : v.isCanonical mode = true)
    (hw : w.isCanonical mode = true) (hne : v.addr.toNat/4096 ≠ w.addr.toNat/4096) :
    (∀ k ≤ mode.top, v.index k = w.index k) ↔
      (v.signExtend mode).addr.toNat/4096 = w.addr.toNat/4096 ∨
        (w.signExtend mode).addr.toNat/4096 = v.addr.toNat/4096 := by
  have hvlt := v.addr.isLt
  have hwlt := w.addr.isLt
  rw [index_eq_iff]
  cases mode with
  | fourLevel =>
    rw [signExtend_four, signExtend_four]
    have hv := canonicalLa48_iff.mp hv
    have hw := canonicalLa48_iff.mp hw
    simp only [PagingMode.top]
    split <;> split <;> omega
  | fiveLevel =>
    rw [signExtend_five, signExtend_five]
    have hv := canonicalLa57_iff.mp hv
    have hw := canonicalLa57_iff.mp hw
    simp only [PagingMode.top]
    split <;> split <;> omega

end VirtAddr

namespace PagingManager
open Nafuraito.Library
variable {m : PagingManager} {s t : Machine} {v w : VirtAddr}

/-- Whatever `map_page` does for `v`, an address with another index is read as before. -/
theorem mapPage_apart (hm : s.paging = some m) (hwf : m.WellFormed s.mem) (hleaf : m.NoHugeLeaf s.mem v)
    (hfresh : m.FreshTables m.mode.top s) (p : PhysAddr) (flags : PageTableFlags) (hne : m.Apart v w) :
    Machine.SameOutcome (Machine.translateAddress w) s (Machine.mapPage v p flags s).2 ∧
      Machine.SameOutcome (Machine.getPageFlags w) s (Machine.mapPage v p flags s).2 := by
  obtain ⟨u, hg, ⟨f, hw, -, he⟩ | ⟨e, he⟩⟩ := mapPage_run hm hwf hleaf hfresh p flags
  · rw [he]
    have hwrite := Pruned.leafWrite hg.wellFormed hw (PageTableEntry.of p.addr flags).raw
    exact readers_same hm (hg.paging.trans hm) hwf hwrite.wellFormed ((hwrite.leaf w hne).trans (hg.leaf w))
  · rw [he]
    exact readers_same hm (hg.paging.trans hm) hwf hg.wellFormed (hg.leaf w)

/-- The addresses differ in an index of the mode, and no `map_page` of the first changes what
the second reads. -/
def Isolated (mode : PagingMode) (v w : VirtAddr) : Prop :=
  (∃ k ≤ mode.top, v.index k ≠ w.index k) ∧
    ∀ (m : PagingManager) (s : Machine) (p : PhysAddr) (flags : PageTableFlags), m.mode = mode →
      s.paging = some m → m.WellFormed s.mem → m.NoHugeLeaf s.mem v → m.FreshTables m.mode.top s →
        Machine.SameOutcome (Machine.translateAddress w) s (Machine.mapPage v p flags s).2 ∧
          Machine.SameOutcome (Machine.getPageFlags w) s (Machine.mapPage v p flags s).2

/-- Accepted addresses on different pages are isolated unless one is the sign extension of
the other. -/
theorem isolated_iff {mode : PagingMode} (hv : v.isCanonical mode = true) (hw : w.isCanonical mode = true)
    (hne : v.addr.toNat/4096 ≠ w.addr.toNat/4096) :
    Isolated mode v w ↔ (v.signExtend mode).addr.toNat/4096 ≠ w.addr.toNat/4096 ∧
      (w.signExtend mode).addr.toNat/4096 ≠ v.addr.toNat/4096 := by
  have hindex := VirtAddr.index_eq_iff_signExtend hv hw hne
  rw [Ne, Ne, ← not_or, ← hindex]
  constructor
  · rintro ⟨⟨k, hk, hkne⟩, -⟩ hall
    exact hkne (hall k hk)
  · intro h
    have hap : ∃ k ≤ mode.top, v.index k ≠ w.index k := by simpa using h
    refine ⟨hap, fun m s p flags hmode hm hwf hleaf hfresh => ?_⟩
    exact mapPage_apart hm hwf hleaf hfresh p flags (by rwa [Apart, hmode])

theorem isolated_neighbours : Isolated .fourLevel ⟨0x400000#64⟩ ⟨0x401000#64⟩ :=
  (isolated_iff (by decide) (by decide) (by decide)).mpr (by decide)

/-- The lowest address with bit 47 set and its sign extension: both are accepted, and mapping
the first maps the second. -/
theorem alias_mapped : VirtAddr.isCanonical ⟨0x800000000000#64⟩ .fourLevel = true ∧
    VirtAddr.isCanonical ⟨0xFFFF800000000000#64⟩ .fourLevel = true ∧
    (0x800000000000#64).toNat/4096 ≠ (0xFFFF800000000000#64).toNat/4096 ∧
    (∀ k ≤ PagingMode.fourLevel.top, VirtAddr.index ⟨0x800000000000#64⟩ k = VirtAddr.index ⟨0xFFFF800000000000#64⟩ k) ∧
    (Machine.translateAddress ⟨0xFFFF800000000000#64⟩ smallMachine).1 = .error (.err "Page not mapped (PML4)") ∧
    ∃ t, Machine.mapPage ⟨0x800000000000#64⟩ ⟨0x200000#64⟩ ⟨3#64⟩ smallMachine = (.ok (), t) ∧
      (Machine.translateAddress ⟨0xFFFF800000000000#64⟩ t).1 = .ok ⟨0x200000#64⟩ := by
  have hok : (Machine.mapPage ⟨0x800000000000#64⟩ ⟨0x200000#64⟩ ⟨3#64⟩ smallMachine).1 = .ok () := by rfl
  exact ⟨by decide, by decide, by decide, by decide, by rfl, _, Fallible.run_of_fst hok, by rfl⟩

end PagingManager
end Nafuraito.Memory
