import Nafuraito.Memory.CowReadOnly

/-! Which bits of an entry's flags survive a read and a write. `flags` keeps the low twelve bits,
so every caller that reads flags, changes some and writes them back drops the no-execute bit. -/
namespace Nafuraito.Memory
open Nafuraito.Library
open PhysicalMemoryManager (FreeIn)

/-- A present page's flags: bits 0..11 and no-execute. -/
def PageTableFlags.OfPage (f : PageTableFlags) : Prop :=
  f.raw.getLsbD 0 = true ∧ ∀ i, f.raw.getLsbD i = true → i < 12 ∨ i = 63

/-- The flag bits of a page other than writable and copy-on-write are the same. -/
def SameFlags (e e' : BitVec 64) : Prop :=
  ∀ i, i < 12 ∨ i = 63 → i ≠ 1 → i ≠ 9 → e'.getLsbD i = e.getLsbD i

namespace PageTableEntry

private theorem contains_noExecute (raw : BitVec 64) :
    PageTableFlags.contains ⟨raw⟩ PageTableFlags.NO_EXECUTE = raw.getLsbD 63 := Words.and_bit_ne_zero raw (by decide)

private theorem of_bit {addr : BitVec 64} {f : PageTableFlags} {i : Nat} (hi : i < 12 ∨ i = 63) :
    (of addr f).raw.getLsbD i = f.raw.getLsbD i := by
  rw [of, BitVec.getLsbD_or, Words.getLsbD_and_mask addressMask_bits, decide_eq_false (by omega), Bool.and_false,
    Bool.false_or]

/-- Flags read back from an entry as written unless they forbid execution. -/
theorem of_flags_iff {f : PageTableFlags} (hf : f.OfPage) (addr : BitVec 64) :
    (of addr f).flags = f ↔ f.contains PageTableFlags.NO_EXECUTE = false := by
  rw [contains_noExecute]
  constructor
  · intro h
    rw [← h, flags_bit]
    exact Bool.and_false _
  · intro h
    rw [show f = ⟨f.raw⟩ from rfl, show (of addr ⟨f.raw⟩).flags = ⟨(of addr f).flags.raw⟩ from rfl,
      PageTableFlags.mk.injEq]
    apply BitVec.eq_of_getLsbD_eq
    intro i _
    rw [flags_bit]
    by_cases hi : i < 12
    · rw [of_bit (.inl hi), decide_eq_true hi, Bool.and_true]
    · rw [decide_eq_false hi, Bool.and_false]
      cases hbit : f.raw.getLsbD i with
      | false => rfl
      | true =>
        obtain rfl := (hf.2 i hbit).resolve_left hi
        rw [h] at hbit
        cases hbit

/-- Flags that are read, changed in other bits and written back lose the no-execute bit only. -/
private theorem sameFlags_iff {e : PageTableEntry} {f : PageTableFlags} (addr : BitVec 64)
    (hf : ∀ i, i ≠ 1 → i ≠ 9 → f.raw.getLsbD i = e.flags.raw.getLsbD i) :
    SameFlags e.raw (of addr f).raw ↔ PageTableFlags.contains ⟨e.raw⟩ PageTableFlags.NO_EXECUTE = false := by
  have hbit {i : Nat} (hi : i < 12 ∨ i = 63) (h₁ : i ≠ 1) (h₉ : i ≠ 9) :
      (of addr f).raw.getLsbD i = (e.raw.getLsbD i && decide (i < 12)) := by
    rw [of_bit hi, hf i h₁ h₉, flags_bit]
  rw [contains_noExecute]
  constructor
  · intro h
    rw [← h 63 (.inr rfl) (by decide) (by decide), hbit (.inr rfl) (by decide) (by decide)]
    exact Bool.and_false _
  · intro h i hi h₁ h₉
    rw [hbit hi h₁ h₉]
    rcases hi with hi | rfl
    · rw [decide_eq_true hi, Bool.and_true]
    · rw [h, Bool.false_and]

end PageTableEntry

namespace PagingManager
variable {m : PagingManager} {E : m.Entries} {s t : Machine} {v w : VirtAddr} {e : BitVec 64}

/-- The page kept the flag bits of the entry `e`. -/
def KeepsFlags (m : PagingManager) (t : Machine) (v : VirtAddr) (e : BitVec 64) : Prop :=
  ∃ e', m.entryOf t.mem (m.pageOf v) = some (0, e') ∧ SameFlags e e'

private theorem keepsFlags_iff {addr : BitVec 64} {f : PageTableFlags}
    (hf : ∀ i, i ≠ 1 → i ≠ 9 → f.raw.getLsbD i = (PageTableEntry.flags ⟨e⟩).raw.getLsbD i)
    (hentry : m.entryOf t.mem (m.pageOf v) = some (0, (PageTableEntry.of addr f).raw)) :
    m.KeepsFlags t v e ↔ PageTableFlags.contains ⟨e⟩ PageTableFlags.NO_EXECUTE = false := by
  rw [← PageTableEntry.sameFlags_iff (e := ⟨e⟩) addr hf]
  constructor
  · rintro ⟨e', he', hsame⟩
    rw [hentry] at he'
    obtain rfl := (Prod.mk.inj (Option.some.inj he')).2
    exact hsame
  · exact fun hsame => ⟨_, hentry, hsame⟩

/-! ### What the calls write -/

section Shows
variable (h : m.Shows s E) (hv : Small E (m.pageOf v))
include h hv

/-- Reading back a page of 4 KiB. -/
private theorem getPageFlags_iff (he : E (m.pageOf v) = some (0, e)) (hroot : m.rootTablePhys.toNat < 2^32)
    {f : PageTableFlags} :
    (Machine.getPageFlags v s).1 = .ok f ↔ PageTableEntry.flags ⟨e⟩ = f ∧ v.isCanonical m.mode = true := by
  rcases readers_run h.paging h.wellFormed (h.noHugeLeaf hv) with ⟨e', he', -, hcan, -, hrun⟩ | ⟨hnone, -, er, hrun⟩
  · rw [h.entries, he] at he'
    obtain rfl := (Prod.mk.inj (Option.some.inj he')).2
    rw [hrun]
    exact ⟨fun hf => ⟨Except.ok.inj hf, hcan⟩, fun hf => congrArg Except.ok hf.1⟩
  · rw [hrun]
    refine iff_of_false (fun hf => by cases hf) fun hf => ?_
    have := hnone hroot hf.2
    rw [h.entries, he] at this
    cases this

private theorem mapPage_readBack {f : PageTableFlags} (hf : f.OfPage) {p : PhysAddr}
    (hok : Machine.mapPage v p f s = (.ok (), t)) :
    (Machine.getPageFlags v t).1 = .ok f ↔ f.contains PageTableFlags.NO_EXECUTE = false := by
  obtain ⟨-, hcan, u, hwalk, -⟩ := mapPage_ok h.paging hok
  have hroot : m.rootTablePhys.toNat < 2^32 := by
    by_contra hroot
    rw [mapWalk_crash hroot] at hwalk
    cases hwalk
  rcases h.mapPage hv (p := p) hf.1 with ⟨t', hrun, -, ht⟩ | ⟨er, t', hrun, -, -⟩ <;> rw [hrun] at hok
  · obtain rfl := (Prod.mk.inj hok).2
    rw [getPageFlags_iff ht (small_update hv) (Function.update_self ..) hroot, PageTableEntry.of_flags_iff hf,
      and_iff_left hcan]
  · cases hok

/-- `remap_page` does not check the address, the reader does. -/
private theorem remapPage_readBack {f : PageTableFlags} (hf : f.OfPage) {p : PhysAddr}
    (hok : Machine.remapPage v p f s = (.ok (), t)) :
    (Machine.getPageFlags v t).1 = .ok f ↔
      f.contains PageTableFlags.NO_EXECUTE = false ∧ v.isCanonical m.mode = true := by
  have hroot : m.rootTablePhys.toNat < 2^32 := by
    by_contra hroot
    rw [Machine.remapPage, Fallible.bind_of_ok (Machine.getPagingManager_run h.paging)] at hok
    obtain ⟨_, s', hreq, hrest⟩ := Fallible.bind_ok hok
    obtain ⟨-, rfl⟩ := Fallible.require_ok hreq
    rw [Machine.remapLevels_eq, Fallible.bind_of_error (Machine.remapWalk_crash v p f _ hroot)] at hrest
    cases hrest
  rcases h.remapPage hv (p := p) hf.1 with ⟨t', hrun, -, -, ht⟩ | ⟨er, hrun⟩ <;> rw [hrun] at hok
  · obtain rfl := (Prod.mk.inj hok).2
    rw [getPageFlags_iff ht (small_update hv) (Function.update_self ..) hroot, PageTableEntry.of_flags_iff hf]
  · cases hok

variable (he : E (m.pageOf v) = some (0, e))
include he

private theorem markCow_entry (hok : Machine.markCow v s = (.ok (), t)) : ∃ addr, m.Shows t
    (Function.update E (m.pageOf v) (some (0, (PageTableEntry.of addr
      (cowFlags (PageTableEntry.flags ⟨e⟩))).raw))) := by
  rw [Machine.markCow] at hok
  rcases h.readers hv with ⟨e', he', hpr, -, htr, hfl⟩ | ⟨-, er, hfl⟩
  · obtain rfl := (Prod.mk.inj (Option.some.inj (he.symm.trans he'))).2
    rw [Fallible.bind_of_ok hfl, Fallible.bind_of_ok htr] at hok
    obtain ⟨c, u, hinc, hu⟩ := incRefcount_shows h ⟨PageTableEntry.address ⟨e⟩ ||| v.pageOffset⟩
    rw [Fallible.bind_of_ok hinc] at hok
    rcases hu.remapPage hv (cow_present hpr) with ⟨t', hrun, -, -, ht⟩ | ⟨er, hrun⟩ <;> rw [hrun] at hok
    · obtain rfl := (Prod.mk.inj hok).2
      exact ⟨_, ht⟩
    · cases hok
  · rw [Fallible.bind_of_error hfl] at hok
    cases hok

private theorem sharePageCow_entries (hw : Small E (m.pageOf w)) (hok : Machine.sharePageCow v w s = (.ok (), t)) :
    ∃ addr, let e' := some (0, (PageTableEntry.of addr (cowFlags (PageTableEntry.flags ⟨e⟩))).raw)
      m.Shows t (Function.update (Function.update E (m.pageOf v) e') (m.pageOf w) e') := by
  rw [Machine.sharePageCow] at hok
  rcases h.readers hv with ⟨e', he', hpr, -, htr, hfl⟩ | ⟨⟨er, htr⟩, -⟩
  · obtain rfl := (Prod.mk.inj (Option.some.inj (he.symm.trans he'))).2
    rw [Fallible.bind_of_ok htr, Fallible.bind_of_ok hfl] at hok
    rcases h.remapPage hv (cow_present hpr) with ⟨u, hrun, -, -, hu⟩ | ⟨er, hrun⟩
    · rw [Fallible.bind_of_ok hrun] at hok
      rcases hu.mapPage (small_update hw) (cow_present hpr) with ⟨t', hrun', -, ht⟩ | ⟨er, t', hrun', -, -⟩
      · rw [Fallible.bind_of_ok hrun'] at hok
        obtain ⟨c, t'', hinc, ht'⟩ := incRefcount_shows ht ⟨PageTableEntry.address ⟨e⟩ ||| v.pageOffset⟩
        rw [Fallible.bind_of_ok hinc] at hok
        obtain rfl := (Prod.mk.inj hok).2
        exact ⟨_, ht'⟩
      · rw [Fallible.bind_of_error hrun'] at hok
        cases hok
    · rw [Fallible.bind_of_error hrun] at hok
      cases hok
  · rw [Fallible.bind_of_error htr] at hok
    cases hok

private theorem breakSharing_keeps {message : String}
    (hok : Machine.breakSharing v (PageTableEntry.flags ⟨e⟩) message s = (.ok (), t)) :
    m.KeepsFlags t v e ↔ PageTableFlags.contains ⟨e⟩ PageTableFlags.NO_EXECUTE = false := by
  rcases breakSharing_entry h hv he message with ⟨er, t', hrun, -⟩ | ⟨addr, t', hrun, -, -, ht⟩ <;> rw [hrun] at hok
  · cases hok
  · obtain rfl := (Prod.mk.inj hok).2
    have hentry : m.entryOf t'.mem (m.pageOf v) =
        some (0, (PageTableEntry.of addr (ownedFlags (PageTableEntry.flags ⟨e⟩))).raw) := by
      rw [ht.entries, Function.update_self]
    exact keepsFlags_iff (fun i h₁ h₉ => ownedFlags_other _ h₁ h₉) hentry

/-- What reading the flags of the page gives, if anything. -/
private theorem getPageFlags_ok {f : PageTableFlags} {u : Machine} (hok : Machine.getPageFlags v s = (.ok f, u)) :
    f = PageTableEntry.flags ⟨e⟩ ∧ u = s := by
  rcases h.readers hv with ⟨e', he', -, -, -, hfl⟩ | ⟨-, er, hfl⟩ <;> rw [hfl] at hok
  · obtain rfl := (Prod.mk.inj (Option.some.inj (he.symm.trans he'))).2
    exact ⟨(Except.ok.inj (Prod.mk.inj hok).1).symm, (Prod.mk.inj hok).2.symm⟩
  · cases hok

private theorem handleCowFault_keeps (hok : Machine.handleCowFault v s = (.ok (), t)) :
    m.KeepsFlags t v e ↔ PageTableFlags.contains ⟨e⟩ PageTableFlags.NO_EXECUTE = false := by
  obtain ⟨f, u, hfl, hrest⟩ := Fallible.bind_ok hok
  obtain ⟨rfl, rfl⟩ := getPageFlags_ok h hv he hfl
  obtain ⟨_, u, hreq, hbreak⟩ := Fallible.bind_ok hrest
  obtain ⟨-, rfl⟩ := Fallible.require_ok hreq
  exact breakSharing_keeps h hv he hbreak

/-- A page without the copy-on-write bit is left as it is. -/
private theorem unshareCowPage_keeps (hok : Machine.unshareCowPage v s = (.ok (), t)) :
    m.KeepsFlags t v e ↔ (isCowPage (PageTableEntry.flags ⟨e⟩) = true →
      PageTableFlags.contains ⟨e⟩ PageTableFlags.NO_EXECUTE = false) := by
  obtain ⟨f, u, hfl, hrest⟩ := Fallible.bind_ok hok
  obtain ⟨rfl, rfl⟩ := getPageFlags_ok h hv he hfl
  cases hcow : isCowPage (PageTableEntry.flags ⟨e⟩) with
  | false =>
    simp only [hcow] at hrest
    obtain rfl := (Prod.mk.inj hrest).2
    refine iff_of_true ⟨e, by rw [h.entries, he], fun _ _ _ _ => rfl⟩ fun hc => by cases hc
  | true =>
    simp only [hcow] at hrest
    rw [breakSharing_keeps h hv he hrest]
    exact ⟨fun hn _ => hn, fun hn => hn rfl⟩

end Shows

/-- Flags read back as written, and survive the copy-on-write calls, exactly where they allow
execution; after `remap_page` the address must also be one the reader accepts, and
`unshare_cow_page` leaves other pages alone. -/
theorem pageFlags_kept_iff (h : m.Shows s E) (hv : Small E (m.pageOf v)) (hw : Small E (m.pageOf w)) :
    (∀ f, PageTableFlags.OfPage f → ∀ p t, Machine.mapPage v p f s = (.ok (), t) →
      ((Machine.getPageFlags v t).1 = .ok f ↔ f.contains PageTableFlags.NO_EXECUTE = false)) ∧
    (∀ f, PageTableFlags.OfPage f → ∀ p t, Machine.remapPage v p f s = (.ok (), t) →
      ((Machine.getPageFlags v t).1 = .ok f ↔
        f.contains PageTableFlags.NO_EXECUTE = false ∧ v.isCanonical m.mode = true)) ∧
    ∀ e, E (m.pageOf v) = some (0, e) →
      (∀ t, Machine.markCow v s = (.ok (), t) →
        (m.KeepsFlags t v e ↔ PageTableFlags.contains ⟨e⟩ PageTableFlags.NO_EXECUTE = false)) ∧
      (∀ t, Machine.sharePageCow v w s = (.ok (), t) →
        (m.KeepsFlags t v e ∧ m.KeepsFlags t w e ↔ PageTableFlags.contains ⟨e⟩ PageTableFlags.NO_EXECUTE = false)) ∧
      (∀ t, Machine.handleCowFault v s = (.ok (), t) →
        (m.KeepsFlags t v e ↔ PageTableFlags.contains ⟨e⟩ PageTableFlags.NO_EXECUTE = false)) ∧
      ∀ t, Machine.unshareCowPage v s = (.ok (), t) →
        (m.KeepsFlags t v e ↔ (isCowPage (PageTableEntry.flags ⟨e⟩) = true →
          PageTableFlags.contains ⟨e⟩ PageTableFlags.NO_EXECUTE = false)) := by
  refine ⟨fun f hf p t hok => mapPage_readBack h hv hf hok, fun f hf p t hok => remapPage_readBack h hv hf hok,
    fun e he => ⟨fun t hok => ?_, fun t hok => ?_, fun t hok => handleCowFault_keeps h hv he hok,
      fun t hok => unshareCowPage_keeps h hv he hok⟩⟩
  · obtain ⟨addr, ht⟩ := markCow_entry h hv he hok
    have hentry : m.entryOf t.mem (m.pageOf v) =
        some (0, (PageTableEntry.of addr (cowFlags (PageTableEntry.flags ⟨e⟩))).raw) := by
      rw [ht.entries, Function.update_self]
    exact keepsFlags_iff (fun i h₁ h₉ => cowFlags_other _ h₁ h₉) hentry
  · obtain ⟨addr, ht⟩ := sharePageCow_entries h hv he hw hok
    have hsrc : m.entryOf t.mem (m.pageOf v) =
        some (0, (PageTableEntry.of addr (cowFlags (PageTableEntry.flags ⟨e⟩))).raw) := by
      rw [ht.entries]
      by_cases hvw : m.pageOf v = m.pageOf w
      · rw [hvw, Function.update_self]
      · rw [Function.update_of_ne hvw, Function.update_self]
    have hdst : m.entryOf t.mem (m.pageOf w) =
        some (0, (PageTableEntry.of addr (cowFlags (PageTableEntry.flags ⟨e⟩))).raw) := by
      rw [ht.entries, Function.update_self]
    rw [keepsFlags_iff (fun i h₁ h₉ => cowFlags_other _ h₁ h₉) hsrc,
      keepsFlags_iff (fun i h₁ h₉ => cowFlags_other _ h₁ h₉) hdst, and_self]

/-! ### A small machine -/

private theorem small_shows : smallPaging.Shows smallMachine (smallPaging.entryOf smallMachine.mem) :=
  ⟨rfl, smallMachine_wellFormed, smallMachine_used, rfl⟩

theorem pageFlags_kept_small : (Machine.getPageFlags ⟨0x400000#64⟩
    (Machine.mapPage ⟨0x400000#64⟩ ⟨0x9000#64⟩ ⟨3#64⟩ smallMachine).2).1 = .ok ⟨3#64⟩ := by
  have hok : (Machine.mapPage ⟨0x400000#64⟩ ⟨0x9000#64⟩ ⟨3#64⟩ smallMachine).1 = .ok () := by rfl
  have hpage : PageTableFlags.OfPage ⟨3#64⟩ := by
    refine ⟨by decide, fun i hi => .inl ?_⟩
    by_contra hge
    rw [Words.getLsbD_of_lt (k := 2) (by decide) (by omega)] at hi
    cases hi
  exact ((pageFlags_kept_iff (v := ⟨0x400000#64⟩) (w := ⟨0x500000#64⟩) small_shows (fun l e h => by cases h)
    (fun l e h => by cases h)).1 ⟨3#64⟩ hpage _ _ (Fallible.run_of_fst hok)).mpr (by decide)

/-- A page of data, mapped without execution. -/
def dataPage : Machine := (Machine.mapPage ⟨0x400000#64⟩ ⟨0x9000#64⟩ ⟨0x8000000000000003#64⟩ smallMachine).2

/-- It does not read back so, and marking it makes it executable. -/
theorem dataPage_executable : PageTableFlags.OfPage ⟨0x8000000000000003#64⟩ ∧
    smallPaging.WellFormed smallMachine.mem ∧ smallPaging.leaf smallMachine.mem ⟨0x400000#64⟩ = none ∧
    Machine.mapPage ⟨0x400000#64⟩ ⟨0x9000#64⟩ ⟨0x8000000000000003#64⟩ smallMachine = (.ok (), dataPage) ∧
    (Machine.getPageFlags ⟨0x400000#64⟩ dataPage).1 = .ok ⟨3#64⟩ ∧
    smallPaging.leaf dataPage.mem ⟨0x400000#64⟩ = some (0, 0x8000000000009003#64) ∧
    ∃ t, Machine.markCow ⟨0x400000#64⟩ dataPage = (.ok (), t) ∧
      smallPaging.leaf t.mem ⟨0x400000#64⟩ = some (0, 0x9201#64) := by
  have hok : (Machine.mapPage ⟨0x400000#64⟩ ⟨0x9000#64⟩ ⟨0x8000000000000003#64⟩ smallMachine).1 = .ok () := by rfl
  have hmark : (Machine.markCow ⟨0x400000#64⟩ dataPage).1 = .ok () := by rfl
  refine ⟨⟨by decide, ?_⟩, smallMachine_wellFormed, rfl, Fallible.run_of_fst hok,
    by rfl, by rfl, _, Fallible.run_of_fst hmark, by rfl⟩
  intro i hi
  have hbits : ∀ i : Fin 64, (0x8000000000000003#64).getLsbD i = true → i.val < 12 ∨ i.val = 63 := by decide
  exact hbits ⟨i, BitVec.lt_of_getLsbD hi⟩ hi

end PagingManager

end Nafuraito.Memory
