import Nafuraito.Memory.DemandPaging
import Nafuraito.Memory.Pages

/-! What one round of `munmap` does: it unmaps a page, and then frees the frame of the page. -/
namespace Nafuraito.Memory
open Nafuraito.Library
open PhysicalMemoryManager (FreeIn)

namespace Machine

/-- The address of a page. -/
def pageAddr (page : Nat) : VirtAddr := ⟨BitVec.ofNat 64 (4096*page)⟩

/-- A round of the loop up to its call of `free_frame`, with the address of the call if it
comes to one. -/
def freedAddress (v : VirtAddr) : Op (Option Nat) := do
  match ← tryOk (translateAddress v) with
  | none => pure none
  | some phys =>
    unmapPage v
    pure (some phys.alignDown.addr.toNat)

/-- The rest of the round. -/
def freeAddress : Option Nat → Op Unit
  | none => pure ()
  | some addr => Fallible.mapError (fun _ => .err "Failed to free frame") (freeFrame addr)

theorem releasePage_eq (v : VirtAddr) : releasePage v = freedAddress v >>= freeAddress := by
  funext s
  rw [releasePage, freedAddress, Fallible.bind_run, Fallible.bind_run, Fallible.bind_run]
  rcases tryOk (translateAddress v) s with ⟨e | (_ | phys), t⟩
  · rfl
  · rfl
  · dsimp only
    rw [Fallible.bind_run, Fallible.bind_run]
    rcases unmapPage v t with ⟨e | x, u⟩ <;> rfl

end Machine

namespace PagingManager
open Machine (freedAddress freeAddress releasePage)
variable {m : PagingManager} {s t : Machine} {v : VirtAddr}

/-- The processor gets nowhere from a root it cannot read. -/
private theorem translateAddress_crash (hm : s.paging = some m) (hv : v.isCanonical m.mode = true)
    (hroot : ¬ m.rootTablePhys.toNat < 2^32) : Machine.translateAddress v s = (.error .crash, s) := by
  rw [Machine.translateAddress, Fallible.bind_of_ok (Machine.getPagingManager_run hm),
    Fallible.bind_of_ok (requireCanonical_run hv s), Machine.readLevels_eq]
  rcases m.mode.top with _ | _ | _ | _ <;> exact Fallible.bind_of_error (Machine.tableAt_crash hroot)

/-- The round up to the call: nothing happens to a page that is not mapped; of a page that is,
the entry is cleared, unless `unmap_page` fails first. -/
theorem freedAddress_run (hm : s.paging = some m) (hwf : m.WellFormed s.mem) (hleaf : m.NoHugeLeaf s.mem v) :
    (∃ r, freedAddress v s = (r, s) ∧ (∀ addr, r ≠ .ok (some addr)) ∧
      (r = .ok none → v.isCanonical m.mode = true → m.leaf s.mem v = none)) ∨
    ∃ e, m.leaf s.mem v = some (0, e) ∧
      ((∃ err t, freedAddress v s = (.error err, t) ∧ m.Pruned v s t ∧ m.leaf t.mem v = none) ∨
      ∃ t, freedAddress v s = (.ok (some (PageTableEntry.frame ⟨e⟩*4096)), t) ∧ m.Cleared v s t m.rootFrame) := by
  rw [freedAddress]
  rcases readers_run hm hwf hleaf with ⟨e, he, -, -, htr, -⟩ | ⟨hnone, ⟨er, htr⟩, -⟩
  · rw [Fallible.bind_of_ok (Machine.tryOk_ok htr)]
    have haddr : (PhysAddr.mk (PageTableEntry.address ⟨e⟩ ||| v.pageOffset)).alignDown.addr.toNat =
        PageTableEntry.frame ⟨e⟩*4096 := by
      obtain ⟨hn, hlt⟩ := leaf_toNat ⟨e⟩ v
      rw [PhysAddr.alignDown, Words.and_not_toNat (k := 12) offsetMask_bits, hn]
      omega
    rcases unmapPage_run hm hwf hleaf with ⟨err, hrun⟩ | hun
    · exact .inl ⟨_, Fallible.bind_of_error hrun, by simp, by simp⟩
    · refine .inr ⟨e, (leaf_eq_entryOf _ _).trans he, ?_⟩
      rcases hrun : Machine.unmapPage v s with ⟨err | x, t⟩ <;> rw [hrun] at hun
      · exact .inl ⟨err, t, Fallible.bind_of_error hrun, hun.pruned, hun.gone⟩
      · refine .inr ⟨t, ?_, hun.done rfl⟩
        rw [← haddr]
        exact Fallible.bind_of_ok hrun
  · rcases Machine.tryOk_error htr with h | h
    · rw [Fallible.bind_of_ok h]
      refine .inl ⟨_, rfl, by simp, fun _ hv => ?_⟩
      rw [leaf_eq_entryOf]
      refine hnone ?_ hv
      by_contra hroot
      rw [Machine.tryOk, translateAddress_crash hm hv hroot] at h
      cases h
    · exact .inl ⟨_, Fallible.bind_of_error h, by simp, by simp⟩

/-- The call of `free_frame` touches the allocator only. -/
theorem freeAddress_some (n : Nat) (s : Machine) :
    ∃ p, (freeAddress (some (n*4096)) s).2 = { s.addLog (.freeFrame (n*4096)) with pmm := p } ∧
      (∀ f, FreeIn p f → FreeIn s.pmm f ∨ f = n) ∧
      ((freeAddress (some (n*4096)) s).1 = .ok () → ∀ f, FreeIn p f ↔ FreeIn s.pmm f ∨ f = n) := by
  obtain ⟨p, hp, hfree, hok⟩ := freeFrame_free (n*4096) s
  rw [Nat.mul_div_cancel n (by decide)] at hfree hok
  exact ⟨p, hp, hfree, fun h => hok (Fallible.mapError_ok h)⟩

/-! ### What was released -/

/-- From `s` to `t` entries were cleared, the tables this emptied were taken out, and they and
`frames` were freed. -/
structure Released (m : PagingManager) (s t : Machine) (frames : Set Nat) : Prop where
  words : ∀ f i, t.mem f i = s.mem f i ∨ t.mem f i = 0
  tables : ∀ l f, m.Table t.mem l f ↔ m.Table s.mem l f ∧ ¬ m.Emptied s t f
  rest : ∀ f, (∀ l, ¬ m.Table s.mem l f) → t.mem f = s.mem f
  free : ∀ f, FreeIn t.pmm f ↔ FreeIn s.pmm f ∨ m.Emptied s t f ∨ f ∈ frames

theorem not_emptied_self (f : Nat) : ¬ m.Emptied s s f := fun ⟨_, _, ⟨i, hi⟩, hzero⟩ => hi (hzero i)

theorem Released.refl (m : PagingManager) (s : Machine) : m.Released s s ∅ where
  words _ _ := .inl rfl
  tables l f := (and_iff_left (not_emptied_self f)).symm
  rest _ _ := rfl
  free f := by simp [not_emptied_self]

/-- A table is emptied on the way once, and stays empty. -/
private theorem Released.emptied {u : Machine} {A B : Set Nat} (h : m.Released s t A) (h' : m.Released t u B)
    (f : Nat) :
    m.Emptied s u f ↔ m.Emptied s t f ∨ m.Emptied t u f := by
  constructor
  · rintro ⟨hroot, ⟨l, hl⟩, hfull, hzero⟩
    by_cases he : ∀ i, t.mem f i = 0
    · exact .inl ⟨hroot, ⟨l, hl⟩, hfull, he⟩
    · exact .inr ⟨hroot, ⟨l, (h.tables l f).mpr ⟨hl, fun hem => he hem.2.2.2⟩⟩, not_forall.mp he, hzero⟩
  · rintro (hem | ⟨hroot, ⟨l, hl⟩, ⟨i, hi⟩, hzero⟩)
    · refine ⟨hem.1, hem.2.1, hem.2.2.1, fun i => ?_⟩
      rw [h'.rest f fun l hl => ((h.tables l f).mp hl).2 hem]
      exact hem.2.2.2 i
    · refine ⟨hroot, ⟨l, ((h.tables l f).mp hl).1⟩, ⟨i, fun hz => hi ?_⟩, hzero⟩
      exact (h.words f i).elim (fun h => h.trans hz) id

theorem Released.trans {u : Machine} {A B : Set Nat} (h : m.Released s t A) (h' : m.Released t u B) :
    m.Released s u (A ∪ B) where
  words f i := by
    rcases h'.words f i with he | he
    · rw [he]
      exact h.words f i
    · exact .inr he
  tables l f := by
    rw [h'.tables, h.tables, h.emptied h']
    tauto
  rest f hf := (h'.rest f fun l hl => hf l ((h.tables l f).mp hl).1).trans (h.rest f hf)
  free f := by
    rw [h'.free, h.free, h.emptied h', Set.mem_union]
    tauto

/-- A round that returns `Ok` unmapped the page and freed its frame, if it had one. -/
theorem releasePage_released (hm : s.paging = some m) (hwf : m.WellFormed s.mem) (hleaf : m.NoHugeLeaf s.mem v)
    (hv : v.isCanonical m.mode = true) (hok : releasePage v s = (.ok (), t)) :
    m.Released s t {f | m.frameOf s (m.pageOf v) = some f} := by
  rw [Machine.releasePage_eq] at hok
  obtain ⟨r, u, hup, hfreed⟩ := Fallible.bind_ok hok
  rcases freedAddress_run hm hwf hleaf with ⟨r', hsame, hsome, hnone⟩ | ⟨e, he, ⟨err, _, herr, -⟩ | ⟨u', hrun, hc⟩⟩
  · obtain ⟨hr, hu⟩ := Prod.mk.inj (hsame.symm.trans hup)
    cases r with
    | some addr => exact absurd hr (hsome addr)
    | none =>
      have ht : s = t := hu.trans (Prod.mk.inj hfreed).2
      have hframe : {f | m.frameOf s (m.pageOf v) = some f} = ∅ := by
        rw [Set.eq_empty_iff_forall_notMem]
        rintro f hf
        change m.frameOf s (m.pageOf v) = some f at hf
        rw [frameOf, ← leaf_eq_entryOf, hnone hr hv] at hf
        cases hf
      rw [hframe, ← ht]
      exact .refl m s
  · rw [herr] at hup
    cases hup
  · rw [hrun] at hup
    obtain ⟨hr, rfl⟩ := Prod.mk.inj hup
    obtain rfl := Except.ok.inj hr
    obtain ⟨p, hp, -, hfree⟩ := freeAddress_some (PageTableEntry.frame ⟨e⟩) u'
    rw [hfreed] at hp hfree
    obtain rfl : t = _ := hp
    have hframe : m.frameOf s (m.pageOf v) = some (PageTableEntry.frame ⟨e⟩) :=
      frameOf_of_entry ((leaf_eq_entryOf _ _).symm.trans he)
    have hset (f : Nat) : (m.Emptied s u' f ∧ f ≠ m.rootFrame) ↔ m.Emptied s u' f := and_iff_left_of_imp fun h => h.1
    refine ⟨hc.words, fun l f => (hc.tables l f).trans (and_congr_right' (not_congr (hset f))), hc.pruned.rest,
      fun f => ?_⟩
    refine (hfree rfl f).trans ?_
    rw [hc.free, hset, Set.mem_ofPred_eq, hframe, Option.some.injEq, or_assoc, eq_comm (a := f)]
    exact Iff.rfl

end PagingManager
end Nafuraito.Memory
