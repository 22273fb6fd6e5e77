import Nafuraito.Memory.CowRun

/-! What copy-on-write makes of a page that was mapped read-only. The CoW bit stands where
WRITABLE was or was not, so the page and its copies stay read-only only until a fault or an
unshare takes the bit away. -/
namespace Nafuraito.Memory
open Nafuraito.Library
open PhysicalMemoryManager (FreeIn)

inductive CowCall where
  | mark (v : VirtAddr)
  | share (src dst : VirtAddr)
  | clone (srcStart dstStart : VirtAddr) (size : BitVec 64)
  | fault (v : VirtAddr)
  | unshare (v : VirtAddr)

namespace CowCall
variable (m : PagingManager)

def run : CowCall → Machine.Op Unit
  | mark v => Machine.markCow v
  | share src dst => Machine.sharePageCow src dst
  | clone srcStart dstStart size => Machine.cloneRangeCow srcStart dstStart size
  | fault v => Machine.handleCowFault v
  | unshare v => Machine.unshareCowPage v

/-- The family after `src` was shared onto `dst`, if it was: copies of its pages belong to it,
and a page that became a copy of another does not. -/
def shareFamily (src dst : VirtAddr) (s : Machine) (F : Set m.Page) : Set m.Page := {k |
  (k = m.pageOf dst ∧ (Machine.sharePageCow src dst s).1 = .ok () ∧ m.pageOf src ∈ F) ∨
  (¬ (k = m.pageOf dst ∧ (Machine.sharePageCow src dst s).1 = .ok ()) ∧ k ∈ F)}

/-- The same for the rounds of a clone, up to the one that fails. -/
def cloneFamily (srcStart dstStart : VirtAddr) : Nat → Nat → Machine → Set m.Page → Set m.Page
  | _, 0, _, F => F
  | i, n+1, s, F => match Machine.clonePageCow srcStart dstStart i s with
    | (.ok (), t) => cloneFamily srcStart dstStart (i+1) n t
        (shareFamily m (srcStart.plus (i*4096)) (dstStart.plus (i*4096)) s F)
    | (.error _, _) => F

def family : CowCall → Machine → Set m.Page → Set m.Page
  | share src dst, s, F => shareFamily m src dst s F
  | clone srcStart dstStart size, s, F => cloneFamily m srcStart dstStart 0 (CowAction.pageCount size) s F
  | mark _, _, F | fault _, _, F | unshare _, _, F => F

/-- The address is not canonical or misaligned, or its page is not marked or, with a frame
counted more than once, there is no frame for a copy. -/
def Spared (v : VirtAddr) (s : Machine) : Prop :=
  v.isCanonical m.mode = true → v.pageOffset = 0 → ∀ e, m.entryOf s.mem (m.pageOf v) = some (0, e) →
    isCowPage (PageTableEntry.flags ⟨e⟩) = true →
      1 < s.frameCount (PageTableEntry.frame ⟨e⟩) ∧ ∀ f, ¬ FreeIn s.pmm f

/-- The condition of a call on the state before it: no address lies in a huge leaf, and a fault
or an unshare that comes to a marked page of the family cannot go through. -/
def Harmless (F : Set m.Page) : CowCall → Machine → Prop
  | mark v, s => m.NoHugeLeaf s.mem v
  | share src dst, s => m.NoHugeLeaf s.mem src ∧ m.NoHugeLeaf s.mem dst
  | clone srcStart dstStart size, s => ∀ i < CowAction.pageCount size,
      m.NoHugeLeaf s.mem (srcStart.plus (i*4096)) ∧ m.NoHugeLeaf s.mem (dstStart.plus (i*4096))
  | fault v, s | unshare v, s => m.NoHugeLeaf s.mem v ∧ (m.pageOf v ∈ F → Spared m v s)

end CowCall

namespace PagingManager
open Machine (physToFrameIndex getRefcount frameCount Counts)

variable {m : PagingManager} {E E' : m.Entries} {F F' : Set m.Page} {s s₀ t : Machine} {v : VirtAddr}

/-- `E'` differs from `E` in one page at most, which is not writable. -/
def Protects (E E' : m.Entries) (k : m.Page) : Prop :=
  E' = E ∨ ∃ e : BitVec 64, e.getLsbD 1 = false ∧ E' = Function.update E k (some (0, e))

/-- No page of the family is writable. -/
def ReadOnly (F : Set m.Page) (E : m.Entries) : Prop := ∀ k ∈ F, ∀ l e, E k = some (l, e) → e.getLsbD 1 = false

/-! ### Families -/

theorem Protects.small {k j : m.Page} (hp : Protects E E' k) (h : Small E j) : Small E' j := by
  obtain rfl | ⟨e, -, rfl⟩ := hp
  · exact h
  · exact small_update h

/-- The page that is written joins the family. -/
theorem readOnly_insert {k : m.Page} {e : BitVec 64} (he : e.getLsbD 1 = false) (h : ReadOnly F E) :
    ReadOnly (insert k F) (Function.update E k (some (0, e))) := by
  intro j hj l e' he'
  by_cases hjk : j = k
  · rw [hjk, Function.update_self] at he'
    obtain rfl := (Prod.mk.inj (Option.some.inj he')).2
    exact he
  · rw [Function.update_of_ne hjk] at he'
    exact h j (hj.resolve_left hjk) l e' he'

theorem Protects.readOnly {k : m.Page} (hp : Protects E E' k) (h : ReadOnly F E) : ReadOnly F E' := by
  obtain rfl | ⟨e, he, rfl⟩ := hp
  · exact h
  · exact fun j hj => readOnly_insert he h j (.inr hj)

theorem readOnly_update {k : m.Page} {e : BitVec 64} (hk : k ∉ F) (h : ReadOnly F E) :
    ReadOnly F (Function.update E k (some (0, e))) := by
  intro j hj
  have hjk : j ≠ k := fun he => hk (he ▸ hj)
  rw [Function.update_of_ne hjk]
  exact h j hj

/-! ### Marking and sharing -/

theorem Shows.counts (h : m.Shows s E) {f count : Nat} (hc : Counts s t f count) : m.Shows t E := by
  rw [hc.only]
  exact ⟨h.paging, h.wellFormed, h.used, h.entries⟩

theorem cow_present {e : PageTableEntry} (h : e.isPresent = true) : (cowFlags e.flags).raw.getLsbD 0 = true :=
  cowFlags_present (PageTableEntry.flags_present h)

theorem of_cowFlags {addr : BitVec 64} (e : PageTableEntry) :
    (PageTableEntry.of addr (cowFlags e.flags)).raw.getLsbD 1 = false :=
  (PageTableEntry.of_getLsbD (by decide)).trans (cowFlags_bits e.flags_flagBits).2.2

theorem incRefcount_shows (h : m.Shows s E) (p : PhysAddr) :
    ∃ c t, Machine.incRefcount p s = (.ok c, t) ∧ m.Shows t E := by
  rw [Machine.incRefcount]
  split
  · exact ⟨_, s, rfl, h⟩
  · exact ⟨_, _, rfl, h.counts (Machine.setRefcount_counts _ _)⟩

/-- `mark_cow` leaves its page read-only, or changes no entry. -/
theorem markCow_protects (h : m.Shows s E) (hv : Small E (m.pageOf v)) :
    ∃ E', m.Shows (Machine.markCow v s).2 E' ∧ Protects E E' (m.pageOf v) := by
  rw [Machine.markCow]
  rcases h.readers hv with ⟨e, he, hpr, -, htr, hfl⟩ | ⟨-, er, hfl⟩
  · rw [Fallible.bind_of_ok hfl, Fallible.bind_of_ok htr]
    obtain ⟨c, t, hinc, ht⟩ := incRefcount_shows h ⟨PageTableEntry.address ⟨e⟩ ||| v.pageOffset⟩
    rw [Fallible.bind_of_ok hinc]
    rcases ht.remapPage hv (cow_present hpr) with ⟨u, hrun, -, -, hu⟩ | ⟨er, hrun⟩ <;> rw [hrun]
    · exact ⟨_, hu, .inr ⟨_, of_cowFlags _, rfl⟩⟩
    · exact ⟨E, ht, .inl rfl⟩
  · rw [Fallible.bind_of_error hfl]
    exact ⟨E, h, .inl rfl⟩

/-- `share_page_cow` leaves its source read-only and, if it returns `Ok`, its destination, or
changes no entry. -/
theorem sharePageCow_protects {src dst : VirtAddr} (h : m.Shows s E) (hsrc : Small E (m.pageOf src))
    (hdst : Small E (m.pageOf dst)) : ∃ E₁ E₂, m.Shows (Machine.sharePageCow src dst s).2 E₂ ∧
      Protects E E₁ (m.pageOf src) ∧ Protects E₁ E₂ (m.pageOf dst) ∧
      ((Machine.sharePageCow src dst s).1 = .ok () →
        ∃ e : BitVec 64, e.getLsbD 1 = false ∧ E₂ = Function.update E₁ (m.pageOf dst) (some (0, e))) := by
  rw [Machine.sharePageCow]
  rcases h.readers hsrc with ⟨e, he, hpr, -, htr, hfl⟩ | ⟨⟨er, htr⟩, -⟩
  · rw [Fallible.bind_of_ok htr, Fallible.bind_of_ok hfl]
    rcases h.remapPage hsrc (cow_present hpr) with ⟨t, hrun, -, -, ht⟩ | ⟨er, hrun⟩
    · rw [Fallible.bind_of_ok hrun]
      have hfirst {p : BitVec 64} : Protects E (Function.update E (m.pageOf src)
          (some (0, (PageTableEntry.of p (cowFlags (PageTableEntry.flags ⟨e⟩))).raw))) (m.pageOf src) :=
        .inr ⟨_, of_cowFlags _, rfl⟩
      rcases ht.mapPage (small_update hdst) (cow_present hpr) with ⟨u, hrun', -, hu⟩ | ⟨er, u, hrun', -, hu⟩
      · rw [Fallible.bind_of_ok hrun']
        obtain ⟨c, w, hinc, hw⟩ := incRefcount_shows hu ⟨PageTableEntry.address ⟨e⟩ ||| src.pageOffset⟩
        rw [Fallible.bind_of_ok hinc]
        exact ⟨_, _, hw, hfirst, .inr ⟨_, of_cowFlags _, rfl⟩, fun _ => ⟨_, of_cowFlags _, rfl⟩⟩
      · rw [Fallible.bind_of_error hrun']
        exact ⟨_, _, hu, hfirst, .inl rfl, fun hok => by cases hok⟩
    · rw [Fallible.bind_of_error hrun]
      exact ⟨E, E, h, .inl rfl, .inl rfl, fun hok => by cases hok⟩
  · rw [Fallible.bind_of_error htr]
    exact ⟨E, E, h, .inl rfl, .inl rfl, fun hok => by cases hok⟩

/-- The family grows by the copies of its pages and stays read-only. -/
theorem sharePageCow_family {src dst : VirtAddr} (h : m.Shows s E) (hF : ReadOnly F E) (hsrc : Small E (m.pageOf src))
    (hdst : Small E (m.pageOf dst)) : ∃ E', m.Shows (Machine.sharePageCow src dst s).2 E' ∧
      ReadOnly F E' ∧ ReadOnly (CowCall.shareFamily m src dst s F) E' ∧ ∀ k, Small E k → Small E' k := by
  obtain ⟨E₁, E₂, hshows, h₁, h₂, hok⟩ := sharePageCow_protects h hsrc hdst
  refine ⟨E₂, hshows, h₂.readOnly (h₁.readOnly hF), fun k hk => ?_, fun k hk => h₂.small (h₁.small hk)⟩
  rcases hk with ⟨rfl, hrun, -⟩ | ⟨-, hk⟩
  · obtain ⟨e, he, rfl⟩ := hok hrun
    exact readOnly_insert he (h₁.readOnly hF) _ (.inl rfl)
  · exact h₂.readOnly (h₁.readOnly hF) k hk

/-! ### Cloning -/

private theorem cloneRounds_family {srcStart dstStart : VirtAddr} {n i : Nat} (h : m.Shows s E) (hF : ReadOnly F E)
    (hsmall : ∀ j, i ≤ j → j < i+n →
      Small E (m.pageOf (srcStart.plus (j*4096))) ∧ Small E (m.pageOf (dstStart.plus (j*4096)))) :
    ∃ E', m.Shows (Fallible.forRange (Machine.clonePageCow srcStart dstStart) i n s).2 E' ∧
      ReadOnly (CowCall.cloneFamily m srcStart dstStart i n s F) E' := by
  induction n generalizing i s E F with
  | zero => exact ⟨E, h, hF⟩
  | succ n ih =>
    obtain ⟨hsrc, hdst⟩ := hsmall i (Nat.le_refl i) (by omega)
    obtain ⟨E', hshows, hold, hnew, hkeep⟩ := sharePageCow_family h hF hsrc hdst
    rw [← clonePageCow_snd] at hshows
    rw [Fallible.forRange, CowCall.cloneFamily]
    rcases hrun : Machine.clonePageCow srcStart dstStart i s with ⟨er | _, t⟩ <;> rw [hrun] at hshows
    · rw [Fallible.bind_of_error hrun]
      exact ⟨E', hshows, hold⟩
    · rw [Fallible.bind_of_ok hrun]
      refine ih hshows hnew fun j hj hlt => ?_
      obtain ⟨h₁, h₂⟩ := hsmall j (by omega) (by omega)
      exact ⟨hkeep _ h₁, hkeep _ h₂⟩

/-! ### Faults -/

theorem of_ownedFlags {addr : BitVec 64} (e : PageTableEntry) :
    (PageTableEntry.of addr (ownedFlags e.flags)).raw.getLsbD 1 = true :=
  (PageTableEntry.of_getLsbD (by decide)).trans (ownedFlags_bits e.flags_flagBits).2.2

theorem owned_present {e : PageTableEntry} (h : e.isPresent = true) :
    (ownedFlags e.flags).raw.getLsbD 0 = true :=
  (ownedFlags_bits e.flags_flagBits).2.1.trans (PageTableEntry.flags_present h)

/-- What a fault and an unshare make of a marked page: they fail and change no entry, or the
address is aligned, its frame was counted once at most or a frame was free, and the page is writable. -/
inductive Breaks (m : PagingManager) (E : m.Entries) (v : VirtAddr) (e : BitVec 64) (s : Machine) :
    Except Stop Unit × Machine → Prop where
  | failed {er t} : m.Shows t E → Breaks m E v e s (.error er, t)
  | writable {t e'} : v.pageOffset = 0 →
      (s.frameCount (PageTableEntry.frame ⟨e⟩) ≤ 1 ∨ ∃ f, FreeIn s.pmm f) → e'.getLsbD 1 = true →
      m.Shows t (Function.update E (m.pageOf v) (some (0, e'))) → Breaks m E v e s (.ok (), t)

theorem pageOffset_of_aligned {e : PageTableEntry} (h : (PhysAddr.mk (e.address ||| v.pageOffset)).isAligned = true) :
    v.pageOffset = 0 := by
  rw [PhysAddr.isAligned_iff, (leaf_toNat e v).1] at h
  have hlt := (leaf_toNat e v).2
  rw [← BitVec.toNat_inj]
  exact (by omega : v.pageOffset.toNat = 0)

/-- Breaking the sharing of a page fails and changes no entry, or writes the entry back
writable, at the same frame or at a new one. -/
theorem breakSharing_entry (h : m.Shows s E) (hv : Small E (m.pageOf v)) {e : BitVec 64}
    (he : E (m.pageOf v) = some (0, e)) (message : String) :
    (∃ er t, Machine.breakSharing v (PageTableEntry.flags ⟨e⟩) message s = (.error er, t) ∧ m.Shows t E) ∨
    ∃ addr t, Machine.breakSharing v (PageTableEntry.flags ⟨e⟩) message s = (.ok (), t) ∧ v.pageOffset = 0 ∧
      (s.frameCount (PageTableEntry.frame ⟨e⟩) ≤ 1 ∨ ∃ f, FreeIn s.pmm f) ∧ m.Shows t (Function.update E (m.pageOf v)
        (some (0, (PageTableEntry.of addr (ownedFlags (PageTableEntry.flags ⟨e⟩))).raw))) := by
  rw [Machine.breakSharing]
  rcases h.readers hv with ⟨e', he', hpr, -, htr, -⟩ | ⟨⟨er, htr⟩, -⟩
  · obtain rfl := (Prod.mk.inj (Option.some.inj (he.symm.trans he'))).2
    have hcount : (getRefcount ⟨PageTableEntry.address ⟨e⟩ ||| v.pageOffset⟩ s).toNat =
        s.frameCount (PageTableEntry.frame ⟨e⟩) := by rw [Machine.getRefcount_toNat, physToFrameIndex_leaf]
    rw [Fallible.bind_of_ok htr, Fallible.get_bind_run]
    by_cases hle : getRefcount ⟨PageTableEntry.address ⟨e⟩ ||| v.pageOffset⟩ s ≤ 1
    · rw [if_pos hle]
      rw [BitVec.le_def, hcount] at hle
      obtain ⟨c, t, count, hdec, hc, -⟩ :=
        Machine.decRefcount_counts (s := s) ⟨PageTableEntry.address ⟨e⟩ ||| v.pageOffset⟩
      rw [Fallible.bind_of_ok hdec]
      rcases (h.counts hc).remapPage hv (owned_present hpr) with ⟨u, hrun, hal, -, hu⟩ | ⟨er, hrun⟩ <;> rw [hrun]
      · exact .inr ⟨_, u, rfl, pageOffset_of_aligned hal, .inl hle, hu⟩
      · exact .inl ⟨er, t, rfl, h.counts hc⟩
    · rw [if_neg hle]
      rw [BitVec.le_def, hcount, show (1 : BitVec 32).toNat = 1 from rfl, Nat.not_le] at hle
      obtain ⟨p, hfree, ⟨n, halloc, hn, hused⟩ | ⟨er, halloc⟩⟩ := Machine.allocCowFrame_run message s
      · have hn52 : n < 2^52 := by
          obtain ⟨q, -, hq⟩ := hn
          exact Nat.lt_of_lt_of_le hq.1 (Nat.le_trans q.total_le (by decide))
        have hidx : physToFrameIndex ⟨BitVec.ofNat 64 (n*4096)⟩ = n := by
          rw [physToFrameIndex, BitVec.toNat_ofNat]
          omega
        rw [Fallible.bind_of_ok halloc]
        rcases copyPage_run ⟨PageTableEntry.address ⟨e⟩ ||| v.pageOffset⟩ ⟨BitVec.ofNat 64 (n*4096)⟩
          { s with pmm := p } with ⟨hal, hcopy⟩ | ⟨er, hcopy⟩
        · rw [Fallible.bind_of_ok hcopy, hidx]
          have hfill := h.relinked (fill_relinked h.wellFormed h.used hfree hn
            (s.mem (physToFrameIndex ⟨PageTableEntry.address ⟨e⟩ ||| v.pageOffset⟩))).1
          rw [h.entries] at hfill
          rcases hfill.remapPage hv (owned_present hpr) with ⟨t, hrun, -, hrc, ht⟩ | ⟨er, hrun⟩
          · obtain ⟨c, t₁, count, hdec, hc, hdown⟩ :=
              Machine.decRefcount_counts (s := t) ⟨PageTableEntry.address ⟨e⟩ ||| v.pageOffset⟩
            have hsame : t.frameCount (PageTableEntry.frame ⟨e⟩) = s.frameCount (PageTableEntry.frame ⟨e⟩) := by
              simp only [frameCount, hrc]
              rfl
            rw [physToFrameIndex_leaf, hsame] at hdown
            rw [Fallible.bind_of_ok hrun, Fallible.bind_of_ok hdec, if_neg (hdown hle).1]
            exact .inr ⟨_, _, rfl, pageOffset_of_aligned hal, .inr ⟨n, hn⟩,
              (ht.counts hc).counts (Machine.setRefcount_counts _ _)⟩
          · rw [Fallible.bind_of_error hrun]
            exact .inl ⟨_, _, rfl, hfill⟩
        · rw [Fallible.bind_of_error hcopy]
          exact .inl ⟨_, _, rfl, h.taken hfree⟩
      · rw [Fallible.bind_of_error halloc]
        exact .inl ⟨_, _, rfl, h.taken hfree⟩
  · rw [Fallible.bind_of_error htr]
    exact .inl ⟨_, _, rfl, h⟩

theorem breakSharing_breaks (h : m.Shows s E) (hv : Small E (m.pageOf v)) {e : BitVec 64}
    (he : E (m.pageOf v) = some (0, e)) (message : String) :
    Breaks m E v e s (Machine.breakSharing v (PageTableEntry.flags ⟨e⟩) message s) := by
  rcases breakSharing_entry h hv he message with ⟨er, t, hrun, ht⟩ | ⟨addr, t, hrun, hoff, hpossible, ht⟩ <;> rw [hrun]
  · exact .failed ht
  · exact .writable hoff hpossible (of_ownedFlags _) ht

/-- A fault that returns `Ok` made its page writable. -/
theorem handleCowFault_writable (h : m.Shows s E) (hv : Small E (m.pageOf v))
    (hrun : Machine.handleCowFault v s = (.ok (), t)) :
    ∃ e : BitVec 64, e.getLsbD 1 = true ∧ m.Shows t (Function.update E (m.pageOf v) (some (0, e))) := by
  rw [Machine.handleCowFault] at hrun
  rcases h.readers hv with ⟨e, he, -, -, -, hfl⟩ | ⟨-, er, hfl⟩
  · rw [Fallible.bind_of_ok hfl] at hrun
    by_cases hcow : isCowPage (PageTableEntry.flags ⟨e⟩) = true
    · rw [Fallible.bind_of_ok (Fallible.require_run_pos _ hcow s)] at hrun
      have hb := breakSharing_breaks h hv he "Failed to allocate frame for CoW"
      rw [hrun] at hb
      cases hb with
      | writable _ _ hw ht => exact ⟨_, hw, ht⟩
    · rw [Fallible.bind_of_error (Fallible.require_run_neg _ hcow s)] at hrun
      cases hrun
  · rw [Fallible.bind_of_error hfl] at hrun
    cases hrun

private theorem Breaks.family {e : BitVec 64} {r : Except Stop Unit × Machine} (hb : Breaks m E v e s r)
    (hs : m.entryOf s.mem = E) (he : E (m.pageOf v) = some (0, e)) (hcan : v.isCanonical m.mode = true)
    (hcow : isCowPage (PageTableEntry.flags ⟨e⟩) = true) (hF : ReadOnly F E)
    (hspared : m.pageOf v ∈ F → CowCall.Spared m v s) : ∃ E', m.Shows r.2 E' ∧ ReadOnly F E' := by
  cases hb with
  | failed ht => exact ⟨E, ht, hF⟩
  | writable hal hpossible _ ht =>
    refine ⟨_, ht, readOnly_update (fun hk => ?_) hF⟩
    obtain ⟨hcount, hnone⟩ := hspared hk hcan hal e (by rw [hs, he]) hcow
    obtain hle | ⟨f, hf⟩ := hpossible
    · omega
    · exact hnone f hf

theorem handleCowFault_family (h : m.Shows s E) (hF : ReadOnly F E) (hv : Small E (m.pageOf v))
    (hspared : m.pageOf v ∈ F → CowCall.Spared m v s) :
    ∃ E', m.Shows (Machine.handleCowFault v s).2 E' ∧ ReadOnly F E' := by
  rw [Machine.handleCowFault]
  rcases h.readers hv with ⟨e, he, -, hcan, -, hfl⟩ | ⟨-, er, hfl⟩
  · rw [Fallible.bind_of_ok hfl]
    by_cases hcow : isCowPage (PageTableEntry.flags ⟨e⟩) = true
    · rw [Fallible.bind_of_ok (Fallible.require_run_pos _ hcow s)]
      exact (breakSharing_breaks h hv he _).family h.entries he hcan hcow hF hspared
    · rw [Fallible.bind_of_error (Fallible.require_run_neg _ hcow s)]
      exact ⟨E, h, hF⟩
  · rw [Fallible.bind_of_error hfl]
    exact ⟨E, h, hF⟩

theorem unshareCowPage_family (h : m.Shows s E) (hF : ReadOnly F E) (hv : Small E (m.pageOf v))
    (hspared : m.pageOf v ∈ F → CowCall.Spared m v s) :
    ∃ E', m.Shows (Machine.unshareCowPage v s).2 E' ∧ ReadOnly F E' := by
  rw [Machine.unshareCowPage]
  rcases h.readers hv with ⟨e, he, -, hcan, -, hfl⟩ | ⟨-, er, hfl⟩
  · rw [Fallible.bind_of_ok hfl]
    cases hcow : isCowPage (PageTableEntry.flags ⟨e⟩) with
    | false => exact ⟨E, h, hF⟩
    | true => exact (breakSharing_breaks h hv he _).family h.entries he hcan hcow hF hspared
  · rw [Fallible.bind_of_error hfl]
    exact ⟨E, h, hF⟩

/-! ### Runs -/

/-- The machines reached from `s₀` by harmless calls, each returning anything, with the family
that the pages `F₀` have become. -/
inductive FamilyRun (m : PagingManager) (F₀ : Set m.Page) (s₀ : Machine) : Set m.Page → Machine → Prop where
  | start : FamilyRun m F₀ s₀ F₀ s₀
  | step {F : Set m.Page} {s : Machine} (c : CowCall) : FamilyRun m F₀ s₀ F s → c.Harmless m F s →
      FamilyRun m F₀ s₀ (c.family m s F) (c.run s).2

theorem call_family (c : CowCall) (h : m.Shows s E) (hF : ReadOnly F E) (hc : c.Harmless m F s) :
    ∃ E', m.Shows (c.run s).2 E' ∧ ReadOnly (c.family m s F) E' := by
  have hsmall {w : VirtAddr} (hw : m.NoHugeLeaf s.mem w) : Small E (m.pageOf w) := by
    intro l e he
    rw [← h.entries, ← leaf_eq_entryOf] at he
    exact hw l e he
  cases c with
  | mark v =>
    obtain ⟨E', ht, hp⟩ := markCow_protects h (hsmall hc)
    exact ⟨E', ht, hp.readOnly hF⟩
  | share src dst =>
    obtain ⟨E', ht, -, hnew, -⟩ := sharePageCow_family h hF (hsmall hc.1) (hsmall hc.2)
    exact ⟨E', ht, hnew⟩
  | clone srcStart dstStart size =>
    refine cloneRounds_family h hF fun j _ hj => ?_
    obtain ⟨h₁, h₂⟩ := hc j (by rwa [Nat.zero_add] at hj)
    exact ⟨hsmall h₁, hsmall h₂⟩
  | fault v => exact handleCowFault_family h hF (hsmall hc.1) hc.2
  | unshare v => exact unshareCowPage_family h hF (hsmall hc.1) hc.2

theorem FamilyRun.shows (hr : FamilyRun m F s₀ F' s) (h : m.Shows s₀ E) (hF : ReadOnly F E) :
    ∃ E', m.Shows s E' ∧ ReadOnly F' E' := by
  induction hr with
  | start => exact ⟨E, h, hF⟩
  | step c _ hc ih =>
    obtain ⟨E', hE', hF'⟩ := ih
    exact call_family c hE' hF' hc

/-- Mapped by a page table without WRITABLE and without the CoW bit. -/
def MappedReadOnly (m : PagingManager) (s : Machine) (k : m.Page) : Prop := ∃ e, m.entryOf s.mem k = some (0, e) ∧
  (PageTableEntry.flags ⟨e⟩).contains PageTableFlags.WRITABLE = false ∧ isCowPage (PageTableEntry.flags ⟨e⟩) = false

theorem flags_writable (e : BitVec 64) :
    (PageTableEntry.flags ⟨e⟩).contains PageTableFlags.WRITABLE = e.getLsbD 1 := by
  rw [contains_writable, PageTableEntry.flags, Words.getLsbD_and_mask offsetMask_bits]
  exact Bool.and_true _

/-- Pages mapped read-only, and what is shared from them, never get the WRITABLE bit in a run in
which no fault and no unshare that can go through comes to one that is marked. -/
theorem familyRun_readOnly (hm : s₀.paging = some m) (hwf : m.WellFormed s₀.mem) (hu : m.TablesUsed s₀)
    (hstart : ∀ k ∈ F, m.MappedReadOnly s₀ k) (hr : FamilyRun m F s₀ F' s) {k : m.Page} (hk : k ∈ F') {l : Nat}
    {e : BitVec 64} (he : m.entryOf s.mem k = some (l, e)) :
    (PageTableEntry.flags ⟨e⟩).contains PageTableFlags.WRITABLE = false := by
  have hF : ReadOnly F (m.entryOf s₀.mem) := by
    intro k hk l e he
    obtain ⟨e', he', hw, -⟩ := hstart k hk
    obtain rfl := (Prod.mk.inj (Option.some.inj (he.symm.trans he'))).2
    rwa [flags_writable] at hw
  obtain ⟨E', h, hE'⟩ := hr.shows ⟨hm, hwf, hu, rfl⟩ hF
  rw [flags_writable]
  exact hE' k hk l e (by rw [← h.entries, he])

/-! ### A small machine with a read-only page -/

/-- The page at 4 MiB is mapped to frame 9, present and nothing else. -/
def readOnlyMachine : Machine := (Machine.mapPage ⟨0x400000#64⟩ ⟨0x9000#64⟩ ⟨1#64⟩ (unmappedMachine 0)).2

private theorem readOnlyMachine_shows : smallPaging.Shows readOnlyMachine (Function.update (fun _ => none)
    (smallPaging.pageOf ⟨0x400000#64⟩) (some (0, 0x9001#64))) := by
  have h : smallPaging.Shows (unmappedMachine 0) fun _ => none := by
    obtain ⟨hm, hwf, hu, -, -, -⟩ := unmapped_pages 0
    exact ⟨hm, hwf, hu, funext (unmapped_entry 0)⟩
  have hok : (Machine.mapPage ⟨0x400000#64⟩ ⟨0x9000#64⟩ ⟨1#64⟩ (unmappedMachine 0)).1 = .ok () := by decide +kernel
  have hpresent : (PageTableFlags.mk 1#64).raw.getLsbD 0 = true := by decide
  rcases h.mapPage (v := ⟨0x400000#64⟩) (p := ⟨0x9000#64⟩) nofun hpresent with
    ⟨t, hrun, -, ht⟩ | ⟨er, t, hrun, -⟩
  · rw [readOnlyMachine, hrun]
    exact ht
  · rw [hrun] at hok
    cases hok

private theorem readOnlyMachine_mapped :
    smallPaging.MappedReadOnly readOnlyMachine (smallPaging.pageOf ⟨0x400000#64⟩) :=
  ⟨0x9001#64, by rw [readOnlyMachine_shows.entries, Function.update_self], by decide, by decide⟩

/-- The page is shared, and the copy is read-only. -/
theorem familyRun_readOnly_shared : ¬ ∃ l e,
    smallPaging.entryOf (Machine.sharePageCow ⟨0x400000#64⟩ ⟨0x401000#64⟩ readOnlyMachine).2.mem
      (smallPaging.pageOf ⟨0x401000#64⟩) = some (l, e) ∧
    (PageTableEntry.flags ⟨e⟩).contains PageTableFlags.WRITABLE = true := by
  rintro ⟨l, e, he, hw⟩
  have hsmall (v : VirtAddr) : smallPaging.NoHugeLeaf readOnlyMachine.mem v := by
    refine readOnlyMachine_shows.noHugeLeaf (small_update ?_)
    exact nofun
  refine Bool.eq_false_iff.mp (familyRun_readOnly (F := {smallPaging.pageOf ⟨0x400000#64⟩}) readOnlyMachine_shows.paging
    readOnlyMachine_shows.wellFormed readOnlyMachine_shows.used ?_
    (.step (.share ⟨0x400000#64⟩ ⟨0x401000#64⟩) .start ⟨hsmall _, hsmall _⟩) ?_ he) hw
  · rintro _ rfl
    exact readOnlyMachine_mapped
  · exact .inl ⟨rfl, by decide +kernel, rfl⟩

/-- After the page is marked, a write fault makes it writable. -/
theorem marked_becomes_writable :
    smallPaging.WellFormed readOnlyMachine.mem ∧ smallPaging.TablesUsed readOnlyMachine ∧
    smallPaging.MappedReadOnly readOnlyMachine (smallPaging.pageOf ⟨0x400000#64⟩) ∧
    (Machine.markCow ⟨0x400000#64⟩ readOnlyMachine).1 = .ok () ∧
    (Machine.handleCowFault ⟨0x400000#64⟩ (Machine.markCow ⟨0x400000#64⟩ readOnlyMachine).2).1 = .ok () ∧
    (Machine.getPageFlags ⟨0x400000#64⟩ (Machine.handleCowFault ⟨0x400000#64⟩
      (Machine.markCow ⟨0x400000#64⟩ readOnlyMachine).2).2).1.map (·.contains PageTableFlags.WRITABLE) = .ok true :=
  ⟨readOnlyMachine_shows.wellFormed, readOnlyMachine_shows.used, readOnlyMachine_mapped, by decide +kernel,
    by decide +kernel, by decide +kernel⟩

end PagingManager
end Nafuraito.Memory
