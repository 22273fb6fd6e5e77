import Nafuraito.Memory.FaultOffset
import Nafuraito.Memory.MapFailure

/-! What failing copy-on-write calls leave behind. A count changed before a remap that is refused,
a frame taken for a copy that is not made and a source marked for a sharing that fails stay so. -/
namespace Nafuraito.Memory
open Nafuraito.Library
open PhysicalMemoryManager (FreeIn)
open PagingManager (WalkEnd walkEnd walkEndOf)

namespace Machine
variable {s t : Machine} {v src dst : VirtAddr} {phys : PhysAddr} {flags : PageTableFlags} {m : PagingManager}

/-- The counts, the leaf entries and the used frames are the same. -/
structure Untouched (s t : Machine) : Prop where
  counts : ∀ f, t.frameCount f = s.frameCount f
  leaves : ∀ m, s.paging = some m → ∀ idx, m.lookup t.mem idx = m.lookup s.mem idx
  free : ∀ f, FreeIn t.pmm f ↔ FreeIn s.pmm f

theorem Untouched.refl (s : Machine) : Untouched s s := ⟨fun _ => rfl, fun _ _ _ => rfl, fun _ => Iff.rfl⟩

/-- Where the call returns `Err` it has left them as they were. -/
def Atomic (op : Op Unit) (s : Machine) : Prop := ∀ message t, op s = (.error (.err message), t) → Untouched s t

theorem Atomic.congr {x y : Op Unit} (h : x s = y s) : Atomic x s ↔ Atomic y s := by
  rw [Atomic, Atomic, h]

theorem atomic_of_error {x : Op Unit} {e : Stop} (h : x s = (.error e, s)) : Atomic x s := by
  intro message t ht
  obtain rfl := (Prod.mk.inj (h.symm.trans ht)).2
  exact .refl s

theorem atomic_of_ok {x : Op Unit} (h : x s = (.ok (), t)) : Atomic x s := by
  intro message u hu
  cases h.symm.trans hu

theorem atomic_of_crash {x : Op Unit} (h : x s = (.error .crash, t)) : Atomic x s := by
  intro message u hu
  cases h.symm.trans hu

theorem atomic_iff_of_err {x : Op Unit} {message : String} (h : x s = (.error (.err message), t)) :
    Atomic x s ↔ Untouched s t := by
  refine ⟨fun ha => ha message t h, fun hu message' u hu' => ?_⟩
  obtain rfl := (Prod.mk.inj (h.symm.trans hu')).2
  exact hu

/-! ### When `remap_page` is refused -/

/-- The walk of `remap_page`, which takes huge leaves for links, comes to an absent entry. -/
def Unreached (s : Machine) (v : VirtAddr) : Prop := ∃ m, s.paging = some m ∧ match m.walkEndOf s.mem v with
  | .null => False
  | .absent _ _ => True
  | .pageTable _ pt => PageTableEntry.isPresent ⟨s.mem pt (v.index 0)⟩ = false

/-- A remap of the page to the frame it is mapped to goes through. -/
def Remappable (s : Machine) (v : VirtAddr) : Prop := v.pageOffset = 0 ∧ ¬ Unreached s v

theorem unreached_congr (hp : t.paging = s.paging) (hmem : t.mem = s.mem) : Unreached t v ↔ Unreached s v := by
  rw [Unreached, Unreached, hp, hmem]

theorem leafAddress_aligned (v : VirtAddr) (k : Nat) (e : PageTableEntry) :
    (leafAddress v k e).isAligned = true ↔ v.pageOffset = 0 := by
  rw [PhysAddr.isAligned, leafAddress_offset, beq_iff_eq]

/-- `remap_page` returns `Err` exactly on frames that are not aligned and pages it does not
reach. Else it writes the entry its walk ends at, or goes through a null pointer. -/
theorem remapPage_result (hm : s.paging = some m) (v : VirtAddr) (phys : PhysAddr) (flags : PageTableFlags) :
    ((phys.isAligned = true → Unreached s v) ∧ ∃ message, remapPage v phys flags s = (.error (.err message), s)) ∨
    (phys.isAligned = true ∧ ¬ Unreached s v ∧ (remapPage v phys flags s = (.error .crash, s) ∨
      ∃ pd pt, m.walkEndOf s.mem v = .pageTable pd pt ∧ remapPage v phys flags s =
        (.ok (), (s.setWord pt (v.index 0) (PageTableEntry.of phys.addr flags).raw).addLog (.invlpg v.addr)))) := by
  have hunreached : Unreached s v ↔ match m.walkEndOf s.mem v with
      | .null => False
      | .absent _ _ => True
      | .pageTable _ pt => PageTableEntry.isPresent ⟨s.mem pt (v.index 0)⟩ = false := by
    rw [Unreached, hm]
    simp only [Option.some.injEq, exists_eq_left']
  rw [remapPage, Fallible.bind_of_ok (getPagingManager_run hm)]
  by_cases hp : phys.isAligned = true
  · rw [Fallible.bind_of_ok (Fallible.require_run_pos _ hp s), remapLevels_eq, hunreached, walkEndOf]
    have hend := PagingManager.remapWalk_end (s := s) (v := v) phys flags 0 m.mode.top m.rootTablePhys
    generalize walkEnd s.mem v 0 m.mode.top m.rootTablePhys = w at hend ⊢
    cases w with
    | null => exact .inr ⟨hp, id, .inl (Fallible.bind_of_error hend)⟩
    | absent k f => exact .inl ⟨fun _ => trivial, _, Fallible.bind_of_error hend⟩
    | pageTable pd pt =>
      dsimp only at hend ⊢
      cases hpr : PageTableEntry.isPresent ⟨s.mem pt (v.index 0)⟩ with
      | true =>
        rw [if_pos hpr] at hend
        exact .inr ⟨hp, Bool.noConfusion, .inr ⟨pd, pt, rfl, Fallible.bind_of_ok hend⟩⟩
      | false =>
        rw [if_neg (by simp [hpr])] at hend
        exact .inl ⟨fun _ => rfl, _, Fallible.bind_of_error hend⟩
  · rw [Fallible.bind_of_error (Fallible.require_run_neg _ hp s)]
    exact .inl ⟨fun h => absurd h hp, _, rfl⟩

/-! ### A count changed before a remap -/

/-- After a call that changes the count of a frame that has one, the remap must go through. -/
private theorem recount_atomic_iff {α : Type} {x : Op α} {a : α} (hm : s.paging = some m) (hx : x s = (.ok a, t))
    (honly : t = { s with refcounts := t.refcounts })
    (hchanged : physToFrameIndex phys < MAX_FRAMES →
      t.frameCount (physToFrameIndex phys) ≠ s.frameCount (physToFrameIndex phys))
    (hsame : ¬ physToFrameIndex phys < MAX_FRAMES → t = s) (hphys : phys.isAligned = true ↔ v.pageOffset = 0) :
    Atomic (x >>= fun _ => remapPage v phys flags) s ↔ (physToFrameIndex phys < MAX_FRAMES → Remappable s v) := by
  have hmt : t.paging = some m := by rwa [honly]
  have hreach : Unreached t v ↔ Unreached s v := unreached_congr (by rw [honly]) (by rw [honly])
  have hrun : (x >>= fun _ => remapPage v phys flags) s = remapPage v phys flags t := Fallible.bind_of_ok hx
  rw [Remappable, ← hphys, ← hreach]
  rcases remapPage_result hmt v phys flags with ⟨hrefused, message, he⟩ | ⟨hp, hn, he | ⟨pd, pt, -, he⟩⟩
  · rw [atomic_iff_of_err (hrun.trans he)]
    by_cases hf : physToFrameIndex phys < MAX_FRAMES
    · exact iff_of_false (fun h => hchanged hf (h.counts _)) fun h => (h hf).2 (hrefused (h hf).1)
    · rw [hsame hf]
      exact iff_of_true (.refl s) fun h => absurd h hf
  · exact iff_of_true (atomic_of_crash (hrun.trans he)) fun _ => ⟨hp, hn⟩
  · exact iff_of_true (atomic_of_ok (hrun.trans he)) fun _ => ⟨hp, hn⟩

private theorem setRefcount_changes {count : BitVec 32} (hcount : count ≠ getRefcount phys s)
    (hf : physToFrameIndex phys < MAX_FRAMES) :
    (setRefcount phys count s).frameCount (physToFrameIndex phys) ≠ s.frameCount (physToFrameIndex phys) := by
  rw [(setRefcount_counts (s := s) phys count).count hf, ← getRefcount_toNat]
  exact fun h => hcount (BitVec.eq_of_toNat_eq h)

private theorem setRefcount_only (phys : PhysAddr) (count : BitVec 32) (s : Machine) :
    setRefcount phys count s = { s with refcounts := (setRefcount phys count s).refcounts } :=
  (setRefcount_counts (s := s) phys count).only

/-! ### `mark_cow` -/

/-- The page is mapped to a frame without a count, or its remap goes through. -/
def MarkSafe (v : VirtAddr) (s : Machine) : Prop := ∀ phys, (translateAddress v s).1 = .ok phys →
  physToFrameIndex phys < MAX_FRAMES → Remappable s v

theorem markCow_atomic_iff (v : VirtAddr) (s : Machine) : Atomic (markCow v) s ↔ MarkSafe v s := by
  obtain ⟨r, hr, hleaf⟩ := readers_page v s
  obtain ⟨hflags, htranslate⟩ := hr v rfl
  rw [MarkSafe, htranslate]
  cases r with
  | error e => exact iff_of_true (atomic_of_error (Fallible.bind_of_error hflags)) fun phys h => by cases h
  | ok x =>
    obtain ⟨k, e⟩ := x
    obtain ⟨m, hm, -⟩ := hleaf k e rfl
    have hrun : markCow v s = (incRefcount (leafAddress v k e) >>= fun _ =>
        remapPage v (leafAddress v k e) (cowFlags e.flags)) s := by
      rw [markCow, Fallible.bind_of_ok hflags, Fallible.bind_of_ok htranslate]
    have hone : getRefcount (leafAddress v k e) s + 1 ≠ getRefcount (leafAddress v k e) s := by
      simp
    have hinc : ∃ c t, incRefcount (leafAddress v k e) s = (.ok c, t) ∧ t = { s with refcounts := t.refcounts } ∧
        (physToFrameIndex (leafAddress v k e) < MAX_FRAMES → t.frameCount (physToFrameIndex (leafAddress v k e)) ≠
          s.frameCount (physToFrameIndex (leafAddress v k e))) ∧
        (¬ physToFrameIndex (leafAddress v k e) < MAX_FRAMES → t = s) := by
      rw [incRefcount]
      split
      · exact ⟨_, s, rfl, rfl, fun h => by omega, fun _ => rfl⟩
      · exact ⟨_, _, rfl, setRefcount_only _ _ s, setRefcount_changes hone, fun h => by omega⟩
    obtain ⟨c, t, hinc, honly, hchanged, hsame⟩ := hinc
    rw [Atomic.congr hrun, recount_atomic_iff hm hinc honly hchanged hsame (leafAddress_aligned v k e)]
    constructor
    · intro h phys hphys
      obtain rfl := Except.ok.inj hphys
      exact h
    · exact fun h => h _ rfl

/-! ### `handle_cow_fault` and `unshare_cow_page` -/

private theorem allocFrame_took {addr : Nat} (h : allocFrame s = (.ok addr, t)) :
    t = { s with pmm := t.pmm } ∧ addr/4096*4096 = addr ∧ FreeIn s.pmm (addr/4096) ∧ ¬ FreeIn t.pmm (addr/4096) := by
  cases hp : s.pmm with
  | none =>
    simp only [allocFrame, hp] at h
    cases h
  | some q =>
    simp only [allocFrame, hp] at h
    obtain ⟨hq, rfl⟩ := Prod.mk.inj h
    obtain ⟨f, rfl, hf, _, ht⟩ := PhysicalMemoryManager.allocFrame_ok (Fallible.run_of_fst hq)
    rw [Nat.mul_div_cancel f (by decide)]
    refine ⟨rfl, rfl, PhysicalMemoryManager.freeIn_some.mpr hf, ?_⟩
    rw [ht, PhysicalMemoryManager.freeIn_some]
    rintro ⟨_, hbit⟩
    rw [PhysicalMemoryManager.test_taking, decide_eq_true rfl, Bool.true_or] at hbit
    cases hbit

private theorem allocFrame_failed {e : MemoryError} (h : allocFrame s = (.error e, t)) : t = s := by
  cases hp : s.pmm with
  | none =>
    simp only [allocFrame, hp] at h
    exact (Prod.mk.inj h).2.symm
  | some q =>
    simp only [allocFrame, hp] at h
    obtain ⟨hq, rfl⟩ := Prod.mk.inj h
    rw [PhysicalMemoryManager.allocFrame_error (Fallible.run_of_fst hq), ← hp]

/-- A frame that was taken and is neither mapped nor given back. -/
private theorem not_untouched {f : Nat} (hf : FreeIn s.pmm f) (hn : ¬ FreeIn t.pmm f) : ¬ Untouched s t :=
  fun h => hn ((h.free f).mpr hf)

/-- What is left to do for a page that has been copied. -/
private def settle (v : VirtAddr) (old : PhysAddr) (flags : PageTableFlags) (new : PhysAddr) : Op Unit := do
  remapPage v new flags
  let newRefcount ← decRefcount old
  if newRefcount = 0 then
    ignore (freeFrame old.addr.toNat)
  Fallible.modify (setRefcount new 1)

/-- It fails in the remap if at all. -/
private theorem settle_result (hm : s.paging = some m) {new : PhysAddr} (hnew : new.isAligned = true)
    (v : VirtAddr) (old : PhysAddr) (flags : PageTableFlags) :
    (Unreached s v ∧ ∃ message, settle v old flags new s = (.error (.err message), s)) ∨
    (¬ Unreached s v ∧
      ((∃ t, settle v old flags new s = (.ok (), t)) ∨ ∃ t, settle v old flags new s = (.error .crash, t))) := by
  rcases remapPage_result hm v new flags with ⟨hrefused, message, he⟩ | ⟨-, hn, he | ⟨pd, pt, -, he⟩⟩
  · exact .inl ⟨hrefused hnew, message, Fallible.bind_of_error he⟩
  · exact .inr ⟨hn, .inr ⟨_, Fallible.bind_of_error he⟩⟩
  · refine .inr ⟨hn, .inl ?_⟩
    rw [settle, Fallible.bind_of_ok he]
    obtain ⟨c, u, _, hdec, -⟩ := decRefcount_counts
      (s := (s.setWord pt (v.index 0) (PageTableEntry.of new.addr flags).raw).addLog (.invlpg v.addr)) old
    rw [Fallible.bind_of_ok hdec]
    split <;> exact ⟨_, rfl⟩

/-- A page that is moved to a copy loses the copy's frame where the copy or the remap is refused. -/
private theorem move_atomic_iff (hm : s.paging = some m) (hphys : phys.isAligned = true ↔ v.pageOffset = 0)
    (flags : PageTableFlags) (message : String) :
    Atomic (allocCowFrame message >>= fun new => copyPage phys new >>= fun _ => settle v phys flags new) s ↔
      ∀ addr, (allocFrame s).1 = .ok addr →
        addr ≠ 0 ∧ Remappable (s.setFrame (addr/4096) (s.mem (physToFrameIndex phys))) v := by
  rcases halloc : allocFrame s with ⟨e | addr, t⟩
  · have hrun : allocCowFrame message s = (.error (.err message), t) := by rw [allocCowFrame, halloc]
    rw [allocFrame_failed halloc] at hrun
    exact iff_of_true (atomic_of_error (Fallible.bind_of_error hrun)) fun addr h => by cases h
  obtain ⟨honly, hmul, hfree, hused⟩ := allocFrame_took halloc
  by_cases h₀ : addr = 0
  · have hrun : allocCowFrame message s = (.error (.err message), t) := by
      rw [allocCowFrame, halloc]
      exact if_pos h₀
    rw [atomic_iff_of_err (Fallible.bind_of_error hrun)]
    exact iff_of_false (not_untouched hfree hused) fun h => (h addr rfl).1 h₀
  have hrun : allocCowFrame message s = (.ok ⟨BitVec.ofNat 64 addr⟩, t) := by
    rw [allocCowFrame, halloc]
    exact if_neg h₀
  have hlt := PhysicalMemoryManager.freeIn_lt hfree
  have hnat : (BitVec.ofNat 64 addr).toNat = addr := by
    rw [BitVec.toNat_ofNat]
    omega
  have hnew : (PhysAddr.mk (BitVec.ofNat 64 addr)).isAligned = true := by
    rw [PhysAddr.isAligned_iff, hnat]
    omega
  by_cases hp : phys.isAligned = true
  · -- the copy is made, and the frame is lost where the remap is refused
    let c := t.setFrame (addr/4096) (t.mem (physToFrameIndex phys))
    have hcopy : copyPage phys ⟨BitVec.ofNat 64 addr⟩ t = (.ok (), c) := by
      rw [copyPage, Fallible.bind_of_ok (Fallible.require_run_pos _ ⟨hp, hnew⟩ t), physToFrameIndex, hnat]
      rfl
    have hmc : c.paging = some m := by
      change t.paging = some m
      rwa [honly]
    have hreach : Unreached (s.setFrame (addr/4096) (s.mem (physToFrameIndex phys))) v ↔ Unreached c v :=
      unreached_congr (congrArg Machine.paging honly).symm (by
        change (s.setFrame _ _).mem = (t.setFrame _ _).mem
        rw [honly]
        rfl)
    have hgoal : (∀ a, (Except.ok addr : Except MemoryError Nat) = .ok a → a ≠ 0 ∧
        Remappable (s.setFrame (a/4096) (s.mem (physToFrameIndex phys))) v) ↔ ¬ Unreached c v := by
      rw [← hreach]
      constructor
      · exact fun h => (h addr rfl).2.2
      · intro h a ha
        obtain rfl := Except.ok.inj ha
        exact ⟨h₀, hphys.mp hp, h⟩
    have hmove := (Fallible.bind_of_ok (f := fun new => copyPage phys new >>= fun _ => settle v phys flags new)
        hrun).trans
      (Fallible.bind_of_ok hcopy)
    rw [hgoal]
    rcases settle_result hmc hnew v phys flags with ⟨hun, message', he⟩ | ⟨hun, ⟨u, he⟩ | ⟨u, he⟩⟩
    · rw [atomic_iff_of_err (hmove.trans he)]
      exact iff_of_false (not_untouched hfree hused) fun h => h hun
    · exact iff_of_true (atomic_of_ok (hmove.trans he)) hun
    · exact iff_of_true (atomic_of_crash (hmove.trans he)) hun
  · have hfail : copyPage phys ⟨BitVec.ofNat 64 addr⟩ t =
        (.error (.err "Physical addresses must be page-aligned"), t) := by
      rw [copyPage, Fallible.bind_of_error (Fallible.require_run_neg _ (fun h => hp h.1) t)]
    rw [atomic_iff_of_err ((Fallible.bind_of_ok hrun).trans (Fallible.bind_of_error hfail))]
    exact iff_of_false (not_untouched hfree hused) fun h => hp (hphys.mpr (h addr rfl).2.1)

/-- A copy-on-write page that is counted at most once has no count or its remap goes through; of
one that is counted more often the copy, if a frame is found for it, is made and mapped. -/
def BreakSafe (v : VirtAddr) (s : Machine) : Prop := ∀ flags phys, (getPageFlags v s).1 = .ok flags →
  isCowPage flags = true → (translateAddress v s).1 = .ok phys →
    if getRefcount phys s ≤ 1 then physToFrameIndex phys < MAX_FRAMES → Remappable s v
    else ∀ addr, (allocFrame s).1 = .ok addr →
      addr ≠ 0 ∧ Remappable (s.setFrame (addr/4096) (s.mem (physToFrameIndex phys))) v

private theorem breakSharing_atomic_iff (hm : s.paging = some m) (htranslate : translateAddress v s = (.ok phys, s))
    (hphys : phys.isAligned = true ↔ v.pageOffset = 0) (flags : PageTableFlags) (message : String) :
    Atomic (breakSharing v flags message) s ↔
      if getRefcount phys s ≤ 1 then physToFrameIndex phys < MAX_FRAMES → Remappable s v
      else ∀ addr, (allocFrame s).1 = .ok addr →
        addr ≠ 0 ∧ Remappable (s.setFrame (addr/4096) (s.mem (physToFrameIndex phys))) v := by
  have hrun : breakSharing v flags message s = (if getRefcount phys s ≤ 1 then
      decRefcount phys >>= fun _ => remapPage v phys (ownedFlags flags)
    else allocCowFrame message >>= fun new => copyPage phys new >>= fun _ =>
      settle v phys (ownedFlags flags) new) s := by
    rw [breakSharing, Fallible.bind_of_ok htranslate, Fallible.get_bind_run]
    split <;> rfl
  rw [Atomic.congr hrun]
  split
  · have hone (c : BitVec 32) : c - 1 ≠ c := by
      bv_omega
    have hdec : ∃ c t, decRefcount phys s = (.ok c, t) ∧ t = { s with refcounts := t.refcounts } ∧
        (physToFrameIndex phys < MAX_FRAMES →
          t.frameCount (physToFrameIndex phys) ≠ s.frameCount (physToFrameIndex phys)) ∧
        (¬ physToFrameIndex phys < MAX_FRAMES → t = s) := by
      rw [decRefcount]
      split
      · exact ⟨_, s, rfl, rfl, fun h => by omega, fun _ => rfl⟩
      · exact ⟨_, _, rfl, setRefcount_only _ _ s, setRefcount_changes (hone _), fun h => by omega⟩
    obtain ⟨c, t, hdec, honly, hchanged, hsame⟩ := hdec
    exact recount_atomic_iff hm hdec honly hchanged hsame hphys
  · exact move_atomic_iff hm hphys (ownedFlags flags) message

/-- The two calls that break sharing, which differ in what they make of a page that is not shared. -/
private theorem break_atomic_iff {op : Op Unit} (message : String) (hop : ∀ flags, getPageFlags v s = (.ok flags, s) →
      (isCowPage flags = true → op s = breakSharing v flags message s) ∧ (isCowPage flags = false → Atomic op s))
    (herr : ∀ e, getPageFlags v s = (.error e, s) → op s = (.error e, s)) : Atomic op s ↔ BreakSafe v s := by
  obtain ⟨r, hr, hleaf⟩ := readers_page v s
  obtain ⟨hflags, htranslate⟩ := hr v rfl
  rw [BreakSafe, hflags, htranslate]
  cases r with
  | error e => exact iff_of_true (atomic_of_error (herr e hflags)) fun flags phys h => by cases h
  | ok x =>
    obtain ⟨k, e⟩ := x
    obtain ⟨m, hm, -⟩ := hleaf k e rfl
    obtain ⟨hcow, hnot⟩ := hop e.flags hflags
    cases hc : isCowPage e.flags with
    | true =>
      rw [Atomic.congr (hcow hc), breakSharing_atomic_iff hm htranslate (leafAddress_aligned v k e)]
      constructor
      · intro h flags phys _ _ hphys
        obtain rfl := Except.ok.inj hphys
        exact h
      · exact fun h => h _ _ rfl hc rfl
    | false =>
      refine iff_of_true (hnot hc) fun flags phys hf hcf => ?_
      obtain rfl := Except.ok.inj hf
      rw [hc] at hcf
      cases hcf

theorem handleCowFault_atomic_iff (v : VirtAddr) (s : Machine) : Atomic (handleCowFault v) s ↔ BreakSafe v s := by
  refine break_atomic_iff "Failed to allocate frame for CoW" (fun flags hflags => ⟨fun hc => ?_, fun hc => ?_⟩)
    fun e he =>
    Fallible.bind_of_error he
  · rw [handleCowFault, Fallible.bind_of_ok hflags, Fallible.bind_of_ok (Fallible.require_run_pos _ hc s)]
  · refine atomic_of_error (e := .err "Not a CoW page") ?_
    rw [handleCowFault, Fallible.bind_of_ok hflags,
      Fallible.bind_of_error (Fallible.require_run_neg _ (by simp [hc]) s)]

theorem unshareCowPage_atomic_iff (v : VirtAddr) (s : Machine) : Atomic (unshareCowPage v) s ↔ BreakSafe v s := by
  refine break_atomic_iff "Failed to allocate frame" (fun flags hflags => ⟨fun hc => ?_, fun hc => ?_⟩) fun e he =>
    Fallible.bind_of_error he
  · rw [unshareCowPage, Fallible.bind_of_ok hflags, hc]
    rfl
  · refine atomic_of_ok (t := s) ?_
    rw [unshareCowPage, Fallible.bind_of_ok hflags, hc]
    rfl

/-! ### `share_page_cow` -/

/-- A copy-on-write entry for the frame of an entry reads at every level as that entry does. -/
private theorem cowEntry_kind (e : PageTableEntry) (k : Nat) :
    PageTableEntry.kind k (PageTableEntry.of e.address (cowFlags e.flags)).raw = PageTableEntry.kind k e.raw := by
  have hpresent : (PageTableEntry.of e.address (cowFlags e.flags)).isPresent = e.isPresent := by
    rw [PageTableEntry.isPresent_iff, PageTableEntry.isPresent_iff, PageTableEntry.of_getLsbD (by decide),
      cowFlags_other _ (by decide) (by decide), PageTableEntry.flags_bit]
    exact Bool.and_true _
  have hhuge : (PageTableEntry.of e.address (cowFlags e.flags)).isHuge = e.isHuge := by
    rw [PageTableEntry.of_huge, PageTableEntry.isHuge_iff, cowFlags_other _ (by decide) (by decide),
      PageTableEntry.flags_bit]
    exact Bool.and_true _
  have hframe : (PageTableEntry.of e.address (cowFlags e.flags)).frame = e.frame :=
    PageTableEntry.of_frame (cowFlags_bits e.flags_flagBits).1
  change PageTableEntry.kind k (PageTableEntry.mk (PageTableEntry.of e.address (cowFlags e.flags)).raw).raw = _
  rw [PageTableEntry.kind, PageTableEntry.kind, hpresent, hhuge, hframe]

/-- A lookup that ends in a page table ends where the walks that know no huge leaves do, in any
memory whose entries link the same frames. -/
private theorem lookup_walkEnd {mem mem' : Frames} {above l pd pt : Nat} {phys : BitVec 64} {e : BitVec 64}
    (hkind : ∀ k f i, PageTableEntry.kind k (mem' f i) = PageTableEntry.kind k (mem f i))
    (hend : walkEnd mem v above l phys = .pageTable pd pt)
    (hl : TableTree.lookup PageTableEntry.kind mem v.index l (phys.toNat/4096) = some (0, e)) :
    mem pt (v.index 0) = e ∧
      TableTree.lookup PageTableEntry.kind mem' v.index l (phys.toNat/4096) = some (0, mem' pt (v.index 0)) := by
  induction l generalizing above phys with
  | zero =>
    rw [walkEnd] at hend
    split at hend
    · obtain ⟨-, rfl⟩ := WalkEnd.pageTable.inj hend
      rw [TableTree.lookup] at hl ⊢
      rw [hkind]
      split at hl
      · cases hl
      · exact ⟨(Prod.mk.inj (Option.some.inj hl)).2, rfl⟩
    · cases hend
  | succ l ih =>
    rw [walkEnd] at hend
    split at hend
    · split at hend
      · rw [TableTree.lookup] at hl ⊢
        rw [hkind]
        split at hl
        · cases hl
        · cases hl
        · rename_i g hg
          obtain ⟨_, _, _, rfl⟩ := PageTableEntry.kind_link.mp hg
          exact ih hend hl
      · cases hend
    · cases hend

/-- Marking the source changes no leaf entry: it is marked already or, where it lies in a huge
leaf, the entry that is written behind the leaf decides no lookup. -/
def SourceKept (m : PagingManager) (s t : Machine) (src : VirtAddr) (entry : PageTableEntry) : Prop :=
  match m.leaf s.mem src with
  | some (0, e) => e = entry.raw
  | _ => ∀ idx, m.lookup t.mem idx = m.lookup s.mem idx

/-- The destination is mapped once the source is marked; or that fails before a frame is taken,
and marking the source changed nothing. -/
def ShareSafe (src dst : VirtAddr) (s : Machine) : Prop := ∀ phys flags t message u,
  (translateAddress src s).1 = .ok phys → (getPageFlags src s).1 = .ok flags →
    remapPage src phys (cowFlags flags) s = (.ok (), t) →
      mapPage dst phys (cowFlags flags) t = (.error (.err message), u) →
        (∀ f, FreeIn u.pmm f ↔ FreeIn s.pmm f) ∧
          ∀ m, s.paging = some m → SourceKept m s t src (.of phys.addr (cowFlags flags))

/-- For a remapped source the lookups are the same exactly when its entry is. -/
private theorem sourceKept_iff {k : Nat} {e : PageTableEntry} {pd pt : Nat} (hleaf : m.leaf s.mem src = some (k, e.raw))
    (hp : src.pageOffset = 0) (hend : m.walkEndOf s.mem src = .pageTable pd pt)
    (hmem : ∀ f i, t.mem f i = if (f, i) = (pt, src.index 0) then
      (PageTableEntry.of (leafAddress src k e).addr (cowFlags e.flags)).raw else s.mem f i) :
    SourceKept m s t src (.of (leafAddress src k e).addr (cowFlags e.flags)) ↔
      ∀ idx, m.lookup t.mem idx = m.lookup s.mem idx := by
  rw [SourceKept, hleaf]
  cases k with
  | succ k => exact Iff.rfl
  | zero =>
    have haddr : (leafAddress src 0 e).addr = e.address := by
      change e.address ||| src.pageOffset = _
      rw [hp]
      exact BitVec.or_zero
    rw [haddr] at hmem ⊢
    obtain ⟨hentry, -⟩ := lookup_walkEnd (fun _ _ _ => rfl) hend hleaf
    have hkind (j f : Nat) (i : Fin 512) : PageTableEntry.kind j (t.mem f i) = PageTableEntry.kind j (s.mem f i) := by
      rw [hmem]
      split
      · rename_i hfi
        obtain ⟨rfl, rfl⟩ := Prod.mk.inj hfi
        rw [cowEntry_kind, hentry]
      · rfl
    obtain ⟨-, hafter⟩ := lookup_walkEnd hkind hend hleaf
    rw [hmem, if_pos rfl] at hafter
    constructor
    · intro he idx
      have hsame : t.mem = s.mem := by
        funext f i
        rw [hmem]
        split
        · rename_i hfi
          obtain ⟨rfl, rfl⟩ := Prod.mk.inj hfi
          rw [hentry, he]
        · rfl
      rw [hsame]
    · intro h
      have := (h src.index).symm.trans hafter
      exact (Prod.mk.inj (Option.some.inj (hleaf.symm.trans this))).2

/-- A `map_page` that failed without taking a frame wrote nothing. -/
private theorem mapPage_wrote_nothing {e : Stop} (h : mapPage dst phys flags s = (.error e, t))
    (hfree : ∀ f, FreeIn t.pmm f ↔ FreeIn s.pmm f) : t.mem = s.mem := by
  have hlinks := PagingManager.mapPage_links h
  have hnone (f : Nat) : ¬ s.Taken t f := fun hf => hf.2 ((hfree f).mpr hf.1)
  funext f i
  by_contra hne
  rcases hlinks.words f i hne with hf | ⟨_, _, hf⟩
  · exact hnone f hf
  · exact hnone _ hf

theorem sharePageCow_atomic_iff (src dst : VirtAddr) (s : Machine) :
    Atomic (sharePageCow src dst) s ↔ ShareSafe src dst s := by
  obtain ⟨r, hr, hleaf⟩ := readers_page src s
  obtain ⟨hflags, htranslate⟩ := hr src rfl
  rw [ShareSafe, hflags, htranslate]
  cases r with
  | error e =>
    exact iff_of_true (atomic_of_error (Fallible.bind_of_error htranslate)) fun phys flags t message u h => by cases h
  | ok x =>
    obtain ⟨k, e⟩ := x
    obtain ⟨m, hm, hleaf⟩ := hleaf k e rfl
    have hrun : sharePageCow src dst s = (remapPage src (leafAddress src k e) (cowFlags e.flags) >>= fun _ =>
        mapPage dst (leafAddress src k e) (cowFlags e.flags) >>= fun _ =>
          incRefcount (leafAddress src k e) >>= fun _ => pure ()) s := by
      rw [sharePageCow, Fallible.bind_of_ok htranslate, Fallible.bind_of_ok hflags]
    rcases remapPage_result hm src (leafAddress src k e) (cowFlags e.flags) with
      ⟨-, message, he⟩ | ⟨hp, -, he | ⟨pd, pt, hend, he⟩⟩
    · refine iff_of_true (atomic_of_error (hrun.trans (Fallible.bind_of_error he)))
        fun phys flags t message u hphys hf hok => ?_
      cases hphys
      cases hf
      cases he.symm.trans hok
    · refine iff_of_true (atomic_of_error (hrun.trans (Fallible.bind_of_error he)))
        fun phys flags t message u hphys hf hok => ?_
      cases hphys
      cases hf
      cases he.symm.trans hok
    · generalize htm : (s.setWord pt (src.index 0)
        (PageTableEntry.of (leafAddress src k e).addr (cowFlags e.flags)).raw).addLog
        (.invlpg src.addr) = t at he
      have hpmm : t.pmm = s.pmm := by rw [← htm]; rfl
      have hcounts : t.refcounts = s.refcounts := by rw [← htm]; rfl
      have hmem (f : Nat) (i : Fin 512) : t.mem f i = if (f, i) = (pt, src.index 0) then
          (PageTableEntry.of (leafAddress src k e).addr (cowFlags e.flags)).raw else s.mem f i := by
        rw [← htm, addLog_mem, setWord_mem]
      have hkept := sourceKept_iff hleaf ((leafAddress_aligned src k e).mp hp) hend hmem
      have hrun' := hrun.trans (Fallible.bind_of_ok he)
      rcases hmap : mapPage dst (leafAddress src k e) (cowFlags e.flags) t with ⟨(message | _) | _, u⟩
      · -- the sharing fails, with the source marked
        have hstatics := (mapPage_statics dst (leafAddress src k e) (cowFlags e.flags) t).refcounts
        rw [hmap, hcounts] at hstatics
        have hsame (hfree : ∀ f, FreeIn u.pmm f ↔ FreeIn s.pmm f) : u.mem = t.mem :=
          mapPage_wrote_nothing hmap fun f => by rw [hfree, hpmm]
        rw [atomic_iff_of_err (hrun'.trans (Fallible.bind_of_error hmap))]
        constructor
        · intro h phys flags t' message' u' hphys hf hok hfail
          cases hphys
          cases hf
          obtain rfl := (Prod.mk.inj (he.symm.trans hok)).2
          obtain rfl := (Prod.mk.inj (hmap.symm.trans hfail)).2
          refine ⟨h.free, fun m' hm' => ?_⟩
          obtain rfl := Option.some.inj (hm.symm.trans hm')
          rw [hkept, ← hsame h.free]
          exact h.leaves m hm
        · intro h
          obtain ⟨hfree, hsource⟩ := h _ _ t message u rfl rfl he hmap
          refine ⟨fun f => ?_, fun m' hm' => ?_, hfree⟩
          · rw [frameCount, frameCount, hstatics]
          · obtain rfl := Option.some.inj (hm.symm.trans hm')
            rw [hsame hfree]
            exact hkept.mp (hsource m hm)
      · refine iff_of_true (atomic_of_crash (hrun'.trans (Fallible.bind_of_error hmap)))
          fun phys flags t' message u' hphys hf hok hfail => ?_
        cases hphys
        cases hf
        obtain rfl := (Prod.mk.inj (he.symm.trans hok)).2
        cases hmap.symm.trans hfail
      · have hinc : ∃ c w, incRefcount (leafAddress src k e) u = (.ok c, w) := by
          rw [incRefcount]
          split <;> exact ⟨_, _, rfl⟩
        obtain ⟨c, w, hinc⟩ := hinc
        refine iff_of_true (atomic_of_ok (hrun'.trans ((Fallible.bind_of_ok hmap).trans (Fallible.bind_of_ok hinc))))
          fun phys flags t' message u' hphys hf hok hfail => ?_
        cases hphys
        cases hf
        obtain rfl := (Prod.mk.inj (he.symm.trans hok)).2
        cases hmap.symm.trans hfail

/-- A mapped writable page. -/
def writablePage : Machine := (mapPage ⟨0x400000#64⟩ ⟨0x9000#64⟩ ⟨3#64⟩ PagingManager.smallMachine).2

end Machine
end Nafuraito.Memory
