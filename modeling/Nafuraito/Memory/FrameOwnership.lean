import Nafuraito.Memory.FrameInit

/-! No frame has two owners: runs of a client that frees only what it holds. -/
namespace Nafuraito.Memory.PhysicalMemoryManager
open Nafuraito.Library
variable {s t : PhysicalMemoryManager}

/-- `count` frames from physical address `base` on, as one call returned them. -/
structure Allocation where
  base : Nat
  count : Nat
  deriving DecidableEq, Repr

def Allocation.Holds (a : Allocation) (f : Nat) : Prop := a.base/4096 ≤ f ∧ f < a.base/4096 + a.count

instance (a : Allocation) (f : Nat) : Decidable (a.Holds f) := inferInstanceAs (Decidable (_ ∧ _))

def Allocation.Apart (a b : Allocation) : Prop := ∀ f, a.Holds f → ¬ b.Holds f

instance : Std.Symm Allocation.Apart := ⟨fun _ _ h f hb ha => h f ha hb⟩

private theorem single_run (f k : Nat) : decide (f ≤ k ∧ k < f+1) = decide (k = f) := by
  rw [decide_eq_decide]
  omega

/-- An `Ok` address joins the live allocations. -/
def grant (r : Except MemoryError Nat) (count : Nat) (live : List Allocation) : List Allocation :=
  match r with
  | .ok base => ⟨base, count⟩ :: live
  | .error _ => live

/-- An allocation stays live when the call that should free it fails. -/
def release (r : Except MemoryError Unit) (a : Allocation) (live : List Allocation) : List Allocation :=
  match r with
  | .ok _ => live.erase a
  | .error _ => live

/-- The states and live allocations a client reaches from `s₀` when it frees only live ones. -/
inductive ClientRun (s₀ : PhysicalMemoryManager) : PhysicalMemoryManager → List Allocation → Prop where
  | start : ClientRun s₀ s₀ []
  | allocFrame {s t live r} : ClientRun s₀ s live → PhysicalMemoryManager.allocFrame s = (r, t) →
      ClientRun s₀ t (grant r 1 live)
  | allocFrameInZone {s t live r} (z : MemoryZone) : ClientRun s₀ s live →
      PhysicalMemoryManager.allocFrameInZone z s = (r, t) → ClientRun s₀ t (grant r 1 live)
  | allocFramesContiguous {s t live r} (count : Nat) (zone : Option MemoryZone) : ClientRun s₀ s live →
      PhysicalMemoryManager.allocFramesContiguous count zone s = (r, t) → ClientRun s₀ t (grant r count live)
  | freeFrame {s t live r} (a : Allocation) : ClientRun s₀ s live → a ∈ live → a.count = 1 →
      PhysicalMemoryManager.freeFrame a.base s = (r, t) → ClientRun s₀ t (release r a live)
  | freeFramesContiguous {s t live r} (a : Allocation) : ClientRun s₀ s live → a ∈ live →
      PhysicalMemoryManager.freeFramesContiguous a.base a.count s = (r, t) → ClientRun s₀ t (release r a live)

/-- What ties the bitmap to the live allocations. -/
structure Owned (s₀ s : PhysicalMemoryManager) (live : List Allocation) : Prop where
  total : s.totalFrames = s₀.totalFrames
  free : ∀ f, s.Free f → s₀.Free f
  aligned : ∀ a ∈ live, a.base % 4096 = 0 ∧ 0 < a.count
  held : ∀ a ∈ live, ∀ f, a.Holds f → s₀.Free f ∧ Bitmap.test s.bitmap f = true
  apart : live.Pairwise Allocation.Apart

theorem Owned.start (s₀ : PhysicalMemoryManager) : Owned s₀ s₀ [] :=
  ⟨rfl, fun _ h => h, by simp, by simp, .nil⟩

/-- Taking a run of free frames makes it a live allocation. -/
private theorem Owned.take {s₀ : PhysicalMemoryManager} {live : List Allocation} (h : Owned s₀ s live)
    {first count : Nat} (hc : 0 < count) (hf : ∀ k < count, s.Free (first+k))
    (ht : t.totalFrames = s.totalFrames)
    (hb : ∀ k, Bitmap.test t.bitmap k = (decide (first ≤ k ∧ k < first+count) || Bitmap.test s.bitmap k)) :
    Owned s₀ t (⟨first*4096, count⟩ :: live) := by
  have hfree : ∀ f, first ≤ f → f < first+count → s.Free f := by
    intro f h₁ h₂
    have := hf (f-first) (by omega)
    rwa [Nat.add_sub_cancel' h₁] at this
  have hrun : ∀ f, (⟨first*4096, count⟩ : Allocation).Holds f → first ≤ f ∧ f < first+count := by
    intro f hh
    simpa [Allocation.Holds] using hh
  refine ⟨ht.trans h.total, ?_, ?_, ?_, ?_⟩
  · intro f hfr
    apply h.free f
    have hn := hfr.2
    rw [hb, Bool.or_eq_false_iff] at hn
    exact ⟨ht ▸ hfr.1, hn.2⟩
  · rw [List.forall_mem_cons]
    exact ⟨⟨Nat.mul_mod_left first 4096, hc⟩, h.aligned⟩
  · rw [List.forall_mem_cons]
    refine ⟨fun f hh => ?_, fun a ha f hh => ?_⟩
    · have hin := hrun f hh
      exact ⟨h.free f (hfree f hin.1 hin.2), by simp [hb, hin]⟩
    · obtain ⟨h₁, h₂⟩ := h.held a ha f hh
      exact ⟨h₁, by rw [hb, h₂, Bool.or_true]⟩
  · rw [List.pairwise_cons]
    refine ⟨fun a ha f hh hah => ?_, h.apart⟩
    have hin := hrun f hh
    have h₁ := (hfree f hin.1 hin.2).2
    rw [(h.held a ha f hah).2] at h₁
    cases h₁

/-- Clearing exactly the bits of a live allocation releases it. -/
private theorem Owned.drop {s₀ : PhysicalMemoryManager} {live : List Allocation} (h : Owned s₀ s live)
    {a : Allocation} (ha : a ∈ live) (ht : t.totalFrames = s.totalFrames)
    (hb : ∀ k, Bitmap.test t.bitmap k =
      (!decide (a.base/4096 ≤ k ∧ k < a.base/4096 + a.count) && Bitmap.test s.bitmap k)) :
    Owned s₀ t (live.erase a) := by
  have hnodup : live.Nodup := h.apart.imp_of_mem fun {b c} hb _ hbc he => by
    subst he
    have := h.aligned b hb
    exact hbc (b.base/4096) ⟨le_rfl, by omega⟩ ⟨le_rfl, by omega⟩
  refine ⟨ht.trans h.total, ?_, ?_, ?_, h.apart.sublist List.erase_sublist⟩
  · intro f hfr
    by_cases hh : a.Holds f
    · exact (h.held a ha f hh).1
    · apply h.free f
      have hn := hfr.2
      rw [hb, decide_eq_false (p := a.base/4096 ≤ f ∧ f < a.base/4096 + a.count) hh, Bool.not_false,
        Bool.true_and] at hn
      exact ⟨ht ▸ hfr.1, hn⟩
  · exact fun b hm => h.aligned b (List.mem_of_mem_erase hm)
  · intro b hm f hh
    have hne : b ≠ a := fun he => by
      subst he
      exact hnodup.not_mem_erase hm
    have hmem := List.mem_of_mem_erase hm
    obtain ⟨h₁, h₂⟩ := h.held b hmem f hh
    have hout : ¬ a.Holds f := h.apart.forall hmem ha hne f hh
    refine ⟨h₁, ?_⟩
    rw [hb, decide_eq_false (p := a.base/4096 ≤ f ∧ f < a.base/4096 + a.count) hout, h₂]
    rfl

/-- Freeing a run of used tracked frames succeeds and clears exactly their bits. -/
theorem freeFrames_run {base : Nat} (hbase : base % 4096 = 0) (n i : Nat) (s : PhysicalMemoryManager)
    (hf : ∀ k, i ≤ k → k < i+n → base/4096+k < s.totalFrames ∧ Bitmap.test s.bitmap (base/4096+k) = true) :
    ∃ t, Fallible.forRange (fun j => freeFrame (u64 (base + u64 (j*4096)))) i n s = (.ok (), t) ∧
      t.totalFrames = s.totalFrames ∧ ∀ k, Bitmap.test t.bitmap k =
        (!decide (base/4096+i ≤ k ∧ k < base/4096+i+n) && Bitmap.test s.bitmap k) := by
  induction n generalizing i s with
  | zero =>
    refine ⟨s, rfl, rfl, fun k => ?_⟩
    have : ¬ (base/4096+i ≤ k ∧ k < base/4096+i) := by omega
    simp [this]
  | succ n ih =>
    have hle := s.total_le
    obtain ⟨hlt, hbit⟩ := hf i le_rfl (by omega)
    have haddr : u64 (base + u64 (i*4096)) = (base/4096+i)*4096 := by
      unfold u64
      omega
    have hdiv : (base/4096+i)*4096/4096 = base/4096+i := Nat.mul_div_cancel _ (by decide)
    have hone : freeFrame (u64 (base + u64 (i*4096))) s = (.ok (), s.giving (base/4096+i)) := by
      rw [haddr]
      rcases freeFrame_run ((base/4096+i)*4096) s with ⟨_, _, _, he⟩ | ⟨hn, _⟩
      · rw [he, hdiv]
      · rw [hdiv] at hn
        exact absurd ⟨Nat.mul_mod_left _ _, hlt, hbit⟩ hn
    obtain ⟨t, hrun, htot, hbits⟩ := ih (i+1) (s.giving (base/4096+i)) fun k h₁ h₂ => by
      have hne : decide (base/4096+k = base/4096+i) = false := decide_eq_false (by omega)
      obtain ⟨h₃, h₄⟩ := hf k (by omega) (by omega)
      exact ⟨h₃, by rw [test_giving, h₄, hne]; rfl⟩
    refine ⟨t, ?_, htot, fun k => ?_⟩
    · rw [Fallible.forRange, Fallible.bind_of_ok hone, hrun]
    · rw [hbits, test_giving]
      by_cases hk : k = base/4096+i
      · subst hk
        simp
      · have : (base/4096+(i+1) ≤ k ∧ k < base/4096+(i+1)+n) ↔
            (base/4096+i ≤ k ∧ k < base/4096+i+(n+1)) := by omega
        simp [this, hk]

private theorem Owned.allocFrame {s₀ : PhysicalMemoryManager} {live : List Allocation} (h : Owned s₀ s live)
    {r : Except MemoryError Nat} (hr : PhysicalMemoryManager.allocFrame s = (r, t)) :
    Owned s₀ t (grant r 1 live) := by
  cases r with
  | error e => rwa [allocFrame_error hr]
  | ok base =>
    obtain ⟨f, rfl, hf, _, rfl⟩ := allocFrame_ok hr
    refine h.take (by decide) (by simpa using hf) rfl fun k => ?_
    rw [test_taking, single_run]

private theorem Owned.allocFrameInZone {s₀ : PhysicalMemoryManager} {live : List Allocation}
    (h : Owned s₀ s live) {z : MemoryZone} {r : Except MemoryError Nat}
    (hr : PhysicalMemoryManager.allocFrameInZone z s = (r, t)) : Owned s₀ t (grant r 1 live) := by
  cases r with
  | error e => rwa [(allocFrameInZone_error hr).1]
  | ok base =>
    obtain ⟨f, rfl, hf, _, _, rfl⟩ := allocFrameInZone_ok hr
    refine h.take (by decide) (by simpa using hf) rfl fun k => ?_
    rw [test_taking, single_run]

private theorem Owned.allocFramesContiguous {s₀ : PhysicalMemoryManager} {live : List Allocation}
    (h : Owned s₀ s live) {count : Nat} {zone : Option MemoryZone} {r : Except MemoryError Nat}
    (hr : PhysicalMemoryManager.allocFramesContiguous count zone s = (r, t)) :
    Owned s₀ t (grant r count live) := by
  by_cases hc : count = 1
  · subst hc
    rw [allocFramesContiguous_one] at hr
    cases zone with
    | some z => exact h.allocFrameInZone hr
    | none => exact h.allocFrame hr
  · cases r with
    | error e => rwa [allocFramesContiguous_error hr]
    | ok base =>
      obtain ⟨hcount, first, rfl, hf, rfl⟩ := allocFramesContiguous_ok hc hr
      have hlast := (hf (count-1) (by omega)).1
      have hle := s.total_le
      exact h.take (by omega) hf (takeRun_total first count s) fun k => test_takeRun (by omega) k

/-- A live allocation can be freed: the call succeeds and releases it. -/
private theorem Owned.freeFramesContiguous {s₀ : PhysicalMemoryManager} {live : List Allocation}
    (h : Owned s₀ s live) {a : Allocation} (ha : a ∈ live) {r : Except MemoryError Unit}
    (hr : PhysicalMemoryManager.freeFramesContiguous a.base a.count s = (r, t)) :
    Owned s₀ t (release r a live) := by
  obtain ⟨hal, hpos⟩ := h.aligned a ha
  rw [PhysicalMemoryManager.freeFramesContiguous, if_neg (by omega), if_neg (by omega)] at hr
  obtain ⟨u, hu, htot, hbits⟩ := freeFrames_run hal a.count 0 s fun k _ hk => by
    obtain ⟨h₁, h₂⟩ := h.held a ha (a.base/4096+k) ⟨by omega, by omega⟩
    exact ⟨by rw [h.total]; exact h₁.1, h₂⟩
  obtain ⟨rfl, rfl⟩ : r = .ok () ∧ t = u := by simpa [hr] using hu
  exact h.drop ha htot hbits

private theorem Owned.freeFrame {s₀ : PhysicalMemoryManager} {live : List Allocation} (h : Owned s₀ s live)
    {a : Allocation} (ha : a ∈ live) (hone : a.count = 1) {r : Except MemoryError Unit}
    (hr : PhysicalMemoryManager.freeFrame a.base s = (r, t)) : Owned s₀ t (release r a live) := by
  cases r with
  | error e => rwa [freeFrame_error hr]
  | ok u =>
    obtain ⟨_, _, _, rfl⟩ := freeFrame_ok hr
    refine h.drop ha rfl fun k => ?_
    rw [test_giving, hone, single_run]

/-- The ownership invariant holds along every client run, from any starting state. -/
theorem ClientRun.owned {s₀ : PhysicalMemoryManager} {live : List Allocation} (hr : ClientRun s₀ s live) :
    Owned s₀ s live := by
  induction hr with
  | start => exact .start s₀
  | allocFrame _ he ih => exact ih.allocFrame he
  | allocFrameInZone z _ he ih => exact ih.allocFrameInZone he
  | allocFramesContiguous n z _ he ih => exact ih.allocFramesContiguous he
  | freeFrame a _ ha hone he ih => exact ih.freeFrame ha hone he
  | freeFramesContiguous a _ ha he ih => exact ih.freeFramesContiguous ha he

/-- From any state `init` leaves, the live allocations are pairwise disjoint, aligned, inside
the tracked frames, free of frames `init` left used, and none starts at address 0. -/
theorem client_allocations_apart {m : MemoryMap} {mem : Bytes} {s₀ : PhysicalMemoryManager}
    (hi : init m mem = .ok s₀) {live : List Allocation} (hr : ClientRun s₀ s live) :
    live.Pairwise Allocation.Apart ∧ ∀ a ∈ live, a.base % 4096 = 0 ∧ 0 < a.count ∧
      a.base + a.count*4096 ≤ s₀.totalFrames*4096 ∧ (∀ f, a.Holds f → s₀.Free f) ∧ a.base ≠ 0 := by
  have h := hr.owned
  refine ⟨h.apart, fun a ha => ?_⟩
  obtain ⟨hal, hpos⟩ := h.aligned a ha
  have hlast := (h.held a ha (a.base/4096 + a.count - 1) ⟨by omega, by omega⟩).1.1
  refine ⟨hal, hpos, by omega, fun f hf => (h.held a ha f hf).1, fun hz => ?_⟩
  apply init_zero_used hi
  have := (h.held a ha (a.base/4096) ⟨le_rfl, by omega⟩).1
  rwa [hz] at this

/-- On one bank a first `alloc_frame` succeeds. -/
theorem oneBank_alloc {s₀ : PhysicalMemoryManager} (hi : init oneBank onesMemory = .ok s₀)
    (hf : s₀.freeFrames = 15) : ∃ base t, allocFrame s₀ = (.ok base, t) := by
  have hfree := oneBank_free hi
  have hhint : s₀.lastAllocIndex < s₀.bitmapSize := by
    obtain ⟨_, _, _, _, hlast, _⟩ := init_ok hi
    rw [hlast]
    exact Nat.zero_lt_of_lt (index_lt_size hfree.1)
  rcases he : allocFrame s₀ with ⟨_ | base, t⟩
  · rcases allocFrame_fails hhint he with h | h
    · omega
    · exact absurd hfree (h _)
  · exact ⟨base, t, rfl⟩

theorem client_allocations_apart_oneBank : ∃ s₀ base, init oneBank onesMemory = .ok s₀ ∧
    base % 4096 = 0 ∧ base + 4096 ≤ s₀.totalFrames*4096 ∧ s₀.Free (base/4096) ∧ base ≠ 0 := by
  obtain ⟨s₀, hi, hf⟩ := oneBank_init
  obtain ⟨base, t, ha⟩ := oneBank_alloc hi hf
  obtain ⟨_, h⟩ := client_allocations_apart hi (.allocFrame .start ha)
  obtain ⟨h₁, _, h₂, h₃, h₄⟩ := h ⟨base, 1⟩ List.mem_cons_self
  exact ⟨s₀, base, hi, h₁, by simpa using h₂, h₃ _ ⟨le_rfl, by simp⟩, h₄⟩

end Nafuraito.Memory.PhysicalMemoryManager
