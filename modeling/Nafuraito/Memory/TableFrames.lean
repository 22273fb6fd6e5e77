import Nafuraito.Memory.Machine

/-! The frames `alloc_page_table` takes: each was free, and none comes twice. -/
namespace Nafuraito.Memory
open Nafuraito.Library

namespace PhysicalMemoryManager

/-- Frame `f` is free in the global frame allocator, if there is one. -/
def FreeIn (p : Option PhysicalMemoryManager) (f : Nat) : Prop := ∃ s, p = some s ∧ s.Free f

@[simp] theorem freeIn_some {s : PhysicalMemoryManager} {f : Nat} : FreeIn (some s) f ↔ s.Free f := by
  simp [FreeIn]

@[simp] theorem not_freeIn_none (f : Nat) : ¬ FreeIn none f := by
  simp [FreeIn]

theorem not_free_iff {s : PhysicalMemoryManager} {f : Nat} :
    ¬ FreeIn (some s) f ↔ s.isFrameUsed (f*4096) = true := by
  have hf : f*4096/4096 = f := Nat.mul_div_cancel f (by decide)
  simp only [freeIn_some, Free, not_and, Bool.not_eq_false, isFrameUsed,
    testBit, hf]
  split
  · simp only [iff_true]
    omega
  · simp only [show f < s.totalFrames by omega, forall_true_left]

/-- The global frame allocator has a bit for the frame. -/
def Tracks (p : Option PhysicalMemoryManager) (f : Nat) : Prop := ∃ s, p = some s ∧ f < s.totalFrames

theorem FreeIn.tracks {p : Option PhysicalMemoryManager} {f : Nat} (h : FreeIn p f) : Tracks p f := by
  obtain ⟨s, hs, hlt, _⟩ := h
  exact ⟨s, hs, hlt⟩

theorem Tracks.of_total {p q : Option PhysicalMemoryManager} {f : Nat} (h : Tracks p f)
    (ht : q.map totalFrames = p.map totalFrames) : Tracks q f := by
  obtain ⟨s, rfl, hlt⟩ := h
  obtain ⟨t, rfl, he⟩ := Option.map_eq_some_iff.mp ht
  exact ⟨t, rfl, by omega⟩

/-- The addresses of frames fit 64 bits. -/
theorem freeIn_lt {p : Option PhysicalMemoryManager} {f : Nat} (h : FreeIn p f) : f < 2^52 := by
  obtain ⟨s, rfl, hlt, _⟩ := h
  have h₁ := s.highest_lt
  have h₂ := s.total_eq
  omega

/-- A frame given back is free. -/
theorem giving_free {q : PhysicalMemoryManager} {n : Nat} (hn : n < q.totalFrames) (g : Nat) :
    FreeIn (some (q.giving n)) g ↔ g = n ∨ FreeIn (some q) g := by
  rw [freeIn_some, freeIn_some, Free,
    giving_total, test_giving, Free]
  by_cases hg : g = n
  · subst hg
    simpa using hn
  · simp [hg]

/-- The frames the allocator has marked as used, or does not track. -/
def usedFrames (s : PhysicalMemoryManager) : Set Nat := {f | s.isFrameUsed (f*4096) = true}

/-- One frame tells two allocators apart. -/
theorem usedFrames_ne {p q : Option PhysicalMemoryManager} {f : Nat}
    (hp : p.map (·.isFrameUsed (f*4096)) = some false) (hq : q.map (·.isFrameUsed (f*4096)) = some true) :
    q.map usedFrames ≠ p.map usedFrames := by
  obtain ⟨q, rfl, hbit⟩ := Option.map_eq_some_iff.mp hq
  obtain ⟨p, rfl, hbit'⟩ := Option.map_eq_some_iff.mp hp
  intro he
  have hmem : f ∈ usedFrames q := hbit
  rw [Option.some.inj he] at hmem
  exact Bool.false_ne_true (hbit'.symm.trans hmem)

/-- What a call may do to the allocator: take frames, and return an address it took. -/
structure Takes (p : Option PhysicalMemoryManager) (addr : Nat) (p' : Option PhysicalMemoryManager) : Prop where
  free : ∀ f, FreeIn p' f → FreeIn p f
  taken : addr ≠ 0 → addr % 4096 = 0 ∧ FreeIn p (addr/4096) ∧ ¬ FreeIn p' (addr/4096)

theorem Takes.refl (p : Option PhysicalMemoryManager) : Takes p 0 p := ⟨fun _ h => h, fun h => absurd rfl h⟩

/-- A call that gave nothing, then another. -/
theorem Takes.trans {p q r : Option PhysicalMemoryManager} {a : Nat} (h : Takes p 0 q) (h' : Takes q a r) :
    Takes p a r where
  free f hf := h.free f (h'.free f hf)
  taken ha := by
    obtain ⟨h₁, h₂, h₃⟩ := h'.taken ha
    exact ⟨h₁, h.free _ h₂, h₃⟩

private theorem takes_taking {s : PhysicalMemoryManager} {f : Nat} (hf : s.Free f)
    (zones : Fin 4 → ZoneStats) : Takes (some s) (f*4096) (some (s.taking f zones)) where
  free g hg := by
    rw [freeIn_some] at hg ⊢
    refine ⟨hg.1, ?_⟩
    have := hg.2
    rw [test_taking, Bool.or_eq_false_iff] at this
    exact this.2
  taken _ := by
    rw [Nat.mul_div_cancel f (by decide)]
    refine ⟨Nat.mul_mod_left f 4096, freeIn_some.mpr hf, fun hg => ?_⟩
    have := (freeIn_some.mp hg).2
    rw [test_taking, decide_eq_true rfl, Bool.true_or] at this
    cases this

/-! ### What every allocation of one frame does

A relation between the allocator before, the address returned (0 for none) and the allocator
after holds of the allocations if it holds of doing nothing, of taking one free frame and of a
failed try followed by another call. -/

section Rule
variable {R : Option PhysicalMemoryManager → Nat → Option PhysicalMemoryManager → Prop}
  (hrefl : ∀ p, R p 0 p)
  (htake : ∀ {s : PhysicalMemoryManager} {f : Nat} (zones : Fin 4 → ZoneStats), s.Free f →
    R (some s) (f*4096) (some (s.taking f zones)))
include hrefl htake

omit htake in
private theorem unwrap_rule {op : Op Nat} {s : PhysicalMemoryManager} {a : Nat}
    {p : Option PhysicalMemoryManager} (hu : unwrapOrZero op (some s) = (a, p))
    (hok : ∀ {addr t}, op s = (.ok addr, t) → R (some s) addr (some t))
    (herr : ∀ {e t}, op s = (.error e, t) → t = s) : R (some s) a p := by
  rw [unwrapOrZero] at hu
  split at hu
  · rename_i addr t he
    obtain ⟨rfl, rfl⟩ := Prod.mk.inj hu
    exact hok he
  · rename_i e t he
    obtain ⟨rfl, rfl⟩ := Prod.mk.inj hu
    rw [herr he]
    exact hrefl _

theorem pmmAllocFrame_rule (p : Option PhysicalMemoryManager) : R p (pmmAllocFrame p).1 (pmmAllocFrame p).2 := by
  cases p with
  | none => exact hrefl none
  | some s =>
    refine unwrap_rule hrefl rfl (fun he => ?_) allocFrame_error
    obtain ⟨f, rfl, hf, _, rfl⟩ := allocFrame_ok he
    exact htake _ hf

omit hrefl in
private theorem allocFrameInZone_rule {s t : PhysicalMemoryManager} {z : MemoryZone} {addr : Nat}
    (h : allocFrameInZone z s = (.ok addr, t)) : R (some s) addr (some t) := by
  obtain ⟨f, rfl, hf, _, _, rfl⟩ := allocFrameInZone_ok h
  exact htake _ hf

theorem pmmAllocDma32Frame_rule (p : Option PhysicalMemoryManager) :
    R p (pmmAllocDma32Frame p).1 (pmmAllocDma32Frame p).2 := by
  cases p with
  | none => exact hrefl none
  | some s =>
    have hcases : (∃ a t, allocFrameInZone .dma s = (.ok a, t) ∧ allocDma32Frame s = (.ok a, t)) ∨
        allocDma32Frame s = allocFrameInZone .dma32 s := by
      rw [allocDma32Frame]
      rcases he : allocFrameInZone .dma s with ⟨e | a, t⟩
      · exact .inr (by rw [(allocFrameInZone_error he).1])
      · exact .inl ⟨a, t, rfl, rfl⟩
    rcases hcases with ⟨a, t, hz, he⟩ | he
    · refine unwrap_rule hrefl rfl (fun h => ?_) (fun h => by rw [he] at h; cases h)
      rw [he] at h
      obtain ⟨ha, rfl⟩ := Prod.mk.inj h
      cases ha
      exact allocFrameInZone_rule htake hz
    · refine unwrap_rule hrefl rfl (fun h => ?_) (fun h => ?_)
      · exact allocFrameInZone_rule htake (he.symm.trans h)
      · exact (allocFrameInZone_error (he.symm.trans h)).1

theorem takeTableFrame_rule (htrans : ∀ {p q r a}, R p 0 q → R q a r → R p a r)
    (p : Option PhysicalMemoryManager) : R p (takeTableFrame p).1 (takeTableFrame p).2 := by
  have h := pmmAllocDma32Frame_rule hrefl htake p
  rw [takeTableFrame]
  split
  · rename_i h₀
    rw [h₀] at h
    exact htrans h (pmmAllocFrame_rule hrefl htake _)
  · exact h

end Rule

theorem pmmAllocFrame_takes (p : Option PhysicalMemoryManager) :
    Takes p (pmmAllocFrame p).1 (pmmAllocFrame p).2 := pmmAllocFrame_rule .refl (fun z hf => takes_taking hf z) p

theorem takeTableFrame_takes (p : Option PhysicalMemoryManager) :
    Takes p (takeTableFrame p).1 (takeTableFrame p).2 :=
  takeTableFrame_rule .refl (fun z hf => takes_taking hf z) .trans p

/-! ### Exactly one frame taken -/

/-- What changed is the bit of the frame at `addr`. -/
structure TakesOnly (p : Option PhysicalMemoryManager) (addr : Nat) (p' : Option PhysicalMemoryManager) : Prop where
  free : ∀ f, FreeIn p' f ↔ FreeIn p f ∧ f*4096 ≠ addr
  total : p'.map totalFrames = p.map totalFrames

/-- Where frame 0 is used no allocation loses a frame: the address 0 means failure. -/
theorem takeTableFrame_takesOnly {p : Option PhysicalMemoryManager} (h₀ : ¬ FreeIn p 0) :
    TakesOnly p (takeTableFrame p).1 (takeTableFrame p).2 := by
  refine takeTableFrame_rule (R := fun p a q => ¬ FreeIn p 0 → TakesOnly p a q) ?_ ?_ ?_ p h₀
  · refine fun p h₀ => ⟨fun f => ⟨fun hf => ⟨hf, fun he => ?_⟩, And.left⟩, rfl⟩
    obtain rfl : f = 0 := by omega
    exact h₀ hf
  · refine fun {s f} zones _ _ => ⟨fun g => ?_, rfl⟩
    have hne : g*4096 ≠ f*4096 ↔ g ≠ f := by omega
    rw [freeIn_some, freeIn_some, Free, test_taking, Bool.or_eq_false_iff, decide_eq_false_iff_not, hne, Free]
    exact ⟨fun h => ⟨⟨h.1, h.2.2⟩, h.2.1⟩, fun h => ⟨h.1.1, h.2, h.1.2⟩⟩
  · intro p q r a h h' h₀
    have hpq := h h₀
    have hqr := h' fun hf => h₀ ((hpq.free 0).mp hf).1
    refine ⟨fun f => (hqr.free f).trans (and_congr_left fun _ => (hpq.free f).trans ⟨And.left, fun hf => ⟨hf, ?_⟩⟩),
      hqr.total.trans hpq.total⟩
    intro he
    obtain rfl : f = 0 := by omega
    exact h₀ hf

/-- In any case no frame is lost but that one and frame 0. -/
theorem takeTableFrame_lost {p : Option PhysicalMemoryManager} {f : Nat} (h : FreeIn p f)
    (hn : ¬ FreeIn (takeTableFrame p).2 f) : f = 0 ∨ f*4096 = (takeTableFrame p).1 := by
  refine takeTableFrame_rule (R := fun p a q => FreeIn p f → ¬ FreeIn q f → f = 0 ∨ f*4096 = a) ?_ ?_ ?_ p h hn
  · intro p h hn
    exact absurd h hn
  · intro s g zones _ h hn
    rw [freeIn_some, Free] at h hn
    rw [test_taking, Bool.or_eq_false_iff, decide_eq_false_iff_not] at hn
    have hg : f = g := by
      by_contra hne
      exact hn ⟨h.1, hne, h.2⟩
    exact .inr (congrArg (· * 4096) hg)
  · intro p q r a hpq hqr h hn
    by_cases hq : FreeIn q f
    · exact hqr hq hn
    · rcases hpq h hq with hf | hf
      · exact .inl hf
      · exact .inl (by omega)

/-- The address cannot hold a page table: the allocation failed or is at or above 4 GiB. -/
def Unusable (addr : Nat) : Prop := addr = 0 ∨ addr ≥ 0x100000000

instance (addr : Nat) : Decidable (Unusable addr) := inferInstanceAs (Decidable (_ ∨ _))

/-- The address the `k`-th of the following table allocations gives, 0 if it fails. -/
def nthTableFrame (p : Option PhysicalMemoryManager) : Nat → Nat
  | 0 => (takeTableFrame p).1
  | k+1 => nthTableFrame (takeTableFrame p).2 k

theorem nthTableFrame_free {p : Option PhysicalMemoryManager} {k : Nat} (h : nthTableFrame p k ≠ 0) :
    FreeIn p (nthTableFrame p k/4096) := by
  induction k generalizing p with
  | zero => exact ((takeTableFrame_takes p).taken h).2.1
  | succ k ih => exact (takeTableFrame_takes p).free _ (ih h)

/-- A later table frame is not the first one. -/
theorem nthTableFrame_ne {p : Option PhysicalMemoryManager} {k : Nat} (h₀ : (takeTableFrame p).1 ≠ 0)
    (h : nthTableFrame p (k+1) ≠ 0) : nthTableFrame p (k+1)/4096 ≠ (takeTableFrame p).1/4096 := by
  intro he
  have hfree : FreeIn (takeTableFrame p).2 (nthTableFrame p (k+1)/4096) := nthTableFrame_free h
  rw [he] at hfree
  exact ((takeTableFrame_takes p).taken h₀).2.2 hfree

end PhysicalMemoryManager

open PhysicalMemoryManager (FreeIn)

/-- The global `alloc_frame` takes frames, and the one it returns was free. -/
theorem Machine.allocFrame_run (s : Machine) : ∃ r p, allocFrame s = (r, { s with pmm := p }) ∧
    p.map PhysicalMemoryManager.totalFrames = s.pmm.map PhysicalMemoryManager.totalFrames ∧
    (∀ f, FreeIn p f → FreeIn s.pmm f) ∧ ∀ addr, r = .ok addr → PhysicalMemoryManager.Takes s.pmm addr p := by
  cases hp : s.pmm with
  | none =>
    refine ⟨.error ⟨8, "PMM not initialized!", true⟩, none, ?_, rfl, fun _ h => h, fun _ h => by cases h⟩
    simp only [allocFrame, hp]
    rw [← hp]
  | some q =>
    have htakes := PhysicalMemoryManager.pmmAllocFrame_takes (some q)
    have htotal := PhysicalMemoryManager.pmmAllocFrame_rule (R := fun p _ q => q.map PhysicalMemoryManager.totalFrames =
      p.map PhysicalMemoryManager.totalFrames) (fun _ => rfl) (fun _ _ => rfl) (some q)
    rw [PhysicalMemoryManager.pmmAllocFrame, PhysicalMemoryManager.unwrapOrZero] at htakes htotal
    rcases hq : PhysicalMemoryManager.allocFrame q with ⟨r, q'⟩
    rw [hq] at htakes htotal
    refine ⟨r, some q', by simp only [allocFrame, hp, hq], ?_, ?_, fun addr hr => ?_⟩
    · cases r <;> exact htotal
    · cases r <;> exact htakes.free
    · subst hr
      exact htakes

end Nafuraito.Memory
