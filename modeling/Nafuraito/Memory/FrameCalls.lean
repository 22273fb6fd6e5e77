import Nafuraito.Memory.FrameAccounting
import Mathlib.Order.Bounds.Basic

/-! What the calls of the frame allocator find and change, exactly: the frame of `alloc_frame`,
the lowest run of `alloc_frames_contiguous`, and the frames `free_frames_contiguous` leaves freed when it fails. -/
namespace Nafuraito.Memory.PhysicalMemoryManager
open Nafuraito.Library
variable {s t : PhysicalMemoryManager}

/-! ### One frame -/

/-- `alloc_frame` succeeds exactly when a frame is free, and then takes one free frame and nothing else. -/
theorem allocFrame_exact (h : Accounting s) :
    ((∃ addr, (allocFrame s).1 = .ok addr) ↔ ∃ f, s.Free f) ∧
    ∀ addr t, allocFrame s = (.ok addr, t) → ∃ f, addr = f*4096 ∧ s.Free f ∧
      (∀ k, Bitmap.test t.bitmap k ≠ Bitmap.test s.bitmap k ↔ k = f) ∧ t.freeFrames + 1 = s.freeFrames := by
  constructor
  · cases hr : allocFrame s with
    | mk r t =>
      cases r with
      | ok addr =>
        obtain ⟨f, _, hf, _⟩ := allocFrame_ok hr
        exact ⟨fun _ => ⟨f, hf⟩, fun _ => ⟨addr, rfl⟩⟩
      | error e =>
        constructor
        · rintro ⟨addr, haddr⟩
          cases haddr
        · rintro ⟨f, hf⟩
          rcases allocFrame_fails h.hint hr with hzero | hnone
          · have := h.free_pos hf
            omega
          · exact absurd hf (hnone f)
  · intro addr t hr
    obtain ⟨f, haddr, hf, _, rfl⟩ := allocFrame_ok hr
    have hpos := h.free_pos hf
    have hle := h.free_le
    have htotal := s.total_le
    refine ⟨f, haddr, hf, ?_, ?_⟩
    · intro k
      rw [test_taking]
      by_cases hk : k = f
      · simp [hk, hf.2]
      · simp [hk]
    · change u64Sub s.freeFrames 1 + 1 = s.freeFrames
      rw [u64Sub_of_le hpos (by omega)]
      omega

theorem allocFrame_exact_tenFrames : ((∃ addr, (allocFrame tenFrames).1 = .ok addr) ↔ ∃ f, tenFrames.Free f) ∧
    ∀ addr t, allocFrame tenFrames = (.ok addr, t) → ∃ f, addr = f*4096 ∧ tenFrames.Free f ∧
      (∀ k, Bitmap.test t.bitmap k ≠ Bitmap.test tenFrames.bitmap k ↔ k = f) ∧
      t.freeFrames + 1 = tenFrames.freeFrames :=
  allocFrame_exact tenFrames_accounting

/-! ### Runs of frames -/

/-- `count` free frames from `first` on, inside the searched range. -/
def Fits (s : PhysicalMemoryManager) (count : Nat) (zone : Option MemoryZone) (first : Nat) : Prop :=
  (s.searchRange zone).1 ≤ first ∧ first + count ≤ (s.searchRange zone).2 ∧ ∀ k < count, s.Free (first+k)

/-- The `while` loop of `alloc_frames_contiguous` from `current` on ends, and with what. -/
inductive Searches (s : PhysicalMemoryManager) (count hi : Nat) : Nat → Option Nat → Prop where
  | beyond {current} : ¬ u64 (current+count) ≤ hi → Searches s count hi current none
  | found {current} : u64 (current+count) ≤ hi → s.firstUsed current count = none →
      Searches s count hi current (some current)
  | next {current frame r} : u64 (current+count) ≤ hi → s.firstUsed current count = some frame →
      Searches s count hi (u64 (frame+1)) r → Searches s count hi current r

theorem searchRange_le (s : PhysicalMemoryManager) (zone : Option MemoryZone) :
    (s.searchRange zone).1 ≤ 2^52 ∧ (s.searchRange zone).2 ≤ s.totalFrames := by
  cases zone with
  | none => exact ⟨Nat.zero_le _, le_rfl⟩
  | some z =>
    have hstart : z.frameStart ≤ 2^52 := by cases z <;> decide
    exact ⟨hstart, Nat.min_le_right _ _⟩

theorem testBit_false {frame : Nat} (h : s.testBit frame = false) : s.Free frame := by
  unfold testBit at h
  split at h
  · cases h
  · exact ⟨by omega, h⟩

theorem testBit_free {frame : Nat} (h : s.Free frame) : s.testBit frame = false := by
  unfold testBit
  rw [if_neg (Nat.not_le.mpr h.1)]
  exact h.2

/-- Every frame before the first used one is free, and the scan passes at most one frame that is not tracked. -/
theorem firstUsed_first {frame n u : Nat} (hframe : frame < 2^64) (h : s.firstUsed frame n = some u) :
    frame ≤ u ∧ u < frame + n ∧ ¬ s.Free u ∧ (u ≤ s.totalFrames ∨ u = frame) := by
  induction n generalizing frame with
  | zero => cases h
  | succ n ih =>
    rw [firstUsed] at h
    split at h
    · rename_i hused
      cases h
      refine ⟨le_rfl, by omega, fun hfree => ?_, .inr rfl⟩
      rw [testBit_free hfree] at hused
      cases hused
    · rename_i hfree
      have hlt := (testBit_false (by simpa using hfree)).1
      have htotal := s.total_le
      have hwrap : u64 (frame+1) = frame+1 := u64_of_lt (by omega)
      rw [hwrap] at h
      obtain ⟨h₁, h₂, h₃, h₄⟩ := ih (by omega) h
      exact ⟨by omega, by omega, h₃, by omega⟩

/-- Where the loop can be: past the last frame only for counts so large that the guard's sum wraps. -/
def SearchAt (count current : Nat) : Prop := current ≤ 2^52 ∨ (2^64 ≤ count + 2^52 ∧ current ≤ 2^53)

theorem SearchAt.next {count hi current u n : Nat} (hat : SearchAt count current) (hhi : hi ≤ s.totalFrames)
    (hcount : count < 2^64) (hguard : u64 (current+count) ≤ hi) (hu : s.firstUsed current n = some u) :
    SearchAt count (u64 (u+1)) ∧ current < u64 (u+1) ∧ u64 (u+1) = u+1 := by
  have htotal := s.total_le
  have hcur : current ≤ 2^53 := by
    unfold SearchAt at hat
    omega
  obtain ⟨hle, _, _, hplace⟩ := firstUsed_first (by omega) hu
  have hwrap : u64 (u+1) = u+1 := u64_of_lt (by omega)
  rw [hwrap]
  refine ⟨?_, by omega, rfl⟩
  unfold SearchAt at hat ⊢
  unfold u64 at hguard
  omega

/-- The loop moves on in every round and never past `2^53`, so it ends well within its fuel. -/
theorem runSearch_searches {count hi fuel current : Nat} (hat : SearchAt count current)
    (hhi : hi ≤ s.totalFrames) (hcount : count < 2^64) (hfuel : 2^53 < current + fuel) :
    Searches s count hi current (s.runSearch count hi fuel current) := by
  induction fuel generalizing current with
  | zero =>
    unfold SearchAt at hat
    omega
  | succ fuel ih =>
    rw [runSearch]
    by_cases hguard : u64 (current+count) ≤ hi
    · rw [if_pos hguard]
      cases hu : s.firstUsed current count with
      | none => exact .found hguard hu
      | some u =>
        obtain ⟨hat', hlt, _⟩ := hat.next hhi hcount hguard hu
        exact .next hguard hu (ih hat' (by omega))
    · rw [if_neg hguard]
      exact .beyond hguard

/-- No fitting run starts where the loop has passed, so what it finds is the lowest. -/
theorem Searches.lowest {count hi current : Nat} {r : Option Nat} (h : Searches s count hi current r)
    (hat : SearchAt count current) (hhi : hi ≤ s.totalFrames) (hpos : 0 < count) (hcount : count < 2^64) :
    (∀ f, current ≤ f → f + count ≤ hi → (∀ k < count, s.Free (f+k)) → ∃ first ≤ f, r = some first) ∧
    ∀ first, r = some first → current ≤ first ∧ first + count ≤ hi ∧ ∀ k < count, s.Free (first+k) := by
  have htotal := s.total_le
  induction h with
  | beyond hguard =>
    refine ⟨fun f hcur hf _ => ?_, fun first hr => by cases hr⟩
    rw [u64_of_lt (by omega)] at hguard
    omega
  | @found current hguard hnone =>
    have hfree := firstUsed_none hnone
    refine ⟨fun f hcur _ _ => ⟨current, hcur, rfl⟩, ?_⟩
    intro first hr
    obtain rfl := Option.some.inj hr
    have hlast := (hfree (count-1) (by omega)).1
    rw [u64_of_lt (by omega)] at hguard
    exact ⟨le_rfl, hguard, hfree⟩
  | @next current u r hguard hu hrest ih =>
    obtain ⟨hat', _, hwrap⟩ := hat.next hhi hcount hguard hu
    have hcur : current < 2^64 := by
      unfold SearchAt at hat
      omega
    obtain ⟨hle, hlt, hused, _⟩ := firstUsed_first hcur hu
    obtain ⟨hcomplete, hsound⟩ := ih hat'
    rw [hwrap] at hcomplete hsound
    constructor
    · intro f hf hend hfree
      -- a run from `f ≤ u` on would hold the used frame
      have hpast : u + 1 ≤ f := by
        by_contra hnot
        have := hfree (u-f) (by omega)
        rw [Nat.add_sub_cancel' (by omega)] at this
        exact hused this
      exact hcomplete f hpast hend hfree
    · intro first hr
      obtain ⟨h₁, h₂⟩ := hsound first hr
      exact ⟨by omega, h₂⟩

private theorem allocFramesContiguous_many {count : Nat} (hmany : 2 ≤ count) (zone : Option MemoryZone) :
    allocFramesContiguous count zone s =
      match s.runSearch count (s.searchRange zone).2 (2^64) (s.searchRange zone).1 with
      | some first => (.ok (u64 (first*4096)),
          { takeRun first count s with freeFrames := u64Sub (takeRun first count s).freeFrames count })
      | none => (.error ⟨13, "No contiguous frames available!", false⟩, s) := by
  have h₀ : count ≠ 0 := by omega
  have h₁ : count ≠ 1 := by omega
  exact (if_neg h₀).trans (if_neg h₁)

/-- `alloc_frames_contiguous` ends, fails only if no run fits, and else takes the lowest run and nothing more. -/
theorem allocFramesContiguous_lowest (s : PhysicalMemoryManager) {count : Nat} (hmany : 2 ≤ count)
    (hcount : count < 2^64) (zone : Option MemoryZone) :
    Searches s count (s.searchRange zone).2 (s.searchRange zone).1
      (s.runSearch count (s.searchRange zone).2 (2^64) (s.searchRange zone).1) ∧
    ((∃ addr, (allocFramesContiguous count zone s).1 = .ok addr) ↔ ∃ first, Fits s count zone first) ∧
    ∀ addr t, allocFramesContiguous count zone s = (.ok addr, t) → ∃ first, addr = first*4096 ∧
      IsLeast {f | Fits s count zone f} first ∧
      ∀ k, Bitmap.test t.bitmap k ≠ Bitmap.test s.bitmap k ↔ first ≤ k ∧ k < first+count := by
  obtain ⟨hlo, hhi⟩ := searchRange_le s zone
  have htotal := s.total_le
  have hat : SearchAt count (s.searchRange zone).1 := .inl hlo
  have hends : Searches s count (s.searchRange zone).2 (s.searchRange zone).1
      (s.runSearch count (s.searchRange zone).2 (2^64) (s.searchRange zone).1) :=
    runSearch_searches hat hhi hcount (by omega)
  obtain ⟨hcomplete, hsound⟩ := hends.lowest hat hhi (by omega) hcount
  refine ⟨hends, ?_⟩
  rw [allocFramesContiguous_many hmany zone]
  cases hfound : s.runSearch count (s.searchRange zone).2 (2^64) (s.searchRange zone).1 with
  | none =>
    rw [hfound] at hcomplete
    refine ⟨⟨?_, ?_⟩, fun addr t hr => by cases hr⟩
    · rintro ⟨addr, haddr⟩
      cases haddr
    · rintro ⟨f, h₁, h₂, h₃⟩
      obtain ⟨first, _, hr⟩ := hcomplete f h₁ h₂ h₃
      cases hr
  | some first =>
    rw [hfound] at hcomplete
    obtain ⟨hstart, hend, hfree⟩ := hsound first hfound
    refine ⟨⟨fun _ => ⟨first, hstart, hend, hfree⟩, fun _ => ⟨_, rfl⟩⟩, ?_⟩
    intro addr t hr
    obtain ⟨rfl, rfl⟩ : u64 (first*4096) = addr ∧ _ = t := by simpa using hr
    refine ⟨first, u64_of_lt (by omega), ⟨⟨hstart, hend, hfree⟩, ?_⟩, ?_⟩
    · rintro f ⟨h₁, h₂, h₃⟩
      obtain ⟨first', hle, hr'⟩ := hcomplete f h₁ h₂ h₃
      obtain rfl := Option.some.inj hr'
      exact hle
    · intro k
      change Bitmap.test (takeRun first count s).bitmap k ≠ Bitmap.test s.bitmap k ↔ _
      rw [test_takeRun (by omega)]
      by_cases hk : first ≤ k ∧ k < first+count
      · have hclear := (hfree (k-first) (by omega)).2
        rw [Nat.add_sub_cancel' hk.1] at hclear
        simp [hk, hclear]
      · simp [hk]

theorem allocFramesContiguous_lowest_tenFrames :
    ((∃ addr, (allocFramesContiguous 4 (some .dma) tenFrames).1 = .ok addr) ↔
      ∃ first, Fits tenFrames 4 (some .dma) first) :=
  (allocFramesContiguous_lowest tenFrames (by decide) (by decide) (some .dma)).2.1

/-! ### Freeing a run -/

/-- Frame `f` is tracked and its bit is set. -/
def InUse (s : PhysicalMemoryManager) (f : Nat) : Prop :=
  f < s.totalFrames ∧ Bitmap.test s.bitmap f = true

instance (s : PhysicalMemoryManager) (f : Nat) : Decidable (s.InUse f) := inferInstanceAs (Decidable (_ ∧ _))

/-- The rounds of `free_frames_contiguous`. -/
private def freeRounds (base n : Nat) : Op Unit :=
  Fallible.forRange (fun i => freeFrame (u64 (base + u64 (i*4096)))) 0 n

/-- The frame of round `i`, as long as the ones before it were tracked. -/
private theorem round_frame {base i : Nat} (hbase : base < 2^64) (halign : base % 4096 = 0)
    (hin : i = 0 ∨ base/4096 + i ≤ s.totalFrames) : u64 (base + u64 (i*4096)) = (base/4096 + i)*4096 := by
  have htotal := s.total_le
  rw [u64_of_lt (show i*4096 < 2^64 by omega), u64_of_lt (by omega)]
  omega

private theorem freeFrame_inUse {f : Nat} (h : s.InUse f) : freeFrame (f*4096) s = (.ok (), s.giving f) := by
  have hdiv : f*4096/4096 = f := Nat.mul_div_cancel f (by decide)
  rcases freeFrame_run (f*4096) s with ⟨_, _, _, he⟩ | ⟨hnot, _⟩
  · rwa [hdiv] at he
  · rw [hdiv] at hnot
    exact absurd ⟨Nat.mul_mod_left f 4096, h⟩ hnot

private theorem freeFrame_notInUse {f : Nat} (h : ¬ s.InUse f) : ∃ e, freeFrame (f*4096) s = (.error e, s) := by
  have hdiv : f*4096/4096 = f := Nat.mul_div_cancel f (by decide)
  rcases freeFrame_run (f*4096) s with ⟨_, hlt, hset, _⟩ | ⟨_, he⟩
  · rw [hdiv] at hlt hset
    exact absurd ⟨hlt, hset⟩ h
  · exact he

/-- As long as every frame is in use the rounds succeed and clear exactly these frames' bits. -/
private theorem freeRounds_ok {base n : Nat} (hbase : base < 2^64) (halign : base % 4096 = 0)
    (hused : ∀ k < n, s.InUse (base/4096 + k)) : ∃ t, freeRounds base n s = (.ok (), t) ∧
      t.totalFrames = s.totalFrames ∧
      ∀ k, Bitmap.test t.bitmap k = (!decide (base/4096 ≤ k ∧ k < base/4096 + n) && Bitmap.test s.bitmap k) := by
  induction n with
  | zero => exact ⟨s, rfl, rfl, fun k => by simp; omega⟩
  | succ n ih =>
    obtain ⟨t, hrun, htotal, hbits⟩ := ih fun k hk => hused k (by omega)
    obtain ⟨hlt, hset⟩ := hused n (by omega)
    have hframe : t.InUse (base/4096 + n) := by
      refine ⟨htotal ▸ hlt, ?_⟩
      rw [hbits, hset]
      simp
    refine ⟨t.giving (base/4096 + n), ?_, htotal, ?_⟩
    · rw [freeRounds, Fallible.forRange_last, Fallible.bind_run, ← freeRounds, hrun, Nat.zero_add]
      dsimp only
      rw [round_frame hbase halign (s := s) (.inr hlt.le)]
      exact freeFrame_inUse hframe
    · intro k
      rw [test_giving, hbits]
      by_cases hk : k = base/4096 + n
      · simp [hk]
      · have hrange : (base/4096 ≤ k ∧ k < base/4096 + (n+1)) ↔ base/4096 ≤ k ∧ k < base/4096 + n := by omega
        simp [hk, hrange]

/-- A frame that is not in use ends the rounds; what the earlier rounds freed stays freed. -/
private theorem freeRounds_error {base n k : Nat} (hbase : base < 2^64) (halign : base % 4096 = 0)
    (hbefore : ∀ j < k, s.InUse (base/4096 + j)) (hk : ¬ s.InUse (base/4096 + k)) (hn : k < n) : ∃ e t,
      freeRounds base n s = (.error e, t) ∧
      freeRounds base k s = (.ok (), t) := by
  induction n, hn using Nat.le_induction with
  | base =>
    obtain ⟨t, hrun, htotal, hbits⟩ := freeRounds_ok hbase halign hbefore
    have hin : k = 0 ∨ base/4096 + k ≤ s.totalFrames := by
      cases k with
      | zero => exact .inl rfl
      | succ k => exact .inr (hbefore k (Nat.lt_succ_self k)).1
    have hframe : ¬ t.InUse (base/4096 + k) := by
      rintro ⟨hlt, hset⟩
      rw [hbits] at hset
      exact hk ⟨htotal ▸ hlt, by simpa using hset⟩
    obtain ⟨e, he⟩ := freeFrame_notInUse hframe
    refine ⟨e, t, ?_, hrun⟩
    rw [freeRounds, Fallible.forRange_last, Fallible.bind_run, ← freeRounds, hrun, Nat.zero_add]
    dsimp only
    rw [round_frame hbase halign hin, he]
  | succ n _ ih =>
    obtain ⟨e, t, hrun, hrounds⟩ := ih
    refine ⟨e, t, ?_, hrounds⟩
    rw [freeRounds, Fallible.forRange_last, Fallible.bind_run, ← freeRounds, hrun]

/-- An error of `free_frames_contiguous` leaves everything as it was exactly if the call has nothing to free,
is refused at once, or cannot fail: the rounds before a failing one are not undone. -/
theorem freeFramesContiguous_unchanged_iff (s : PhysicalMemoryManager) {baseAddr : Nat} (hbase : baseAddr < 2^64)
    (count : Nat) :
    (∀ e t, freeFramesContiguous baseAddr count s = (.error e, t) → t.bitmap = s.bitmap ∧
      t.freeFrames = s.freeFrames ∧ t.zones = s.zones ∧ t.lastAllocIndex = s.lastAllocIndex) ↔
    count = 0 ∨ baseAddr % 4096 ≠ 0 ∨ ¬ s.InUse (baseAddr/4096) ∨ ∀ k < count, s.InUse (baseAddr/4096 + k) := by
  rw [freeFramesContiguous]
  by_cases hzero : count = 0
  · simp [hzero]
  · by_cases halign : baseAddr % 4096 = 0
    · rw [if_neg hzero, if_neg (not_not.mpr halign), ← freeRounds]
      simp only [hzero, halign, ne_eq, not_true_eq_false, false_or]
      by_cases hall : ∀ k < count, s.InUse (baseAddr/4096 + k)
      · obtain ⟨t, hrun, _⟩ := freeRounds_ok hbase halign hall
        refine ⟨fun _ => .inr hall, fun _ e t' he => ?_⟩
        rw [hrun] at he
        cases he
      · -- the first frame of the run that is not in use
        classical
        push Not at hall
        obtain ⟨hlt, hnot⟩ := Nat.find_spec hall
        have hbefore : ∀ j < Nat.find hall, s.InUse (baseAddr/4096 + j) := by
          intro j hj
          by_contra hj'
          exact Nat.find_min hall hj ⟨by omega, hj'⟩
        obtain ⟨e, t, hrun, hrounds⟩ := freeRounds_error hbase halign hbefore hnot hlt
        have hstart : Nat.find hall = 0 ↔ ¬ s.InUse (baseAddr/4096) := by
          refine (Nat.find_eq_zero hall).trans ⟨And.right, fun h => ⟨Nat.pos_of_ne_zero hzero, h⟩⟩
        constructor
        · intro hsame
          left
          intro hfirst
          have hpos : 0 < Nat.find hall := Nat.pos_of_ne_zero fun hz => hstart.mp hz hfirst
          obtain ⟨t', hrounds', _, hbits⟩ := freeRounds_ok hbase halign hbefore
          obtain rfl : t = t' := (Prod.mk.inj (hrounds.symm.trans hrounds')).2
          have hclear := hbits (baseAddr/4096)
          rw [(hsame e t hrun).1, hfirst.2] at hclear
          simp [hpos] at hclear
        · rintro (hfirst | hused) e' t' he
          · rw [hstart.mpr hfirst] at hrounds
            obtain rfl : s = t := (Prod.mk.inj hrounds).2
            obtain ⟨_, rfl⟩ := Prod.mk.inj (hrun.symm.trans he)
            exact ⟨rfl, rfl, rfl, rfl⟩
          · exact absurd (hused _ hlt) hnot
    · rw [if_neg hzero, if_pos halign]
      refine ⟨fun _ => .inr (.inl halign), fun _ e t he => ?_⟩
      obtain ⟨_, rfl⟩ := Prod.mk.inj he
      exact ⟨rfl, rfl, rfl, rfl⟩

/-- Ten frames of which only the first is in use. -/
def firstInUse : PhysicalMemoryManager :=
  { tenFrames with bitmap := fun i => if i = 0 then 1#8 else 0xFC#8, freeFrames := 9 }

theorem freeFramesContiguous_unchanged_firstInUse :
    (∀ e t, freeFramesContiguous 4096 3 firstInUse = (.error e, t) → t.bitmap = firstInUse.bitmap ∧
      t.freeFrames = firstInUse.freeFrames ∧ t.zones = firstInUse.zones ∧
      t.lastAllocIndex = firstInUse.lastAllocIndex) ↔
    3 = 0 ∨ 4096 % 4096 ≠ 0 ∨ ¬ firstInUse.InUse (4096/4096) ∨ ∀ k < 3, firstInUse.InUse (4096/4096 + k) :=
  freeFramesContiguous_unchanged_iff firstInUse (by decide) 3

/-- Freeing frames 0 and 1 fails at the free frame 1 and leaves frame 0 freed. -/
theorem freeFramesContiguous_partly : ¬ ∀ (s : PhysicalMemoryManager) (baseAddr count : Nat) e t,
    freeFramesContiguous baseAddr count s = (.error e, t) → t.bitmap = s.bitmap ∧
      t.freeFrames = s.freeFrames ∧ t.zones = s.zones ∧ t.lastAllocIndex = s.lastAllocIndex := by
  intro hsame
  have hcount := (hsame firstInUse 0 2 ⟨7, "Double free detected!", false⟩ (firstInUse.giving 0) (by rfl)).2.1
  cases hcount

end Nafuraito.Memory.PhysicalMemoryManager
