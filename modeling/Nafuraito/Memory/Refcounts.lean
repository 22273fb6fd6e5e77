import Nafuraito.Memory.CopyOnWrite

/-! The counts of tracked frames over runs of the counting calls. -/
namespace Nafuraito.Memory.Machine
variable {s : Machine}

inductive CountCall where
  | inc (phys : PhysAddr)
  | dec (phys : PhysAddr)
  | set (phys : PhysAddr) (count : BitVec 32)
  deriving DecidableEq

namespace CountCall

def phys : CountCall → PhysAddr
  | inc p => p
  | dec p => p
  | set p _ => p

def frame (c : CountCall) : Nat := physToFrameIndex c.phys

/-- The state after a call. -/
def after (s : Machine) : CountCall → Machine
  | inc p => (incRefcount p s).2
  | dec p => (decRefcount p s).2
  | set p count => setRefcount p count s

/-- The value a call returns, or stores. -/
def value (s : Machine) : CountCall → Except Stop (BitVec 32)
  | inc p => (incRefcount p s).1
  | dec p => (decRefcount p s).1
  | set _ count => .ok count

/-- A decrement that finds a count of 0. -/
def Underflows (s : Machine) : CountCall → Prop
  | dec p => getRefcount p s = 0
  | _ => False

end CountCall

/-- The state after a sequence of calls. -/
def runCounts (s : Machine) (calls : List CountCall) : Machine := calls.foldl CountCall.after s

theorem setRefcount_get {p q : PhysAddr} (count : BitVec 32) (hp : physToFrameIndex p < MAX_FRAMES) :
    getRefcount q (setRefcount p count s) =
      if physToFrameIndex q = physToFrameIndex p then count else getRefcount q s := by
  unfold getRefcount setRefcount
  rw [if_neg (Nat.not_le.mpr hp)]
  by_cases hq : physToFrameIndex q = physToFrameIndex p
  · rw [if_pos hq, hq, if_neg (Nat.not_le.mpr hp)]
    exact Function.update_self ..
  · rw [if_neg hq]
    split
    · rfl
    · exact Function.update_of_ne hq ..

/-- The count a call leaves behind. -/
private def CountCall.stored (s : Machine) : CountCall → BitVec 32
  | inc p => getRefcount p s + 1
  | dec p => getRefcount p s - 1
  | set _ count => count

private theorem after_eq {c : CountCall} (hc : c.frame < MAX_FRAMES) :
    c.after s = setRefcount c.phys (c.stored s) s := by
  have hlt : ¬ c.frame ≥ MAX_FRAMES := Nat.not_le.mpr hc
  cases c with
  | inc p => exact congrArg Prod.snd (if_neg hlt)
  | dec p => exact congrArg Prod.snd (if_neg hlt)
  | set p count => rfl

/-- A call returns what it stores unless it decrements a count of 0: then it returns 0 and
stores the wrapped count. -/
private theorem value_iff {c : CountCall} (hc : c.frame < MAX_FRAMES) :
    c.value s = .ok (c.stored s) ↔ ¬ c.Underflows s := by
  have hlt : ¬ c.frame ≥ MAX_FRAMES := Nat.not_le.mpr hc
  cases c with
  | inc p =>
    have hrun : incRefcount p s = _ := if_neg hlt
    simp [CountCall.value, CountCall.stored, CountCall.Underflows, hrun]
  | dec p =>
    have hrun : decRefcount p s = _ := if_neg hlt
    simp only [CountCall.value, CountCall.stored, CountCall.Underflows, hrun, Except.ok.injEq]
    by_cases h₀ : getRefcount p s = 0
    · simp [h₀]
    · have hpos : getRefcount p s > 0 := (BitVec.pos_iff_ne_zero _).mpr h₀
      rw [if_pos hpos]
      exact iff_of_true rfl h₀
  | set p count => simp [CountCall.value, CountCall.stored, CountCall.Underflows]

/-- A call leaves the counts of other frames alone. -/
theorem CountCall.after_other {c : CountCall} (hc : c.frame < MAX_FRAMES) {q : PhysAddr}
    (hq : physToFrameIndex q ≠ c.frame) : getRefcount q (c.after s) = getRefcount q s := by
  rw [after_eq hc, setRefcount_get _ hc]
  exact if_neg hq

theorem CountCall.after_self {c : CountCall} (hc : c.frame < MAX_FRAMES) :
    c.value s = .ok (getRefcount c.phys (c.after s)) ↔ ¬ c.Underflows s := by
  rw [after_eq hc, setRefcount_get _ hc, if_pos rfl]
  exact value_iff hc

theorem runCounts_other {calls : List CountCall} (h : ∀ c ∈ calls, c.frame < MAX_FRAMES) {q : PhysAddr}
    (hq : ∀ c ∈ calls, physToFrameIndex q ≠ c.frame) : getRefcount q (s.runCounts calls) = getRefcount q s := by
  induction calls generalizing s with
  | nil => rfl
  | cons c calls ih =>
    have hrest := ih (s := c.after s) (fun c' hc' => h c' (List.mem_cons_of_mem c hc'))
      fun c' hc' => hq c' (List.mem_cons_of_mem c hc')
    exact hrest.trans (CountCall.after_other (h c List.mem_cons_self) (hq c List.mem_cons_self))

/-- Over any run on tracked frames: a frame no call is for keeps its count, and the count of
every other frame is what its last call returned or stored unless that call decremented a
count of 0. -/
theorem runCounts_last (s : Machine) {calls : List CountCall} (h : ∀ c ∈ calls, c.frame < MAX_FRAMES) :
    (∀ q, (∀ c ∈ calls, physToFrameIndex q ≠ c.frame) → getRefcount q (s.runCounts calls) = getRefcount q s) ∧
      ∀ before last rest, calls = before ++ last :: rest → (∀ c ∈ rest, last.frame ≠ c.frame) →
        (last.value (s.runCounts before) = .ok (getRefcount last.phys (s.runCounts calls)) ↔
          ¬ last.Underflows (s.runCounts before)) := by
  refine ⟨fun q hq => runCounts_other h hq, fun before last rest hcalls hrest => ?_⟩
  subst hcalls
  have hlast : last.frame < MAX_FRAMES := h last (by simp)
  have hsplit : s.runCounts (before ++ last :: rest) = (last.after (s.runCounts before)).runCounts rest := by
    rw [runCounts, List.foldl_append]
    rfl
  rw [hsplit, runCounts_other (fun c hc => h c (by simp [hc])) hrest]
  exact CountCall.after_self hlast

/-- The counts as `init` leaves them. -/
def noCounts : Machine := ⟨none, none, fun _ => none, fun _ => 0, fun _ _ => 0, []⟩

theorem noCounts_last :
    (CountCall.dec ⟨0x1000#64⟩).value (noCounts.runCounts [.inc ⟨0x1000#64⟩, .inc ⟨0x1000#64⟩]) =
      .ok (getRefcount ⟨0x1000#64⟩
        (noCounts.runCounts [.inc ⟨0x1000#64⟩, .inc ⟨0x1000#64⟩, .dec ⟨0x1000#64⟩, .set ⟨0x2000#64⟩ 7])) :=
  ((runCounts_last noCounts (by decide)).2 [.inc ⟨0x1000#64⟩, .inc ⟨0x1000#64⟩] (.dec ⟨0x1000#64⟩)
    [.set ⟨0x2000#64⟩ 7] rfl (by decide)).mpr (by simp only [CountCall.Underflows]; decide)

/-- One decrement too many returns 0 and leaves the largest count. -/
theorem noCounts_underflow : (∀ c ∈ [CountCall.inc ⟨0x1000#64⟩, .dec ⟨0x1000#64⟩, .dec ⟨0x1000#64⟩],
    c.frame < MAX_FRAMES) ∧
    (CountCall.dec ⟨0x1000#64⟩).value (noCounts.runCounts [.inc ⟨0x1000#64⟩, .dec ⟨0x1000#64⟩]) = .ok 0 ∧
    getRefcount ⟨0x1000#64⟩ (noCounts.runCounts [.inc ⟨0x1000#64⟩, .dec ⟨0x1000#64⟩, .dec ⟨0x1000#64⟩])
      = 0xFFFFFFFF#32 :=
  ⟨by decide, by rfl, by rfl⟩

end Nafuraito.Memory.Machine
