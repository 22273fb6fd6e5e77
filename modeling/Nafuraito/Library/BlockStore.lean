import Nafuraito.Library.Writes

/-! A store of blocks of several units each. Its requests may fail; a write that fails has stored a first part of its
units. -/
namespace Nafuraito.Library.BlockStore
open Function
variable {B α : Type} [DecidableEq B]

inductive Request (B α : Type) where
  | read (block : B)
  | write (block : B) (data : List α)
  deriving DecidableEq

/-- The answer to a request is the data of a read, nothing for a write, or none if it fails. -/
abbrev Log (B α : Type) := List (Request B α × Option (List α))

/-- One request on blocks of units of `size`. -/
inductive Step (size : Nat) (c : B → List α) : Request B α × Option (List α) → (B → List α) → Prop
  | read (block : B) : Step size c (.read block, some (c block)) c
  | readFails (block : B) : Step size c (.read block, none) c
  | write (block : B) (data : List α) : Step size c (.write block data, some []) (update c block data)
  | writeFails (block : B) (data : List α) (units : Nat) : Step size c (.write block data, none)
      (update c block (data.take (size*units) ++ (c block).drop (size*units)))

/-- A log of requests with their answers, in their order. -/
inductive Run (size : Nat) : (B → List α) → Log B α → (B → List α) → Prop
  | nil (c : B → List α) : Run size c [] c
  | cons {c c' c'' : B → List α} {entry : Request B α × Option (List α)} {log : Log B α}
      (hstep : Step size c entry c') (hrun : Run size c' log c'') : Run size c (entry :: log) c''

def writtenBy : Request B α × Option (List α) → Option (B × List α)
  | (.write block data, some _) => some (block, data)
  | _ => none

/-- The writes that succeeded. -/
def written (log : Log B α) : List (B × List α) := log.filterMap writtenBy

/-- No write of the block failed. -/
def Intact (block : B) (log : Log B α) : Prop := ∀ data, (.write block data, none) ∉ log

variable {size : Nat} {c c' : B → List α} {log : Log B α} {block : B}

/-- A block without failed writes holds what was written to it last. -/
theorem Run.content (h : Run size c log c') (hintact : Intact block log) :
    c' block = (lastWrite (written log) block).getD (c block) := by
  induction h with
  | nil c => rfl
  | @cons c c' c'' entry log hstep hrun ih =>
    rw [ih fun data hmem => hintact data (List.mem_cons_of_mem entry hmem)]
    cases hstep with
    | read b => rfl
    | readFails b => rfl
    | write b data =>
      rw [show written ((Request.write b data, some []) :: log) = [(b, data)] ++ written log from rfl, lastWrite_append]
      by_cases hb : b = block
      · subst hb
        cases lastWrite (written log) b <;> simp [lastWrite]
      · cases lastWrite (written log) block <;> simp [lastWrite, hb, Ne.symm hb]
    | writeFails b data units =>
      have hb : block ≠ b := fun heq => hintact data (heq ▸ List.mem_cons_self)
      rw [show written ((Request.write b data, none) :: log) = written log from rfl, update_of_ne hb]

/-- Where nothing failed, the blocks are those of the writes, in their order. -/
theorem Run.content_all (h : Run size c log c') (hall : ∀ entry ∈ log, entry.2 ≠ none) :
    c' = applyWrites c (written log) := by
  funext block
  rw [applyWrites_apply, h.content fun data hmem => hall _ hmem rfl]

theorem run_append {log' : Log B α} : Run size c (log ++ log') c' ↔ ∃ m, Run size c log m ∧ Run size m log' c' := by
  induction log generalizing c with
  | nil =>
    constructor
    · exact fun h => ⟨c, .nil c, h⟩
    · rintro ⟨m, h, h'⟩
      cases h
      exact h'
  | cons entry log ih =>
    constructor
    · intro h
      cases h with
      | cons hstep hrun =>
        obtain ⟨m, h, h'⟩ := ih.mp hrun
        exact ⟨m, .cons hstep h, h'⟩
    · rintro ⟨m, h, h'⟩
      cases h with
      | cons hstep hrun => exact .cons hstep (ih.mpr ⟨m, hrun, h'⟩)

/-- A read that succeeds returns what was written last. -/
theorem Run.read_last {bytes : List α} (h : Run size c (log ++ [(.read block, some bytes)]) c')
    (hintact : Intact block log) : bytes = (lastWrite (written log) block).getD (c block) := by
  obtain ⟨m, hlog, hread⟩ := run_append.mp h
  rw [← hlog.content hintact]
  cases hread with
  | cons hstep _ =>
    cases hstep
    rfl

/-! ### Units -/

/-- The `u`-th unit of some data. -/
def unit (size u : Nat) (data : List α) : List α := (data.drop (size*u)).take size

/-- Where data meet at the end of a unit, each unit is from one of them. -/
theorem unit_torn {n : Nat} {data old : List α} (hdata : data.length = size*n) (hold : old.length = size*n)
    (k u : Nat) :
    unit size u (data.take (size*k) ++ old.drop (size*k)) = unit size u data ∨
      unit size u (data.take (size*k) ++ old.drop (size*k)) = unit size u old := by
  rcases Nat.lt_or_ge u k with hlt | hge
  · left
    have hplace : size*u + size ≤ size*k := by
      rw [← Nat.mul_succ]
      exact Nat.mul_le_mul_left size hlt
    rcases Nat.lt_or_ge k n with hk | hk
    · have hk := Nat.mul_le_mul_left size (Nat.le_of_lt hk)
      rw [unit, unit, List.drop_append_of_le_length (by rw [List.length_take]; omega),
        List.take_append_of_le_length (by rw [List.length_drop, List.length_take]; omega), List.drop_take,
        List.take_take, Nat.min_eq_left (by omega)]
    · have hk := Nat.mul_le_mul_left size hk
      rw [List.take_of_length_le (by omega), List.drop_eq_nil_of_le (by omega), List.append_nil]
  · right
    have hplace := Nat.mul_le_mul_left size hge
    have hlength : (data.take (size*k)).length = min (size*k) (size*n) := by rw [List.length_take, hdata]
    rcases Nat.lt_or_ge n k with hk | hk
    · have hk := Nat.mul_le_mul_left size (Nat.le_of_lt hk)
      rw [unit, unit, List.drop_eq_nil_of_le, List.drop_eq_nil_of_le (by omega)]
      rw [List.length_append, hlength, List.length_drop]
      omega
    · have hk := Nat.mul_le_mul_left size hk
      rw [unit, unit, List.drop_append, List.drop_eq_nil_of_le (by omega), List.nil_append, List.drop_drop, hlength,
        Nat.min_eq_left hk, Nat.add_sub_cancel' hplace]

/-- One request: a block keeps its length, and each of its units is left or comes from the data. -/
theorem Step.unit {n : Nat} {entry : Request B α × Option (List α)} (h : Step size c entry c')
    (hlength : (c block).length = size*n)
    (hwrites : ∀ data answer, entry = (.write block data, answer) → data.length = size*n) (u : Nat) :
    (c' block).length = size*n ∧ (unit size u (c' block) = unit size u (c block) ∨
      ∃ data answer, entry = (.write block data, answer) ∧ unit size u (c' block) = unit size u data) := by
  cases h with
  | read b => exact ⟨hlength, .inl rfl⟩
  | readFails b => exact ⟨hlength, .inl rfl⟩
  | write b data =>
    by_cases hb : b = block
    · subst hb
      rw [update_self]
      exact ⟨hwrites data _ rfl, .inr ⟨data, _, rfl, rfl⟩⟩
    · rw [update_of_ne (Ne.symm hb)]
      exact ⟨hlength, .inl rfl⟩
  | writeFails b data units =>
    by_cases hb : b = block
    · subst hb
      have hdata := hwrites data _ rfl
      rw [update_self]
      refine ⟨by rw [List.length_append, List.length_take, List.length_drop]; omega, ?_⟩
      rcases unit_torn hdata hlength units u with hnew | hold
      · exact .inr ⟨data, _, rfl, hnew⟩
      · exact .inl hold
    · rw [update_of_ne (Ne.symm hb)]
      exact ⟨hlength, .inl rfl⟩

/-- Whatever fails, a unit of a block holds what it held at first or the same unit of some data written to the block. -/
theorem Run.unit {n : Nat} (h : Run size c log c') (hlength : (c block).length = size*n)
    (hwrites : ∀ data answer, (.write block data, answer) ∈ log → data.length = size*n) (u : Nat) :
    (c' block).length = size*n ∧ (unit size u (c' block) = unit size u (c block) ∨
      ∃ data answer, (.write block data, answer) ∈ log ∧ unit size u (c' block) = unit size u data) := by
  induction h with
  | nil c => exact ⟨hlength, .inl rfl⟩
  | @cons c c' c'' entry log hstep hrun ih =>
    have hentry : ∀ data answer, entry = (.write block data, answer) → data.length = size*n :=
      fun data answer h => hwrites data answer (h ▸ List.mem_cons_self)
    obtain ⟨hlength', hfirst⟩ := hstep.unit hlength hentry u
    obtain ⟨hlength'', hrest⟩ := ih hlength' fun data answer h => hwrites data answer (List.mem_cons_of_mem _ h)
    refine ⟨hlength'', ?_⟩
    rcases hrest with hkept | ⟨data, answer, hmem, hunit⟩
    · rcases hfirst with hold | ⟨data, answer, rfl, hunit⟩
      · exact .inl (hkept.trans hold)
      · exact .inr ⟨data, answer, List.mem_cons_self, hkept.trans hunit⟩
    · exact .inr ⟨data, answer, List.mem_cons_of_mem _ hmem, hunit⟩

end Nafuraito.Library.BlockStore
