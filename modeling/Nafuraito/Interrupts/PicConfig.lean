import Mathlib.Data.List.Basic
import Nafuraito.Interrupts.Pic

/-! `remap` leaves the controllers in one and the same mode, whatever they were in and whatever devices do meanwhile. -/
namespace Nafuraito.Interrupts

/-! ### Modes -/

/-- What the initialization words decide. -/
structure Mode where
  base : BitVec 8
  cascade : BitVec 8
  awaited : Awaited
  autoEoi : Bool
  specialMask : Bool
  highest : Fin 8
  deriving DecidableEq

/-- Fully nested, ended by command, and open for masks. -/
def Mode.ready (base cascade : BitVec 8) : Mode := ⟨base, cascade, .ocw1, false, false, lineNumber 0⟩

namespace Controller

def mode (c : Controller) : Mode := ⟨c.base, c.cascade, c.awaited, c.autoEoi, c.specialMask, c.highest⟩

/-- All but the requests. -/
def config (c : Controller) : Controller := { c with irr := fun _ => false }

theorem config_data (c : Controller) (val : BitVec 8) : (c.data val).config = (c.config.data val).config := by
  have hawaited : c.config.awaited = c.awaited := rfl
  simp only [data, hawaited]
  cases c.awaited <;> rfl

theorem config_command (c : Controller) (val : BitVec 8) : (c.command val).config = (c.config.command val).config := by
  have hfirst : c.config.first c.config.blocks = c.first c.blocks := rfl
  simp only [command, ocw3, ocw2, hfirst]
  split
  · rfl
  · split
    · split <;> rfl
    · split
      · cases c.first c.blocks <;> rfl
      · rfl
      · cases c.first c.blocks <;> rfl
      · rfl
      · rfl
      · rfl

theorem data_irr (c : Controller) (val : BitVec 8) : (c.data val).irr = c.irr := by
  rw [data]
  split <;> rfl

/-- The output is asserted for lines that want service. -/
theorem request_wants {c : Controller} {i : Fin 8} (h : c.request = some i) : c.wants i = true := by
  obtain ⟨hfirst, hblocks⟩ := Option.filter_eq_some_iff.mp h
  rw [first, Option.map_eq_some_iff] at hfirst
  obtain ⟨r, hr, rfl⟩ := hfirst
  have := (Fin.find?_eq_some_iff.mp hr).1
  simpa [Bool.not_eq_true' _ ▸ hblocks] using this

theorem request_irr {c : Controller} {i : Fin 8} (h : c.request = some i) : c.irr i = true :=
  (Bool.and_eq_true_iff.mp (request_wants h)).1

end Controller

namespace Controllers
variable {p q : Controllers}

def config (p : Controllers) : Controllers := ⟨p.master.config, p.slave.config⟩

/-- A write as far as it does not concern requests. -/
def configure (p : Controllers) (w : Write) : Controllers :=
  (if w.1 = PIC1_COMMAND then { p with master := p.master.command w.2 }
    else if w.1 = PIC1_DATA then { p with master := p.master.data w.2 }
    else if w.1 = PIC2_COMMAND then { p with slave := p.slave.command w.2 }
    else if w.1 = PIC2_DATA then { p with slave := p.slave.data w.2 }
    else p).config

@[simp] theorem settle_slave (p q : Controllers) : (p.settle q).slave = q.slave := by
  rw [settle]
  split <;> rfl

@[simp] theorem settle_config (p q : Controllers) : (p.settle q).config = q.config := by
  rw [settle]
  split <;> rfl

theorem outb_pic1 (p : Controllers) (val : BitVec 8) :
    p.outb (PIC1_COMMAND, val) = p.settle { p with master := p.master.command val } := rfl

theorem outb_pic2 (p : Controllers) (val : BitVec 8) :
    p.outb (PIC2_COMMAND, val) = p.settle { p with slave := p.slave.command val } := rfl

theorem config_outb (p : Controllers) (w : Write) : (p.outb w).config = p.config.configure w := by
  rw [outb, settle_config, configure]
  split
  · exact congrArg (Controllers.mk · _) (Controller.config_command p.master w.2)
  · split
    · exact congrArg (Controllers.mk · _) (Controller.config_data p.master w.2)
    · split
      · exact congrArg (Controllers.mk _) (Controller.config_command p.slave w.2)
      · split
        · exact congrArg (Controllers.mk _) (Controller.config_data p.slave w.2)
        · rfl

theorem config_drive (p : Controllers) (line : Line) (level : Bool) : (p.drive line level).config = p.config := by
  cases line <;> exact settle_config _ _

/-! ### Writes with the devices in between -/

/-- A write of the driver, or a line of a device that changes. -/
inductive Access where
  | write (w : Write)
  | drive (line : Line) (level : Bool)
  deriving DecidableEq

namespace Access

def write? : Access → Option Write
  | write w => some w
  | drive _ _ => none

def writes : List Access → List Write := List.filterMap write?

end Access

def access (p : Controllers) : Access → Controllers
  | .write w => p.outb w
  | .drive line level => p.drive line level

theorem config_accesses (as : List Access) (p : Controllers) :
    (as.foldl access p).config = (Access.writes as).foldl configure p.config := by
  induction as generalizing p with
  | nil => rfl
  | cons a as ih =>
    rw [List.foldl_cons, ih]
    cases a with
    | write w => rw [access, config_outb]; rfl
    | drive line level => rw [access, config_drive]; rfl

/-! ### The cascade -/

/-- The slave asks for nothing that the master has not latched. -/
def Cascaded (p : Controllers) : Prop := p.slave.request.isSome = true → p.master.irr cascadeLine = true

theorem settle_cascaded (h : p.slave.request.isSome = true → q.slave.request.isSome = true →
    q.master.irr cascadeLine = true) : (p.settle q).Cascaded := by
  rw [Cascaded, settle_slave, settle]
  intro hq
  split
  · simp
  · rename_i hrise
    rw [hq, Bool.and_true, Bool.not_eq_true, Option.isNone_eq_false_iff] at hrise
    exact h hrise hq

/-- Only the command port of the master can lose a latched request of the slave, or a device on its line. -/
theorem Cascaded.access {a : Access} (h : p.Cascaded) (hwrite : ∀ val, a ≠ .write (PIC1_COMMAND, val))
    (hdrive : ∀ level, a ≠ .drive (.master cascadeLine) level) : (p.access a).Cascaded := by
  cases a with
  | drive line level =>
    cases line with
    | slave i => exact settle_cascaded fun hp _ => h hp
    | master i =>
      have hi : cascadeLine ≠ i := fun heq => hdrive level (heq ▸ rfl)
      refine settle_cascaded fun hp _ => ?_
      simpa [Function.update_of_ne hi] using h hp
  | write w =>
    have hw : w.1 ≠ PIC1_COMMAND := fun heq => hwrite w.2 (heq ▸ rfl)
    refine settle_cascaded fun hp _ => ?_
    simp only [if_neg hw]
    split
    · rw [Controller.data_irr]
      exact h hp
    · split
      · exact h hp
      · split <;> exact h hp

theorem cascaded_accesses {as : List Access} (hwrite : ∀ w ∈ Access.writes as, w.1 ≠ PIC1_COMMAND)
    (hdrive : ∀ level, .drive (.master cascadeLine) level ∉ as) (h : p.Cascaded) : (as.foldl access p).Cascaded := by
  induction as generalizing p with
  | nil => exact h
  | cons a as ih =>
    refine ih (fun w hw => hwrite w ?_) (fun level ha => hdrive level (List.mem_cons_of_mem a ha)) (h.access ?_ ?_)
    · cases a with
      | write v => exact List.mem_cons_of_mem v hw
      | drive line level => exact hw
    · rintro val rfl
      exact hwrite _ List.mem_cons_self rfl
    · rintro level rfl
      exact hdrive level List.mem_cons_self

/-- The first initialization word of the slave drops all it asks for. -/
theorem icw1_cascaded (p : Controllers) : (p.outb (PIC2_COMMAND, ICW1_INIT ||| ICW1_ICW4)).Cascaded := by
  rw [outb_pic2]
  refine settle_cascaded fun _ hq => ?_
  obtain ⟨i, hi⟩ := Option.isSome_iff_exists.mp hq
  have hnone : (p.slave.command (ICW1_INIT ||| ICW1_ICW4)).wants i = false := rfl
  rw [Controller.request_wants hi] at hnone
  cases hnone

/-- What `remap` leaves. -/
structure Remapped (offset1 offset2 : BitVec 8) (p q : Controllers) : Prop where
  master : q.master.mode = .ready (offset1 &&& 0xF8) 4
  slave : q.slave.mode = .ready (offset2 &&& 0xF8) 2
  imr : q.master.imr = 0 ∧ q.slave.imr = 0
  isr : q.master.isr = p.master.isr ∧ q.slave.isr = p.slave.isr
  cascaded : q.Cascaded

/-- The controllers as a firmware for real mode leaves them. -/
def firmware : Controllers := ⟨.waiting (fun _ => false) 0xB8 0x08 4, .waiting (fun _ => false) 0xB8 0x70 2⟩

end Controllers
end Nafuraito.Interrupts
