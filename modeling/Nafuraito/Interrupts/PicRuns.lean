import Nafuraito.Interrupts.PicService
import Nafuraito.Library.Labelled

/-! Runs of the kernel with the controllers: devices raise and drop their lines at any moment, handlers are entered and
acknowledge step by step, and the kernel masks and unmasks lines with an interrupt possibly between its read and its
write. -/
namespace Nafuraito.Interrupts
open Nafuraito.Library

/-- A call of `set_mask` or `clear_mask`. -/
inductive MaskOp where
  | set (irqLine : BitVec 8)
  | clear (irqLine : BitVec 8)
  deriving DecidableEq

namespace MaskOp

def irqLine : MaskOp → BitVec 8
  | set l | clear l => l

def port (op : MaskOp) : BitVec 16 := dataPort op.irqLine

/-- What it writes when it has read `value`. -/
def value : MaskOp → BitVec 8 → BitVec 8
  | set l, value => setMaskValue l value
  | clear l, value => clearMaskValue l value

end MaskOp

/-- A handler that runs: its vector, the line it runs for, and the writes it has left. -/
structure Handler where
  vector : Nat
  line : Option Line
  left : List Write

structure System where
  controllers : Controllers
  handler : Option Handler
  /-- A mask operation that has read its port, with the byte it is about to write. -/
  masking : Option (MaskOp × BitVec 8)

inductive Label where
  /-- A line rises; `fresh` if its last request is no longer pending. -/
  | rise (line : Line) (fresh : Bool)
  /-- A line falls; `lost` if its request was still pending. -/
  | fall (line : Line) (lost : Bool)
  /-- The output of the slave has fallen, and its line of the master follows. -/
  | cascadeFalls
  | interrupt (vector : Nat) (line : Option Line)
  /-- The next write of the handler. -/
  | acknowledge
  | readMask (op : MaskOp)
  | writeMask (op : MaskOp)
  deriving DecidableEq

namespace System
open Controllers

/-- An interrupt gate disables interrupts until the handler returns. -/
def step (s : System) : Label → Option System
  | .rise line fresh =>
    if line ≠ .master cascadeLine ∧ fresh = !s.controllers.pending line then
      some { s with controllers := s.controllers.drive line true }
    else none
  | .fall line lost =>
    if line ≠ .master cascadeLine ∧ lost = s.controllers.pending line then
      some { s with controllers := s.controllers.drive line false }
    else none
  | .cascadeFalls =>
    if s.controllers.slave.request = none then
      some { s with controllers := s.controllers.drive (.master cascadeLine) false }
    else none
  | .interrupt vector line =>
    let (v, l, controllers) := s.controllers.acknowledge
    if s.handler.isNone ∧ v = vector ∧ l = line then
      some { s with
        controllers := controllers
        handler := some ⟨vector, line, irqHandlerEoi (BitVec.ofNat 64 vector)⟩ }
    else none
  | .acknowledge => do
    let h ← s.handler
    match h.left with
    | [] => none
    | [w] => some { s with controllers := s.controllers.outb w, handler := none }
    | w :: ws => some { s with controllers := s.controllers.outb w, handler := some { h with left := ws } }
  | .readMask op =>
    if s.handler.isNone ∧ s.masking.isNone then
      some { s with masking := some (op, op.value (s.controllers.inb op.port)) }
    else none
  | .writeMask op => do
    let (op', value) ← s.masking
    if s.handler.isNone ∧ op' = op then
      some { s with controllers := s.controllers.outb (op.port, value), masking := none }
    else none

/-- Everything a step can be. -/
inductive Steps (s : System) : Label → System → Prop
  | rise (line : Line) (hline : line ≠ .master cascadeLine) :
      Steps s (.rise line (!s.controllers.pending line)) { s with controllers := s.controllers.drive line true }
  | fall (line : Line) (hline : line ≠ .master cascadeLine) :
      Steps s (.fall line (s.controllers.pending line)) { s with controllers := s.controllers.drive line false }
  | cascadeFalls (hs : s.controllers.slave.request = none) :
      Steps s .cascadeFalls { s with controllers := s.controllers.drive (.master cascadeLine) false }
  | interrupt (a : Nat × Option Line × Controllers) (ha : s.controllers.acknowledge = a) (hidle : s.handler = none) :
      Steps s (.interrupt a.1 a.2.1)
        { s with controllers := a.2.2, handler := some ⟨a.1, a.2.1, irqHandlerEoi (BitVec.ofNat 64 a.1)⟩ }
  | finish (h : Handler) (w : Write) (hh : s.handler = some h) (hleft : h.left = [w]) :
      Steps s .acknowledge { s with controllers := s.controllers.outb w, handler := none }
  | write (h : Handler) (w : Write) (ws : List Write) (hh : s.handler = some h) (hleft : h.left = w :: ws)
      (hws : ws ≠ []) :
      Steps s .acknowledge { s with controllers := s.controllers.outb w, handler := some { h with left := ws } }
  | readMask (op : MaskOp) :
      Steps s (.readMask op) { s with masking := some (op, op.value (s.controllers.inb op.port)) }
  | writeMask (op : MaskOp) (value : BitVec 8) (hmask : s.masking = some (op, value)) :
      Steps s (.writeMask op) { s with controllers := s.controllers.outb (op.port, value), masking := none }

theorem step_steps {s t : System} {l : Label} (h : s.step l = some t) : Steps s l t := by
  cases l with
  | rise line fresh =>
    simp only [step, Option.ite_none_right_eq_some, Option.some.injEq] at h
    obtain ⟨⟨hline, rfl⟩, rfl⟩ := h
    exact .rise line hline
  | fall line lost =>
    simp only [step, Option.ite_none_right_eq_some, Option.some.injEq] at h
    obtain ⟨⟨hline, rfl⟩, rfl⟩ := h
    exact .fall line hline
  | cascadeFalls =>
    simp only [step, Option.ite_none_right_eq_some, Option.some.injEq] at h
    obtain ⟨hs, rfl⟩ := h
    exact .cascadeFalls hs
  | interrupt vector line =>
    simp only [step, Option.ite_none_right_eq_some, Option.some.injEq, Option.isNone_iff_eq_none] at h
    obtain ⟨⟨hidle, rfl, rfl⟩, rfl⟩ := h
    exact .interrupt _ rfl hidle
  | acknowledge =>
    obtain ⟨handler, hh, h⟩ := Option.bind_eq_some_iff.mp h
    rcases hleft : handler.left with _ | ⟨w, _ | ⟨v, ws⟩⟩
    · simp [hleft] at h
    · simp only [hleft, Option.some.injEq] at h
      exact h ▸ .finish handler w hh hleft
    · simp only [hleft, Option.some.injEq] at h
      exact h ▸ .write handler w (v :: ws) hh hleft (List.cons_ne_nil v ws)
  | readMask op =>
    simp only [step, Option.ite_none_right_eq_some, Option.some.injEq] at h
    obtain ⟨_, rfl⟩ := h
    exact .readMask op
  | writeMask op =>
    obtain ⟨⟨op', value⟩, hmask, h⟩ := Option.bind_eq_some_iff.mp h
    simp only [Option.ite_none_right_eq_some, Option.some.injEq] at h
    obtain ⟨⟨_, rfl⟩, rfl⟩ := h
    exact .writeMask op' value hmask

/-! ### What is in service -/

/-- The line of the master that a handler holds in service. -/
def masterServed (h : Handler) : Option (Fin 8) :=
  match h.line with
  | some (.master i) => some i
  | some (.slave _) => some cascadeLine
  | none => if 40 ≤ h.vector then some cascadeLine else none

/-- The line of the slave it holds, until the first of its two writes. -/
def slaveServed (h : Handler) : Option (Fin 8) :=
  match h.line with
  | some (.slave j) => if h.left.length = 2 then some j else none
  | _ => none

/-- The handlers that there are. -/
def Valid (h : Handler) : Prop :=
  (h.left = [(PIC1_COMMAND, PIC_EOI)] ∨ 40 ≤ h.vector ∧ h.left = [(PIC2_COMMAND, PIC_EOI), (PIC1_COMMAND, PIC_EOI)]) ∧
  match h.line with
  | some l => h.vector = 32 + l.irq ∧ l ≠ .master cascadeLine
  | none => h.vector = 39 ∨ h.vector = 47

/-- What holds in every state of a run. -/
structure Sound (s : System) : Prop where
  operating : s.controllers.Operating
  valid : ∀ h ∈ s.handler, Valid h
  service : s.controllers.InService (s.handler.bind masterServed) (s.handler.bind slaveServed)
  masking : ∀ op value, s.masking = some (op, value) → value = op.value (s.controllers.inb op.port)

variable {s t : System} {p q : Controllers} {m n : Option (Fin 8)}

/-- Modes, masks and services do not depend on requests. -/
theorem operating_of_config (h : p.Operating) (hconfig : q.config = p.config) (hc : q.Cascaded) : q.Operating where
  master := (congrArg (fun r => r.master.mode) hconfig).trans h.master
  slave := (congrArg (fun r => r.slave.mode) hconfig).trans h.slave
  cascaded := hc

theorem inService_of_config (h : p.InService m n) (hconfig : q.config = p.config) : q.InService m n :=
  ⟨(congrArg (fun r => r.master.isr) hconfig).trans h.1, (congrArg (fun r => r.slave.isr) hconfig).trans h.2⟩

theorem inb_of_config (hconfig : q.config = p.config) (port : BitVec 16) : q.inb port = p.inb port := by
  have hm : q.master.imr = p.master.imr := congrArg (fun r => r.master.imr) hconfig
  have hs : q.slave.imr = p.slave.imr := congrArg (fun r => r.slave.imr) hconfig
  rw [inb, inb, hm, hs]

theorem Sound.of_config (h : s.Sound) (hconfig : q.config = s.controllers.config) (hc : q.Cascaded) :
    Sound { s with controllers := q } where
  operating := operating_of_config h.operating hconfig hc
  valid := h.valid
  service := inService_of_config h.service hconfig
  masking op value hmask := (h.masking op value hmask).trans (congrArg op.value (inb_of_config hconfig _).symm)

theorem Sound.drive (h : s.Sound) {line : Line} (hline : line ≠ .master cascadeLine) (level : Bool) :
    Sound { s with controllers := s.controllers.drive line level } :=
  h.of_config (config_drive _ _ _)
    (h.operating.cascaded.access (a := .drive line level) (by simp) (by simpa using hline))

theorem Sound.cascadeFalls (h : s.Sound) (hs : s.controllers.slave.request = none) :
    Sound { s with controllers := s.controllers.drive (.master cascadeLine) false } := by
  refine h.of_config (config_drive _ _ _) fun hsome => ?_
  have hslave : (s.controllers.drive (.master cascadeLine) false).slave = s.controllers.slave := settle_slave _ _
  rw [hslave, hs] at hsome
  cases hsome

/-- What an acknowledge cycle puts in service is what its handler has to take out. -/
theorem Sound.interrupt {a : Nat × Option Line × Controllers} (h : s.Sound) (ha : s.controllers.acknowledge = a)
    (hidle : s.handler = none) : Sound { s with
      controllers := a.2.2, handler := some ⟨a.1, a.2.1, irqHandlerEoi (BitVec.ofNat 64 a.1)⟩ } := by
  have hservice := h.service
  rw [hidle] at hservice
  obtain ⟨hm, hs⟩ := hservice
  have hack := acknowledge_acknowledges h.operating
  rw [ha] at hack
  cases hack with
  | spurious hnone =>
    refine ⟨h.operating, fun handler hh => ?_, ⟨hm, hs⟩, h.masking⟩
    cases hh
    exact ⟨.inl eoi_spurious, .inl rfl⟩
  | master i hreq hi =>
    refine ⟨⟨h.operating.master, h.operating.slave, fun hsome => ?_⟩, fun handler hh => ?_, ⟨?_, hs⟩, h.masking⟩
    · simpa [Controller.acknowledge, Function.update_of_ne hi.symm] using h.operating.cascaded hsome
    · cases hh
      exact ⟨.inl (eoi_master i), rfl, by simpa using hi⟩
    · exact Controller.acknowledge_isr h.operating.master hm i
  | spuriousSlave hreq hnone =>
    refine ⟨⟨h.operating.master, h.operating.slave, fun hsome => ?_⟩, fun handler hh => ?_, ⟨?_, hs⟩, h.masking⟩
    · rw [hnone] at hsome
      cases hsome
    · cases hh
      exact ⟨.inr ⟨Nat.le_add_right 40 7, eoi_spuriousSlave⟩, .inr rfl⟩
    · exact Controller.acknowledge_isr h.operating.master hm cascadeLine
  | slave j hreq hsome =>
    have hquiet := Controller.request_acknowledged h.operating.slave hsome
    refine ⟨⟨h.operating.master, h.operating.slave, fun hs' => ?_⟩, fun handler hh => ?_, ⟨?_, ?_⟩, h.masking⟩
    · rw [hquiet] at hs'
      cases hs'
    · cases hh
      exact ⟨.inr ⟨by simp, eoi_slave j⟩, by simp [Line.irq]; omega, by simp⟩
    · exact Controller.acknowledge_isr h.operating.master hm cascadeLine
    · simp only [Option.bind_some, slaveServed, eoi_slave]
      exact Controller.acknowledge_isr h.operating.slave hs j

/-- The last write of a handler ends the service of the master. -/
theorem outb_finish {handler : Handler} {w : Write} (h : s.Sound) (hh : s.handler = some handler)
    (hleft : handler.left = [w]) :
    s.controllers.outb w = { s.controllers with master := { s.controllers.master with isr := only none } } := by
  have hw : w = (PIC1_COMMAND, PIC_EOI) := by
    rcases (h.valid handler hh).1 with hone | ⟨_, htwo⟩
    · simpa [hleft] using hone
    · simp [hleft] at htwo
  obtain ⟨hm, _⟩ := h.service
  rw [hh, Option.bind_some] at hm
  rw [hw, outb_eoi_master h.operating.master hm]

/-- One before it ends that of the slave. -/
theorem outb_write {handler : Handler} {w : Write} {ws : List Write} (h : s.Sound) (hh : s.handler = some handler)
    (hleft : handler.left = w :: ws) (hws : ws ≠ []) : ws = [(PIC1_COMMAND, PIC_EOI)] ∧
    s.controllers.outb w =
      s.controllers.settle { s.controllers with slave := { s.controllers.slave with isr := only none } } := by
  have hlist : handler.left = [(PIC2_COMMAND, PIC_EOI), (PIC1_COMMAND, PIC_EOI)] := by
    rcases (h.valid handler hh).1 with hone | ⟨_, htwo⟩
    · rw [hleft] at hone
      exact absurd (List.cons.inj hone).2 hws
    · exact htwo
  obtain ⟨rfl, rfl⟩ := List.cons.inj (hleft.symm.trans hlist)
  obtain ⟨_, hs⟩ := h.service
  rw [hh, Option.bind_some] at hs
  exact ⟨rfl, outb_eoi_slave h.operating.slave hs⟩

theorem Sound.finish {handler : Handler} {w : Write} (h : s.Sound) (hh : s.handler = some handler)
    (hleft : handler.left = [w]) : Sound { s with controllers := s.controllers.outb w, handler := none } := by
  have hslave : slaveServed handler = none := by
    rw [slaveServed, hleft]
    split <;> rfl
  obtain ⟨_, hs⟩ := h.service
  rw [hh, Option.bind_some, hslave] at hs
  rw [outb_finish h hh hleft]
  exact ⟨⟨h.operating.master, h.operating.slave, h.operating.cascaded⟩, (fun _ hnone => nomatch hnone), ⟨rfl, hs⟩,
    h.masking⟩

theorem Sound.write {handler : Handler} {w : Write} {ws : List Write} (h : s.Sound) (hh : s.handler = some handler)
    (hleft : handler.left = w :: ws) (hws : ws ≠ []) :
    Sound { s with controllers := s.controllers.outb w, handler := some { handler with left := ws } } := by
  obtain ⟨rfl, houtb⟩ := outb_write h hh hleft hws
  obtain ⟨hm, _⟩ := h.service
  rw [hh, Option.bind_some] at hm
  rw [houtb]
  set p : Controllers := { s.controllers with slave := { s.controllers.slave with isr := only none } }
  have hconfig := settle_config s.controllers p
  refine ⟨⟨?_, ?_, ?_⟩, fun handler' hh' => ?_, ?_, fun op value hmask => ?_⟩
  · exact (congrArg (fun r => r.master.mode) hconfig).trans h.operating.master
  · exact (congrArg (fun r => r.slave.mode) hconfig).trans h.operating.slave
  · exact settle_cascaded fun hsome _ => h.operating.cascaded hsome
  · cases hh'
    exact ⟨.inl rfl, (h.valid handler hh).2⟩
  · have hslave : slaveServed { handler with left := [(PIC1_COMMAND, PIC_EOI)] } = none := by
      rw [slaveServed]
      split <;> rfl
    refine inService_of_config (p := p) ⟨hm, ?_⟩ hconfig
    rw [Option.bind_some, hslave]
  · exact (h.masking op value hmask).trans (congrArg op.value (inb_of_config hconfig _).symm)

/-- Writing a mask changes that mask alone. -/
theorem outb_mask (h : p.Operating) (irqLine value : BitVec 8) : p.outb (dataPort irqLine, value) =
    p.settle (if irqLine < 8 then { p with master := { p.master with imr := value } }
      else { p with slave := { p.slave with imr := value } }) := by
  have hm := Controller.data_mask (congrArg Mode.awaited h.master) value
  have hs := Controller.data_mask (congrArg Mode.awaited h.slave) value
  rw [dataPort]
  split
  · rw [← hm]
    rfl
  · rw [← hs]
    rfl

theorem Sound.writeMask {op : MaskOp} {value : BitVec 8} (h : s.Sound) :
    Sound { s with controllers := s.controllers.outb (op.port, value), masking := none } := by
  have hport : op.port ≠ PIC1_COMMAND := by
    rw [MaskOp.port, dataPort]
    split <;> decide
  have hc : (s.controllers.outb (op.port, value)).Cascaded := h.operating.cascaded.access (a := .write (op.port, value))
    (fun _ heq => hport (Prod.mk.inj (Access.write.inj heq)).1) (by simp)
  obtain ⟨hm, hs⟩ := h.service
  refine ⟨⟨?_, ?_, hc⟩, h.valid, ⟨?_, ?_⟩, fun _ _ hnone => by cases hnone⟩
  all_goals rw [MaskOp.port, outb_mask h.operating]
  · refine (congrArg (fun r => r.master.mode) (settle_config _ _)).trans ?_
    split <;> exact h.operating.master
  · refine (congrArg (fun r => r.slave.mode) (settle_config _ _)).trans ?_
    split <;> exact h.operating.slave
  · refine (congrArg (fun r => r.master.isr) (settle_config _ _)).trans ?_
    split <;> exact hm
  · refine (congrArg (fun r => r.slave.isr) (settle_config _ _)).trans ?_
    split <;> exact hs

theorem Sound.step {l : Label} (h : s.Sound) (hstep : Steps s l t) : t.Sound := by
  cases hstep with
  | rise line hline => exact h.drive hline true
  | fall line hline => exact h.drive hline false
  | cascadeFalls hs => exact h.cascadeFalls hs
  | interrupt a ha hidle => exact h.interrupt ha hidle
  | finish handler w hh hleft => exact h.finish hh hleft
  | write handler w ws hh hleft hws => exact h.write hh hleft hws
  | readMask op => exact ⟨h.operating, h.valid, h.service, fun op' value hmask => by cases hmask; rfl⟩
  | writeMask op value hmask => exact h.writeMask

/-! ### Runs -/

/-- The kernel with interrupts about to be enabled. -/
def start (p : Controllers) : System := ⟨p, none, none⟩

theorem start_sound (hp : p.Operating) (hidle : p.InService none none) : (start p).Sound :=
  ⟨hp, (fun _ h => nomatch h), hidle, (fun _ _ h => nomatch h)⟩

/-- The keyboard and the clock want service. -/
def busy : Controllers :=
  ⟨.waiting (fun i => i.val = 1 || i.val = 2) 0 0x20 4, .waiting (fun i => i.val = 0) 0 0x28 2⟩

theorem busy_operating : busy.Operating := ⟨rfl, rfl, fun _ => rfl⟩

/-- The keyboard is served while a call of `set_mask` is under way, and a disk wants service meanwhile. -/
def busyRun : List Label := [.readMask (.set 0), .interrupt 33 (some (.master (lineNumber 1))),
  .rise (.slave (lineNumber 6)) true, .acknowledge, .writeMask (.set 0), .interrupt 40 (some (.slave (lineNumber 0))),
  .acknowledge]

theorem busy_runs : ∃ s, busyRun.foldlM step (start busy) = some s := Option.isSome_iff_exists.mp (by decide)

section Run
variable {ls : List Label} (hp : p.Operating) (hidle : p.InService none none)
  (hrun : ls.foldlM step (start p) = some s)
include hp hidle hrun

theorem run_sound : s.Sound :=
  run_invariant (fun _ _ _ h hstep => h.step (step_steps hstep)) hrun (start_sound hp hidle)

/-- Whatever devices do and wherever interrupts strike: nothing is in service while no handler runs, and a handler has
nothing in service but the line it runs for, so that its commands end that service and no other. -/
theorem run_services : match s.handler with
    | none => s.controllers.InService none none
    | some h => Valid h ∧ s.controllers.InService (masterServed h) (slaveServed h) := by
  have hs := run_sound hp hidle hrun
  have hservice := hs.service
  cases hh : s.handler with
  | none => rwa [hh] at hservice
  | some h =>
    rw [hh] at hservice
    exact ⟨hs.valid h hh, hservice⟩

end Run

theorem run_services_busy : ∃ s, busyRun.foldlM step (start busy) = some s ∧ match s.handler with
    | none => s.controllers.InService none none
    | some h => Valid h ∧ s.controllers.InService (masterServed h) (slaveServed h) := by
  obtain ⟨s, hs⟩ := busy_runs
  exact ⟨s, hs, run_services busy_operating ⟨rfl, rfl⟩ hs⟩

/-! ### Requests -/

/-- A request of the line is latched. -/
def latches (line : Line) (l : Label) : Bool := decide (l = .rise line true)

/-- A request of the line ends: it is served with the line's own vector, or the device takes it back. -/
def ends (line : Line) (l : Label) : Bool :=
  decide (l = .fall line true ∨ l = .interrupt (32 + line.irq) (some line))

theorem settle_pending {line : Line} (h : line ≠ .master cascadeLine) : (p.settle q).pending line = q.pending line := by
  rw [settle]
  split
  · cases line with
    | master i =>
      have hi : i ≠ cascadeLine := fun heq => h (heq ▸ rfl)
      simp [pending, hi]
    | slave i => rfl
  · rfl

theorem drive_pending (p : Controllers) {line line' : Line} (h : line ≠ .master cascadeLine) (level : Bool) :
    (p.drive line' level).pending line = if line = line' then level else p.pending line := by
  rw [show (p.drive line' level).pending line = _ from settle_pending h]
  cases line' <;> cases line <;> simp [pending, Function.update_apply]

theorem step_tally {line : Line} (hline : line ≠ .master cascadeLine) {l : Label} (h : s.Sound) (hstep : Steps s l t) :
    (s.controllers.pending line).toNat + (latches line l).toNat =
      (t.controllers.pending line).toNat + (ends line l).toNat := by
  cases hstep with
  | rise line' hline' =>
    rw [drive_pending _ hline]
    by_cases heq : line = line'
    · subst heq
      cases hpending : s.controllers.pending line <;> simp [latches, ends]
    · simp [latches, ends, heq, Ne.symm heq]
  | fall line' hline' =>
    rw [drive_pending _ hline]
    by_cases heq : line = line'
    · subst heq
      cases hpending : s.controllers.pending line <;> simp [latches, ends]
    · simp [latches, ends, heq, Ne.symm heq]
  | cascadeFalls hs =>
    rw [drive_pending _ hline, if_neg hline]
    rfl
  | interrupt a ha hidle =>
    have hack := acknowledge_acknowledges h.operating
    rw [ha] at hack
    rw [hack.pending hline]
    by_cases hsome : a.2.1 = some line
    · obtain ⟨hvector, hpending⟩ := hack.vector hsome
      simp [latches, ends, hsome, hvector, hpending]
    · simp [latches, ends, hsome, beq_eq_false_iff_ne.mpr hsome]
  | finish handler w hh hleft =>
    rw [outb_finish h hh hleft]
    cases line <;> rfl
  | write handler w ws hh hleft hws =>
    rw [(outb_write h hh hleft hws).2, settle_pending hline]
    cases line <;> rfl
  | readMask op => rfl
  | writeMask op value hmask =>
    rw [MaskOp.port, outb_mask h.operating, settle_pending hline]
    split <;> cases line <;> rfl

/-- No request is lost and none is served twice: the requests that were latched are those that were served, each with
its line's vector, those that devices took back, and the one that may be pending. -/
theorem run_requests {ls : List Label} (line : Line) (hp : p.Operating) (hidle : p.InService none none)
    (hrun : ls.foldlM step (start p) = some s) (hline : line ≠ .master cascadeLine) :
    (p.pending line).toNat + ls.countP (latches line) = (s.controllers.pending line).toNat + ls.countP (ends line) := by
  refine run_tally Sound (fun s => (s.controllers.pending line).toNat) (latches line) (ends line)
    (fun _ _ _ h hstep => ?_) (fun _ _ _ h hstep => ?_) hrun (start_sound hp hidle)
  · exact h.step (step_steps hstep)
  · exact step_tally hline h (step_steps hstep)

theorem run_requests_busy : ∃ s, busyRun.foldlM step (start busy) = some s ∧
    1 = (s.controllers.pending (.slave 6)).toNat + busyRun.countP (ends (.slave 6)) := by
  obtain ⟨s, hs⟩ := busy_runs
  exact ⟨s, hs, run_requests (.slave 6) busy_operating ⟨rfl, rfl⟩ hs (by decide)⟩

/-! ### Masks -/

/-- A line by its number on its controller. -/
def bitOf (irqLine : BitVec 8) : Fin 8 := lineNumber irqLine.toNat

/-- The line that `set_mask` and `clear_mask` are for. -/
def lineOf (irqLine : BitVec 8) : Line := if irqLine < 8 then .master (bitOf irqLine) else .slave (bitOf irqLine)

/-- What the labels do to the lines that are masked. -/
def masks (m : Line → Bool) : Label → Line → Bool
  | .writeMask (.set irqLine) => Function.update m (lineOf irqLine) true
  | .writeMask (.clear irqLine) => Function.update m (lineOf irqLine) false
  | _ => m

theorem masked_of_config (hconfig : q.config = p.config) : q.masked = p.masked := by
  funext line
  cases line with
  | master i => exact congrArg (fun r => r.master.masked i) hconfig
  | slave i => exact congrArg (fun r => r.slave.masked i) hconfig

/-- The bit that is shifted into place. -/
theorem bit_getLsbD (irqLine : BitVec 8) (i : Fin 8) :
    ((1 : BitVec 8) <<< (irqLine % 8)).getLsbD i = decide (i = bitOf irqLine) := by
  have hmod : irqLine % 8 = BitVec.ofNat 8 (bitOf irqLine).val := by
    apply BitVec.eq_of_toNat_eq
    simp [bitOf, lineNumber, Fin.ofNat]
    omega
  rw [hmod]
  generalize bitOf irqLine = k
  revert i k
  decide

theorem setMaskValue_getLsbD (irqLine value : BitVec 8) (i : Fin 8) :
    (setMaskValue irqLine value).getLsbD i = if i = bitOf irqLine then true else value.getLsbD i := by
  rw [setMaskValue, BitVec.getLsbD_or, bit_getLsbD]
  split <;> simp [*]

theorem clearMaskValue_getLsbD (irqLine value : BitVec 8) (i : Fin 8) :
    (clearMaskValue irqLine value).getLsbD i = if i = bitOf irqLine then false else value.getLsbD i := by
  rw [clearMaskValue, BitVec.getLsbD_and, BitVec.getLsbD_not, bit_getLsbD]
  split <;> simp [*]

theorem inb_dataPort (p : Controllers) (irqLine : BitVec 8) :
    p.inb (dataPort irqLine) = if irqLine < 8 then p.master.imr else p.slave.imr := by
  rw [dataPort]
  split <;> rfl

/-- Writing back a mask that was read from the same port. -/
theorem outb_masked (h : p.Operating) (op : MaskOp) :
    (p.outb (op.port, op.value (p.inb op.port))).masked = masks p.masked (.writeMask op) := by
  rw [MaskOp.port, inb_dataPort, outb_mask h, masked_of_config (settle_config _ _)]
  funext line
  rcases op with l | l <;> dsimp only [MaskOp.irqLine, MaskOp.value, masks, lineOf] <;> by_cases hl : l < 8
  all_goals
    simp only [hl, if_true, if_false]
    cases line
    all_goals simp only [masked, Controller.masked, setMaskValue_getLsbD, clearMaskValue_getLsbD, Function.update_apply,
      Line.master.injEq, Line.slave.injEq, reduceCtorEq, if_false]

theorem step_masks {l : Label} (h : s.Sound) (hstep : Steps s l t) :
    t.controllers.masked = masks s.controllers.masked l := by
  cases hstep with
  | rise line hline => exact masked_of_config (config_drive s.controllers line true)
  | fall line hline => exact masked_of_config (config_drive s.controllers line false)
  | cascadeFalls hs => exact masked_of_config (config_drive s.controllers (.master cascadeLine) false)
  | interrupt a ha hidle =>
    have hack := acknowledge_acknowledges h.operating
    rw [ha] at hack
    funext line
    cases hack <;> cases line <;> rfl
  | finish handler w hh hleft =>
    rw [outb_finish h hh hleft]
    funext line
    cases line <;> rfl
  | write handler w ws hh hleft hws =>
    rw [(outb_write h hh hleft hws).2, masked_of_config (settle_config _ _)]
    funext line
    cases line <;> rfl
  | readMask op => rfl
  | writeMask op value hmask =>
    rw [h.masking op value hmask]
    exact outb_masked h.operating op

/-- The masks are what the calls made them, in the order of their writes: neither an interrupt between a read and its
write nor the other operation undoes one. -/
theorem run_masks {ls : List Label} (hp : p.Operating) (hidle : p.InService none none)
    (hrun : ls.foldlM step (start p) = some s) : s.controllers.masked = ls.foldl masks p.masked := by
  refine run_fold Sound (fun s => s.controllers.masked) masks (fun _ _ _ h hstep => ?_)
    (fun _ _ _ h hstep => ?_) hrun (start_sound hp hidle)
  · exact h.step (step_steps hstep)
  · exact step_masks h (step_steps hstep)

theorem run_masks_busy : ∃ s, busyRun.foldlM step (start busy) = some s ∧
    s.controllers.masked (.master 0) = true := by
  obtain ⟨s, hs⟩ := busy_runs
  exact ⟨s, hs, congrFun (run_masks busy_operating ⟨rfl, rfl⟩ hs) (.master 0)⟩

/-! ### Progress -/

/-- No device does anything. -/
def kernelOnly (ls : List Label) : Prop := ∀ l ∈ ls, l = .acknowledge ∨ ∃ v line, l = .interrupt v line

def Label.serves : Label → Option (Nat × Option Line)
  | .interrupt v line => some (v, line)
  | _ => none

def served (ls : List Label) : List (Nat × Option Line) := ls.filterMap Label.serves

/-- A handler with writes left gets to its end. -/
theorem acknowledge_all {ws : List Write} (hws : ws ≠ []) (s : System) (v : Nat) (l : Option Line) :
    (List.replicate ws.length Label.acknowledge).foldlM step { s with handler := some ⟨v, l, ws⟩ } =
      some { s with controllers := ws.foldl outb s.controllers, handler := none } := by
  induction ws generalizing s with
  | nil => exact absurd rfl hws
  | cons w ws ih =>
    cases ws with
    | nil => rfl
    | cons w' ws =>
      rw [List.length_cons, List.replicate_succ, List.foldlM_cons]
      exact ih (List.cons_ne_nil w' ws) { s with controllers := s.controllers.outb w }

theorem irqHandlerEoi_ne_nil (irq : BitVec 64) : irqHandlerEoi irq ≠ [] := by
  simp [irqHandlerEoi, sendEoi]

/-- Serving one interrupt is a run. -/
theorem service_run (hnone : s.handler = none) : ∃ ls : List Label,
    ls.foldlM step s = some { s with controllers := s.controllers.service.2 } ∧ kernelOnly ls ∧
      served ls = [s.controllers.service.1] := by
  set a := s.controllers.acknowledge with ha
  have hfirst : s.step (.interrupt a.1 a.2.1) = some { s with
      controllers := a.2.2, handler := some ⟨a.1, a.2.1, irqHandlerEoi (BitVec.ofNat 64 a.1)⟩ } := by
    simp [step, hnone, ← ha]
  refine ⟨.interrupt a.1 a.2.1 :: .replicate (irqHandlerEoi (BitVec.ofNat 64 a.1)).length .acknowledge, ?_, ?_, ?_⟩
  · rw [run_cons]
    refine ⟨_, hfirst, ?_⟩
    have hrest := acknowledge_all (irqHandlerEoi_ne_nil (BitVec.ofNat 64 a.1)) { s with controllers := a.2.2 } a.1 a.2.1
    rw [← hnone] at hrest
    exact hrest
  · simp [kernelOnly]
  · simp [served, Label.serves, service, ← ha]

theorem run_append {ls ls' : List Label} {u : System} (h : ls.foldlM step s = some t)
    (h' : ls'.foldlM step t = some u) : (ls ++ ls').foldlM step s = some u := by
  rw [List.foldlM_append, h]
  exact h'

/-- So is serving all that is due. -/
theorem drain_run (hnone : s.handler = none) (fuel : Nat) : ∃ ls : List Label,
    ls.foldlM step s = some { s with controllers := (drain fuel s.controllers).2 } ∧ kernelOnly ls ∧
      served ls = (drain fuel s.controllers).1 := by
  induction fuel generalizing s with
  | zero => exact ⟨[], rfl, by simp [kernelOnly], rfl⟩
  | succ fuel ih =>
    by_cases hreq : s.controllers.master.request.isSome = true
    · obtain ⟨ls, hrun, hkernel, hserved⟩ := service_run hnone
      obtain ⟨ls', hrun', hkernel', hserved'⟩ := ih (s := { s with controllers := s.controllers.service.2 }) hnone
      have hdrain : drain (fuel+1) s.controllers = (s.controllers.service.1 :: (drain fuel s.controllers.service.2).1,
          (drain fuel s.controllers.service.2).2) := if_pos hreq
      refine ⟨ls ++ ls', ?_, ?_, ?_⟩
      · rw [hdrain]
        exact run_append hrun hrun'
      · exact List.forall_mem_append.mpr ⟨hkernel, hkernel'⟩
      · rw [hdrain, served, List.filterMap_append]
        exact congrArg₂ (· ++ ·) hserved hserved'
    · have hdrain : drain (fuel+1) s.controllers = ([], s.controllers) := if_neg hreq
      exact ⟨[], by rw [hdrain]; rfl, by simp [kernelOnly], by rw [hdrain]; rfl⟩

/-- A line that is not masked, nor is the master's line of its controller. -/
def Open (p : Controllers) (line : Line) : Prop :=
  p.masked line = false ∧ ∀ j, line = .slave j → p.master.masked cascadeLine = false

theorem mem_due (hp : p.Operating) (hidle : p.InService none none) {line : Line} (hline : line ≠ .master cascadeLine)
    (hpending : p.pending line = true) (hopen : Open p line) : (32 + line.irq, some line) ∈ p.due := by
  cases line with
  | master i =>
    have hi : i ≠ cascadeLine := fun heq => hline (heq ▸ rfl)
    have hw : p.master.wants i = true := by
      rw [Controller.wants, Bool.and_eq_true, Bool.not_eq_true']
      exact ⟨hpending, hopen.1⟩
    refine List.mem_flatMap.mpr ⟨i, List.mem_finRange i, ?_⟩
    simp [dueAt, hw, hi, Line.irq]
  | slave j =>
    have hw : p.slave.wants j = true := by
      rw [Controller.wants, Bool.and_eq_true, Bool.not_eq_true']
      exact ⟨hpending, hopen.1⟩
    have hmem : (32 + (Line.slave j).irq, some (.slave j)) ∈ p.slaveDue := by
      refine List.mem_flatMap.mpr ⟨j, List.mem_finRange j, ?_⟩
      simp [hw, Line.irq]
      omega
    have hsome : p.slave.request.isSome = true := by
      rw [Controller.request_idle hp.slave hidle.2, Fin.isSome_find?_iff]
      exact ⟨j, hw⟩
    have hcascade : p.master.wants cascadeLine = true := by
      rw [Controller.wants, Bool.and_eq_true, Bool.not_eq_true']
      exact ⟨hp.cascaded hsome, hopen.2 j rfl⟩
    refine List.mem_flatMap.mpr ⟨cascadeLine, List.mem_finRange _, ?_⟩
    rw [dueAt, if_pos hcascade, if_pos rfl, if_neg (List.ne_nil_of_mem hmem)]
    exact hmem

theorem kernelOnly_replicate (n : Nat) : kernelOnly (List.replicate n .acknowledge) :=
  fun _ hl => .inl (List.eq_of_mem_replicate hl)

/-- The handler that runs ends, and leaves requests and masks as they are. -/
theorem finish_run (h : s.Sound) : ∃ n t, (List.replicate n Label.acknowledge).foldlM step s = some t ∧
    t.handler = none ∧ t.Sound ∧ t.controllers.masked = s.controllers.masked ∧
      ∀ line ≠ .master cascadeLine, t.controllers.pending line = s.controllers.pending line := by
  cases hh : s.handler with
  | none => exact ⟨0, s, rfl, hh, h, rfl, fun _ _ => rfl⟩
  | some handler =>
    have hleft : handler.left ≠ [] := by rcases (h.valid handler hh).1 with hl | ⟨_, hl⟩ <;> simp [hl]
    have hrun := acknowledge_all hleft s handler.vector handler.line
    rw [show { s with handler := some ⟨handler.vector, handler.line, handler.left⟩ } = s by rw [← hh]] at hrun
    have hinv : ∀ s l t, Sound s → step s l = some t → t.Sound := fun _ _ _ h hstep => h.step (step_steps hstep)
    refine ⟨_, _, hrun, rfl, run_invariant hinv hrun h, ?_, fun line hline => ?_⟩
    · have hmasks := run_fold Sound (fun s => s.controllers.masked) masks hinv
        (fun _ _ _ h hstep => step_masks h (step_steps hstep)) hrun h
      have hconst (n : Nat) (m : Line → Bool) : (List.replicate n Label.acknowledge).foldl masks m = m := by
        induction n with
        | zero => rfl
        | succ n ih => exact ih
      rw [hmasks, hconst]
    · have htally := run_tally Sound (fun s => (s.controllers.pending line).toNat) (latches line) (ends line) hinv
        (fun _ _ _ h hstep => step_tally hline h (step_steps hstep)) hrun h
      have hlatches : ∀ l ∈ List.replicate handler.left.length Label.acknowledge, ¬ latches line l = true := by
        simp [latches]
      have hends : ∀ l ∈ List.replicate handler.left.length Label.acknowledge, ¬ ends line l = true := by
        simp [ends]
      rw [List.countP_eq_zero.mpr hlatches, List.countP_eq_zero.mpr hends] at htally
      generalize s.controllers.pending line = b at htally ⊢
      cases b <;> simpa using htally.symm

/-- From every state of a run the kernel gets, without the devices, to where nothing is due: the handler that runs ends,
then everything due is served by priority. Every request that is neither masked nor behind a masked cascade is among
it, and the others stay. -/
theorem run_progress {ls : List Label} (hp : p.Operating) (hidle : p.InService none none)
    (hrun : ls.foldlM step (start p) = some s) :
    ∃ n u ls' t, (List.replicate n .acknowledge).foldlM step s = some u ∧ u.handler = none ∧
      ls'.foldlM step u = some t ∧ kernelOnly ls' ∧ served ls' = u.controllers.due ∧ t.controllers.due = [] ∧
      ∀ line ≠ .master cascadeLine,
        (s.controllers.pending line = true → Open s.controllers line → (32 + line.irq, some line) ∈ served ls') ∧
        t.controllers.pending line = (s.controllers.pending line && !(served ls').any (·.2 == some line)) := by
  obtain ⟨n, u, hfinish, hnone, hu, hmasked, hsame⟩ := finish_run (run_sound hp hidle hrun)
  have hservice := hu.service
  rw [hnone] at hservice
  obtain ⟨ls', hdrain, hkernel, hserved⟩ := drain_run hnone u.controllers.due.length
  obtain ⟨hlist, hdone, _, hpending⟩ := drain_due hu.operating hservice (Nat.le_refl _)
  have hdue : served ls' = u.controllers.due := hserved.trans hlist
  refine ⟨n, u, ls', _, hfinish, hnone, hdrain, hkernel, hdue, hdone, fun line hline => ⟨fun hp hopen => ?_, ?_⟩⟩
  · have hopen' : Open u.controllers line :=
      ⟨hmasked ▸ hopen.1, fun j hj => (congrFun hmasked (.master cascadeLine)).trans (hopen.2 j hj)⟩
    rw [hdue]
    exact mem_due hu.operating hservice hline ((hsame line hline).trans hp) hopen'
  · rw [hdue, ← hsame line hline]
    exact hpending line hline

theorem run_progress_busy : ∃ s u t : System, ∃ ls', busyRun.foldlM step (start busy) = some s ∧
    ls'.foldlM step u = some t ∧ served ls' = u.controllers.due ∧ t.controllers.due = [] := by
  obtain ⟨s, hs⟩ := busy_runs
  obtain ⟨n, u, ls', t, _, _, hrun, _, hserved, hdone, _⟩ := run_progress busy_operating ⟨rfl, rfl⟩ hs
  exact ⟨s, u, t, ls', hs, hrun, hserved, hdone⟩

end System
end Nafuraito.Interrupts
