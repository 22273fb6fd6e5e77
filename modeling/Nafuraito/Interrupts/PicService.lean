import Nafuraito.Interrupts.PicConfig
import Nafuraito.Library.Priorities

/-! What acknowledging an interrupt and the end-of-interrupt commands of its handler do, and in which order the
controllers have everything that is due served. -/
namespace Nafuraito.Interrupts
open Nafuraito.Library

/-! ### One controller in its mode -/

/-- One line or none. -/
def only (o : Option (Fin 8)) : Fin 8 → Bool := fun i => o = some i

theorem only_none : only none = fun _ => false := by
  funext i
  simp [only]

theorem update_only_none (i : Fin 8) : Function.update (only none) i true = only (some i) := by
  funext j
  by_cases h : j = i
  · simp [only, h]
  · simp [only, h, Ne.symm h]

theorem update_only_some (i : Fin 8) : Function.update (only (some i)) i false = only none := by
  funext j
  by_cases h : j = i
  · simp [only, h]
  · simp [only, h, Ne.symm h]

namespace Controller
variable {c : Controller} {base cascade : BitVec 8} {i j : Fin 8} {o : Option (Fin 8)}

theorem wants_update (i : Fin 8) (level : Bool) :
    { c with irr := Function.update c.irr i level }.wants = Function.update c.wants i (level && !c.masked i) := by
  funext j
  by_cases h : j = i
  · subst h
    simp [wants, masked]
  · simp [wants, masked, h]

theorem acknowledge_wants (i : Fin 8) : (c.acknowledge i).wants = Function.update c.wants i false :=
  wants_update i false

theorem data_mask (h : c.awaited = .ocw1) (val : BitVec 8) : c.data val = { c with imr := val } := by
  simp only [data, h]

section Ready
variable (h : c.mode = .ready base cascade)
include h

theorem blocks_ready : c.blocks = c.isr := by
  funext i
  simp [blocks, show c.specialMask = false from congrArg Mode.specialMask h]

theorem first_ready (p : Fin 8 → Bool) : c.first p = Fin.find? p := by
  rw [first, show c.highest = 0 from congrArg Mode.highest h]
  simp only [Fin.zero_add]
  exact Option.map_id'

theorem request_eq_some : c.request = some i ↔
    c.wants i = true ∧ c.isr i = false ∧ ∀ j < i, c.wants j = false ∧ c.isr j = false := by
  rw [request, first_ready h, blocks_ready h, Option.filter_eq_some_iff, Fin.find?_eq_some_iff]
  simp only [Bool.or_eq_true, Bool.or_eq_false_iff, Bool.not_eq_true']
  constructor
  · rintro ⟨⟨hw | hw, hbefore⟩, hi⟩
    · exact ⟨hw, hi, hbefore⟩
    · rw [hi] at hw
      cases hw
  · rintro ⟨hw, hi, hbefore⟩
    exact ⟨⟨.inl hw, hbefore⟩, hi⟩

/-- With nothing in service, the first line that wants it. -/
theorem request_idle (hidle : c.isr = only none) : c.request = Fin.find? c.wants := by
  ext i
  simp [request_eq_some h, hidle, only_none]

/-- After its acknowledge cycle a line holds back all that are left. -/
theorem request_acknowledged (hi : c.request = some i) : (c.acknowledge i).request = none := by
  have hmode : (c.acknowledge i).mode = .ready base cascade := h
  have hauto : c.autoEoi = false := congrArg Mode.autoEoi h
  obtain ⟨_, hisr, hbefore⟩ := (request_eq_some h).mp hi
  rw [Option.eq_none_iff_forall_ne_some]
  intro j hj
  obtain ⟨hw, hs, hb⟩ := (request_eq_some hmode).mp hj
  rcases lt_trichotomy j i with hlt | rfl | hgt
  · rw [acknowledge_wants, Function.update_of_ne hlt.ne, (hbefore j hlt).1] at hw
    cases hw
  · simp [acknowledge, hauto] at hs
  · have := (hb i hgt).2
    simp [acknowledge, hauto] at this

theorem acknowledge_isr (hidle : c.isr = only none) (i : Fin 8) : (c.acknowledge i).isr = only (some i) := by
  rw [acknowledge, show c.autoEoi = false from congrArg Mode.autoEoi h, hidle, ← update_only_none]
  rfl

/-- The command ends the service of the one line there is. -/
theorem command_eoi (hisr : c.isr = only o) : c.command PIC_EOI = { c with isr := only none } := by
  have hcommand : c.command PIC_EOI = (c.first c.blocks).elim c c.clearService := rfl
  rw [hcommand, first_ready h, blocks_ready h, hisr]
  cases o with
  | none =>
    have hfind : Fin.find? (only none) = none := by simp [only_none]
    rw [hfind, ← hisr]
    rfl
  | some i =>
    have hfind : Fin.find? (only (some i)) = some i := by
      rw [Fin.find?_eq_some_iff]
      simp only [only, Option.some.injEq, decide_eq_true_eq, decide_eq_false_iff_not, true_and]
      exact fun j hj => hj.ne'
    rw [hfind, ← update_only_some, ← hisr]
    rfl

end Ready
end Controller

/-! ### The pair -/

namespace Controllers
variable {p q : Controllers} {i j : Fin 8} {m n : Option (Fin 8)}

/-- The controllers as the kernel runs with them. -/
structure Operating (p : Controllers) : Prop where
  master : p.master.mode = .ready 0x20 4
  slave : p.slave.mode = .ready 0x28 2
  cascaded : p.Cascaded

/-- The lines in service. -/
def InService (p : Controllers) (m n : Option (Fin 8)) : Prop := p.master.isr = only m ∧ p.slave.isr = only n

theorem settle_same (h : q.slave = p.slave) : p.settle q = q := by
  rw [settle, h]
  cases p.slave.request <;> rfl

@[simp] theorem settle_master (p : Controllers) (c : Controller) :
    p.settle { p with master := c } = { p with master := c } := settle_same rfl

theorem settle_quiet (h : q.slave.request = none) : p.settle q = q := by
  rw [settle, h]
  simp

theorem base_master (h : p.Operating) : p.master.base.toNat = 32 := by
  rw [show p.master.base = 0x20 from congrArg Mode.base h.master]
  rfl

theorem base_slave (h : p.Operating) : p.slave.base.toNat = 40 := by
  rw [show p.slave.base = 0x28 from congrArg Mode.base h.slave]
  rfl

theorem cascade_master (h : p.Operating) (i : Fin 8) : p.master.cascade.getLsbD i = decide (i = cascadeLine) := by
  rw [show p.master.cascade = 4 from congrArg Mode.cascade h.master]
  revert i
  decide

/-- The four ways an acknowledge cycle goes. -/
inductive Acknowledges (p : Controllers) : Nat × Option Line × Controllers → Prop
  | spurious (hm : p.master.request = none) : Acknowledges p (39, none, p)
  | master (i : Fin 8) (hm : p.master.request = some i) (hi : i ≠ cascadeLine) :
      Acknowledges p (32+i, some (.master i), { p with master := p.master.acknowledge i })
  | spuriousSlave (hm : p.master.request = some cascadeLine) (hs : p.slave.request = none) :
      Acknowledges p (47, none, { p with master := p.master.acknowledge cascadeLine })
  | slave (j : Fin 8) (hm : p.master.request = some cascadeLine) (hs : p.slave.request = some j) :
      Acknowledges p (40+j, some (.slave j), ⟨p.master.acknowledge cascadeLine, p.slave.acknowledge j⟩)

theorem acknowledge_acknowledges (h : p.Operating) : Acknowledges p p.acknowledge := by
  rw [acknowledge, base_master h, base_slave h]
  cases hm : p.master.request with
  | none => exact .spurious hm
  | some i =>
    dsimp only
    rw [cascade_master h, settle_master]
    by_cases hi : i = cascadeLine
    · subst hi
      simp only [decide_true, if_true]
      cases hs : p.slave.request with
      | none => exact .spuriousSlave hm hs
      | some j =>
        have hquiet := Controller.request_acknowledged h.slave hs
        dsimp only
        rw [settle_quiet (q := ⟨p.master.acknowledge cascadeLine, p.slave.acknowledge j⟩) hquiet]
        exact .slave j hm hs
    · simp only [hi, decide_false, Bool.false_eq_true, if_false]
      exact .master i hm hi

namespace Acknowledges
variable {a : Nat × Option Line × Controllers} {line : Line}

/-- It takes the request it is for and no other. -/
theorem pending (ha : Acknowledges p a) (hline : line ≠ .master cascadeLine) :
    a.2.2.pending line = (p.pending line && !(a.2.1 == some line)) := by
  have hcascade {k : Fin 8} (h : line = .master k) : k ≠ cascadeLine := fun heq => hline (heq ▸ h)
  cases ha <;> cases line <;>
    simp [Controllers.pending, Controller.acknowledge, Function.update_apply, hcascade] <;> grind

theorem vector (ha : Acknowledges p a) (hsome : a.2.1 = some line) :
    a.1 = 32 + line.irq ∧ p.pending line = true := by
  cases ha with
  | spurious hm => cases hsome
  | master i hm hi =>
    cases hsome
    exact ⟨rfl, Controller.request_irr hm⟩
  | spuriousSlave hm hs => cases hsome
  | slave j hm hs =>
    cases hsome
    exact ⟨Nat.add_assoc 32 8 j.val, Controller.request_irr hs⟩

end Acknowledges

section Writes
variable {c d d' : Controller}

theorem outb_eoi_master (h : c.mode = .ready 0x20 4) (hisr : c.isr = only m) :
    outb ⟨c, d⟩ (PIC1_COMMAND, PIC_EOI) = ⟨{ c with isr := only none }, d⟩ := by
  rw [outb_pic1, Controller.command_eoi h hisr]
  exact settle_same rfl

theorem outb_eoi_slave (h : d.mode = .ready 0x28 2) (hisr : d.isr = only n) :
    outb ⟨c, d⟩ (PIC2_COMMAND, PIC_EOI) = settle ⟨c, d⟩ ⟨c, { d with isr := only none }⟩ := by
  rw [outb_pic2, Controller.command_eoi h hisr]

/-- A slave that asked for nothing has its line latched if it now does. -/
theorem settle_latch (hquiet : d.request = none) (hline : c.irr cascadeLine = false) :
    settle ⟨c, d⟩ ⟨c, d'⟩ = ⟨{ c with irr := Function.update c.irr cascadeLine d'.request.isSome }, d'⟩ := by
  rw [settle, hquiet]
  cases d'.request with
  | none =>
    have hsame : Function.update c.irr cascadeLine false = c.irr := by rw [← hline, Function.update_eq_self]
    rw [Option.isSome_none, hsame]
    rfl
  | some i => rfl

end Writes

/-! ### One interrupt from its acknowledge to the end of its handler -/

/-- The vector, the line it was for, and the controllers after the handler's writes. -/
def service (p : Controllers) : (Nat × Option Line) × Controllers :=
  ((p.acknowledge.1, p.acknowledge.2.1),
    (irqHandlerEoi (BitVec.ofNat 64 p.acknowledge.1)).foldl outb p.acknowledge.2.2)

theorem eoi_master (i : Fin 8) : irqHandlerEoi (BitVec.ofNat 64 (32+i)) = [(PIC1_COMMAND, PIC_EOI)] := by
  revert i
  decide

theorem eoi_slave (j : Fin 8) :
    irqHandlerEoi (BitVec.ofNat 64 (40+j)) = [(PIC2_COMMAND, PIC_EOI), (PIC1_COMMAND, PIC_EOI)] := by
  revert j
  decide

theorem eoi_spurious : irqHandlerEoi (BitVec.ofNat 64 39) = [(PIC1_COMMAND, PIC_EOI)] := by decide

theorem eoi_spuriousSlave :
    irqHandlerEoi (BitVec.ofNat 64 47) = [(PIC2_COMMAND, PIC_EOI), (PIC1_COMMAND, PIC_EOI)] := by decide

/-- The four ways an interrupt is served: nothing stays in service, and one request is gone. -/
inductive Serves (p : Controllers) : (Nat × Option Line) × Controllers → Prop
  | spurious (hm : p.master.request = none) : Serves p ((39, none), p)
  | master (i : Fin 8) (hm : p.master.request = some i) (hi : i ≠ cascadeLine) : Serves p ((32+i, some (.master i)),
      { p with master := { p.master with irr := Function.update p.master.irr i false } })
  | spuriousSlave (hm : p.master.request = some cascadeLine) (hs : p.slave.request = none) : Serves p ((47, none),
      { p with master := { p.master with irr := Function.update p.master.irr cascadeLine false } })
  | slave (j : Fin 8) (hm : p.master.request = some cascadeLine) (hs : p.slave.request = some j)
      (c : Controller) (hc : c = { p.slave with irr := Function.update p.slave.irr j false }) :
      Serves p ((40+j, some (.slave j)),
        { master := { p.master with irr := Function.update p.master.irr cascadeLine c.request.isSome }, slave := c })

theorem service_serves (h : p.Operating) (hidle : p.InService none none) : Serves p p.service := by
  have hack := acknowledge_acknowledges h
  have hmaster (i : Fin 8) := Controller.acknowledge_isr h.master hidle.1 i
  rw [service]
  generalize p.acknowledge = a at hack
  cases hack with
  | spurious hm =>
    rw [eoi_spurious, List.foldl_cons, List.foldl_nil, outb_eoi_master h.master hidle.1, ← hidle.1]
    exact .spurious hm
  | master i hm hi =>
    rw [eoi_master, List.foldl_cons, List.foldl_nil, outb_eoi_master (c := p.master.acknowledge i) h.master (hmaster i),
      ← hidle.1]
    exact .master i hm hi
  | spuriousSlave hm hs =>
    rw [eoi_spuriousSlave, List.foldl_cons, List.foldl_cons, List.foldl_nil, outb_eoi_slave h.slave hidle.2,
      ← hidle.2, settle_same rfl,
      outb_eoi_master (c := p.master.acknowledge cascadeLine) h.master (hmaster cascadeLine), ← hidle.1]
    exact .spuriousSlave hm hs
  | slave j hm hs =>
    have hquiet := Controller.request_acknowledged h.slave hs
    have hslave := Controller.acknowledge_isr h.slave hidle.2 j
    have hline : (p.master.acknowledge cascadeLine).irr cascadeLine = false := by
      simp [Controller.acknowledge]
    rw [eoi_slave, List.foldl_cons, List.foldl_cons, List.foldl_nil,
      outb_eoi_slave (d := p.slave.acknowledge j) h.slave hslave,
      settle_latch (d := p.slave.acknowledge j) hquiet hline]
    set d : Controller := { p.slave.acknowledge j with isr := only none } with hd
    set irr := Function.update (p.master.acknowledge cascadeLine).irr cascadeLine d.request.isSome with hirr
    rw [outb_eoi_master (c := { p.master.acknowledge cascadeLine with irr := irr }) h.master (hmaster cascadeLine),
      ← hidle.1]
    have hd' : d = { p.slave with irr := Function.update p.slave.irr j false } := by
      rw [hd, ← hidle.2]
      rfl
    have hirr' : irr = Function.update p.master.irr cascadeLine d.request.isSome := Function.update_idem ..
    rw [hirr']
    exact .slave j hm hs d hd'

namespace Serves
variable {r : (Nat × Option Line) × Controllers}

theorem operating (h : p.Operating) (hr : Serves p r) : r.2.Operating := by
  cases hr with
  | spurious hm => exact h
  | master i hm hi =>
    refine ⟨h.master, h.slave, fun hs => ?_⟩
    simpa [Function.update_of_ne hi.symm] using h.cascaded hs
  | spuriousSlave hm hs =>
    refine ⟨h.master, h.slave, fun hs' => ?_⟩
    rw [hs] at hs'
    cases hs'
  | slave j hm hs c hc =>
    refine ⟨h.master, hc ▸ h.slave, fun hs' => ?_⟩
    simpa using hs'

theorem idle (hidle : p.InService none none) (hr : Serves p r) : r.2.InService none none := by
  cases hr with
  | spurious hm => exact hidle
  | master i hm hi => exact hidle
  | spuriousSlave hm hs => exact hidle
  | slave j hm hs c hc => exact ⟨hidle.1, hc ▸ hidle.2⟩

end Serves

/-! ### Everything that is due -/

/-- What lines of the slave are due, by priority. -/
def slaveDue (p : Controllers) : List (Nat × Option Line) :=
  inOrder fun j => if p.slave.wants j then [(40+j.val, some (.slave j))] else []

/-- What a line of the master has due; that of the slave has what the slave has, or if this is gone by now a vector
for no line. -/
def dueAt (p : Controllers) (i : Fin 8) : List (Nat × Option Line) :=
  if p.master.wants i then
    if i = cascadeLine then (if p.slaveDue = [] then [(47, none)] else p.slaveDue)
    else [(32+i.val, some (.master i))]
  else []

/-- All that is due: lines 0 and 1, the slave's lines in the place of line 2, lines 3 to 7. -/
def due (p : Controllers) : List (Nat × Option Line) := inOrder p.dueAt

theorem dueAt_eq_nil : p.dueAt i = [] ↔ p.master.wants i = false := by
  rw [dueAt]
  split
  · rename_i hw
    rw [hw]
    split
    · split <;> simp [*]
    · simp
  · rename_i hw
    simpa using hw

theorem due_eq_nil (h : p.Operating) (hidle : p.InService none none) : p.due = [] ↔ p.master.request = none := by
  rw [due, inOrder_eq_nil, Controller.request_idle h.master hidle.1, Fin.find?_eq_none_iff]
  exact forall_congr' fun _ => dueAt_eq_nil

theorem slaveDue_eq_nil (h : p.slave.mode = .ready 0x28 2) (hidle : p.slave.isr = only none) :
    p.slaveDue = [] ↔ p.slave.request = none := by
  rw [slaveDue, inOrder_eq_nil, Controller.request_idle h hidle, Fin.find?_eq_none_iff]
  simp

/-- Serving what the output is asserted for takes the first thing off. -/
theorem Serves.due_cons {r : (Nat × Option Line) × Controllers} (h : p.Operating) (hidle : p.InService none none)
    (hr : Serves p r) (hm : p.master.request ≠ none) : p.due = r.1 :: r.2.due := by
  have hfirst {i : Fin 8} (hi : p.master.request = some i) : p.master.wants i = true ∧ ∀ j < i, p.dueAt j = [] := by
    rw [Controller.request_idle h.master hidle.1, Fin.find?_eq_some_iff] at hi
    exact ⟨hi.1, fun j hj => dueAt_eq_nil.mpr (hi.2 j hj)⟩
  cases hr with
  | spurious hn => exact absurd hn hm
  | master i hi hne =>
    obtain ⟨hw, hbefore⟩ := hfirst hi
    refine inOrder_take [] hbefore ?_ ?_ fun j hj => ?_
    · simp [dueAt, hw, hne]
    · rw [dueAt_eq_nil, Controller.wants_update]
      simp
    · rw [dueAt, Controller.wants_update, Function.update_of_ne hj]
      rfl
  | spuriousSlave hi hs =>
    obtain ⟨hw, hbefore⟩ := hfirst hi
    refine inOrder_take [] hbefore ?_ ?_ fun j hj => ?_
    · simp [dueAt, hw, (slaveDue_eq_nil h.slave hidle.2).mpr hs]
    · rw [dueAt_eq_nil, Controller.wants_update]
      simp
    · rw [dueAt, Controller.wants_update, Function.update_of_ne hj]
      rfl
  | slave j hi hs c hc =>
    obtain ⟨hw, hbefore⟩ := hfirst hi
    have hs' := hs
    rw [Controller.request_idle h.slave hidle.2, Fin.find?_eq_some_iff] at hs'
    have hslave : p.slaveDue = (40+j.val, some (.slave j)) :: slaveDue ⟨p.master, c⟩ := by
      refine inOrder_take (i := j) [] (fun k hk => ?_) ?_ ?_ fun k hk => ?_
      · simp [hs'.2 k hk]
      · simp [hs'.1]
      · simp [hc, Controller.wants_update]
      · simp [hc, Controller.wants_update, hk]
    refine inOrder_take (slaveDue ⟨p.master, c⟩) hbefore ?_ ?_ fun k hk => ?_
    · simp [dueAt, hw, hslave]
    · have hmasked : p.master.masked cascadeLine = false := by
        rw [Controller.wants, Bool.and_eq_true, Bool.not_eq_true'] at hw
        exact hw.2
      have hnil := slaveDue_eq_nil (p := ⟨p.master, c⟩) (hc ▸ h.slave) (hc ▸ hidle.2)
      rw [dueAt, Controller.wants_update, Function.update_self, hmasked]
      cases hreq : c.request with
      | none => simpa using hnil.mpr hreq
      | some k =>
        have hne : slaveDue ⟨p.master, c⟩ ≠ [] := fun heq => by simp [hnil.mp heq] at hreq
        rw [Option.isSome_some, Bool.not_false, Bool.and_true, if_pos rfl, if_pos rfl]
        exact if_neg hne
    · rw [dueAt, Controller.wants_update, Function.update_of_ne hk]
      simp only [dueAt, hk, if_false]

/-- Interrupts with nothing in between, as long as the output is asserted; `fuel` bounds how many. -/
def drain : Nat → Controllers → List (Nat × Option Line) × Controllers
  | 0, p => ([], p)
  | fuel+1, p => if p.master.request.isSome then
      ((p.service.1) :: (drain fuel p.service.2).1, (drain fuel p.service.2).2)
    else ([], p)

/-- Serving a request takes that request off and no other. -/
theorem Serves.pending {r : (Nat × Option Line) × Controllers} (hr : Serves p r) {line : Line}
    (hline : line ≠ .master cascadeLine) :
    r.2.pending line = (p.pending line && !(r.1.2 == some line)) := by
  cases hr with
  | spurious hm => simp
  | master i hm hi =>
    cases line with
    | master k =>
      by_cases hk : k = i
      · simp [Controllers.pending, hk]
      · simp [Controllers.pending, hk, Ne.symm hk]
    | slave k => simp [Controllers.pending]
  | spuriousSlave hm hs =>
    cases line with
    | master k =>
      have hk : k ≠ cascadeLine := fun heq => hline (heq ▸ rfl)
      simp [Controllers.pending, hk]
    | slave k => simp [Controllers.pending]
  | slave j hm hs c hc =>
    cases line with
    | master k =>
      have hk : k ≠ cascadeLine := fun heq => hline (heq ▸ rfl)
      simp [Controllers.pending, hk]
    | slave k =>
      by_cases hk : k = j
      · simp [Controllers.pending, hk, hc]
      · simp [Controllers.pending, hk, hc, Ne.symm hk]

/-- What is due is served by priority, each line once, and nothing is left that is not masked. -/
theorem drain_due (h : p.Operating) (hidle : p.InService none none) {fuel : Nat} (hfuel : p.due.length ≤ fuel) :
    (drain fuel p).1 = p.due ∧ (drain fuel p).2.due = [] ∧ (drain fuel p).2.InService none none ∧
      ∀ line ≠ .master cascadeLine, (drain fuel p).2.pending line =
        (p.pending line && !p.due.any (·.2 == some line)) := by
  induction fuel generalizing p with
  | zero =>
    have hnil : p.due = [] := List.length_eq_zero_iff.mp (Nat.le_zero.mp hfuel)
    simp [drain, hnil, hidle]
  | succ fuel ih =>
    cases hreq : p.master.request with
    | none =>
      have hnil := (due_eq_nil h hidle).mpr hreq
      simp [drain, hreq, hnil, hidle]
    | some i =>
      have hserves := service_serves h hidle
      have hcons := hserves.due_cons h hidle (by simp [hreq])
      rw [hcons, List.length_cons] at hfuel
      obtain ⟨hlist, hdone, hidle', hpending⟩ := ih (hserves.operating h) (hserves.idle hidle) (by omega)
      have hdrain : drain (fuel+1) p = (p.service.1 :: (drain fuel p.service.2).1, (drain fuel p.service.2).2) := by
        simp [drain, hreq]
      rw [hdrain, hcons]
      refine ⟨by rw [hlist], hdone, hidle', fun line hline => ?_⟩
      rw [hpending line hline, hserves.pending hline, List.any_cons, Bool.not_or, Bool.and_assoc]

end Controllers
end Nafuraito.Interrupts
