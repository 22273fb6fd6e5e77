import Mathlib.Data.Nat.Bitwise
import Nafuraito.Ata.Transfer

/-! Which sectors a transfer asks the drive for, and when they are those of the request. -/
namespace Nafuraito.Ata

/-! ### The address in the registers -/

private theorem setWidth_byte (x : BitVec 64) (n : Nat) :
    (((x >>> n) &&& 0xFF).setWidth 8).toNat = x.toNat/2^n%256 := by
  rw [BitVec.toNat_setWidth, BitVec.toNat_and, BitVec.toNat_ushiftRight, Nat.shiftRight_eq_div_pow]
  change (x.toNat/2^n &&& 2^8-1)%2^8 = _
  rw [Nat.and_two_pow_sub_one_eq_mod, Nat.mod_mod]

private theorem setWidth_lowByte (x : BitVec 64) : ((x &&& 0xFF).setWidth 8).toNat = x.toNat%256 := by
  have := setWidth_byte x 0
  rwa [BitVec.ushiftRight_zero, Nat.pow_zero, Nat.div_one] at this

/-- The drive register's lower four bits. -/
private theorem driveSelect_mod (x : BitVec 64) :
    (0xE0 ||| ((x >>> 24) &&& 0x0F).setWidth 8 : BitVec 8).toNat%16 = x.toNat/2^24%16 := by
  rw [BitVec.toNat_or, BitVec.toNat_setWidth, BitVec.toNat_and, BitVec.toNat_ushiftRight, Nat.shiftRight_eq_div_pow]
  change (224 ||| (x.toNat/2^24 &&& 2^4-1)%2^8)%2^4 = _
  rw [Nat.and_two_pow_sub_one_eq_mod, Nat.or_mod_two_pow]
  have : x.toNat/2^24%2^4%2^8 = x.toNat/2^24%2^4 := by omega
  rw [this, Nat.mod_mod]
  exact Nat.zero_or _

/-- A program asks the drive for one sector, and has no other effect than on the task file. -/
def Asks (program : BitVec 64 → Drive → Drive) (sectorOf : Nat → Nat) : Prop :=
  ∀ currentLba d, ∃ t, program currentLba d = { d with
    taskFile := t
    waiting := [sectorOf currentLba.toNat]
    accesses := d.accesses ++ [sectorOf currentLba.toNat] }

private theorem command_one (d : Drive) (lba : Nat) :
    d.command lba 1 = { d with waiting := [lba], accesses := d.accesses ++ [lba] } := rfl

/-- The four bits and three bytes of a 28-bit address make it up modulo `2^28`. -/
theorem program28_asks {cmd : BitVec 8} (hcmd : cmd = ataCmdReadSectors ∨ cmd = ataCmdWriteSectors) :
    Asks (program28 cmd) (· % 2^28) := by
  intro x d
  let t : TaskFile := {
    seccount := d.taskFile.seccount.write 1
    lbaLo := d.taskFile.lbaLo.write ((x &&& 0xFF).setWidth 8)
    lbaMid := d.taskFile.lbaMid.write (((x >>> 8) &&& 0xFF).setWidth 8)
    lbaHi := d.taskFile.lbaHi.write (((x >>> 16) &&& 0xFF).setWidth 8)
    drive := 0xE0 ||| ((x >>> 24) &&& 0x0F).setWidth 8 }
  have hprogram : program28 cmd x d = { d with taskFile := t }.outb ataPrimaryCmd cmd := rfl
  have hout : { d with taskFile := t }.outb ataPrimaryCmd cmd = { d with taskFile := t }.command t.lba28 t.count28 :=
    if_pos hcmd
  have hlba : t.lba28 = x.toNat%2^28 := by
    show (0xE0 ||| ((x >>> 24) &&& 0x0F).setWidth 8 : BitVec 8).toNat%16*2^24 +
      (((x >>> 16) &&& 0xFF).setWidth 8 : BitVec 8).toNat*2^16 +
      (((x >>> 8) &&& 0xFF).setWidth 8 : BitVec 8).toNat*2^8 + ((x &&& 0xFF).setWidth 8 : BitVec 8).toNat = _
    rw [driveSelect_mod, setWidth_byte, setWidth_byte, setWidth_lowByte]
    omega
  have hcount : t.count28 = 1 := rfl
  exact ⟨t, by rw [hprogram, hout, hlba, hcount, command_one]⟩

/-- The six bytes of a 48-bit address make it up modulo `2^48`. -/
theorem program48_asks {cmd : BitVec 8} (hcmd : cmd = ataCmdReadSectorsExt ∨ cmd = ataCmdWriteSectorsExt) :
    Asks (program48 cmd) (· % 2^48) := by
  intro x d
  let t : TaskFile := {
    seccount := ⟨1, 0⟩
    lbaLo := ⟨(x &&& 0xFF).setWidth 8, ((x >>> 24) &&& 0xFF).setWidth 8⟩
    lbaMid := ⟨((x >>> 8) &&& 0xFF).setWidth 8, ((x >>> 32) &&& 0xFF).setWidth 8⟩
    lbaHi := ⟨((x >>> 16) &&& 0xFF).setWidth 8, ((x >>> 40) &&& 0xFF).setWidth 8⟩
    drive := 0xE0 }
  have hprogram : program48 cmd x d = { d with taskFile := t }.outb ataPrimaryCmd cmd := rfl
  have hshort : ¬(cmd = ataCmdReadSectors ∨ cmd = ataCmdWriteSectors) := by
    rcases hcmd with rfl | rfl <;> decide
  have hout : { d with taskFile := t }.outb ataPrimaryCmd cmd = { d with taskFile := t }.command t.lba48 t.count48 :=
    (if_neg hshort).trans (if_pos hcmd)
  have hlba : t.lba48 = x.toNat%2^48 := by
    show (((x >>> 40) &&& 0xFF).setWidth 8 : BitVec 8).toNat*2^40 +
      (((x >>> 32) &&& 0xFF).setWidth 8 : BitVec 8).toNat*2^32 +
      (((x >>> 24) &&& 0xFF).setWidth 8 : BitVec 8).toNat*2^24 +
      (((x >>> 16) &&& 0xFF).setWidth 8 : BitVec 8).toNat*2^16 +
      (((x >>> 8) &&& 0xFF).setWidth 8 : BitVec 8).toNat*2^8 + ((x &&& 0xFF).setWidth 8 : BitVec 8).toNat = _
    rw [setWidth_byte, setWidth_byte, setWidth_byte, setWidth_byte, setWidth_byte, setWidth_lowByte]
    omega
  have hcount : t.count48 = 1 := by
    have hprevious : t.seccount.previous.toNat = 0 := rfl
    have hcurrent : t.seccount.current.toNat = 1 := rfl
    rw [TaskFile.count48, hprevious, hcurrent]
    exact if_neg (by decide)
  exact ⟨t, by rw [hprogram, hout, hlba, hcount, command_one]⟩

/-! ### One sector -/

/-- The data port hands over the sector that the drive waits with. -/
def Moves (move : Nat → Io → Io) : Prop :=
  ∀ place io sector, io.drive.waiting = [sector] →
    (move place io).drive.status = io.drive.status ∧ (move place io).drive.accesses = io.drive.accesses ∧
      (move place io).drive.transferred = io.drive.transferred ++ [(sector, place)]

theorem insw_moves : Moves insw := by
  intro place io sector hwaiting
  rw [insw, hwaiting]
  exact ⟨rfl, rfl, rfl⟩

theorem outsw_moves : Moves outsw := by
  intro place io sector hwaiting
  rw [outsw, hwaiting]
  exact ⟨rfl, rfl, rfl⟩

/-- A loop that polls the status register leaves the rest of the drive. -/
private theorem poll_run {wait : Nat → Drive → Bool × Drive} (hstop : ∀ d, (wait 0 d).2 = d)
    (hround : ∀ n d, (wait (n+1) d).2 = d.inbStatus.2 ∨ (wait (n+1) d).2 = (wait n d.inbStatus.2).2) (n : Nat)
    (d : Drive) : ∃ s, (wait n d).2 = { d with status := s } := by
  induction n generalizing d with
  | zero => exact ⟨d.status, hstop d⟩
  | succ n ih =>
    rcases hround n d with hdone | hagain
    · exact ⟨_, hdone⟩
    · obtain ⟨s, hs⟩ := ih d.inbStatus.2
      exact ⟨s, hagain.trans hs⟩

theorem waitReady_run (n : Nat) (d : Drive) : ∃ s, (waitReady n d).2 = { d with status := s } := by
  refine poll_run (fun _ => rfl) (fun n d => ?_) n d
  rw [waitReady]
  dsimp only
  split_ifs
  · exact .inl rfl
  · exact .inr rfl
  · exact .inl rfl
  · exact .inr rfl

private theorem waitDrq_run (n : Nat) (d : Drive) : ∃ s, (waitDrq n d).2 = { d with status := s } := by
  refine poll_run (fun _ => rfl) (fun n d => ?_) n d
  rw [waitDrq]
  dsimp only
  split_ifs
  · exact .inr rfl
  · exact .inl rfl
  · exact .inl rfl
  · exact .inr rfl

/-- A drive that is always ready, for commands and for data. -/
def Drive.Ready (d : Drive) : Prop := d.status = fun _ => ataStatusRdy ||| ataStatusDrq

theorem ataWaitReady_ready {d : Drive} (h : d.Ready) : ataWaitReady d = (true, d) := by
  have hrest : d.inbStatus = (ataStatusRdy ||| ataStatusDrq, d) := by
    obtain ⟨t, s, sectors, w, a, m⟩ := d
    obtain rfl : s = _ := h
    rfl
  rw [ataWaitReady, waitReady, hrest]
  rfl

private theorem ataWaitDrq_ready {d : Drive} (h : d.Ready) : ataWaitDrq d = (true, d) := by
  have hrest : d.inbStatus = (ataStatusRdy ||| ataStatusDrq, d) := by
    obtain ⟨t, s, sectors, w, a, m⟩ := d
    obtain rfl : s = _ := h
    rfl
  rw [ataWaitDrq, waitDrq, hrest]
  rfl

/-! ### All sectors -/

/-- The first `n` sectors from an address on, as the drive understands them. -/
def askedSectors (sectorOf : Nat → Nat) (lba n : Nat) : List Nat := (List.range n).map fun i => sectorOf (lba+i)

/-- The same, each with its place in memory. -/
def movedSectors (sectorOf : Nat → Nat) (lba buffer n : Nat) : List (Nat × Nat) :=
  (List.range n).map fun i => (sectorOf (lba+i), buffer + 512*i)

theorem askedSectors_succ (sectorOf : Nat → Nat) (lba n : Nat) :
    askedSectors sectorOf lba (n+1) = sectorOf lba :: askedSectors sectorOf (lba+1) n := by
  rw [askedSectors, askedSectors, List.range_succ_eq_map, List.map_cons, List.map_map]
  congr 1
  apply List.map_congr_left
  intro i _
  exact congrArg sectorOf (by omega)

private theorem movedSectors_succ (sectorOf : Nat → Nat) (lba buffer n : Nat) :
    movedSectors sectorOf lba buffer (n+1) =
      (sectorOf lba, buffer) :: movedSectors sectorOf (lba+1) (buffer+512) n := by
  rw [movedSectors, movedSectors, List.range_succ_eq_map, List.map_cons, List.map_map]
  congr 1
  apply List.map_congr_left
  intro i _
  exact Prod.ext (congrArg sectorOf (by omega)) (by show buffer + 512*(i+1) = buffer+512 + 512*i; omega)

section Loop
variable {program : BitVec 64 → Drive → Drive} {sectorOf : Nat → Nat} {move : Nat → Io → Io}

/-- One round: it fails without or after its command, or goes on with its sector at the data port. -/
theorem sectorLoop_step (hasks : Asks program sectorOf) (n buffer : Nat) (currentLba : BitVec 64) (io : Io) :
    (∃ k ≤ 1, ∃ d, sectorLoop program move (n+1) buffer currentLba io = (false, { io with drive := d }) ∧
      d.sectors = io.drive.sectors ∧ d.accesses = io.drive.accesses ++ askedSectors sectorOf currentLba.toNat k) ∨
    ∃ d, sectorLoop program move (n+1) buffer currentLba io =
        sectorLoop program move n (buffer+512) (currentLba+1) (move buffer { io with drive := d }) ∧
      d.sectors = io.drive.sectors ∧ d.waiting = [sectorOf currentLba.toNat] ∧
      d.accesses = io.drive.accesses ++ [sectorOf currentLba.toNat] ∧ d.transferred = io.drive.transferred := by
  obtain ⟨s, hready⟩ := waitReady_run 100000 io.drive
  obtain ⟨t, hprogram⟩ := hasks currentLba (ataWaitReady io.drive).2
  obtain ⟨s', hdrq⟩ := waitDrq_run 100000 (program currentLba (ataWaitReady io.drive).2)
  change (ataWaitReady io.drive).2 = _ at hready
  change (ataWaitDrq _).2 = _ at hdrq
  rw [sectorLoop]
  dsimp only
  split_ifs
  · exact .inl ⟨0, Nat.zero_le 1, _, rfl, by rw [hready], by rw [hready]; exact (List.append_nil _).symm⟩
  · exact .inl ⟨1, le_rfl, _, rfl, by rw [hdrq, hprogram, hready], by rw [hdrq, hprogram, hready]; rfl⟩
  · refine .inr ⟨_, rfl, ?_⟩
    rw [hdrq, hprogram, hready]
    exact ⟨rfl, rfl, rfl, rfl⟩

/-- What a program makes of an address does not depend on its multiple of `2^64`. -/
def Periodic (sectorOf : Nat → Nat) : Prop := ∀ n, sectorOf (n%2^64) = sectorOf n

theorem periodic_mod {m : Nat} (hm : m ∣ 2^64) : Periodic (· % m) := fun n => Nat.mod_mod_of_dvd n hm

private theorem Periodic.succ (h : Periodic sectorOf) (x : BitVec 64) (i : Nat) :
    sectorOf ((x+1).toNat + i) = sectorOf (x.toNat+1 + i) := by
  rw [← h ((x+1).toNat + i), ← h (x.toNat+1 + i), BitVec.toNat_add]
  change sectorOf (((x.toNat+1)%2^64 + i)%2^64) = _
  rw [Nat.mod_add_mod]

private theorem Periodic.asked_succ (h : Periodic sectorOf) (x : BitVec 64) (n : Nat) :
    askedSectors sectorOf (x+1).toNat n = askedSectors sectorOf (x.toNat+1) n :=
  List.map_congr_left fun i _ => h.succ x i

private theorem Periodic.moved_succ (h : Periodic sectorOf) (x : BitVec 64) (buffer n : Nat) :
    movedSectors sectorOf (x+1).toNat buffer n = movedSectors sectorOf (x.toNat+1) buffer n :=
  List.map_congr_left fun i _ => Prod.ext (h.succ x i) rfl

/-- The drive is asked for a first part of the sectors, and for all of them, each moved to or from its place, if the
loop succeeds. -/
theorem sectorLoop_run (hasks : Asks program sectorOf) (hperiodic : Periodic sectorOf) (hmoves : Moves move)
    (n buffer : Nat) (currentLba : BitVec 64) (io : Io) :
    ∃ k ≤ n, (sectorLoop program move n buffer currentLba io).2.drive.accesses =
        io.drive.accesses ++ askedSectors sectorOf currentLba.toNat k ∧
      ((sectorLoop program move n buffer currentLba io).1 = true → k = n ∧
        (sectorLoop program move n buffer currentLba io).2.drive.transferred =
          io.drive.transferred ++ movedSectors sectorOf currentLba.toNat buffer n) := by
  induction n generalizing buffer currentLba io with
  | zero => exact ⟨0, le_rfl, (List.append_nil _).symm, fun _ => ⟨rfl, (List.append_nil _).symm⟩⟩
  | succ n ih =>
    obtain ⟨k, hk, d, heq, -, haccesses⟩ | ⟨d, heq, -, hwaiting, haccesses, htransferred⟩ :=
      sectorLoop_step hasks n buffer currentLba io
    · exact ⟨k, by omega, by rw [heq]; exact haccesses, fun h => by rw [heq] at h; cases h⟩
    · obtain ⟨-, haccessed, hmoved⟩ := hmoves buffer { io with drive := d } _ hwaiting
      obtain ⟨k, hk, hasked, htrue⟩ := ih (buffer+512) (currentLba+1) (move buffer { io with drive := d })
      rw [hperiodic.asked_succ] at hasked
      rw [hperiodic.moved_succ] at htrue
      refine ⟨k+1, by omega, ?_, fun h => ?_⟩
      · rw [heq, hasked, haccessed, haccesses, askedSectors_succ, List.append_assoc, List.singleton_append]
      · rw [heq] at h ⊢
        obtain ⟨rfl, hall⟩ := htrue h
        refine ⟨rfl, ?_⟩
        rw [hall, hmoved, htransferred, movedSectors_succ, List.append_assoc, List.singleton_append]

/-- The bytes of some sectors, one after the other. -/
def sectorBytes (sectors : Nat → Vector (BitVec 8) 512) (numbers : List Nat) : List (BitVec 8) :=
  numbers.flatMap fun n => (sectors n).toList

theorem sectorBytes_length (sectors : Nat → Vector (BitVec 8) 512) (numbers : List Nat) :
    (sectorBytes sectors numbers).length = 512*numbers.length := by
  induction numbers with
  | nil => rfl
  | cons n rest ih =>
    rw [sectorBytes, List.flatMap_cons, List.length_append, Vector.length_toList, List.length_cons]
    change 512 + (sectorBytes sectors rest).length = _
    omega

/-- A loop that reads puts the bytes of a first part of the sectors behind those it finds, all of them if it
succeeds, and leaves the drive's sectors alone. -/
theorem sectorLoop_reads (hasks : Asks program sectorOf) (hperiodic : Periodic sectorOf) (n : Nat)
    (currentLba : BitVec 64) (io : Io) :
    ∃ k ≤ n, (sectorLoop program insw n io.memory.length currentLba io).2.memory =
        io.memory ++ sectorBytes io.drive.sectors (askedSectors sectorOf currentLba.toNat k) ∧
      (sectorLoop program insw n io.memory.length currentLba io).2.drive.sectors = io.drive.sectors ∧
      ((sectorLoop program insw n io.memory.length currentLba io).1 = true → k = n) := by
  induction n generalizing currentLba io with
  | zero => exact ⟨0, le_rfl, (List.append_nil _).symm, rfl, fun _ => rfl⟩
  | succ n ih =>
    obtain ⟨k, -, d, heq, hsectors, -⟩ | ⟨d, heq, hsectors, hwaiting, -, -⟩ :=
      sectorLoop_step hasks n io.memory.length currentLba io
    · exact ⟨0, Nat.zero_le _, by rw [heq]; exact (List.append_nil _).symm, by rw [heq]; exact hsectors,
        fun h => by rw [heq] at h; cases h⟩
    · have hmoved : (insw io.memory.length { io with drive := d }).memory =
          io.memory ++ (io.drive.sectors (sectorOf currentLba.toNat)).toList := by
        rw [insw, hwaiting]
        dsimp only
        rw [hsectors, List.take_length, List.drop_eq_nil_of_le (Nat.le_add_right _ _), List.append_nil]
      have hkept : (insw io.memory.length { io with drive := d }).drive.sectors = io.drive.sectors := by
        rw [insw, hwaiting]
        exact hsectors
      have hlength : (insw io.memory.length { io with drive := d }).memory.length = io.memory.length + 512 := by
        rw [hmoved, List.length_append, Vector.length_toList]
      obtain ⟨k, hk, hmemory, hdrive, htrue⟩ :=
        ih (currentLba+1) (insw io.memory.length { io with drive := d })
      rw [hlength] at hmemory hdrive htrue
      rw [hperiodic.asked_succ] at hmemory
      refine ⟨k+1, by omega, ?_, by rw [heq, hdrive, hkept], fun h => ?_⟩
      · rw [heq, hmemory, hmoved, hkept, askedSectors_succ, List.append_assoc]
        rfl
      · rw [heq] at h
        rw [htrue h]

/-- A drive that is always ready lets the loop succeed, and stays so. -/
theorem sectorLoop_ready (hasks : Asks program sectorOf) (hmoves : Moves move) (n buffer : Nat)
    (currentLba : BitVec 64) (io : Io) (hready : io.drive.Ready) :
    (sectorLoop program move n buffer currentLba io).1 = true ∧
      (sectorLoop program move n buffer currentLba io).2.drive.Ready := by
  induction n generalizing buffer currentLba io with
  | zero => exact ⟨rfl, hready⟩
  | succ n ih =>
    obtain ⟨t, hprogram⟩ := hasks currentLba io.drive
    have hasked : (program currentLba io.drive).Ready := by rw [hprogram]; exact hready
    rw [sectorLoop, ataWaitReady_ready hready]
    dsimp only
    rw [if_neg (by decide), ataWaitDrq_ready hasked]
    dsimp only
    rw [if_neg (by decide)]
    apply ih
    obtain ⟨hstatus, -⟩ := hmoves buffer ⟨program currentLba io.drive, io.memory⟩ (sectorOf currentLba.toNat)
      (by rw [hprogram])
    exact hstatus.trans hasked

end Loop

/-! ### A request -/

/-- Sectors come from the drive, or go to it. -/
inductive Direction
  | read
  | write
  deriving DecidableEq, Repr

def ataTransfer : Direction → BitVec 64 → BitVec 32 → Io → Bool × Io
  | .read => ataReadSectors
  | .write => ataWriteSectors

/-- Only sectors of the request are asked for, and after a success exactly these were transferred, in order. -/
def Addressed (lba : BitVec 64) (count : BitVec 32) (io : Io) (result : Bool × Io) : Prop :=
  (∃ asked, result.2.drive.accesses = io.drive.accesses ++ asked ∧
    ∀ sector ∈ asked, lba.toNat ≤ sector ∧ sector < lba.toNat + count.toNat) ∧
  (result.1 = true →
    result.2.drive.transferred = io.drive.transferred ++ movedSectors id lba.toNat 0 count.toNat)

/-- The last sector has an address of the kind that the first one got, or the request is turned down. -/
def AddressesFit (lba : BitVec 64) (count : BitVec 32) : Prop :=
  count = 0 ∨
    if lba.toNat < 2^28 then lba.toNat + count.toNat ≤ 2^28
    else lba.toNat + count.toNat ≤ 2^48 ∨ 2^48 ≤ lba.toNat ∨ 0xFFFF < count.toNat

/-- Nothing is asked for. -/
private theorem addressed_refused (lba : BitVec 64) (count : BitVec 32) (io : Io) :
    Addressed lba count io (false, io) :=
  ⟨⟨[], (List.append_nil _).symm, List.forall_mem_nil _⟩, fun h => absurd h Bool.false_ne_true⟩

private theorem addressed_empty (lba : BitVec 64) (io : Io) : Addressed lba 0 io (true, io) :=
  ⟨⟨[], (List.append_nil _).symm, List.forall_mem_nil _⟩, fun _ => (List.append_nil _).symm⟩

/-- A drive of zeros that is always ready, with nothing to do, and no memory. -/
def readyIo : Io where
  drive := {
    taskFile := ⟨⟨0, 0⟩, ⟨0, 0⟩, ⟨0, 0⟩, ⟨0, 0⟩, 0⟩
    status := fun _ => ataStatusRdy ||| ataStatusDrq
    sectors := fun _ => Vector.replicate 512 0
    waiting := []
    accesses := []
    transferred := [] }
  memory := []

/-- With addresses modulo `m`, from one of them on, the loop keeps to the sectors below `m`. -/
private theorem sectorLoop_addressed {program : BitVec 64 → Drive → Drive} {move : Nat → Io → Io} {m : Nat}
    (hasks : Asks program (· % m)) (hm : m ∣ 2^64) (hmoves : Moves move) {lba : BitVec 64} {count : BitVec 32}
    (hlba : lba.toNat < m) :
    (∀ io, Addressed lba count io (sectorLoop program move count.toNat 0 lba io)) ↔
      lba.toNat + count.toNat ≤ m := by
  have hperiodic := periodic_mod hm
  refine ⟨fun h => ?_, fun hle io => ?_⟩
  · by_contra hlt
    -- the sector at place `m - lba` is sector 0
    have hready := (sectorLoop_ready hasks hmoves count.toNat 0 lba readyIo rfl).1
    obtain ⟨k, -, -, htrue⟩ := sectorLoop_run hasks hperiodic hmoves count.toNat 0 lba readyIo
    have heq := ((htrue hready).2.symm.trans ((h readyIo).2 hready))
    have hsame := List.append_cancel_left heq
    have hplace : m - lba.toNat ∈ List.range count.toNat := List.mem_range.mpr (by omega)
    have hpair := List.map_inj_left.mp hsame _ hplace
    have hsector : (lba.toNat + (m - lba.toNat)) % m = lba.toNat + (m - lba.toNat) := congrArg Prod.fst hpair
    rw [Nat.add_sub_cancel' hlba.le, Nat.mod_self] at hsector
    omega
  · have hid (i : Nat) (hi : i < count.toNat) : (lba.toNat+i) % m = lba.toNat+i := Nat.mod_eq_of_lt (by omega)
    obtain ⟨k, hk, hasked, htrue⟩ := sectorLoop_run hasks hperiodic hmoves count.toNat 0 lba io
    refine ⟨⟨_, hasked, fun sector hsector => ?_⟩, fun h => ?_⟩
    · obtain ⟨i, hi, rfl⟩ := List.mem_map.mp hsector
      have := List.mem_range.mp hi
      have := hid i (by omega)
      show lba.toNat ≤ (lba.toNat+i) % m ∧ (lba.toNat+i) % m < _
      omega
    · rw [(htrue h).2]
      congr 1
      apply List.map_congr_left
      intro i hi
      exact Prod.ext (hid i (List.mem_range.mp hi)) rfl

private theorem ataSectorsLba28_addressed {cmd : BitVec 8} {move : Nat → Io → Io}
    (hcmd : cmd = ataCmdReadSectors ∨ cmd = ataCmdWriteSectors) (hmoves : Moves move) {lba : BitVec 64}
    {count : BitVec 32} (hlba : lba.toNat < 2^28) :
    (∀ io, Addressed lba count io (ataSectorsLba28 cmd move lba count io)) ↔
      count = 0 ∨ lba.toNat + count.toNat ≤ 2^28 := by
  have hsmall : ¬lba > 0x0FFFFFFF := fun h => by
    have := BitVec.lt_def.mp h
    change 2^28-1 < _ at this
    omega
  by_cases hzero : count = 0
  · subst hzero
    simp only [ataSectorsLba28, if_pos, true_or, iff_true]
    exact addressed_empty lba
  · simp only [ataSectorsLba28, if_neg hsmall, hzero, false_or]
    exact sectorLoop_addressed (program28_asks hcmd) (Nat.pow_dvd_pow 2 (by decide)) hmoves hlba

private theorem ataSectorsLba48_addressed {cmd : BitVec 8} {move : Nat → Io → Io}
    (hcmd : cmd = ataCmdReadSectorsExt ∨ cmd = ataCmdWriteSectorsExt) (hmoves : Moves move) {lba : BitVec 64}
    {count : BitVec 32} :
    (∀ io, Addressed lba count io (ataSectorsLba48 cmd move lba count io)) ↔
      count = 0 ∨ lba.toNat + count.toNat ≤ 2^48 ∨ 2^48 ≤ lba.toNat ∨ 0xFFFF < count.toNat := by
  by_cases hzero : count = 0
  · subst hzero
    simp only [ataSectorsLba48, if_pos, true_or, iff_true]
    exact addressed_empty lba
  have hlarge : lba > 0x0000FFFFFFFFFFFF ↔ 2^48 ≤ lba.toNat := BitVec.lt_def
  have hmany : count > 0xFFFF ↔ 0xFFFF < count.toNat := BitVec.lt_def
  simp only [ataSectorsLba48, hzero, false_or]
  by_cases hl : 2^48 ≤ lba.toNat
  · simp only [if_pos (hlarge.mpr hl), hl, true_or, or_true, iff_true]
    exact addressed_refused lba count
  by_cases hc : 0xFFFF < count.toNat
  · simp only [if_neg (mt hlarge.mp hl), if_pos (hmany.mpr hc), hc, or_true, iff_true]
    exact addressed_refused lba count
  simp only [if_neg (mt hlarge.mp hl), if_neg (mt hmany.mp hc), hl, hc, or_false]
  exact sectorLoop_addressed (program48_asks hcmd) (Nat.pow_dvd_pow 2 (by decide)) hmoves (Nat.lt_of_not_le hl)

private theorem ataTransfer_short (direction : Direction) {lba : BitVec 64} (hlba : ¬lba > 0x0FFFFFFF)
    (count : BitVec 32) : ∃ cmd move, (cmd = ataCmdReadSectors ∨ cmd = ataCmdWriteSectors) ∧ Moves move ∧
      ataTransfer direction lba count = ataSectorsLba28 cmd move lba count := by
  cases direction with
  | read => exact ⟨_, insw, .inl rfl, insw_moves, funext fun _ => if_neg hlba⟩
  | write => exact ⟨_, outsw, .inr rfl, outsw_moves, funext fun _ => if_neg hlba⟩

private theorem ataTransfer_long (direction : Direction) {lba : BitVec 64} (hlba : lba > 0x0FFFFFFF)
    (count : BitVec 32) : ∃ cmd move, (cmd = ataCmdReadSectorsExt ∨ cmd = ataCmdWriteSectorsExt) ∧ Moves move ∧
      ataTransfer direction lba count = ataSectorsLba48 cmd move lba count := by
  cases direction with
  | read => exact ⟨_, insw, .inl rfl, insw_moves, funext fun _ => if_pos hlba⟩
  | write => exact ⟨_, outsw, .inr rfl, outsw_moves, funext fun _ => if_pos hlba⟩

/-- Whatever the drive does, a transfer keeps to its sectors exactly if the whole range has addresses of the kind that
its start got, or the range is turned down or empty. -/
theorem ataTransfer_addressed_iff (direction : Direction) (lba : BitVec 64) (count : BitVec 32) :
    (∀ io, Addressed lba count io (ataTransfer direction lba count io)) ↔ AddressesFit lba count := by
  have hshort : lba > 0x0FFFFFFF ↔ ¬lba.toNat < 2^28 := BitVec.lt_def.trans Nat.not_lt.symm
  rw [AddressesFit]
  by_cases hlba : lba.toNat < 2^28
  · obtain ⟨cmd, move, hcmd, hmoves, heq⟩ := ataTransfer_short direction (fun h => hshort.mp h hlba) count
    rw [heq, if_pos hlba]
    exact ataSectorsLba28_addressed hcmd hmoves hlba
  · obtain ⟨cmd, move, hcmd, hmoves, heq⟩ := ataTransfer_long direction (hshort.mpr hlba) count
    rw [heq, if_neg hlba]
    exact ataSectorsLba48_addressed hcmd hmoves

/-- Two sectors from the last one with a 28-bit address on: the second one that is read is sector 0. -/
theorem lastShortAddress_crosses :
    (ataTransfer .read 0x0FFFFFFF 2 readyIo).2.drive.accesses = [0x0FFFFFFF, 0] ∧
      ¬Addressed 0x0FFFFFFF 2 readyIo (ataTransfer .read 0x0FFFFFFF 2 readyIo) := by
  have hmoved : (ataTransfer .read 0x0FFFFFFF 2 readyIo).1 = true ∧
      (ataTransfer .read 0x0FFFFFFF 2 readyIo).2.drive.transferred = [(0x0FFFFFFF, 0), (0, 512)] := by
    decide +kernel
  refine ⟨by decide +kernel, fun h => ?_⟩
  have heq := h.2 hmoved.1
  rw [hmoved.2] at heq
  exact absurd heq (by decide)

end Nafuraito.Ata
