import Mathlib.Algebra.Order.Group.Nat
import Mathlib.Data.List.Basic
import Mathlib.Logic.Function.Basic
import Mathlib.Tactic.Common

/-! Sectors read and written through the ports of an ATA drive, with 28-bit and 48-bit addresses. -/
namespace Nafuraito.Ata

def ataPrimarySeccount : BitVec 16 := 0x1F2
def ataPrimaryLbaLo : BitVec 16 := 0x1F3
def ataPrimaryLbaMid : BitVec 16 := 0x1F4
def ataPrimaryLbaHi : BitVec 16 := 0x1F5
def ataPrimaryDrive : BitVec 16 := 0x1F6
def ataPrimaryCmd : BitVec 16 := 0x1F7
def ataStatusErr : BitVec 8 := 0x01
def ataStatusDrq : BitVec 8 := 0x08
def ataStatusRdy : BitVec 8 := 0x40
def ataStatusBsy : BitVec 8 := 0x80
def ataCmdReadSectors : BitVec 8 := 0x20
def ataCmdReadSectorsExt : BitVec 8 := 0x24
def ataCmdWriteSectors : BitVec 8 := 0x30
def ataCmdWriteSectorsExt : BitVec 8 := 0x34

/-! ### The drive -/

/-- A register of the task file: what was written last, and what was written before that. -/
structure TaskRegister where
  current : BitVec 8
  previous : BitVec 8

def TaskRegister.write (r : TaskRegister) (value : BitVec 8) : TaskRegister := ⟨value, r.current⟩

structure TaskFile where
  seccount : TaskRegister
  lbaLo : TaskRegister
  lbaMid : TaskRegister
  lbaHi : TaskRegister
  drive : BitVec 8

namespace TaskFile
variable (t : TaskFile)

/-- The address of a 28-bit command: its upper four bits are in the drive register, whose LBA bit is set. -/
def lba28 : Nat :=
  t.drive.toNat%16*2^24 + t.lbaHi.current.toNat*2^16 + t.lbaMid.current.toNat*2^8 + t.lbaLo.current.toNat

/-- The address of a 48-bit command: its upper three bytes were written before the lower ones. -/
def lba48 : Nat :=
  t.lbaHi.previous.toNat*2^40 + t.lbaMid.previous.toNat*2^32 + t.lbaLo.previous.toNat*2^24 +
    t.lbaHi.current.toNat*2^16 + t.lbaMid.current.toNat*2^8 + t.lbaLo.current.toNat

/-- No sectors stand for 256. -/
def count28 : Nat := if t.seccount.current = 0 then 256 else t.seccount.current.toNat

/-- No sectors stand for 65536. -/
def count48 : Nat :=
  let n := t.seccount.previous.toNat*2^8 + t.seccount.current.toNat
  if n = 0 then 65536 else n

end TaskFile

/-- A drive: `status` tells what the next reads of its status register show. It keeps the sectors that its commands
asked for, those that its command has still to transfer, and those transferred, each with its place in memory. -/
structure Drive where
  taskFile : TaskFile
  status : Nat → BitVec 8
  sectors : Nat → Vector (BitVec 8) 512
  waiting : List Nat
  accesses : List Nat
  transferred : List (Nat × Nat)

namespace Drive

/-- A command for so many sectors from an address on. -/
def command (d : Drive) (lba count : Nat) : Drive :=
  let asked := (List.range count).map fun i => lba+i
  { d with waiting := asked, accesses := d.accesses ++ asked }

def outb (d : Drive) (port : BitVec 16) (value : BitVec 8) : Drive :=
  let t := d.taskFile
  if port = ataPrimarySeccount then { d with taskFile := { t with seccount := t.seccount.write value } }
  else if port = ataPrimaryLbaLo then { d with taskFile := { t with lbaLo := t.lbaLo.write value } }
  else if port = ataPrimaryLbaMid then { d with taskFile := { t with lbaMid := t.lbaMid.write value } }
  else if port = ataPrimaryLbaHi then { d with taskFile := { t with lbaHi := t.lbaHi.write value } }
  else if port = ataPrimaryDrive then { d with taskFile := { t with drive := value } }
  else if port = ataPrimaryCmd then
    if value = ataCmdReadSectors ∨ value = ataCmdWriteSectors then d.command t.lba28 t.count28
    else if value = ataCmdReadSectorsExt ∨ value = ataCmdWriteSectorsExt then d.command t.lba48 t.count48
    else d
  else d

/-- The status register is read. -/
def inbStatus (d : Drive) : BitVec 8 × Drive := (d.status 0, { d with status := fun n => d.status (n+1) })

end Drive

/-- The drive, and the caller's memory from the pointer on. -/
structure Io where
  drive : Drive
  memory : List (BitVec 8)

/-- 256 words from the data port to a place in memory. -/
def insw (place : Nat) (io : Io) : Io := match io.drive.waiting with
  | [] => io
  | sector :: rest => {
    drive := { io.drive with waiting := rest, transferred := io.drive.transferred ++ [(sector, place)] }
    memory := io.memory.take place ++ (io.drive.sectors sector).toList ++ io.memory.drop (place+512) }

/-- 256 words from a place in memory to the data port. -/
def outsw (place : Nat) (io : Io) : Io := match io.drive.waiting with
  | [] => io
  | sector :: rest => { io with
    drive := { io.drive with
      waiting := rest
      transferred := io.drive.transferred ++ [(sector, place)]
      sectors := Function.update io.drive.sectors sector (Vector.ofFn fun i => io.memory.getD (place+i) 0) } }

/-! ### Waiting -/

/-- The rounds that are left of `ata_wait_ready`. -/
def waitReady : Nat → Drive → Bool × Drive
  | 0, d => (false, d)
  | timeout+1, d =>
    let (status, d) := d.inbStatus
    if status &&& ataStatusErr ≠ 0 then (false, d)
    else if status &&& ataStatusBsy ≠ 0 then waitReady timeout d
    else if status &&& ataStatusRdy ≠ 0 then (true, d)
    else waitReady timeout d

def ataWaitReady (d : Drive) : Bool × Drive := waitReady 100000 d

/-- The rounds that are left of `ata_wait_drq`. -/
def waitDrq : Nat → Drive → Bool × Drive
  | 0, d => (false, d)
  | timeout+1, d =>
    let (status, d) := d.inbStatus
    if status &&& ataStatusBsy ≠ 0 then waitDrq timeout d
    else if status &&& ataStatusErr ≠ 0 then (false, d)
    else if status &&& ataStatusDrq ≠ 0 then (true, d)
    else waitDrq timeout d

def ataWaitDrq (d : Drive) : Bool × Drive := waitDrq 100000 d

/-! ### The transfers -/

/-- Drive, count and address registers of one sector, then the command. -/
def program28 (cmd : BitVec 8) (currentLba : BitVec 64) (d : Drive) : Drive :=
  let d := d.outb ataPrimaryDrive (0xE0 ||| ((currentLba >>> 24) &&& 0x0F).setWidth 8)
  let d := d.outb ataPrimarySeccount 1
  let d := d.outb ataPrimaryLbaLo ((currentLba &&& 0xFF).setWidth 8)
  let d := d.outb ataPrimaryLbaMid (((currentLba >>> 8) &&& 0xFF).setWidth 8)
  let d := d.outb ataPrimaryLbaHi (((currentLba >>> 16) &&& 0xFF).setWidth 8)
  d.outb ataPrimaryCmd cmd

/-- The upper bytes are written before the lower ones. -/
def program48 (cmd : BitVec 8) (currentLba : BitVec 64) (d : Drive) : Drive :=
  let d := d.outb ataPrimaryDrive 0xE0
  let d := d.outb ataPrimarySeccount 0
  let d := d.outb ataPrimaryLbaLo (((currentLba >>> 24) &&& 0xFF).setWidth 8)
  let d := d.outb ataPrimaryLbaMid (((currentLba >>> 32) &&& 0xFF).setWidth 8)
  let d := d.outb ataPrimaryLbaHi (((currentLba >>> 40) &&& 0xFF).setWidth 8)
  let d := d.outb ataPrimarySeccount 1
  let d := d.outb ataPrimaryLbaLo ((currentLba &&& 0xFF).setWidth 8)
  let d := d.outb ataPrimaryLbaMid (((currentLba >>> 8) &&& 0xFF).setWidth 8)
  let d := d.outb ataPrimaryLbaHi (((currentLba >>> 16) &&& 0xFF).setWidth 8)
  d.outb ataPrimaryCmd cmd

/-- The rounds that are left of the loop over the sectors; `buffer` is the place in memory. -/
def sectorLoop (program : BitVec 64 → Drive → Drive) (move : Nat → Io → Io) :
    Nat → Nat → BitVec 64 → Io → Bool × Io
  | 0, _, _, io => (true, io)
  | n+1, buffer, currentLba, io =>
    let (ready, d) := ataWaitReady io.drive
    if ready = false then (false, { io with drive := d })
    else
      let (drq, d) := ataWaitDrq (program currentLba d)
      if drq = false then (false, { io with drive := d })
      else sectorLoop program move n (buffer+512) (currentLba+1) (move buffer { io with drive := d })

/-- The two paths with 28-bit addresses. -/
def ataSectorsLba28 (cmd : BitVec 8) (move : Nat → Io → Io) (lba : BitVec 64) (count : BitVec 32) (io : Io) :
    Bool × Io :=
  if count = 0 then (true, io)
  else if lba > 0x0FFFFFFF then (false, io)
  else sectorLoop (program28 cmd) move count.toNat 0 lba io

/-- The two paths with 48-bit addresses. -/
def ataSectorsLba48 (cmd : BitVec 8) (move : Nat → Io → Io) (lba : BitVec 64) (count : BitVec 32) (io : Io) :
    Bool × Io :=
  if count = 0 then (true, io)
  else if lba > 0x0000FFFFFFFFFFFF then (false, io)
  else if count > 0xFFFF then (false, io)
  else sectorLoop (program48 cmd) move count.toNat 0 lba io

def ataReadSectorsLba28 : BitVec 64 → BitVec 32 → Io → Bool × Io := ataSectorsLba28 ataCmdReadSectors insw

def ataReadSectorsLba48 : BitVec 64 → BitVec 32 → Io → Bool × Io := ataSectorsLba48 ataCmdReadSectorsExt insw

def ataWriteSectorsLba28 : BitVec 64 → BitVec 32 → Io → Bool × Io := ataSectorsLba28 ataCmdWriteSectors outsw

def ataWriteSectorsLba48 : BitVec 64 → BitVec 32 → Io → Bool × Io := ataSectorsLba48 ataCmdWriteSectorsExt outsw

/-- The start of the range alone decides. -/
def ataReadSectors (lba : BitVec 64) (count : BitVec 32) (io : Io) : Bool × Io :=
  if lba > 0x0FFFFFFF then ataReadSectorsLba48 lba count io else ataReadSectorsLba28 lba count io

def ataWriteSectors (lba : BitVec 64) (count : BitVec 32) (io : Io) : Bool × Io :=
  if lba > 0x0FFFFFFF then ataWriteSectorsLba48 lba count io else ataWriteSectorsLba28 lba count io

end Nafuraito.Ata
