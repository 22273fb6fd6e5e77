import Nafuraito.Memory.PageWalk

/-! The page tables the bootloader builds before it enters long mode, and how the kernel reads them. -/
namespace Nafuraito.Memory.Boot
open Nafuraito.Library

/-- The registers the paging routines use, and memory in 32-bit words, numbered by the word. -/
structure Cpu where
  eax : BitVec 32
  ecx : BitVec 32
  edi : BitVec 32
  mem : Nat → BitVec 32

namespace Cpu

/-- `mov dword [addr], word`. Every address the routines store to is a multiple of 4. -/
def store (c : Cpu) (addr word : BitVec 32) : Cpu := { c with mem := Function.update c.mem (addr.toNat/4) word }

def stosd (c : Cpu) : Cpu := { c.store c.edi c.eax with edi := c.edi + 4 }

/-- A body that leaves `ecx` alone, run `n` times with the count taken down after each. -/
def times (body : Cpu → Cpu) : Nat → Cpu → Cpu
  | 0, c => c
  | n+1, c => times body n { body c with ecx := c.ecx - 1 }

/-- `rep stosd`, the direction flag clear. -/
def repStosd (c : Cpu) : Cpu := times stosd c.ecx.toNat c

/-- `loop` tests the count after taking it down, so a count of zero is 2^32 rounds. -/
def loop (body : Cpu → Cpu) (c : Cpu) : Cpu := times body ((c.ecx - 1).toNat + 1) c

/-- The body of the `.fill_pd` loops. -/
def fillEntry (c : Cpu) : Cpu := { c.store c.edi c.eax with eax := c.eax + 0x200000, edi := c.edi + 8 }

/-- A `.fill_pd` loop with the three moves before it. -/
def fillPd (c : Cpu) (pd first : BitVec 32) : Cpu := { c with edi := pd, eax := first, ecx := 512 }.loop fillEntry

end Cpu

def setupPaging4level (c : Cpu) : Cpu :=
  let c := { c with edi := 0x10000, eax := 0, ecx := 0x6000 / 4 }.repStosd
  let c := c.store 0x10000 0x11003
  let c := c.store 0x11000 0x12003
  let c := c.store 0x11008 0x13003
  let c := c.store 0x11010 0x14003
  let c := c.store 0x11018 0x15003
  let c := c.fillPd 0x12000 0x83
  let c := c.fillPd 0x13000 0x40000083
  let c := c.fillPd 0x14000 0x80000083
  c.fillPd 0x15000 0xC0000083

def setupPaging5level (c : Cpu) : Cpu :=
  let c := { c with edi := 0x10000, eax := 0, ecx := 0x8000 / 4 }.repStosd
  let c := c.store 0x10000 0x11003
  let c := c.store 0x11000 0x12003
  let c := c.store 0x12000 0x13003
  let c := c.store 0x12008 0x14003
  let c := c.store 0x12010 0x15003
  let c := c.store 0x12018 0x16003
  let c := c.fillPd 0x13000 0x83
  let c := c.fillPd 0x14000 0x40000083
  let c := c.fillPd 0x15000 0x80000083
  c.fillPd 0x16000 0xC0000083

/-- `setup_paging`: LA57 decides the mode, and with it which routine runs. -/
def setupPaging : PagingMode → Cpu → Cpu
  | .fourLevel => setupPaging4level
  | .fiveLevel => setupPaging5level

/-- The value of `paging_root_addr`, in either mode. -/
def pagingRootAddr : BitVec 64 := 0x10000

/-- Both halves of each 64-bit word of a frame. -/
def Cpu.frames (c : Cpu) : Frames := fun f i => c.mem (1024*f+2*i.val+1) ++ c.mem (1024*f+2*i.val)

/-! ### What the loops leave in memory -/

namespace Cpu
variable {c : Cpu} {n k : Nat}

private theorem edi_add (x y : BitVec 32) (h : x.toNat + y.toNat < 2^32) : (x + y).toNat = x.toNat + y.toNat := by
  rw [BitVec.toNat_add, Nat.mod_eq_of_lt h]

private theorem stosd_times (ha : c.edi.toNat % 4 = 0) (hn : c.edi.toNat + 4*n < 2^32) :
    (times stosd n c).mem k = if c.edi.toNat/4 ≤ k ∧ k < c.edi.toNat/4+n then c.eax else c.mem k := by
  induction n generalizing c with
  | zero => simp [times]
  | succ n ih =>
    have hedi : (c.edi + 4).toNat = c.edi.toNat + 4 := edi_add c.edi 4 (by change c.edi.toNat + 4 < 2^32; omega)
    have h := @ih { stosd c with ecx := c.ecx - 1 } (by change (c.edi + 4).toNat % 4 = 0; omega)
      (by change (c.edi + 4).toNat + 4*n < 2^32; omega)
    rw [times]
    apply h.trans
    change (if (c.edi + 4).toNat/4 ≤ k ∧ k < (c.edi + 4).toNat/4+n then c.eax else
      Function.update c.mem (c.edi.toNat/4) c.eax k) = _
    rw [hedi, Function.update_apply]
    split_ifs <;> first | rfl | omega

/-- The `j`-th entry of a fill loop. -/
def nthEntry (first : BitVec 32) (j : Nat) : BitVec 32 := first + BitVec.ofNat 32 (0x200000*j)

private theorem nthEntry_zero (first : BitVec 32) : nthEntry first 0 = first := BitVec.add_zero first

private theorem nthEntry_succ (first : BitVec 32) (j : Nat) : nthEntry (first + 0x200000) j = nthEntry first (j+1) := by
  unfold nthEntry
  rw [Nat.mul_succ, BitVec.ofNat_add, BitVec.add_assoc, BitVec.add_comm (BitVec.ofNat 32 _)]
  rfl

private theorem fill_times (ha : c.edi.toNat % 4 = 0) (hn : c.edi.toNat + 8*n < 2^32) :
    (times fillEntry n c).mem k = if c.edi.toNat/4 ≤ k ∧ k < c.edi.toNat/4+2*n ∧ (k - c.edi.toNat/4) % 2 = 0
      then nthEntry c.eax ((k - c.edi.toNat/4)/2) else c.mem k := by
  induction n generalizing c with
  | zero =>
    rw [if_neg (by omega)]
    rfl
  | succ n ih =>
    have hedi : (c.edi + 8).toNat = c.edi.toNat + 8 := edi_add c.edi 8 (by change c.edi.toNat + 8 < 2^32; omega)
    have h := @ih { fillEntry c with ecx := c.ecx - 1 } (by change (c.edi + 8).toNat % 4 = 0; omega)
      (by change (c.edi + 8).toNat + 8*n < 2^32; omega)
    rw [times]
    apply h.trans
    change (if (c.edi + 8).toNat/4 ≤ k ∧ k < (c.edi + 8).toNat/4+2*n ∧ (k - (c.edi + 8).toNat/4) % 2 = 0
      then nthEntry (c.eax + 0x200000) ((k - (c.edi + 8).toNat/4)/2) else
      Function.update c.mem (c.edi.toNat/4) c.eax k) = _
    rw [hedi, Function.update_apply, nthEntry_succ]
    by_cases hlater : c.edi.toNat/4+2 ≤ k
    · have hj : (k - (c.edi.toNat+8)/4)/2+1 = (k - c.edi.toNat/4)/2 := by omega
      rw [hj, if_neg (by omega : ¬ k = c.edi.toNat/4)]
      congr 1
      exact propext ⟨fun h => by omega, fun h => by omega⟩
    · by_cases hfirst : k = c.edi.toNat/4
      · rw [if_neg (by omega), if_pos hfirst, if_pos (by omega), hfirst, Nat.sub_self, Nat.zero_div, nthEntry_zero]
      · rw [if_neg (by omega), if_neg hfirst, if_neg (by omega)]

/-- The two halves of the 64-bit word at an index of a frame. -/
def low (c : Cpu) (f : Nat) (i : Fin 512) : BitVec 32 := c.mem (1024*f+2*i.val)
def high (c : Cpu) (f : Nat) (i : Fin 512) : BitVec 32 := c.mem (1024*f+2*i.val+1)

variable {f g : Nat} {i j : Fin 512} {addr word : BitVec 32}

theorem store_low (h : addr.toNat = 4096*g+8*j.val) :
    (c.store addr word).low f i = if f = g ∧ i = j then word else c.low f i := by
  change Function.update c.mem (addr.toNat/4) word (1024*f+2*i.val) = _
  rw [Function.update_apply]
  by_cases hsame : f = g ∧ i = j
  · rw [if_pos hsame, if_pos (by rw [hsame.1, hsame.2]; omega)]
  · rw [if_neg hsame, if_neg (fun hk => hsame ⟨by omega, Fin.ext (by omega)⟩)]
    rfl

theorem store_high (h : addr.toNat = 4096*g+8*j.val) : (c.store addr word).high f i = c.high f i := by
  change Function.update c.mem (addr.toNat/4) word (1024*f+2*i.val+1) = _
  rw [Function.update_apply, if_neg (by omega)]
  rfl

private theorem fillPd_mem (h : addr.toNat = 4096*g) (hg : g+1 < 2^20) :
    (c.fillPd addr word).mem k = if 1024*g ≤ k ∧ k < 1024*g+1024 ∧ (k-1024*g) % 2 = 0
      then nthEntry word ((k-1024*g)/2) else c.mem k := by
  have hfill := @fill_times { c with edi := addr, eax := word, ecx := 512 } 512 k
    (by change addr.toNat % 4 = 0; omega) (by change addr.toNat + 8*512 < 2^32; omega)
  have hcount : ((512 : BitVec 32) - 1).toNat + 1 = 512 := by decide
  have hrun : c.fillPd addr word = times fillEntry 512 { c with edi := addr, eax := word, ecx := 512 } := by
    rw [fillPd, loop]
    exact congrArg (times fillEntry · _) hcount
  rw [hrun, hfill]
  change (if addr.toNat/4 ≤ k ∧ k < addr.toNat/4+2*512 ∧ (k - addr.toNat/4) % 2 = 0
    then nthEntry word ((k - addr.toNat/4)/2) else c.mem k) = _
  rw [show addr.toNat/4 = 1024*g by omega]

theorem fillPd_low (h : addr.toNat = 4096*g) (hg : g+1 < 2^20) :
    (c.fillPd addr word).low f i = if f = g then nthEntry word i.val else c.low f i := by
  unfold low
  rw [fillPd_mem h hg]
  by_cases hf : f = g
  · subst hf
    rw [if_pos (by omega), if_pos rfl, show (1024*f+2*i.val-1024*f)/2 = i.val by omega]
  · rw [if_neg (by omega), if_neg hf]

theorem fillPd_high (h : addr.toNat = 4096*g) (hg : g+1 < 2^20) : (c.fillPd addr word).high f i = c.high f i := by
  unfold high
  rw [fillPd_mem h hg, if_neg (by omega)]

/-- The clearing loop zeroes whole frames. -/
theorem clear_mem (hn : word.toNat = 1024*n) (hg : addr.toNat = 4096*g) (hlt : g+n < 2^20)
    (hk : 1024*g ≤ k) (hk' : k < 1024*(g+n)) :
    ({ c with edi := addr, eax := 0, ecx := word }.repStosd).mem k = 0 := by
  have h := @stosd_times { c with edi := addr, eax := 0, ecx := word } word.toNat k
    (by change addr.toNat % 4 = 0; omega) (by change addr.toNat + 4*word.toNat < 2^32; omega)
  change (times stosd word.toNat { c with edi := addr, eax := 0, ecx := word }).mem k = _
  rw [h]
  exact if_pos ⟨by change addr.toNat/4 ≤ k; omega, by change k < addr.toNat/4+word.toNat; omega⟩

end Cpu

/-! ### The tables -/

/-- Present and writable, to a table frame. -/
def linkTo (f : Nat) : BitVec 64 := (PageTableEntry.of (BitVec.ofNat 64 (4096*f)) ⟨3⟩).raw

/-- Present, writable and huge: the 2 MiB page from an address. -/
def hugeLeaf (addr : Nat) : BitVec 64 := (PageTableEntry.of (BitVec.ofNat 64 addr) ⟨0x83⟩).raw

/-- `n` tables whose only entry links the next, then a PDPT with four entries, then a page directory for
each GiB with a 2 MiB page for every entry. -/
structure Identity (n : Nat) (mem : Frames) : Prop where
  upper : ∀ j < n, ∀ i, mem (0x10+j) i = if i.val = 0 then linkTo (0x11+j) else 0
  pdpt : ∀ i, mem (0x10+n) i = if i.val < 4 then linkTo (0x11+n+i.val) else 0
  directory : ∀ g < 4, ∀ k, mem (0x11+n+g) k = hugeLeaf (g*2^30+k.val*2^21)

/-- The tables above the PDPT. -/
def above (mode : PagingMode) : Nat := mode.top-2

private theorem of_low {addr flags : Nat} (ha : addr % 4096 = 0) (hlt : addr < 2^32) (hf : flags < 4096) :
    (0#32 ++ BitVec.ofNat 32 (addr+flags) : BitVec 64) =
      (PageTableEntry.of (BitVec.ofNat 64 addr) ⟨BitVec.ofNat 64 flags⟩).raw := by
  have haddr : (BitVec.ofNat 64 addr).toNat = addr := Nat.mod_eq_of_lt (by omega)
  have hflags : (BitVec.ofNat 64 flags).toNat = flags := Nat.mod_eq_of_lt (by omega)
  have hmask : BitVec.ofNat 64 addr &&& addressMask = BitVec.ofNat 64 addr :=
    Words.and_mask_of_aligned addressMask_bits (by rw [haddr]; exact ha) (by omega)
  have hor := Words.or_toNat (k := 12) (x := BitVec.ofNat 64 addr) (y := BitVec.ofNat 64 flags)
    (by rw [haddr]; exact ha) (by rw [hflags]; exact hf)
  rw [PageTableEntry.of, hmask, ← BitVec.toNat_inj, hor, haddr, hflags, BitVec.toNat_append, BitVec.toNat_ofNat,
    BitVec.toNat_ofNat]
  have h₀ : (0 % 2^32) <<< 32 = 0 := by decide
  rw [h₀, Nat.zero_or, Nat.mod_eq_of_lt (by omega)]

private theorem frames_halves (c : Cpu) (f : Nat) (i : Fin 512) : c.frames f i = c.high f i ++ c.low f i := rfl

private theorem entry_of {c : Cpu} {f : Nat} {i : Fin 512} {addr flags : Nat} (hh : c.high f i = 0)
    (hl : c.low f i = BitVec.ofNat 32 (addr+flags)) (ha : addr % 4096 = 0) (hlt : addr < 2^32) (hf : flags < 4096) :
    c.frames f i = (PageTableEntry.of (BitVec.ofNat 64 addr) ⟨BitVec.ofNat 64 flags⟩).raw := by
  rw [frames_halves, hh, hl]
  exact of_low ha hlt hf

private theorem frames_zero {c : Cpu} {f : Nat} {i : Fin 512} (hh : c.high f i = 0) (hl : c.low f i = 0) :
    c.frames f i = 0 := by
  rw [frames_halves, hh, hl]
  rfl

/-- The state after the clearing loop of a routine for `n` frames. -/
private def cleared (c : Cpu) (size : BitVec 32) : Cpu := { c with edi := 0x10000, eax := 0, ecx := size }.repStosd

private theorem cleared_zero (c : Cpu) {size : BitVec 32} {n : Nat} (hn : size.toNat = 1024*n) (hlt : n < 0x100)
    {f : Nat} (hf : 0x10 ≤ f) (hf' : f < 0x10+n) (i : Fin 512) :
    (cleared c size).low f i = 0 ∧ (cleared c size).high f i = 0 :=
  ⟨Cpu.clear_mem (g := 0x10) hn rfl (by omega) (by omega) (by omega),
    Cpu.clear_mem (g := 0x10) hn rfl (by omega) (by omega) (by omega)⟩

/-- What both routines do after clearing, from the PDPT on. -/
private def fillFrom (c : Cpu) (pdpt : BitVec 32) : Cpu :=
  let c := c.store pdpt (pdpt + 0x1003)
  let c := c.store (pdpt + 8) (pdpt + 0x2003)
  let c := c.store (pdpt + 0x10) (pdpt + 0x3003)
  let c := c.store (pdpt + 0x18) (pdpt + 0x4003)
  let c := c.fillPd (pdpt + 0x1000) 0x83
  let c := c.fillPd (pdpt + 0x2000) 0x40000083
  let c := c.fillPd (pdpt + 0x3000) 0x80000083
  c.fillPd (pdpt + 0x4000) 0xC0000083

private theorem setup4_eq (c : Cpu) : setupPaging4level c =
    fillFrom ((cleared c (0x6000 / 4)).store 0x10000 0x11003) 0x11000 := rfl

private theorem setup5_eq (c : Cpu) : setupPaging5level c =
    fillFrom (((cleared c (0x8000 / 4)).store 0x10000 0x11003).store 0x11000 0x12003) 0x12000 := rfl

section FillFrom
variable {c : Cpu} {pdpt : BitVec 32} {q : Nat} {f : Nat} {i : Fin 512}

/-- The addresses after the PDPT's, of its entries and of the page directories. -/
private theorem offsets (hq : pdpt.toNat = 4096*q) (hlt : q+5 < 2^20) :
    ((pdpt + 8).toNat = 4096*q+8*1 ∧ (pdpt + 0x10).toNat = 4096*q+8*2 ∧ (pdpt + 0x18).toNat = 4096*q+8*3) ∧
      (pdpt + 0x1000).toNat = 4096*(q+1) ∧ (pdpt + 0x2000).toNat = 4096*(q+2) ∧
      (pdpt + 0x3000).toNat = 4096*(q+3) ∧ (pdpt + 0x4000).toNat = 4096*(q+4) := by
  have h {x : Nat} (hx : x < 0x5000) : (pdpt + BitVec.ofNat 32 x).toNat = 4096*q+x := by
    rw [BitVec.toNat_add, BitVec.toNat_ofNat]
    omega
  exact ⟨⟨h (by decide), h (by decide), h (by decide)⟩, (h (x := 0x1000) (by decide)).trans (by omega),
    (h (x := 0x2000) (by decide)).trans (by omega), (h (x := 0x3000) (by decide)).trans (by omega),
    (h (x := 0x4000) (by decide)).trans (by omega)⟩

private theorem fillFrom_high (hq : pdpt.toNat = 4096*q) (hlt : q+5 < 2^20) :
    (fillFrom c pdpt).high f i = c.high f i := by
  obtain ⟨⟨he₁, he₂, he₃⟩, h₁, h₂, h₃, h₄⟩ := offsets hq hlt
  unfold fillFrom
  rw [Cpu.fillPd_high h₄ (by omega), Cpu.fillPd_high h₃ (by omega), Cpu.fillPd_high h₂ (by omega),
    Cpu.fillPd_high h₁ (by omega), Cpu.store_high (j := 3) he₃, Cpu.store_high (j := 2) he₂,
    Cpu.store_high (j := 1) he₁, Cpu.store_high (g := q) (j := 0) hq]

private theorem fillFrom_low (hq : pdpt.toNat = 4096*q) (hlt : q+5 < 2^20) : (fillFrom c pdpt).low f i =
    if f = q+4 then Cpu.nthEntry 0xC0000083 i.val
    else if f = q+3 then Cpu.nthEntry 0x80000083 i.val
    else if f = q+2 then Cpu.nthEntry 0x40000083 i.val
    else if f = q+1 then Cpu.nthEntry 0x83 i.val
    else if f = q ∧ i = 3 then pdpt + 0x4003
    else if f = q ∧ i = 2 then pdpt + 0x3003
    else if f = q ∧ i = 1 then pdpt + 0x2003
    else if f = q ∧ i = 0 then pdpt + 0x1003 else c.low f i := by
  obtain ⟨⟨he₁, he₂, he₃⟩, h₁, h₂, h₃, h₄⟩ := offsets hq hlt
  unfold fillFrom
  rw [Cpu.fillPd_low h₄ (by omega), Cpu.fillPd_low h₃ (by omega), Cpu.fillPd_low h₂ (by omega),
    Cpu.fillPd_low h₁ (by omega), Cpu.store_low (j := 3) he₃, Cpu.store_low (j := 2) he₂,
    Cpu.store_low (j := 1) he₁, Cpu.store_low (g := q) (j := 0) hq]

/-- Over cleared frames the last part of the routines builds the PDPT and the page directories. -/
private theorem fillFrom_tables (hq : pdpt.toNat = 4096*q) (hlt : q+5 < 2^20)
    (hzero : ∀ f i, q ≤ f → f < q+5 → c.low f i = 0 ∧ c.high f i = 0) :
    (∀ i, (fillFrom c pdpt).frames q i = if i.val < 4 then linkTo (q+1+i.val) else 0) ∧
      ∀ g < 4, ∀ k, (fillFrom c pdpt).frames (q+1+g) k = hugeLeaf (g*2^30+k.val*2^21) := by
  have hhigh {f : Nat} (i : Fin 512) (hf : q ≤ f) (hf' : f < q+5) : (fillFrom c pdpt).high f i = 0 :=
    (fillFrom_high hq hlt).trans (hzero f i hf hf').2
  have hpdpt : pdpt = BitVec.ofNat 32 (4096*q) := by
    rw [← BitVec.toNat_inj, hq, BitVec.toNat_ofNat]
    omega
  have hlink {w : BitVec 32} (x : Nat) (hw : w = BitVec.ofNat 32 (4096*(1+x)+3)) :
      pdpt + w = BitVec.ofNat 32 (4096*(q+1+x)+3) := by
    rw [hw, hpdpt, ← BitVec.ofNat_add]
    congr 1
    omega
  refine ⟨fun i => ?_, fun g hg k => ?_⟩
  · have h := fillFrom_low (c := c) (f := q) (i := i) hq hlt
    rw [if_neg (by omega), if_neg (by omega), if_neg (by omega), if_neg (by omega)] at h
    have hne {i : Fin 512} (j : Fin 512) (hij : i ≠ j) : ¬ (q = q ∧ i = j) := fun h => hij h.2
    by_cases hi : i.val < 4
    · rw [if_pos hi]
      apply entry_of (hhigh i (by omega) (by omega)) _ (by omega) (by omega) (by decide : 3 < 4096)
      have hcases : i.val = 0 ∨ i.val = 1 ∨ i.val = 2 ∨ i.val = 3 := by omega
      rw [h]
      rcases hcases with hi | hi | hi | hi
      · obtain rfl : i = 0 := Fin.ext hi
        rw [if_neg (hne 3 (by decide)), if_neg (hne 2 (by decide)), if_neg (hne 1 (by decide)), if_pos ⟨rfl, rfl⟩]
        exact hlink 0 (by decide)
      · obtain rfl : i = 1 := Fin.ext hi
        rw [if_neg (hne 3 (by decide)), if_neg (hne 2 (by decide)), if_pos ⟨rfl, rfl⟩]
        exact hlink 1 (by decide)
      · obtain rfl : i = 2 := Fin.ext hi
        rw [if_neg (hne 3 (by decide)), if_pos ⟨rfl, rfl⟩]
        exact hlink 2 (by decide)
      · obtain rfl : i = 3 := Fin.ext hi
        rw [if_pos ⟨rfl, rfl⟩]
        exact hlink 3 (by decide)
    · rw [if_neg hi]
      have hge (j : Fin 512) (hj : j.val < 4) : i ≠ j := fun h => hi (h ▸ hj)
      rw [if_neg (hne 3 (hge 3 (by decide))), if_neg (hne 2 (hge 2 (by decide))), if_neg (hne 1 (hge 1 (by decide))),
        if_neg (hne 0 (hge 0 (by decide))), (hzero q i (by omega) (by omega)).1] at h
      exact frames_zero (hhigh i (by omega) (by omega)) h
  · have h := fillFrom_low (c := c) (f := q+1+g) (i := k) hq hlt
    apply entry_of (hhigh k (by omega) (by omega)) _ (by omega) (by omega) (by decide : 0x83 < 4096)
    have hword {w : BitVec 32} (g : Nat) (hw : w = BitVec.ofNat 32 (g*2^30+0x83)) :
        Cpu.nthEntry w k.val = BitVec.ofNat 32 (g*2^30+k.val*2^21+0x83) := by
      rw [hw, Cpu.nthEntry, ← BitVec.ofNat_add]
      congr 1
      omega
    have hcases : g = 0 ∨ g = 1 ∨ g = 2 ∨ g = 3 := by omega
    rw [h]
    rcases hcases with rfl | rfl | rfl | rfl
    · rw [if_neg (by omega), if_neg (by omega), if_neg (by omega), if_pos (by omega)]
      exact hword 0 (by decide)
    · rw [if_neg (by omega), if_neg (by omega), if_pos (by omega)]
      exact hword 1 (by decide)
    · rw [if_neg (by omega), if_pos (by omega)]
      exact hword 2 (by decide)
    · rw [if_pos (by omega)]
      exact hword 3 (by decide)

/-- The frames below the PDPT stay as they were. -/
private theorem fillFrom_below (hq : pdpt.toNat = 4096*q) (hlt : q+5 < 2^20) (hf : f < q) :
    (fillFrom c pdpt).low f i = c.low f i := by
  rw [fillFrom_low hq hlt, if_neg (by omega), if_neg (by omega), if_neg (by omega), if_neg (by omega),
    if_neg (by omega), if_neg (by omega), if_neg (by omega), if_neg (by omega)]

end FillFrom

/-- A table with one entry, the low half of which is all that was stored over zeros. -/
private theorem upper_of {c : Cpu} {f g : Nat} {i : Fin 512} (hh : c.high f i = 0) (hg : 4096*g+3 < 2^32)
    (hl : c.low f i = if i = 0 then BitVec.ofNat 32 (4096*g+3) else 0) :
    c.frames f i = if i.val = 0 then linkTo g else 0 := by
  by_cases hi : i = 0
  · rw [if_pos hi] at hl
    rw [if_pos (show i.val = 0 from congrArg Fin.val hi)]
    exact entry_of hh hl (by omega) (by omega) (by decide : 3 < 4096)
  · rw [if_neg hi] at hl
    rw [if_neg (show ¬ i.val = 0 from fun h => hi (Fin.ext h))]
    exact frames_zero hh hl

private theorem setup4_identity (c : Cpu) : Identity 1 (setupPaging4level c).frames := by
  have hclear {f : Nat} (hf : 0x10 ≤ f) (hf' : f < 0x16) (i : Fin 512) :=
    cleared_zero c (show (0x6000 / 4 : BitVec 32).toNat = 1024*6 by decide) (by decide) hf hf' i
  have hq : (0x11000 : BitVec 32).toNat = 4096*0x11 := by decide
  rw [setup4_eq]
  obtain ⟨hpdpt, hdir⟩ := fillFrom_tables (c := (cleared c (0x6000 / 4)).store 0x10000 0x11003) hq (by decide)
    fun f i hf hf' => ⟨(Cpu.store_low (g := 0x10) (j := 0) (by decide)).trans
      ((if_neg (by omega)).trans (hclear (by omega) (by omega) i).1),
      (Cpu.store_high (g := 0x10) (j := 0) (by decide)).trans (hclear (by omega) (by omega) i).2⟩
  refine ⟨fun j hj i => ?_, hpdpt, hdir⟩
  obtain rfl : j = 0 := by omega
  apply upper_of
  · rw [fillFrom_high hq (by decide), Cpu.store_high (g := 0x10) (j := 0) (by decide)]
    exact (hclear (by decide) (by decide) i).2
  · decide
  · rw [fillFrom_below hq (by decide) (by decide), Cpu.store_low (g := 0x10) (j := 0) (by decide),
      (hclear (by decide) (by decide) i).1]
    simp

private theorem setup5_identity (c : Cpu) : Identity 2 (setupPaging5level c).frames := by
  have hclear {f : Nat} (hf : 0x10 ≤ f) (hf' : f < 0x18) (i : Fin 512) :=
    cleared_zero c (show (0x8000 / 4 : BitVec 32).toNat = 1024*8 by decide) (by decide) hf hf' i
  have hq : (0x12000 : BitVec 32).toNat = 4096*0x12 := by decide
  rw [setup5_eq]
  have hhigh {f : Nat} (hf : 0x10 ≤ f) (hf' : f < 0x18) (i : Fin 512) :
      (((cleared c (0x8000 / 4)).store 0x10000 0x11003).store 0x11000 0x12003).high f i = 0 := by
    rw [Cpu.store_high (g := 0x11) (j := 0) (by decide), Cpu.store_high (g := 0x10) (j := 0) (by decide)]
    exact (hclear hf hf' i).2
  have hlow {f : Nat} (hf : 0x10 ≤ f) (hf' : f < 0x18) (i : Fin 512) :
      (((cleared c (0x8000 / 4)).store 0x10000 0x11003).store 0x11000 0x12003).low f i =
        if f = 0x11 ∧ i = 0 then 0x12003 else if f = 0x10 ∧ i = 0 then 0x11003 else 0 := by
    rw [Cpu.store_low (g := 0x11) (j := 0) (by decide), Cpu.store_low (g := 0x10) (j := 0) (by decide),
      (hclear hf hf' i).1]
  obtain ⟨hpdpt, hdir⟩ := fillFrom_tables hq (by decide) fun f i hf hf' =>
    ⟨(hlow (by omega) (by omega) i).trans ((if_neg (by omega)).trans (if_neg (by omega))),
      hhigh (by omega) (by omega) i⟩
  refine ⟨fun j hj i => ?_, hpdpt, hdir⟩
  apply upper_of
  · rw [fillFrom_high hq (by decide)]
    exact hhigh (by omega) (by omega) i
  · omega
  · rw [fillFrom_below hq (by decide) (by omega), hlow (by omega) (by omega) i]
    have hcases : j = 0 ∨ j = 1 := by omega
    rcases hcases with rfl | rfl <;> simp

/-- Both routines build the identity tables, whatever was in memory before. -/
theorem setupPaging_identity (mode : PagingMode) (c : Cpu) : Identity (above mode) (setupPaging mode c).frames := by
  cases mode
  · exact setup4_identity c
  · exact setup5_identity c

/-! ### How the kernel reads them -/

section Reading
open PageTableEntry

private theorem address_of {addr : Nat} (ha : addr % 4096 = 0) (hlt : addr < 2^32) {flags : PageTableFlags}
    (hf : FlagBits flags) : (PageTableEntry.of (BitVec.ofNat 64 addr) flags).address = BitVec.ofNat 64 addr := by
  have haddr : (BitVec.ofNat 64 addr).toNat = addr := Nat.mod_eq_of_lt (by omega)
  exact of_address (by rw [haddr]; exact ha) (by omega) hf

theorem linkTo_address {f : Nat} (hf : f < 2^20) : address ⟨linkTo f⟩ = BitVec.ofNat 64 (4096*f) :=
  address_of (by omega) (by omega) (by decide)

theorem linkTo_present (f : Nat) : isPresent ⟨linkTo f⟩ = true := of_present (by decide)

theorem linkTo_huge (f : Nat) : isHuge ⟨linkTo f⟩ = false := of_huge.trans (by decide)

theorem hugeLeaf_present (addr : Nat) : isPresent ⟨hugeLeaf addr⟩ = true := of_present (by decide)

theorem hugeLeaf_huge (addr : Nat) : isHuge ⟨hugeLeaf addr⟩ = true := of_huge.trans (by decide)

theorem hugeLeaf_address {addr : Nat} (ha : addr % 2^21 = 0) (hlt : addr < 2^32) :
    address ⟨hugeLeaf addr⟩ = BitVec.ofNat 64 addr :=
  address_of (by omega) hlt (by decide)

private theorem mask21_bits : Words.IsMask 0x1FFFFF#64 0 21 := by
  intro i
  rcases Nat.lt_or_ge i 64 with h | h
  · have : ∀ i : Fin 64, (0x1FFFFF#64).getLsbD i = decide (0 ≤ i.val ∧ i.val < 21) := by decide
    exact this ⟨i, h⟩
  · rw [BitVec.getLsbD_of_ge _ _ h, decide_eq_false (by omega)]

/-- A 2 MiB leaf gives the address with the offset of `v` in it. -/
theorem hugeLeaf_leafAddress {addr : Nat} (ha : addr % 2^21 = 0) (hlt : addr < 2^32) (v : VirtAddr) :
    (Machine.leafAddress v 1 ⟨hugeLeaf addr⟩).addr.toNat = addr + v.addr.toNat % 2^21 := by
  have haddr : (BitVec.ofNat 64 addr).toNat = addr := Nat.mod_eq_of_lt (by omega)
  have hbase : (BitVec.ofNat 64 addr &&& ~~~0x1FFFFF#64).toNat = addr := by
    rw [Words.and_not_toNat mask21_bits, haddr]
    omega
  have hoff : (v.addr &&& 0x1FFFFF#64).toNat = v.addr.toNat % 2^21 := Words.and_low_toNat mask21_bits
  have hor := Words.or_toNat (k := 21) (x := BitVec.ofNat 64 addr &&& ~~~0x1FFFFF#64) (y := v.addr &&& 0x1FFFFF#64)
    (by rw [hbase]; exact ha) (by omega)
  rw [Machine.leafAddress, hugeLeaf_address ha hlt, hor, hbase, hoff]

variable {n : Nat} {s : Machine} {v : VirtAddr}

private theorem tableAt_frame {f : Nat} (hf : f < 2^20) :
    Machine.tableAt (BitVec.ofNat 64 (4096*f)) s = (.ok f, s) := by
  have hphys : (BitVec.ofNat 64 (4096*f)).toNat = 4096*f := Nat.mod_eq_of_lt (by omega)
  rw [Machine.tableAt_run (by rw [hphys]; omega), hphys, Nat.mul_div_cancel_left _ (by decide)]

section Step
variable {α : Type} {out : Nat → PageTableEntry → α} {l f g addr : Nat}

private theorem readWalk_link (hf : f < 2^20) (hg : g < 2^20) (he : s.mem f (v.index (l+1)) = linkTo g) :
    Machine.readWalk v out (l+1) (BitVec.ofNat 64 (4096*f)) s =
      Machine.readWalk v out l (BitVec.ofNat 64 (4096*g)) s := by
  have hp : isPresent ⟨s.mem f (v.index (l+1))⟩ = true := by rw [he]; exact linkTo_present g
  rw [Machine.readWalk_succ, Fallible.bind_of_ok (tableAt_frame hf), Fallible.bind_of_ok (Machine.presentEntry_run hp),
    he, if_neg (fun h => by rw [linkTo_huge] at h; cases h.2), linkTo_address hg]

private theorem readWalk_absent (hf : f < 2^20) (he : s.mem f (v.index (l+1)) = 0) :
    Machine.readWalk v out (l+1) (BitVec.ofNat 64 (4096*f)) s = (.error (.err (Machine.notMapped (l+1))), s) := by
  have hp : isPresent ⟨s.mem f (v.index (l+1))⟩ = false := by rw [he]; rfl
  rw [Machine.readWalk_succ, Fallible.bind_of_ok (tableAt_frame hf),
    Fallible.bind_of_error (Machine.presentEntry_absent hp)]

private theorem readWalk_huge (hf : f < 2^20) (hl : l+1 ≤ 2) (he : s.mem f (v.index (l+1)) = hugeLeaf addr) :
    Machine.readWalk v out (l+1) (BitVec.ofNat 64 (4096*f)) s = (.ok (out (l+1) ⟨hugeLeaf addr⟩), s) := by
  have hp : isPresent ⟨s.mem f (v.index (l+1))⟩ = true := by rw [he]; exact hugeLeaf_present addr
  rw [Machine.readWalk_succ, Fallible.bind_of_ok (tableAt_frame hf), Fallible.bind_of_ok (Machine.presentEntry_run hp),
    he, if_pos ⟨hl, hugeLeaf_huge addr⟩]
  rfl

end Step

/-- `v` takes entry 0 of each table up to `r` levels above the PDPT and one of the first four there. -/
def Inside (v : VirtAddr) (r : Nat) : Prop := (∀ k < r, (v.index (3+k)).val = 0) ∧ (v.index 2).val < 4

/-- The walk from a table `r` levels above the PDPT finds the 2 MiB page of `v` or an absent entry. -/
theorem Identity.readWalk_run (h : Identity n s.mem) (hn : n < 0x100) {α : Type} (out : Nat → PageTableEntry → α)
    {r : Nat} (hr : r ≤ n) :
    (Inside v r → Machine.readWalk v out (2+r) (BitVec.ofNat 64 (4096*(0x10+(n-r)))) s =
      (.ok (out 1 ⟨hugeLeaf ((v.index 2).val*2^30+(v.index 1).val*2^21)⟩), s)) ∧
    (¬ Inside v r → ∃ message,
      Machine.readWalk v out (2+r) (BitVec.ofNat 64 (4096*(0x10+(n-r)))) s = (.error (.err message), s)) := by
  induction r with
  | zero =>
    have hpdpt := h.pdpt (v.index 2)
    refine ⟨fun hin => ?_, fun hout => ⟨Machine.notMapped 2, ?_⟩⟩
    · rw [if_pos hin.2] at hpdpt
      have hlt := hin.2
      have hpd := h.directory (v.index 2).val hlt (v.index 1)
      exact (readWalk_link (by omega) (by omega) hpdpt).trans (readWalk_huge (by omega) (by decide) hpd)
    · rw [if_neg fun hlt => hout ⟨fun k hk => absurd hk (Nat.not_lt_zero k), hlt⟩] at hpdpt
      exact readWalk_absent (by omega) hpdpt
  | succ r ih =>
    have htable := h.upper (n-(r+1)) (by omega) (v.index (3+r))
    have hlevel : 2+(r+1) = 2+r+1 := rfl
    have hindex : 2+r+1 = 3+r := by omega
    have hnext : 0x11+(n-(r+1)) = 0x10+(n-r) := by omega
    rw [hnext] at htable
    rw [hlevel]
    by_cases hzero : (v.index (3+r)).val = 0
    · rw [if_pos hzero, ← hindex] at htable
      have hlast : Inside v (r+1) ↔ Inside v r := by
        refine and_congr_left fun _ => ⟨fun hk k hlt => hk k (by omega), fun hk k hlt => ?_⟩
        rcases Nat.lt_succ_iff_lt_or_eq.mp hlt with hlt | rfl
        · exact hk k hlt
        · exact hzero
      rw [readWalk_link (by omega) (by omega) htable, hlast]
      exact ih (by omega)
    · rw [if_neg hzero, ← hindex] at htable
      exact ⟨fun hin => absurd (hin.1 r (by omega)) hzero, fun _ => ⟨_, readWalk_absent (by omega) htable⟩⟩

/-- Among the sign-extended addresses those inside the tables are the ones below 4 GiB. -/
theorem inside_iff {mode : PagingMode} (hv : v.SignExtended mode) : Inside v (above mode) ↔ v.addr.toNat < 2^32 := by
  have hlt := v.addr.isLt
  cases mode
  · have hsplit : Inside v (above .fourLevel) ↔ (v.index 3).val = 0 ∧ (v.index 2).val < 4 :=
      and_congr_left fun _ => ⟨fun hk => hk 0 (by decide), fun h₃ k hk => by
        obtain rfl : k = 0 := Nat.lt_one_iff.mp hk
        exact h₃⟩
    rw [hsplit, VirtAddr.index_toNat, VirtAddr.index_toNat]
    simp only [VirtAddr.SignExtended] at hv
    omega
  · have hsplit : Inside v (above .fiveLevel) ↔ ((v.index 3).val = 0 ∧ (v.index 4).val = 0) ∧ (v.index 2).val < 4 :=
      and_congr_left fun _ => ⟨fun hk => ⟨hk 0 (by decide), hk 1 (by decide)⟩, fun h k hk => by
        have hcases : k = 0 ∨ k = 1 := by
          have hk : k < 2 := hk
          omega
        rcases hcases with rfl | rfl
        · exact h.1
        · exact h.2⟩
    rw [hsplit, VirtAddr.index_toNat, VirtAddr.index_toNat, VirtAddr.index_toNat]
    simp only [VirtAddr.SignExtended] at hv
    omega

end Reading

/-- `paging_init` after the bootloader: the root from CR3, in the mode the bootloader chose. -/
def pagingManager (mode : PagingMode) : PagingManager := ⟨mode, pagingRootAddr, by decide⟩

/-- The tables of a routine: one for each level above the page directories, and those four. -/
def tableCount (mode : PagingMode) : Nat := above mode + 5

/-- Memory that holds these frames holds these tables. -/
theorem Identity.of_same {n : Nat} {mem mem' : Frames} (h : Identity n mem)
    (hsame : ∀ f, 0x10 ≤ f → f < 0x10+(n+5) → mem' f = mem f) : Identity n mem' where
  upper j hj i := by
    rw [hsame (0x10+j) (by omega) (by omega)]
    exact h.upper j hj i
  pdpt i := by
    rw [hsame (0x10+n) (by omega) (by omega)]
    exact h.pdpt i
  directory g hg k := by
    rw [hsame (0x11+n+g) (by omega) (by omega)]
    exact h.directory g hg k

/-- On identity tables `translate_address` is the identity below 4 GiB and fails elsewhere. -/
theorem Identity.translateAddress_run {mode : PagingMode} {s : Machine} (hid : Identity (above mode) s.mem)
    (hm : s.paging = some (pagingManager mode)) (v : VirtAddr) :
    (v.addr.toNat < 0x100000000 → Machine.translateAddress v s = (.ok ⟨v.addr⟩, s)) ∧
      (¬ v.addr.toNat < 0x100000000 → v.SignExtended mode →
        ∃ message, Machine.translateAddress v s = (.error (.err message), s)) := by
  have hlevels : 2 + above mode = mode.top := by cases mode <;> rfl
  have hroot : BitVec.ofNat 64 (4096*(0x10+(above mode-above mode))) = pagingRootAddr := by rw [Nat.sub_self]; rfl
  obtain ⟨hin, hout⟩ := hid.readWalk_run (v := v) (by cases mode <;> decide) (Machine.leafAddress v) (Nat.le_refl _)
  rw [hlevels, hroot] at hin hout
  have hrun (hv : v.SignExtended mode) : Machine.translateAddress v s =
      Machine.readWalk v (Machine.leafAddress v) mode.top pagingRootAddr s := by
    have hcanonical : Machine.requireCanonical (pagingManager mode).mode v s = (.ok (), s) :=
      PagingManager.requireCanonical_run hv.canonical s
    rw [Machine.translateAddress, Fallible.bind_of_ok (Machine.getPagingManager_run hm),
      Fallible.bind_of_ok hcanonical, Machine.readLevels_eq]
    rfl
  refine ⟨fun hlow => ?_, fun hhigh hv => ?_⟩
  · have hv : v.SignExtended mode := by
      cases mode <;> simp only [VirtAddr.SignExtended] <;> omega
    have h₁ := v.index_toNat 1
    have h₂ := v.index_toNat 2
    have haddr : (v.index 2).val*2^30+(v.index 1).val*2^21 < 2^32 := by
      rw [h₁, h₂]
      omega
    have hleaf := hugeLeaf_leafAddress (by omega) haddr v
    rw [hrun hv, hin ((inside_iff hv).mpr hlow)]
    congr 2
    rw [PhysAddr.mk.injEq, ← BitVec.toNat_inj, hleaf, h₁, h₂]
    omega
  · rw [hrun hv]
    exact hout (fun h => hhigh ((inside_iff hv).mp h))

/-- On the tables of either routine `translate_address` is the identity below 4 GiB and fails elsewhere. -/
theorem translateAddress_identity (mode : PagingMode) (c : Cpu) (s : Machine)
    (hm : s.paging = some (pagingManager mode))
    (hmem : ∀ f, 0x10 ≤ f → f < 0x10 + tableCount mode → s.mem f = (setupPaging mode c).frames f) (v : VirtAddr) :
    (v.addr.toNat < 0x100000000 → Machine.translateAddress v s = (.ok ⟨v.addr⟩, s)) ∧
      (¬ v.addr.toNat < 0x100000000 → v.SignExtended mode →
        ∃ message, Machine.translateAddress v s = (.error (.err message), s)) :=
  ((setupPaging_identity mode c).of_same hmem).translateAddress_run hm v

/-- The kernel on the tables the bootloader built over memory full of ones. -/
def afterBoot (mode : PagingMode) : Machine where
  paging := some (pagingManager mode)
  pmm := none
  regions := fun _ => none
  refcounts := fun _ => 0
  mem := (setupPaging mode ⟨0, 0, 0, fun _ => 0xFFFFFFFF#32⟩).frames
  log := []

theorem translateAddress_identity_afterBoot :
    Machine.translateAddress ⟨0xC0201234#64⟩ (afterBoot .fiveLevel) = (.ok ⟨0xC0201234#64⟩, afterBoot .fiveLevel) ∧
      ∃ message, Machine.translateAddress ⟨0xFFFF800000000000#64⟩ (afterBoot .fourLevel) =
        (.error (.err message), afterBoot .fourLevel) :=
  ⟨(translateAddress_identity .fiveLevel _ (afterBoot .fiveLevel) rfl (fun _ _ _ => rfl) ⟨0xC0201234#64⟩).1 (by decide),
    (translateAddress_identity .fourLevel _ (afterBoot .fourLevel) rfl (fun _ _ _ => rfl) ⟨0xFFFF800000000000#64⟩).2
      (by decide) (.inr (by decide))⟩

end Nafuraito.Memory.Boot
