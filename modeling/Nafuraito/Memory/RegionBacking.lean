import Nafuraito.Memory.RegionRegistry

/-! What a fault reads for an address that stays registered. The file offset is counted from
the region's start, which `munmap` moves without moving the offset. -/
namespace Nafuraito.Memory
open Nafuraito.Library
open Slots (At)

/-- A fault on the page finds the same in both regions: flags, kind of backing, and for a file
the object and the offset it is read at. -/
def SameBacking (page : BitVec 64) (r r' : VmRegion) : Prop :=
  r'.flags = r.flags ∧ match r.backing, r'.backing with
    | .zeroFill, .zeroFill => True
    | .fileBacked file, .fileBacked file' => file'.ctx = file.ctx ∧ file'.readAt = file.readAt ∧
        file'.fileSize = file.fileSize ∧ r'.faultOffset file' page = r.faultOffset file page
    | _, _ => False

namespace Regions
variable {R R' : Regions} {r r' : VmRegion} {us ue a : BitVec 64}

/-- The offset depends on the region by its start only. -/
theorem faultOffset_congr (h : r'.start = r.start) (file : FileBacking) :
    r'.faultOffset file a = r.faultOffset file a := by
  rw [VmRegion.faultOffset, VmRegion.faultOffset, h]

/-- At its first page a region reads the file at its own offset. -/
theorem faultOffset_start (h : r.start = a) (file : FileBacking) : r.faultOffset file a = .ok file.fileOffset := by
  have hadd : checkedAdd file.fileOffset 0#64 = some file.fileOffset := by
    rw [checkedAdd, BitVec.toNat_zero, Nat.add_zero, if_pos file.fileOffset.isLt, BitVec.add_zero]
  rw [VmRegion.faultOffset, h, checkedSub, if_pos (BitVec.le_def.mpr (Nat.le_refl _)), BitVec.sub_self]
  dsimp only
  rw [hadd]

/-- At no other page does it. -/
theorem faultOffset_later (h : r.start.toNat < a.toNat) (file : FileBacking) :
    r.faultOffset file a ≠ .ok file.fileOffset := by
  rw [VmRegion.faultOffset, checkedSub, if_pos (BitVec.le_def.mpr (by omega))]
  dsimp only
  cases hc : checkedAdd file.fileOffset (a - r.start) with
  | none => simp
  | some sum =>
    have hsum := checkedAdd_some hc
    have hsub := BitVec.toNat_sub_of_le (BitVec.le_def.mpr (by omega : r.start.toNat ≤ a.toNat))
    simp only [ne_eq, Except.ok.injEq]
    rintro rfl
    omega

/-- Where the cut leaves the tail of a file region, its first page is read elsewhere. -/
theorem cut_moves_tail (h : R.Ok) (hus : us.toNat % 4096 = 0) (hue : ue.toNat % 4096 = 0)
    (hlt : us.toNat < ue.toNat) (hrun : cut us ue R = (.ok (), R')) {i : Fin 64} (hi : R i = some r)
    {file : FileBacking} (hb : r.backing = .fileBacked file) (h₁ : r.start.toNat < ue.toNat)
    (h₂ : ue.toNat < r.endAddr.toNat) : ∃ r', R.findRegion ue = some r ∧ R'.findRegion ue = some r' ∧
      ¬ SameBacking (alignDown ue) r r' := by
  obtain ⟨hok, hp, hdone⟩ := cut_spec h hus hue hlt hrun
  obtain ⟨hk, hclear⟩ := hdone rfl
  have hr : At VmRegion.span R ue.toNat r := ⟨i, hi, by omega, h₂⟩
  obtain ⟨r', hr'⟩ := hk ue.toNat ⟨r, hr⟩ fun hin => absurd hin.2 (by omega)
  obtain ⟨q, hq, hc⟩ := hp _ _ hr'
  obtain rfl := h.apart.unique hq hr
  refine ⟨r', (findRegion_iff h).mpr hr, (findRegion_iff hok).mpr hr', fun ⟨_, hsame⟩ => ?_⟩
  obtain ⟨j, hj, h₃, h₄⟩ := hr'
  have hstart : r'.start = ue := by
    rcases hclear j r' hj with h | h
    · exact BitVec.eq_of_toNat_eq (by omega)
    · omega
  have hdown : alignDown ue = ue := BitVec.eq_of_toNat_eq (by rw [alignDown_toNat]; omega)
  rw [hc.backing, hb, hdown] at hsame
  have hread := hsame.2.2.2
  rw [faultOffset_start hstart] at hread
  exact faultOffset_later h₁ file hread.symm

/-- Otherwise the cut keeps the backing of every address it leaves registered. -/
theorem cut_keeps_backing (h : R.Ok) (hus : us.toNat % 4096 = 0) (hue : ue.toNat % 4096 = 0)
    (hlt : us.toNat < ue.toNat) (hrun : cut us ue R = (.ok (), R'))
    (hfile : ∀ i r file, R i = some r → r.backing = .fileBacked file →
      ¬ (r.start.toNat < ue.toNat ∧ ue.toNat < r.endAddr.toNat))
    (hr : R.findRegion a = some r) (hr' : R'.findRegion a = some r') : SameBacking (alignDown a) r r' := by
  obtain ⟨hok, hp, _⟩ := cut_spec h hus hue hlt hrun
  rw [findRegion_iff h] at hr
  rw [findRegion_iff hok] at hr'
  obtain ⟨q, hq, hc⟩ := hp _ _ hr'
  obtain rfl := h.apart.unique hq hr
  refine ⟨hc.flags, ?_⟩
  rw [hc.backing]
  cases hb : q.backing with
  | zeroFill => trivial
  | fileBacked file =>
    refine ⟨rfl, rfl, rfl, faultOffset_congr ?_ file⟩
    rcases hc.start with he | ⟨hlt', he⟩
    · exact he
    -- the tail would lie past the end of the region
    · obtain ⟨i, hi, _, h₂⟩ := hr
      obtain ⟨_, _, h₃, _⟩ := hr'
      have := hfile i q file hi hb
      rw [he] at h₃
      omega

end Regions

namespace Machine
variable {s t : Machine}

/-- A `munmap` that returns `Ok` cut the pages of the call out of the registry. -/
private theorem munmap_ok {start : VirtAddr} {size : BitVec 64} (hok : munmap start size s = (.ok (), t)) :
    ∃ us ue : BitVec 64, us.toNat % 4096 = 0 ∧ ue.toNat = (start.addr.toNat + size.toNat + 4095)/4096*4096 ∧
      us.toNat < ue.toNat ∧ Regions.cut us ue s.regions = (.ok (), t.regions) := by
  rcases munmap_run start size s with ⟨_, u, he, _⟩ | ⟨us, ue, u, hrange, -, he⟩
  · rw [he] at hok
    cases hok
  · obtain ⟨hx, rfl⟩ := Prod.mk.inj (he.symm.trans hok)
    have hmod := hrange.lo_eq
    exact ⟨us, ue, by omega, hrange.hi_eq, hrange.lt, Prod.ext hx rfl⟩

private theorem munmap_moves_tail (h : RegistryRun s) {start : VirtAddr} {size : BitVec 64}
    (hok : munmap start size s = (.ok (), t)) {i : Fin 64} {r : VmRegion} (hi : s.regions i = some r)
    {file : FileBacking} (hb : r.backing = .fileBacked file)
    (h₁ : r.start.toNat < (start.addr.toNat + size.toNat + 4095)/4096*4096)
    (h₂ : (start.addr.toNat + size.toNat + 4095)/4096*4096 < r.endAddr.toNat) :
    ∃ a r', s.regions.findRegion a = some r ∧ t.regions.findRegion a = some r' ∧ ¬ SameBacking (alignDown a) r r' := by
  obtain ⟨us, ue, hus, hue, hlt, hcut⟩ := munmap_ok hok
  rw [← hue] at h₁ h₂
  exact ⟨ue, Regions.cut_moves_tail h.ok hus (by omega) hlt hcut hi hb h₁ h₂⟩

/-- A `munmap` that returns `Ok` keeps the backing of all that stays registered exactly when it
does not end inside a region backed by a file. -/
theorem munmap_backing_iff (h : RegistryRun s) (start : VirtAddr) (size : BitVec 64)
    (hok : munmap start size s = (.ok (), t)) :
    (∀ a r r', s.regions.findRegion a = some r → t.regions.findRegion a = some r' →
        SameBacking (alignDown a) r r') ↔
      ∀ i r file, s.regions i = some r → r.backing = .fileBacked file →
        ¬ (r.start.toNat < (start.addr.toNat + size.toNat + 4095)/4096*4096 ∧
          (start.addr.toNat + size.toNat + 4095)/4096*4096 < r.endAddr.toNat) := by
  constructor
  · rintro hsame i r file hi hb ⟨h₁, h₂⟩
    obtain ⟨a, r', hr, hr', hne⟩ := munmap_moves_tail h hok hi hb h₁ h₂
    exact hne (hsame a r r' hr hr')
  · intro hfile a r r'
    obtain ⟨us, ue, hus, hue, hlt, hcut⟩ := munmap_ok hok
    rw [← hue] at hfile
    exact Regions.cut_keeps_backing h.ok hus (by omega) hlt hcut hfile

/-- A file of three pages, of which nothing can be read. -/
def threePages : FileBacking := ⟨0, fun _ _ _ => [], 0, 0x3000#64⟩

/-- It is mapped at 0x10000 and nothing else is. -/
def fileMachine : Machine := (mmapFile ⟨0x10000#64⟩ 0x3000#64 ⟨3#64⟩ threePages initial).2

private theorem fileMachine_run : RegistryRun fileMachine := .mmapFile _ _ _ _ (.start fun _ => rfl)

private theorem fileMachine_regions : fileMachine.regions = Function.update (fun _ => none) 0
    (some ⟨0x10000#64, 0x13000#64, ⟨3#64⟩, .fileBacked threePages⟩) := by rfl

/-- The last page is unmapped. -/
theorem munmap_backing_iff_back :
    SameBacking (alignDown 0x11000#64) ⟨0x10000#64, 0x13000#64, ⟨3#64⟩, .fileBacked threePages⟩
      ⟨0x10000#64, 0x12000#64, ⟨3#64⟩, .fileBacked threePages⟩ := by
  have hok : (munmap ⟨0x12000#64⟩ 0x1000#64 fileMachine).1 = .ok () := by decide +kernel
  refine (munmap_backing_iff fileMachine_run ⟨0x12000#64⟩ 0x1000#64 (Prod.ext hok rfl)).mpr
    (fun i r file hi _ => ?_) 0x11000#64 _ _ rfl rfl
  rw [fileMachine_regions, Function.update_apply] at hi
  split at hi
  · rw [← Option.some.inj hi]
    decide
  · cases hi

/-- The first page is unmapped, and the second is then read where the first was. -/
theorem munmap_moves_file : RegistryRun fileMachine ∧
    (munmap ⟨0x10000#64⟩ 0x1000#64 fileMachine).1 = .ok () ∧
    ¬ ∀ a r r', fileMachine.regions.findRegion a = some r →
      (munmap ⟨0x10000#64⟩ 0x1000#64 fileMachine).2.regions.findRegion a = some r' →
      SameBacking (alignDown a) r r' := by
  have hok : (munmap ⟨0x10000#64⟩ 0x1000#64 fileMachine).1 = .ok () := by decide +kernel
  refine ⟨fileMachine_run, hok, fun hsame => ?_⟩
  obtain ⟨a, r', hr, hr', hne⟩ := munmap_moves_tail fileMachine_run (Prod.ext hok rfl) (i := 0)
    (by rw [fileMachine_regions]; rfl) rfl (by decide) (by decide)
  exact hne (hsame a _ r' hr hr')

end Machine
end Nafuraito.Memory
