import Nafuraito.Memory.HeapContract

/-! The run of pages that an allocation takes is the lowest one. -/
namespace Nafuraito.Memory.Heap
open Nafuraito.Library
variable {h : Heap}

/-- `count` pages from `start` on lie in the arena and are free. -/
structure FreeRun (h : Heap) (count start : Nat) : Prop where
  inside : start + count ≤ heapPageCount
  free : ∀ p, InPages start count p → h.isPageUsed p = false

/-- A search with `runLen` free pages open has left no run behind, if none begins before these. -/
private theorem findRun_least {count n page runStart runLen : Nat} (hend : page + n = heapPageCount)
    (hrun : 0 < runLen → runStart + runLen = page) (hlen : runLen < count)
    (hbefore : ∀ start, FreeRun h count start → page ≤ start + runLen) :
    ∀ start, FreeRun h count start → ∃ first ≤ start, h.findRun count n page runStart runLen = some first := by
  intro start hfree
  induction n generalizing page runStart runLen with
  | zero =>
    have := hfree.inside
    have := hbefore start hfree
    omega
  | succ n ih =>
    have hat := hbefore start hfree
    rw [findRun]
    by_cases hu : h.isPageUsed page = true
    · -- a run has no used page, so it begins after this one
      rw [if_neg (by simp [hu])]
      refine ih (by omega) (by omega) (by omega) fun start' hfree' => ?_
      by_contra hlt
      have hat' := hbefore start' hfree'
      have hused := hfree'.free page ⟨by omega, by omega⟩
      rw [hu] at hused
      cases hused
    · rw [if_pos (by simp [hu])]
      dsimp only
      generalize hs : (if runLen = 0 then page else runStart) = runStart'
      have hstart : runStart' + runLen = page := by
        rw [← hs]
        split <;> omega
      split
      · exact ⟨runStart', by omega, rfl⟩
      · refine ih (by omega) (by omega) (by omega) fun start' hfree' => ?_
        have := hbefore start' hfree'
        omega

/-- The call finds a run exactly if there is one, takes the lowest and changes no other bit, and nothing else. -/
theorem allocContiguousPages_lowest (h : Heap) {count : Nat} (hcount : 1 ≤ count) :
    ((∃ start, (allocContiguousPages count h).1 = some start) ↔ ∃ start, FreeRun h count start) ∧
    (∀ start h', allocContiguousPages count h = (some start, h') → IsLeast {s | FreeRun h count s} start ∧
      (∀ p, InPages start count p → h.isPageUsed p = false ∧ h'.isPageUsed p = true) ∧
      (∀ p, ¬InPages start count p → h'.isPageUsed p = h.isPageUsed p) ∧
      ∃ bitmap, h' = { h with pageBitmap := bitmap }) ∧
    ∀ h', allocContiguousPages count h = (none, h') → h' = h := by
  have hleast (start : Nat) (hfree : FreeRun h count start) : ∃ first ≤ start, ∃ h',
      allocContiguousPages count h = (some first, h') := by
    obtain ⟨first, hle, hfound⟩ := findRun_least (Nat.zero_add heapPageCount) (show 0 < 0 → 0 + 0 = 0 by omega)
      (show 0 < count by omega) (fun _ _ => Nat.zero_le _) start hfree
    have hinside := hfree.inside
    rw [allocContiguousPages, if_neg (by omega), hfound]
    exact ⟨first, hle, _, rfl⟩
  obtain ⟨first, hrun, -, hle, hfree⟩ | hrun := allocContiguousPages_run count h
  · obtain ⟨bitmap, hmark, hused⟩ := markUsed_spec h first count
    rw [hrun]
    refine ⟨⟨fun _ => ⟨first, hle, hfree⟩, fun _ => ⟨first, rfl⟩⟩, fun start h' heq => ?_, fun h' heq => ?_⟩
    · obtain ⟨rfl, rfl⟩ : first = start ∧ h.markUsed first count = h' :=
        ⟨Option.some.inj (Prod.ext_iff.mp heq).1, (Prod.ext_iff.mp heq).2⟩
      refine ⟨⟨⟨hle, hfree⟩, fun start hstart => ?_⟩, fun p hp => ⟨hfree p hp, ?_⟩, fun p hp => ?_, bitmap, hmark⟩
      · obtain ⟨first', hle', h', hrun'⟩ := hleast start hstart
        rw [hrun] at hrun'
        obtain rfl : first = first' := Option.some.inj (Prod.ext_iff.mp hrun').1
        exact hle'
      · rw [hused, if_pos hp]
      · rw [hused, if_neg hp]
    · cases (Prod.ext_iff.mp heq).1
  · rw [hrun]
    refine ⟨⟨?_, ?_⟩, fun start h' heq => ?_, fun h' heq => (Prod.ext_iff.mp heq).2.symm⟩
    · rintro ⟨start, hnone⟩
      cases hnone
    · rintro ⟨start, hstart⟩
      obtain ⟨first, -, h', hfound⟩ := hleast start hstart
      cases (Prod.ext_iff.mp (hrun.symm.trans hfound)).1
    · cases (Prod.ext_iff.mp heq).1

/-- The whole arena is the lowest run of its length. -/
theorem allocContiguousPages_lowest_whole :
    (∃ start, (allocContiguousPages heapPageCount zeroHeap.heapInit).1 = some start) ↔
      ∃ start, FreeRun zeroHeap.heapInit heapPageCount start :=
  (allocContiguousPages_lowest zeroHeap.heapInit (by decide)).1

end Nafuraito.Memory.Heap
