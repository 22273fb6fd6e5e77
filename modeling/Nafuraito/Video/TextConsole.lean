import Mathlib.Data.List.GetD
import Mathlib.Logic.Function.Basic
import Nafuraito.Video.Framebuffer

/-! The text-mode console used without a framebuffer: it shows the end of the text written to it. -/
namespace Nafuraito.Video

def vgaTextCols : Nat := 80
def vgaTextRows : Nat := 25
def vgaTextAttr : BitVec 8 := 0x0F

/-- A character with the attribute in the high byte. -/
def vgaTextCell (c : BitVec 8) : BitVec 16 := c.setWidth 16 ||| (vgaTextAttr.setWidth 16 <<< 8)

def blankCell : BitVec 16 := vgaTextCell 32

/-- The text buffer, the cursor and the mode flag, with the index of every cell stored so far. -/
structure TextConsole where
  buf : Nat → BitVec 16
  col : BitVec 8
  row : BitVec 8
  active : BitVec 8
  stores : List Nat

namespace TextConsole

def store (t : TextConsole) (i : Nat) (v : BitVec 16) : TextConsole :=
  { t with buf := Function.update t.buf i v, stores := t.stores ++ [i] }

/-- A loop over the indices `is` that stores a cell at each. -/
def storeEach (f : TextConsole → Nat → BitVec 16) (is : List Nat) (t : TextConsole) : TextConsole :=
  is.foldl (fun t i => t.store i (f t i)) t

def vgaTextScroll (t : TextConsole) : TextConsole :=
  let last := (vgaTextRows - 1) * vgaTextCols
  let t := t.storeEach (fun t i => t.buf (i + vgaTextCols)) (List.range last)
  let t := t.storeEach (fun _ _ => blankCell) (List.range' last (vgaTextRows * vgaTextCols - last))
  { t with row := 24 }

/-- `vga_text_col = 0` and `++vga_text_row`, with the scrolling that may follow. -/
def nextRow (t : TextConsole) : TextConsole :=
  let t := { t with col := 0, row := t.row + 1 }
  if vgaTextRows ≤ t.row.toNat then t.vgaTextScroll else t

def vgaTextPutchar (t : TextConsole) (c : BitVec 8) : TextConsole :=
  if c = 10 ∨ c = 13 then t.nextRow
  else if c = 0 then t
  else
    let t := t.store (t.row.toNat * vgaTextCols + t.col.toNat) (vgaTextCell c)
    let t := { t with col := t.col + 1 }
    if vgaTextCols ≤ t.col.toNat then t.nextRow else t

/-- The loop of `writestring_vga` in text mode. -/
def vgaTextPuts (t : TextConsole) : List (BitVec 8) → TextConsole
  | [] => t
  | c :: str => if c = 0 then t else (t.vgaTextPutchar c).vgaTextPuts str

def initTextmodeFallback (t : TextConsole) : TextConsole :=
  let t := { t with active := 1, col := 0, row := 0 }
  t.storeEach (fun _ _ => blankCell) (List.range (vgaTextRows * vgaTextCols))

end TextConsole

/-- The console with the cursor and the stores of the framebuffer. -/
structure Vga where
  text : TextConsole
  cursor : Mode.TextCursor
  stores : List Store

def Vga.writestringVga (m : Mode) (font : Mode.Font) (v : Vga) (str : List (BitVec 8)) : Vga :=
  if v.text.active ≠ 0 then { v with text := v.text.vgaTextPuts str }
  else
    let done := m.gfxPuts font v.cursor str
    { v with cursor := done.2, stores := v.stores ++ done.1 }

/-! ### The logical text -/

/-- Rows without a bound: those ended, the first one first, and the one in progress. -/
structure LogicalText where
  ended : List (List (BitVec 8))
  current : List (BitVec 8)

namespace LogicalText

def endRow (l : LogicalText) : LogicalText := ⟨l.ended ++ [l.current], []⟩

def put (l : LogicalText) (c : BitVec 8) : LogicalText :=
  if c = 10 ∨ c = 13 then l.endRow
  else
    let l := { l with current := l.current ++ [c] }
    if l.current.length = 80 then l.endRow else l

def ofChars (cs : List (BitVec 8)) : LogicalText := cs.foldl put ⟨[], []⟩

def rows (l : LogicalText) : List (List (BitVec 8)) := l.ended ++ [l.current]

/-- The last 25 rows. -/
def tail (l : LogicalText) : List (List (BitVec 8)) := l.rows.drop (l.rows.length - 25)

/-- The cell at a row and column of a screen with the tail on it: blank where there is no character. -/
def cellAt (l : LogicalText) (r k : Nat) : BitVec 16 := ((l.tail.getD r []).map vgaTextCell).getD k blankCell

end LogicalText

/-- The characters of a string. -/
def charsOf (str : List (BitVec 8)) : List (BitVec 8) := str.takeWhile (· ≠ 0)

/-- The console shows the tail of a text with the cursor at the end of the row in progress. -/
structure TextConsole.Shows (t : TextConsole) (l : LogicalText) : Prop where
  cells : ∀ r < 25, ∀ k < 80, t.buf (r * 80 + k) = l.cellAt r k
  row : t.row.toNat + 1 = l.tail.length
  col : t.col.toNat = l.current.length

/-! ### What the loops store -/

namespace TextConsole
variable {t : TextConsole} {f : TextConsole → Nat → BitVec 16}

theorem storeEach_others (is : List Nat) :
    (t.storeEach f is).col = t.col ∧ (t.storeEach f is).row = t.row ∧ (t.storeEach f is).active = t.active := by
  induction is generalizing t with
  | nil => exact ⟨rfl, rfl, rfl⟩
  | cons i is ih => exact ih (t := t.store i (f t i))

theorem storeEach_stores (is : List Nat) : (t.storeEach f is).stores = t.stores ++ is := by
  induction is generalizing t with
  | nil => exact (List.append_nil _).symm
  | cons i is ih => exact (ih (t := t.store i (f t i))).trans (List.append_assoc _ _ _)

theorem storeEach_append (is js : List Nat) : t.storeEach f (is ++ js) = (t.storeEach f is).storeEach f js :=
  List.foldl_append

/-- Copying upwards, each cell is read before it is stored to. -/
theorem copyRows_buf (n d j : Nat) (hd : 0 < d) :
    (t.storeEach (fun t i => t.buf (i + d)) (List.range n)).buf j = if j < n then t.buf (j + d) else t.buf j := by
  induction n generalizing j with
  | zero => rfl
  | succ n ih =>
    rw [List.range_succ, storeEach_append]
    change Function.update _ n _ j = _
    by_cases hj : j = n
    · subst hj
      rw [Function.update_self]
      dsimp only
      rw [ih, if_neg (by omega), if_pos (by omega)]
    · rw [Function.update_of_ne hj, ih]
      by_cases hlt : j < n
      · rw [if_pos hlt, if_pos (by omega)]
      · rw [if_neg hlt, if_neg (by omega)]

theorem fill_buf (v : BitVec 16) (s n j : Nat) :
    (t.storeEach (fun _ _ => v) (List.range' s n)).buf j = if s ≤ j ∧ j < s + n then v else t.buf j := by
  induction n with
  | zero => rw [if_neg (by omega)]; rfl
  | succ n ih =>
    rw [List.range'_concat, storeEach_append, Nat.one_mul]
    change Function.update _ (s + n) _ j = _
    by_cases hj : j = s + n
    · subst hj
      rw [Function.update_self, if_pos (by omega)]
    · rw [Function.update_of_ne hj, ih]
      by_cases hin : s ≤ j ∧ j < s + n
      · rw [if_pos hin, if_pos (by omega)]
      · rw [if_neg hin, if_neg (by omega)]

/-! ### Rows on the screen -/

private theorem vgaTextScroll_eq : t.vgaTextScroll =
    { (t.storeEach (fun t i => t.buf (i + 80)) (List.range 1920)).storeEach (fun _ _ => blankCell)
      (List.range' 1920 80) with row := 24 } := rfl

theorem vgaTextScroll_buf (r k : Nat) (hr : r < 25) (hk : k < 80) :
    t.vgaTextScroll.buf (r * 80 + k) = if r < 24 then t.buf ((r + 1) * 80 + k) else blankCell := by
  rw [vgaTextScroll_eq]
  dsimp only
  rw [fill_buf]
  by_cases hlast : r < 24
  · rw [if_neg (by omega), if_pos hlast, copyRows_buf 1920 80 _ (by decide), if_pos (by omega),
      show r * 80 + k + 80 = (r + 1) * 80 + k by omega]
  · rw [if_pos (by omega), if_neg hlast]

theorem vgaTextScroll_others : t.vgaTextScroll.col = t.col ∧ t.vgaTextScroll.row = 24 ∧
    t.vgaTextScroll.active = t.active ∧
    t.vgaTextScroll.stores = t.stores ++ List.range 1920 ++ List.range' 1920 80 := by
  rw [vgaTextScroll_eq]
  dsimp only
  obtain ⟨hcol, -, hactive⟩ := storeEach_others (t := t) (f := fun t i => t.buf (i + 80)) (List.range 1920)
  rw [(storeEach_others _).1, (storeEach_others _).2.2, storeEach_stores, storeEach_stores, hcol, hactive]
  exact ⟨rfl, rfl, rfl, rfl⟩

end TextConsole

namespace LogicalText
variable {l : LogicalText}

theorem rows_length : l.rows.length = l.ended.length + 1 := List.length_append

theorem rows_getD (j : Nat) : l.rows.getD j [] = if j = l.ended.length then l.current else l.ended.getD j [] := by
  rw [rows, List.getD_eq_getElem?_getD, List.getD_eq_getElem?_getD]
  rcases Nat.lt_trichotomy j l.ended.length with hlt | heq | hgt
  · rw [List.getElem?_append_left hlt, if_neg (by omega)]
  · rw [List.getElem?_append_right (by omega), if_pos heq, heq, Nat.sub_self]
    rfl
  · rw [if_neg (by omega), List.getElem?_eq_none (by rw [List.length_append, List.length_singleton]; omega),
      List.getElem?_eq_none (by omega)]

theorem tail_length : l.tail.length = min l.rows.length 25 := by
  rw [tail, List.length_drop]
  omega

theorem cellAt_eq (r k : Nat) :
    l.cellAt r k = ((l.rows.getD (l.rows.length - 25 + r) []).map vgaTextCell).getD k blankCell := by
  have hdrop : (l.rows.drop (l.rows.length - 25)).getD r [] = l.rows.getD (l.rows.length - 25 + r) [] := by
    simp only [List.getD_eq_getElem?_getD, List.getElem?_drop]
  rw [cellAt, tail, hdrop]

/-- A new row is blank, and what is shown moves up where there were 25 rows. -/
theorem endRow_cellAt (r k : Nat) :
    l.endRow.cellAt r k = if l.tail.length < 25 then l.cellAt r k else l.cellAt (r + 1) k := by
  have hrows (j : Nat) : l.endRow.rows.getD j [] = l.rows.getD j [] := by
    rw [rows_getD]
    split
    · rename_i hj
      rw [hj]
      exact (List.getD_eq_default l.rows [] (Nat.le_refl l.rows.length)).symm
    · rfl
  rw [cellAt_eq, hrows, tail_length, rows_length, show l.endRow.ended.length = l.rows.length from rfl]
  split
  · rw [cellAt_eq, show l.rows.length + 1 - 25 + r = l.rows.length - 25 + r by omega]
  · rw [cellAt_eq, show l.rows.length + 1 - 25 + r = l.rows.length - 25 + (r + 1) by omega]

/-- The row in progress may change without any other. -/
theorem setCurrent_tail_length (row : List (BitVec 8)) :
    (LogicalText.tail { l with current := row }).length = l.tail.length := by
  rw [tail_length, tail_length, rows_length, rows_length]

/-- A character added to the row in progress is at its end. -/
theorem push_cellAt (c : BitVec 8) (r k : Nat) :
    LogicalText.cellAt { l with current := l.current ++ [c] } r k =
      if r + 1 = l.tail.length ∧ k = l.current.length then vgaTextCell c else l.cellAt r k := by
  rw [cellAt_eq, cellAt_eq, rows_getD, rows_getD, rows_length, rows_length, tail_length, rows_length]
  dsimp only
  by_cases hrow : l.ended.length + 1 - 25 + r = l.ended.length
  · have hlen : (l.current.map vgaTextCell).length = l.current.length := List.length_map _
    rw [if_pos hrow, if_pos hrow, List.map_append, List.map_singleton]
    rcases Nat.lt_trichotomy k l.current.length with hlt | heq | hgt
    · rw [if_neg (by omega), List.getD_append _ _ _ _ (by omega)]
    · rw [if_pos (by omega), List.getD_append_right _ _ _ _ (by omega), hlen, heq, Nat.sub_self]
      rfl
    · have hpast : [vgaTextCell c].length ≤ k - (l.current.map vgaTextCell).length := by
        rw [hlen, List.length_singleton]
        omega
      rw [if_neg (by omega), List.getD_append_right _ _ _ _ (by omega), List.getD_eq_default _ _ hpast,
        List.getD_eq_default _ _ (by omega)]
  · rw [if_neg hrow, if_neg hrow, if_neg (by omega)]

end LogicalText

/-! ### What a character does -/

namespace TextConsole
open LogicalText
variable {t : TextConsole} {l : LogicalText}

theorem nextRow_shows (hcells : ∀ r < 25, ∀ k < 80, t.buf (r * 80 + k) = l.cellAt r k)
    (hrow : t.row.toNat + 1 = l.tail.length) : t.nextRow.Shows l.endRow := by
  have htail := l.tail_length
  have htail' := l.endRow.tail_length
  rw [rows_length, show l.endRow.ended.length = l.rows.length from rfl] at htail'
  have hnext : (t.row + 1).toNat = t.row.toNat + 1 := by
    rw [BitVec.toNat_add, show (1 : BitVec 8).toNat = 1 from rfl]
    exact Nat.mod_eq_of_lt (by omega)
  rw [nextRow]
  dsimp only
  rw [hnext]
  split
  · rename_i hfull
    have hfull : 25 ≤ t.row.toNat + 1 := hfull
    obtain ⟨hcol, hrow24, -⟩ := vgaTextScroll_others (t := { t with col := 0, row := t.row + 1 })
    refine ⟨fun r hr k hk => ?_, ?_, ?_⟩
    · rw [endRow_cellAt, if_neg (by omega), vgaTextScroll_buf r k hr hk]
      split
      · exact hcells (r + 1) (by omega) k hk
      · have hpast : l.tail.getD (r + 1) [] = [] := List.getD_eq_default _ _ (by omega)
        rw [cellAt, hpast]
        rfl
    · rw [hrow24]
      change 25 = _
      omega
    · rw [hcol]
      rfl
  · rename_i hroom
    have hroom : ¬ 25 ≤ t.row.toNat + 1 := hroom
    refine ⟨fun r hr k hk => ?_, ?_, rfl⟩
    · rw [endRow_cellAt, if_pos (by omega)]
      exact hcells r hr k hk
    · change (t.row + 1).toNat + 1 = _
      omega

theorem nextRow_others (i : Nat) (hi : i ∈ t.nextRow.stores) : i ∈ t.stores ∨ i < 2000 := by
  rw [nextRow] at hi
  dsimp only at hi
  split at hi
  · rw [vgaTextScroll_others.2.2.2, List.mem_append, List.mem_append, List.mem_range, List.mem_range'_1] at hi
    rcases hi with (hi | hi) | hi
    · exact .inl hi
    · exact .inr (by omega)
    · exact .inr (by omega)
  · exact .inl hi

theorem nextRow_active : t.nextRow.active = t.active := by
  rw [nextRow]
  dsimp only
  split
  · exact vgaTextScroll_others.2.2.1
  · rfl

/-- The cell at the cursor is one of the screen, and a character stored to it is at the end of the row in progress. -/
theorem Shows.store (h : t.Shows l) (hwidth : l.current.length < 80) (c : BitVec 8) :
    t.row.toNat * 80 + t.col.toNat < 2000 ∧ ∀ r < 25, ∀ k < 80,
      Function.update t.buf (t.row.toNat * 80 + t.col.toNat) (vgaTextCell c) (r * 80 + k) =
        LogicalText.cellAt { l with current := l.current ++ [c] } r k := by
  have hrow := h.row
  have hcol := h.col
  have htail := l.tail_length
  refine ⟨by omega, fun r hr k hk => ?_⟩
  rw [push_cellAt]
  by_cases hat : r + 1 = l.tail.length ∧ k = l.current.length
  · rw [if_pos hat, show r * 80 + k = t.row.toNat * 80 + t.col.toNat by omega, Function.update_self]
  · rw [if_neg hat, Function.update_of_ne (by omega), h.cells r hr k hk]

/-- What holds between the characters written: `before` is what had been stored to before the first one. -/
structure Running (before : List Nat) (t : TextConsole) (l : LogicalText) : Prop where
  shows : t.Shows l
  width : l.current.length < 80
  active : t.active = 1
  stores : ∀ i ∈ t.stores, i ∈ before ∨ i < 2000

variable {before : List Nat}

theorem Running.nextRow (h : t.Running before l) : t.nextRow.Running before l.endRow where
  shows := nextRow_shows h.shows.cells h.shows.row
  width := Nat.zero_lt_succ 79
  active := nextRow_active.trans h.active
  stores i hi := (nextRow_others i hi).elim (h.stores i) .inr

/-- The character is stored where the cursor is, and the row ends with it if it is the 80th. -/
theorem Running.push (h : t.Running before l) (c : BitVec 8) (hc : ¬ (c = 10 ∨ c = 13)) (h0 : c ≠ 0) :
    (t.vgaTextPutchar c).Running before (l.put c) := by
  have hcol := h.shows.col
  have hwidth := h.width
  obtain ⟨hinside, hcells⟩ := h.shows.store h.width c
  have hnext : (t.col + 1).toNat = t.col.toNat + 1 := by
    rw [BitVec.toNat_add, show (1 : BitVec 8).toNat = 1 from rfl]
    exact Nat.mod_eq_of_lt (by omega)
  have hrow := h.shows.row.trans (setCurrent_tail_length (l.current ++ [c])).symm
  have hstores : ∀ i ∈ t.stores ++ [t.row.toNat * 80 + t.col.toNat], i ∈ before ∨ i < 2000 := by
    intro i hi
    rcases List.mem_append.mp hi with hi | hi
    · exact h.stores i hi
    · rw [List.mem_singleton.mp hi]
      exact .inr hinside
  rw [vgaTextPutchar, if_neg hc, if_neg h0, LogicalText.put, if_neg hc]
  dsimp only [store]
  rw [hnext, List.length_append, List.length_singleton]
  by_cases hfull : l.current.length + 1 = 80
  · rw [if_pos (show vgaTextCols ≤ _ by rw [vgaTextCols]; omega), if_pos hfull]
    exact ⟨nextRow_shows hcells hrow, Nat.zero_lt_succ 79, nextRow_active.trans h.active,
      fun i hi => (nextRow_others i hi).elim (hstores i) .inr⟩
  · rw [if_neg (show ¬ vgaTextCols ≤ _ by rw [vgaTextCols]; omega), if_neg hfull]
    refine ⟨⟨hcells, hrow, ?_⟩, ?_, h.active, hstores⟩
    · change (t.col + 1).toNat = _
      rw [List.length_append, List.length_singleton]
      omega
    · rw [List.length_append, List.length_singleton]
      omega

theorem Running.putchar (h : t.Running before l) (c : BitVec 8) (h0 : c ≠ 0) :
    (t.vgaTextPutchar c).Running before (l.put c) := by
  by_cases hc : c = 10 ∨ c = 13
  · rw [vgaTextPutchar, LogicalText.put, if_pos hc, if_pos hc]
    exact h.nextRow
  · exact h.push c hc h0

theorem Running.puts (h : t.Running before l) (str : List (BitVec 8)) :
    (t.vgaTextPuts str).Running before ((charsOf str).foldl LogicalText.put l) := by
  induction str generalizing t l with
  | nil => exact h
  | cons c str ih =>
    rw [vgaTextPuts, charsOf, List.takeWhile_cons]
    by_cases hc : c = 0
    · rw [if_pos hc, if_neg (by rw [decide_not, decide_eq_true hc]; decide)]
      exact h
    · rw [if_neg hc, if_pos (decide_eq_true hc)]
      exact ih (h.putchar c hc)

private theorem initTextmodeFallback_eq : t.initTextmodeFallback =
    storeEach (fun _ _ => blankCell) (List.range 2000) { t with active := 1, col := 0, row := 0 } := rfl

theorem initTextmodeFallback_running (t : TextConsole) :
    t.initTextmodeFallback.Running t.stores (LogicalText.ofChars []) := by
  rw [initTextmodeFallback_eq, List.range_eq_range']
  obtain ⟨hcol, hrow, hactive⟩ := storeEach_others (t := { t with active := 1, col := 0, row := 0 })
    (f := fun _ _ => blankCell) (List.range' 0 2000)
  refine ⟨⟨fun r hr k hk => ?_, ?_, ?_⟩, Nat.zero_lt_succ 79, hactive, fun i hi => ?_⟩
  · rw [fill_buf, if_pos (by omega)]
    exact (List.getD_eq_default _ _ (by cases r <;> exact Nat.zero_le k)).symm
  · rw [hrow]
    rfl
  · rw [hcol]
    rfl
  · rw [storeEach_stores, List.mem_append, List.mem_range'_1] at hi
    exact hi.imp_right fun h => by omega

end TextConsole

/-! ### Any output -/

theorem Vga.writestringVga_running (m : Mode) (font : Mode.Font) {v : Vga} {before : List Nat} {l : LogicalText}
    (h : v.text.Running before l) (str : List (BitVec 8)) :
    v.writestringVga m font str = { v with text := v.text.vgaTextPuts str } ∧
      (v.writestringVga m font str).text.Running before ((charsOf str).foldl LogicalText.put l) := by
  have hactive : v.text.active ≠ 0 := by
    rw [h.active]
    decide
  rw [writestringVga, if_pos hactive]
  exact ⟨rfl, h.puts str⟩

theorem Vga.writes_running (m : Mode) (font : Mode.Font) {v : Vga} {before : List Nat} {l : LogicalText}
    (h : v.text.Running before l) (strs : List (List (BitVec 8))) :
    let after := strs.foldl (Vga.writestringVga m font) v
    after.text.Running before (strs.foldl (fun l str => (charsOf str).foldl LogicalText.put l) l) ∧
      after.stores = v.stores := by
  induction strs generalizing v l with
  | nil => exact ⟨h, rfl⟩
  | cons str strs ih =>
    obtain ⟨heq, hrunning⟩ := v.writestringVga_running m font h str
    obtain ⟨hlast, hstores⟩ := ih hrunning
    exact ⟨hlast, hstores.trans (by rw [heq])⟩

/-- Whatever the console held, and whatever is written to it after it was set up. -/
theorem textConsole_shows_tail (m : Mode) (font : Mode.Font) (v : Vga) (strs : List (List (BitVec 8))) :
    let after := strs.foldl (Vga.writestringVga m font) { v with text := v.text.initTextmodeFallback }
    after.text.Shows (LogicalText.ofChars (strs.flatMap charsOf)) ∧
      (∀ i ∈ after.text.stores, i ∈ v.text.stores ∨ i < vgaTextRows * vgaTextCols) ∧ after.stores = v.stores := by
  have hinit := v.text.initTextmodeFallback_running
  generalize v.text.initTextmodeFallback = start at hinit ⊢
  obtain ⟨hrunning, hstores⟩ := Vga.writes_running m font (v := { v with text := start }) hinit strs
  rw [LogicalText.ofChars, List.foldl_flatMap, show vgaTextRows * vgaTextCols = 2000 from rfl]
  exact ⟨hrunning.shows, hrunning.stores, hstores⟩

end Nafuraito.Video
