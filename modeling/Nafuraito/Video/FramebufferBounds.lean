import Mathlib.Algebra.Ring.Nat
import Nafuraito.Video.Framebuffer

/-! Whatever is drawn, the bytes stored are bytes of the framebuffer. -/
namespace Nafuraito.Video
namespace Mode

/-- A mode whose rows hold their pixels and whose coordinates and offsets fit the types they are kept in. -/
structure Fits (m : Mode) : Prop where
  bpp : m.bpp = 3 ∨ m.bpp = 4
  row : m.width.toNat * m.bpp.toNat ≤ m.pitch.toNat
  width : 1 ≤ m.width.toNat ∧ m.width.toNat ≤ 32767
  height : 1 ≤ m.height.toNat ∧ m.height.toNat ≤ 32767
  size : m.size < 2^32

/-- Every store is to a byte of the framebuffer. -/
def Within (m : Mode) (stores : List Store) : Prop := ∀ s ∈ stores, s.offset < m.size

section Stores
variable {m : Mode}

@[simp] theorem within_nil : m.Within [] := fun _ hs => absurd hs List.not_mem_nil

@[simp] theorem within_append {ss ts : List Store} : m.Within (ss ++ ts) ↔ m.Within ss ∧ m.Within ts :=
  List.forall_mem_append

theorem within_flatMap {α : Type} {xs : List α} {f : α → List Store} (h : ∀ x ∈ xs, m.Within (f x)) :
    m.Within (xs.flatMap f) := by
  intro s hs
  obtain ⟨x, hx, hs⟩ := List.mem_flatMap.mp hs
  exact h x hx s hs

theorem within_ite {p : Prop} [Decidable p] {ss : List Store} (h : p → m.Within ss) :
    m.Within (if p then ss else []) := by
  split
  · exact h ‹_›
  · exact within_nil

theorem loop_within (l : Line) {visit : BitVec 16 → BitVec 16 → List Store} (h : ∀ x y, m.Within (visit x y))
    (rounds : Nat) (s : LineState) : m.Within (l.loop visit rounds s).1 := by
  induction rounds generalizing s with
  | zero => exact within_nil
  | succ rounds ih =>
    rw [Line.loop]
    split
    · exact h _ _
    · exact within_append.mpr ⟨h _ _, ih _⟩

end Stores

/-! ### Clipping -/

theorem ofNat_lt {size : BitVec 32} {i : Nat} (hi : i < size.toNat) : BitVec.ofNat 32 i < size := by
  rw [BitVec.lt_def, BitVec.toNat_ofNat]
  exact Nat.lt_of_le_of_lt (Nat.mod_le _ _) hi

/-- A size that fits 15 bits is not cut when it is kept in 16. -/
theorem size_toNat {size : BitVec 32} (h : size.toNat ≤ 32767) : (size.setWidth 16).toNat = size.toNat := by
  rw [BitVec.toNat_setWidth, Nat.mod_eq_of_lt (by omega)]

/-- What is clipped to a size ends within it. -/
theorem clippedEnd_le {size : BitVec 32} (h : size.toNat ≤ 32767) (start extent : BitVec 16) :
    (clippedEnd size start extent).toNat ≤ size.toNat := by
  rw [clippedEnd]
  split
  · exact Nat.le_of_eq (size_toNat h)
  · rename_i hle
    have hsum : (start.setWidth 32 + extent.setWidth 32).toNat = start.toNat + extent.toNat := by
      rw [BitVec.toNat_add, BitVec.toNat_setWidth, BitVec.toNat_setWidth]
      have := start.isLt
      have := extent.isLt
      omega
    rw [BitVec.lt_def, hsum] at hle
    rw [BitVec.toNat_add]
    exact Nat.le_trans (Nat.mod_le _ _) (by omega)

/-- A signed coordinate that is not negative and below a size. -/
theorem signExtend_lt {size : BitVec 32} (h : size.toNat ≤ 32767) {v : BitVec 16} (h0 : 0 ≤ v.toInt)
    (hlt : v.toInt < (size.setWidth 16).toInt) : v.signExtend 32 < size := by
  have hmsb : v.msb = false := by
    rw [BitVec.msb_eq_toInt]
    exact decide_eq_false (by omega)
  rw [BitVec.signExtend_eq_setWidth_of_msb_false hmsb, BitVec.lt_def, BitVec.toNat_setWidth]
  rw [BitVec.toInt_eq_toNat_of_msb hmsb, BitVec.toInt_eq_toNat_of_lt (by rw [size_toNat h]; omega), size_toNat h] at hlt
  exact Nat.lt_of_le_of_lt (Nat.mod_le _ _) (by omega)

/-! ### Where a pixel lies -/

namespace Fits
variable {m : Mode} (hm : m.Fits)
include hm

omit hm in
/-- The row of a visible pixel ends within the framebuffer. -/
theorem row_le {y : BitVec 32} (hy : y < m.height) : y.toNat * m.pitch.toNat + m.pitch.toNat ≤ m.size := by
  calc y.toNat * m.pitch.toNat + m.pitch.toNat = (y.toNat + 1) * m.pitch.toNat := by rw [Nat.succ_mul]
    _ ≤ m.size := Nat.mul_le_mul_right _ hy

theorem bpp_toNat : m.bpp.toNat = 3 ∨ m.bpp.toNat = 4 :=
  hm.bpp.imp (fun h => by rw [h]; rfl) fun h => by rw [h]; rfl

/-- The bytes of a visible pixel are bytes of its row. -/
theorem column_lt {x : BitVec 32} (hx : x < m.width) {k : Nat} (hk : k < m.bpp.toNat) :
    x.toNat * m.bpp.toNat + k < m.pitch.toNat := by
  calc x.toNat * m.bpp.toNat + k < (x.toNat + 1) * m.bpp.toNat := by rw [Nat.succ_mul]; omega
    _ ≤ m.width.toNat * m.bpp.toNat := Nat.mul_le_mul_right _ hx
    _ ≤ m.pitch.toNat := hm.row

theorem pitch_le : m.pitch.toNat ≤ m.size := Nat.le_mul_of_pos_left _ hm.height.1

theorem row_toNat {y : BitVec 32} (hy : y < m.height) : (y * m.pitch).toNat = y.toNat * m.pitch.toNat := by
  have := row_le hy
  have := hm.size
  rw [BitVec.toNat_mul, Nat.mod_eq_of_lt (by omega)]

theorem column_toNat {x : BitVec 32} (hx : x < m.width) {k : Nat} (hk : k < m.bpp.toNat) :
    (x * m.bpp + BitVec.ofNat 32 k).toNat = x.toNat * m.bpp.toNat + k := by
  have := hm.column_lt hx hk
  have := hm.pitch_le
  have := hm.size
  rw [BitVec.toNat_add, BitVec.toNat_mul, BitVec.toNat_ofNat, ← Nat.add_mod, Nat.mod_eq_of_lt (by omega)]

theorem byte_lt {x y : BitVec 32} (hx : x < m.width) (hy : y < m.height) {k : Nat} (hk : k < m.bpp.toNat) :
    (y * m.pitch).toNat + (x * m.bpp + BitVec.ofNat 32 k).toNat < m.size := by
  have := hm.column_lt hx hk
  have := row_le hy
  rw [hm.row_toNat hy, hm.column_toNat hx hk]
  omega

/-- A store to each byte that a pixel has. -/
theorem within_bytes (f : Nat → Nat) (h : ∀ k < m.bpp.toNat, f k < m.size) (c : Rgb) :
    m.Within ([⟨f 0, c.b⟩, ⟨f 1, c.g⟩, ⟨f 2, c.r⟩] ++ if m.bpp = 4 then [⟨f 3, 0xFF⟩] else []) := by
  have h3 := hm.bpp_toNat
  rw [within_append]
  constructor
  · intro s hs
    simp only [List.mem_cons, List.not_mem_nil, or_false] at hs
    rcases hs with rfl | rfl | rfl <;> exact h _ (by omega)
  · refine within_ite fun hbpp s hs => ?_
    rw [List.mem_singleton.mp hs]
    exact h 3 (by rw [hbpp]; decide)

theorem storeInRow_within {x y : BitVec 32} (hx : x < m.width) (hy : y < m.height) (c : Rgb) :
    m.Within (m.storeInRow (y * m.pitch).toNat x c) :=
  hm.within_bytes (fun k => (y * m.pitch).toNat + (x * m.bpp + BitVec.ofNat 32 k).toNat)
    (fun _ hk => hm.byte_lt hx hy hk) c

theorem storePixel_within {x y : BitVec 32} (hx : x < m.width) (hy : y < m.height) (c : Rgb) :
    m.Within (m.storePixel (m.pixelOffset x y) c) := by
  refine hm.within_bytes (fun k => m.pixelOffset x y + k) (fun k hk => ?_) c
  have h0 := hm.column_toNat hx (show 0 < m.bpp.toNat by omega)
  have hbyte := hm.byte_lt hx hy hk
  rw [hm.column_toNat hx hk] at hbyte
  rw [BitVec.add_zero, Nat.add_zero] at h0
  rw [pixelOffset, h0]
  omega

/-! ### The routines -/

theorem gfxClearScreen_within (c : Rgb) : m.Within (m.gfxClearScreen c) :=
  within_flatMap fun _ hy => within_flatMap fun _ hx =>
    hm.storeInRow_within (ofNat_lt (List.mem_range.mp hx)) (ofNat_lt (List.mem_range.mp hy)) c

theorem gfxPutPixel_within (x y : BitVec 16) (c : Rgb) : m.Within (m.gfxPutPixel x y c) := by
  refine within_ite fun h => ?_
  obtain ⟨hx, hy⟩ := (Bool.and_eq_true _ _).mp h
  exact hm.storePixel_within (of_decide_eq_true hx) (of_decide_eq_true hy) c

theorem gfxDrawRect_within (x y width height : BitVec 16) (c : Rgb) :
    m.Within (m.gfxDrawRect x y width height c) := by
  refine within_flatMap fun j hj => within_flatMap fun i hi => ?_
  have hxEnd := clippedEnd_le hm.width.2 x width
  have hyEnd := clippedEnd_le hm.height.2 y height
  rw [List.mem_range'_1] at hi hj
  exact hm.storeInRow_within (ofNat_lt (by omega)) (ofNat_lt (by omega)) c

theorem linePixel_within (c : Rgb) (x0 y0 : BitVec 16) : m.Within (m.linePixel c x0 y0) := by
  refine within_ite fun h => ?_
  obtain ⟨hx0, hx, hy0, hy⟩ := h
  exact hm.storePixel_within (signExtend_lt hm.width.2 hx0 hx) (signExtend_lt hm.height.2 hy0 hy) c

theorem gfxDrawLine_within (rounds : Nat) (x0 y0 x1 y1 : BitVec 16) (c : Rgb) :
    m.Within (m.gfxDrawLine rounds x0 y0 x1 y1 c).1 :=
  loop_within _ (hm.linePixel_within c) _ _

theorem writePixelStruct_within (pixel : Option Pixel) : m.Within (m.writePixelStruct pixel) := by
  cases pixel with
  | none => exact within_nil
  | some pixel => exact hm.gfxPutPixel_within _ _ _

theorem writePixels_within (pixels : Option (BitVec 32 → Pixel)) (count : BitVec 32) :
    m.Within (m.writePixels pixels count) := by
  cases pixels with
  | none => exact within_nil
  | some pixels => exact within_flatMap fun _ _ => hm.gfxPutPixel_within _ _ _

theorem untilSentinel_within (pixels : BitVec 32 → PixelRgb) (rounds : Nat) (i : BitVec 32) :
    m.Within (m.untilSentinel pixels rounds i).1 := by
  induction rounds generalizing i with
  | zero => exact within_nil
  | succ rounds ih =>
    rw [untilSentinel]
    dsimp only
    split
    · exact within_nil
    · exact within_append.mpr ⟨hm.gfxPutPixel_within _ _ _, ih _⟩

theorem writePixelsRgb_within (rounds : Nat) (pixels : Option (BitVec 32 → PixelRgb)) :
    m.Within (m.writePixelsRgb rounds pixels).1 := by
  cases pixels with
  | none => exact within_nil
  | some pixels => exact hm.untilSentinel_within _ _ _

theorem writePixelsArrays_within (rounds : Nat) (xCoords yCoords : Option (BitVec 32 → BitVec 16))
    (colors : Option (BitVec 32 → BitVec 32)) : m.Within (m.writePixelsArrays rounds xCoords yCoords colors).1 := by
  match xCoords, yCoords, colors with
  | some xs, some ys, some cs => exact hm.untilSentinel_within _ _ _
  | none, _, _ => exact within_nil
  | some xs, none, _ => exact within_nil
  | some xs, some ys, none => exact within_nil

variable (font : Font)

theorem gfxDrawChar_within (x y : BitVec 16) (c : BitVec 8) : m.Within (m.gfxDrawChar font x y c) :=
  within_flatMap fun _ _ => within_flatMap fun _ _ => hm.gfxPutPixel_within _ _ _

theorem gfxPutchar_within (t : TextCursor) (c : BitVec 8) : m.Within (m.gfxPutchar font t c).1 := by
  rw [gfxPutchar]
  split
  · exact within_nil
  split
  · exact within_nil
  · exact hm.gfxDrawChar_within font _ _ _

/-- Wherever the characters before have left the cursor. -/
theorem gfxPuts_within (t : TextCursor) (str : List (BitVec 8)) : m.Within (m.gfxPuts font t str).1 := by
  induction str generalizing t with
  | nil => exact within_nil
  | cons c str ih =>
    rw [gfxPuts]
    split
    · exact within_nil
    · exact within_append.mpr ⟨hm.gfxPutchar_within font t c, ih _⟩

theorem call_within (rounds : Nat) (t : TextCursor) (c : Call) : m.Within (m.call font rounds t c).1.1 := by
  cases c with
  | gfxClearScreen c => exact hm.gfxClearScreen_within c
  | gfxPutPixel x y c => exact hm.gfxPutPixel_within x y c
  | gfxDrawRect x y width height c => exact hm.gfxDrawRect_within x y width height c
  | gfxDrawLine x0 y0 x1 y1 c => exact hm.gfxDrawLine_within rounds x0 y0 x1 y1 c
  | gfxDrawChar x y c => exact hm.gfxDrawChar_within font x y c
  | gfxPuts str => exact hm.gfxPuts_within font t str
  | writePixel x y c => exact hm.gfxPutPixel_within x y c
  | writePixelRgb x y color => exact hm.gfxPutPixel_within x y _
  | writePixelStruct pixel => exact hm.writePixelStruct_within pixel
  | writePixels pixels count => exact hm.writePixels_within pixels count
  | writePixelsRgb pixels => exact hm.writePixelsRgb_within rounds pixels
  | writePixelsArrays xCoords yCoords colors => exact hm.writePixelsArrays_within rounds xCoords yCoords colors
  | clearScreenVga color => exact hm.gfxClearScreen_within _
  | putPixelVga x y color => exact hm.gfxPutPixel_within x y _
  | drawRectVga x y width height color => exact hm.gfxDrawRect_within x y width height _
  | drawLineVga x0 y0 x1 y1 color => exact hm.gfxDrawLine_within rounds x0 y0 x1 y1 _

/-- Whatever is called in whatever order, and however many rounds its loops without a bound have gone. -/
theorem run_within (rounds : Nat) (t : TextCursor) (calls : List Call) : m.Within (m.run font rounds t calls) := by
  induction calls generalizing t with
  | nil => exact within_nil
  | cons c calls ih => exact within_append.mpr ⟨hm.call_within font rounds t c, within_ite fun _ => ih _⟩

end Fits

/-- A mode of four pixels by two, with a line that leaves it, a text and a rectangle that wraps. -/
theorem run_within_small :
    Mode.Within ⟨12, 4, 2, 3⟩ (Mode.run ⟨12, 4, 2, 3⟩ (fun _ _ => 0x80) 9 ⟨0, 0⟩
      [.gfxDrawLine (-1) 0 7 3 ⟨1, 2, 3⟩, .gfxPuts [65, 10, 66], .gfxDrawRect 65535 0 65535 9 ⟨0, 0, 0⟩]) :=
  Fits.run_within ⟨by decide, by decide, by decide, by decide, by decide⟩ _ 9 ⟨0, 0⟩ _

end Mode
end Nafuraito.Video
