import Mathlib.Tactic.Common

/-! Drawing into the linear framebuffer: what each routine of the video driver stores, and where. -/
namespace Nafuraito.Video

/-- What `set_framebuffer_info` leaves in `gfx_pitch`, `gfx_width`, `gfx_height` and `gfx_bpp`. -/
structure Mode where
  pitch : BitVec 32
  width : BitVec 32
  height : BitVec 32
  bpp : BitVec 32
  deriving DecidableEq

/-- One byte stored, with its distance from `gfx_buffer`. -/
structure Store where
  offset : Nat
  value : BitVec 8
  deriving DecidableEq

structure Rgb where
  r : BitVec 8
  g : BitVec 8
  b : BitVec 8
  deriving DecidableEq

/-- The parts of a packed 0xRRGGBB colour. -/
def Rgb.ofPacked (color : BitVec 32) : Rgb :=
  ⟨(color >>> 16).setWidth 8, (color >>> 8).setWidth 8, color.setWidth 8⟩

namespace Mode
variable (m : Mode)

/-- The bytes of the framebuffer. -/
def size : Nat := m.height.toNat * m.pitch.toNat

/-- `pixel[0]` to `pixel[3]`. -/
def storePixel (pixel : Nat) (c : Rgb) : List Store :=
  [⟨pixel, c.b⟩, ⟨pixel + 1, c.g⟩, ⟨pixel + 2, c.r⟩] ++ if m.bpp = 4 then [⟨pixel + 3, 0xFF⟩] else []

/-- `gfx_buffer + y * gfx_pitch + x * gfx_bpp`, each product in 32 bits. -/
def pixelOffset (x y : BitVec 32) : Nat := (y * m.pitch).toNat + (x * m.bpp).toNat

/-- `row[x * gfx_bpp + k]`, the index in 32 bits. -/
def storeInRow (row : Nat) (x : BitVec 32) (c : Rgb) : List Store :=
  [⟨row + (x * m.bpp + 0).toNat, c.b⟩, ⟨row + (x * m.bpp + 1).toNat, c.g⟩, ⟨row + (x * m.bpp + 2).toNat, c.r⟩] ++
    if m.bpp = 4 then [⟨row + (x * m.bpp + 3).toNat, 0xFF⟩] else []

def gfxClearScreen (c : Rgb) : List Store :=
  (List.range m.height.toNat).flatMap fun y =>
    let row := (BitVec.ofNat 32 y * m.pitch).toNat
    (List.range m.width.toNat).flatMap fun x => m.storeInRow row (BitVec.ofNat 32 x) c

/-- `x < gfx_width && y < gfx_height`. -/
def isValidPixelPosition (x y : BitVec 16) : Bool := x.setWidth 32 < m.width && y.setWidth 32 < m.height

def gfxPutPixel (x y : BitVec 16) (c : Rgb) : List Store :=
  if m.isValidPixelPosition x y then m.storePixel (m.pixelOffset (x.setWidth 32) (y.setWidth 32)) c else []

/-- `x_end` and `y_end`: the sum is compared in 32 bits and kept in 16. -/
def clippedEnd (size : BitVec 32) (start extent : BitVec 16) : BitVec 16 :=
  if size < start.setWidth 32 + extent.setWidth 32 then size.setWidth 16 else start + extent

def gfxDrawRect (x y width height : BitVec 16) (c : Rgb) : List Store :=
  let xEnd := clippedEnd m.width x width
  let yEnd := clippedEnd m.height y height
  (List.range' y.toNat (yEnd.toNat - y.toNat)).flatMap fun j =>
    let row := (BitVec.ofNat 32 j * m.pitch).toNat
    (List.range' x.toNat (xEnd.toNat - x.toNat)).flatMap fun i => m.storeInRow row (BitVec.ofNat 32 i) c

/-! ### Lines -/

def absI16 (val : BitVec 16) : BitVec 16 := if val.toInt < 0 then -val else val

/-- What the loop of `gfx_draw_line` only reads. -/
structure Line where
  dx : BitVec 16
  dy : BitVec 16
  sx : BitVec 16
  sy : BitVec 16
  x1 : BitVec 16
  y1 : BitVec 16

/-- And what it changes. -/
structure LineState where
  x0 : BitVec 16
  y0 : BitVec 16
  err : BitVec 16

def lineOf (x0 y0 x1 y1 : BitVec 16) : Line where
  dx := absI16 (x1 - x0)
  dy := absI16 (y1 - y0)
  sx := if x0.toInt < x1.toInt then 1 else -1
  sy := if y0.toInt < y1.toInt then 1 else -1
  x1
  y1

/-- The comparisons are of the 16-bit `e2` with differences widened to `int`. -/
def Line.step (l : Line) (s : LineState) : LineState :=
  let e2 := 2 * s.err
  let s := if -l.dy.toInt < e2.toInt then { s with err := s.err - l.dy, x0 := s.x0 + l.sx } else s
  if e2.toInt < l.dx.toInt then { s with err := s.err + l.dx, y0 := s.y0 + l.sy } else s

/-- The loop for a number of rounds, with what it does at each point; `true` when it has ended by then. -/
def Line.loop {α : Type} (l : Line) (visit : BitVec 16 → BitVec 16 → List α) : Nat → LineState → List α × Bool
  | 0, _ => ([], false)
  | rounds + 1, s =>
    if s.x0 = l.x1 ∧ s.y0 = l.y1 then (visit s.x0 s.y0, true)
    else
      let later := l.loop visit rounds (l.step s)
      (visit s.x0 s.y0 ++ later.1, later.2)

/-- `gfx_draw_line` with what it does at each point. -/
def alongLine {α : Type} (visit : BitVec 16 → BitVec 16 → List α) (rounds : Nat) (x0 y0 x1 y1 : BitVec 16) :
    List α × Bool :=
  let l := lineOf x0 y0 x1 y1
  l.loop visit rounds ⟨x0, y0, l.dx - l.dy⟩

/-- The signed coordinates are compared with the low halves of the width and height. -/
def linePixel (c : Rgb) (x0 y0 : BitVec 16) : List Store :=
  if 0 ≤ x0.toInt ∧ x0.toInt < (m.width.setWidth 16).toInt ∧ 0 ≤ y0.toInt ∧ y0.toInt < (m.height.setWidth 16).toInt then
    m.storePixel (m.pixelOffset (x0.signExtend 32) (y0.signExtend 32)) c
  else []

def gfxDrawLine (rounds : Nat) (x0 y0 x1 y1 : BitVec 16) (c : Rgb) : List Store × Bool :=
  alongLine (m.linePixel c) rounds x0 y0 x1 y1

/-! ### Pixels from arrays -/

structure Pixel where
  x : BitVec 16
  y : BitVec 16
  color : Rgb

structure PixelRgb where
  x : BitVec 16
  y : BitVec 16
  color : BitVec 32

def writePixel (x y : BitVec 16) (c : Rgb) : List Store := m.gfxPutPixel x y c

def putPixelVga (x y : BitVec 16) (color : BitVec 32) : List Store := m.gfxPutPixel x y (.ofPacked color)

def writePixelRgb (x y : BitVec 16) (color : BitVec 32) : List Store := m.putPixelVga x y color

/-- `none` is the null pointer, here and below. -/
def writePixelStruct : Option Pixel → List Store
  | none => []
  | some pixel => m.gfxPutPixel pixel.x pixel.y pixel.color

def writePixels (pixels : Option (BitVec 32 → Pixel)) (count : BitVec 32) : List Store :=
  match pixels with
  | none => []
  | some pixels => (List.range count.toNat).flatMap fun i =>
    let pixel := pixels (BitVec.ofNat 32 i)
    m.gfxPutPixel pixel.x pixel.y pixel.color

/-- The loop up to the sentinel, from index `i` and for a number of rounds. -/
def untilSentinel (pixels : BitVec 32 → PixelRgb) : Nat → BitVec 32 → List Store × Bool
  | 0, _ => ([], false)
  | rounds + 1, i =>
    let pixel := pixels i
    if pixel.x = 0xFFFF then ([], true)
    else
      let later := untilSentinel pixels rounds (i + 1)
      (m.gfxPutPixel pixel.x pixel.y (.ofPacked pixel.color) ++ later.1, later.2)

def writePixelsRgb (rounds : Nat) : Option (BitVec 32 → PixelRgb) → List Store × Bool
  | none => ([], true)
  | some pixels => m.untilSentinel pixels rounds 0

def writePixelsArrays (rounds : Nat) (xCoords yCoords : Option (BitVec 32 → BitVec 16))
    (colors : Option (BitVec 32 → BitVec 32)) : List Store × Bool :=
  match xCoords, yCoords, colors with
  | some xs, some ys, some cs => m.untilSentinel (fun i => ⟨xs i, ys i, cs i⟩) rounds 0
  | _, _, _ => ([], true)

def clearScreenVga (color : BitVec 32) : List Store := m.gfxClearScreen (.ofPacked color)

def drawRectVga (x y width height : BitVec 16) (color : BitVec 32) : List Store :=
  m.gfxDrawRect x y width height (.ofPacked color)

def drawLineVga (rounds : Nat) (x0 y0 x1 y1 : BitVec 16) (color : BitVec 32) : List Store × Bool :=
  m.gfxDrawLine rounds x0 y0 x1 y1 (.ofPacked color)

/-! ### Text -/

def textFgColor : BitVec 32 := 0xFFFFFF
def textBgColor : BitVec 32 := 0x000000

/-- `font_8x16`: a glyph for each of 128 characters, a byte for each of its 16 rows. -/
abbrev Font := Fin 128 → Fin 16 → BitVec 8

/-- The glyph of `'?'` stands for the characters without one. -/
def glyphIndex (c : BitVec 8) : Fin 128 := if h : c.toNat < 128 then ⟨c.toNat, h⟩ else 63

structure TextCursor where
  x : BitVec 16
  y : BitVec 16
  deriving DecidableEq

variable (font : Font)

def gfxDrawChar (x y : BitVec 16) (c : BitVec 8) : List Store :=
  (List.finRange 16).flatMap fun row =>
    let bits := font (glyphIndex c) row
    (List.range 8).flatMap fun col =>
      let px := x + BitVec.ofNat 16 col
      let py := y + BitVec.ofNat 16 row.val
      m.gfxPutPixel px py (.ofPacked (if bits &&& (0x80 >>> col) ≠ 0 then textFgColor else textBgColor))

/-- Past the last line the text goes on at the top. -/
def gfxNewline (t : TextCursor) : TextCursor :=
  let y := t.y + 16
  ⟨0, if m.height < y.setWidth 32 + 16 then 0 else y⟩

def gfxPutchar (t : TextCursor) (c : BitVec 8) : List Store × TextCursor :=
  if c = 10 ∨ c = 13 then ([], m.gfxNewline t)
  else if c = 0 then ([], t)
  else
    let maxX : BitVec 16 := (m.width / 8).setWidth 16
    let stores := m.gfxDrawChar font (t.x * 8) t.y c
    let t := { t with x := t.x + 1 }
    (stores, if maxX ≤ t.x then m.gfxNewline t else t)

/-- The characters of a string up to its terminator. -/
def gfxPuts (t : TextCursor) : List (BitVec 8) → List Store × TextCursor
  | [] => ([], t)
  | c :: str =>
    if c = 0 then ([], t)
    else
      let first := m.gfxPutchar font t c
      let rest := gfxPuts first.2 str
      (first.1 ++ rest.1, rest.2)

/-! ### Sequences of calls -/

inductive Call
  | gfxClearScreen (c : Rgb)
  | gfxPutPixel (x y : BitVec 16) (c : Rgb)
  | gfxDrawRect (x y width height : BitVec 16) (c : Rgb)
  | gfxDrawLine (x0 y0 x1 y1 : BitVec 16) (c : Rgb)
  | gfxDrawChar (x y : BitVec 16) (c : BitVec 8)
  | gfxPuts (str : List (BitVec 8))
  | writePixel (x y : BitVec 16) (c : Rgb)
  | writePixelRgb (x y : BitVec 16) (color : BitVec 32)
  | writePixelStruct (pixel : Option Pixel)
  | writePixels (pixels : Option (BitVec 32 → Pixel)) (count : BitVec 32)
  | writePixelsRgb (pixels : Option (BitVec 32 → PixelRgb))
  | writePixelsArrays (xCoords yCoords : Option (BitVec 32 → BitVec 16)) (colors : Option (BitVec 32 → BitVec 32))
  | clearScreenVga (color : BitVec 32)
  | putPixelVga (x y : BitVec 16) (color : BitVec 32)
  | drawRectVga (x y width height : BitVec 16) (color : BitVec 32)
  | drawLineVga (x0 y0 x1 y1 : BitVec 16) (color : BitVec 32)

/-- The stores of one call, whether it has returned within the rounds, and the text cursor it leaves. -/
def call (rounds : Nat) (t : TextCursor) : Call → (List Store × Bool) × TextCursor
  | .gfxClearScreen c => ((m.gfxClearScreen c, true), t)
  | .gfxPutPixel x y c => ((m.gfxPutPixel x y c, true), t)
  | .gfxDrawRect x y width height c => ((m.gfxDrawRect x y width height c, true), t)
  | .gfxDrawLine x0 y0 x1 y1 c => (m.gfxDrawLine rounds x0 y0 x1 y1 c, t)
  | .gfxDrawChar x y c => ((m.gfxDrawChar font x y c, true), t)
  | .gfxPuts str => (((m.gfxPuts font t str).1, true), (m.gfxPuts font t str).2)
  | .writePixel x y c => ((m.writePixel x y c, true), t)
  | .writePixelRgb x y color => ((m.writePixelRgb x y color, true), t)
  | .writePixelStruct pixel => ((m.writePixelStruct pixel, true), t)
  | .writePixels pixels count => ((m.writePixels pixels count, true), t)
  | .writePixelsRgb pixels => (m.writePixelsRgb rounds pixels, t)
  | .writePixelsArrays xCoords yCoords colors => (m.writePixelsArrays rounds xCoords yCoords colors, t)
  | .clearScreenVga color => ((m.clearScreenVga color, true), t)
  | .putPixelVga x y color => ((m.putPixelVga x y color, true), t)
  | .drawRectVga x y width height color => ((m.drawRectVga x y width height color, true), t)
  | .drawLineVga x0 y0 x1 y1 color => (m.drawLineVga rounds x0 y0 x1 y1 color, t)

/-- The stores of a sequence of calls; nothing follows a call that has not returned. -/
def run (rounds : Nat) : TextCursor → List Call → List Store
  | _, [] => []
  | t, c :: calls =>
    let done := m.call font rounds t c
    done.1.1 ++ if done.1.2 then run rounds done.2 calls else []

end Mode
end Nafuraito.Video
