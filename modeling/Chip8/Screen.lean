import Chip8.Store

/-!
# The screen

`Screen` is a grid of pixels that sprites are drawn on by exclusive or.  Both axes wrap around.
A sprite is a column of bytes; each set bit of it (`Sprite.hits`) flips one pixel, and drawing
reports whether a flip turned a pixel off.

The flag `dirty` says that the picture was asked to change since the last `Screen.snapshot`; a
snapshot is what is shown to the user (`Frame`).
-/

namespace Chip8

/-- A picture: which pixels are lit. -/
structure Frame where
  /-- Pixels in a row. -/
  width : Nat
  /-- The number of rows. -/
  height : Nat
  /-- The pixels, row by row from the top. -/
  lit : Array Bool
  deriving DecidableEq, Repr

namespace Frame

/-- The pixel in column `x` of row `y`. -/
def isLit (f : Frame) (x y : Nat) : Bool := f.lit.getD (y * f.width + x) false

/-- The rows, from the top. -/
def rows (f : Frame) : List (List Bool) :=
  (List.range f.height).map fun y => (List.range f.width).map fun x => f.isLit x y

/-- The number of lit pixels. -/
def litCount (f : Frame) : Nat := f.lit.count true

end Frame

/-- A grid of pixels; a pixel is lit unless it is nought. -/
structure Screen where
  /-- Pixels in a row. -/
  width : Nat
  /-- The number of rows. -/
  height : Nat
  /-- The pixels, row by row from the top. -/
  pixels : Array UInt8
  /-- The picture was asked to change since the last snapshot. -/
  dirty : Bool
  deriving DecidableEq, Repr

/-- The places that the set bits of a sprite at `(x, y)` fall on, before wrapping: row by row, and
in a row from the most significant bit. -/
def Sprite.hits (x y : Int) (sprite : List UInt8) : List (Int × Int) :=
  sprite.zipIdx.flatMap fun (byte, row) =>
    ((List.range 8).filter fun bit => byte.toNat.testBit (7 - bit)).map fun (bit : Nat) =>
      (x + bit, y + row)

namespace Screen

/-- The usual number of pixels in a row. -/
def standardWidth : Nat := 64

/-- The usual number of rows. -/
def standardHeight : Nat := 32

/-- A dark screen, due to be shown. -/
def blank (width height : Nat) : Screen :=
  ⟨width, height, Array.replicate (width * height) 0, true⟩

/-- A dark screen of the given extents, which must not be negative. -/
def blank? (width height : Int) : Except Fault Screen :=
  if width < 0 ∨ height < 0 ∨ ¬ Extent.Fits width ∨ ¬ Extent.Fits height then .error .badValue
  else (Extent.claim (width * height)).map fun _ => blank width.toNat height.toNat

/-- The screen has no pixel. -/
def isEmpty (s : Screen) : Bool := s.width = 0 ∨ s.height = 0

/-- The index of the pixel at a place, both axes wrapping around. -/
def index (s : Screen) (x y : Int) : Nat :=
  (y % s.height).toNat * s.width + (x % s.width).toNat

/-- The pixel at a place is lit. -/
def isLit (s : Screen) (x y : Int) : Bool := s.pixels.getD (s.index x y) 0 ≠ 0

/-- The pixel at a place, if the screen has any. -/
def pixel? (s : Screen) (x y : Int) : Except Fault Bool :=
  if s.isEmpty then .error .divisionByZero else .ok (s.isLit x y)

/-- Every pixel takes the given value. -/
def fill (s : Screen) (v : UInt8) : Screen :=
  { s with pixels := Array.replicate (s.width * s.height) v }

/-- The pixel at a place takes the given value. -/
def set (s : Screen) (x y : Int) (v : UInt8) : Screen :=
  { s with pixels := s.pixels.setIfInBounds (s.index x y) v }

/-- Turns every pixel off. -/
def clear (s : Screen) : Screen := { s.fill 0 with dirty := true }

/-- Flips the pixel at a place; the flag is set once a flip has turned a pixel off. -/
def flip (state : Screen × Bool) (place : Int × Int) : Screen × Bool :=
  let (s, off) := state
  let i := s.index place.1 place.2
  ({ s with pixels := s.pixels.modify i (· ^^^ 1) }, off || s.isLit place.1 place.2)

/-- Draws a sprite; the flag says whether a pixel was turned off. -/
def drawRows (s : Screen) (x y : Int) (sprite : List UInt8) : Screen × Bool :=
  let (s, off) := (Sprite.hits x y sprite).foldl flip (s, false)
  ({ s with dirty := true }, off)

/-- Draws the `height` rows of the sprite that the memory holds at `address`. -/
def draw (s : Screen) (x y height address : Int) (store : Store) :
    Except Fault (Screen × Bool) := do
  let sprite ← store.readBlock address height
  if s.isEmpty ∧ sprite.any (· ≠ 0) then .error .divisionByZero
  else .ok (s.drawRows x y sprite.toList)

/-- The picture on the screen. -/
def frame (s : Screen) : Frame := ⟨s.width, s.height, s.pixels.map (· ≠ 0)⟩

/-- Takes the picture for showing. -/
def snapshot (s : Screen) : Frame × Screen := (s.frame, { s with dirty := false })

end Screen

end Chip8
