import Chip8.Screen
import Chip8.Surroundings

/-!
# The window

The window shows the screen and takes the user's keys.  Sixteen keys of the typewriter stand for
the keys of the machine, Escape asks to leave, and F1 switches the journal's details
(`WindowEvent.effect`).

A frame is shown enlarged, each pixel as a square of `scale` by `scale` dots (`Picture`).  Dots are
given from the bottom row up, so the frame's rows come in reverse.  What the window asks of the
graphics system is a list of `GraphicsCall`s.
-/

namespace Chip8

/-! ### Keys -/

/-- Something that happens at the window; keys are given by their symbols. -/
inductive WindowEvent where
  /-- A key of the typewriter goes down. -/
  | down (symbol : Int)
  /-- A key of the typewriter comes up. -/
  | up (symbol : Int)
  /-- The window is to be closed. -/
  | close
  deriving DecidableEq, Repr

namespace WindowEvent

/-- The symbol of the Escape key. -/
def escape : Int := 0xff1b

/-- The symbol of the F1 key. -/
def f1 : Int := 0xffbe

/-- The typewriter keys and the machine keys they stand for: the four by four block below the
digits `1` to `4`. -/
def keymap : List (Char × Nat) := [
  ('1', 0x1), ('2', 0x2), ('3', 0x3), ('4', 0xC),
  ('q', 0x4), ('w', 0x5), ('e', 0x6), ('r', 0xD),
  ('a', 0x7), ('s', 0x8), ('d', 0x9), ('f', 0xE),
  ('z', 0xA), ('x', 0x0), ('c', 0xB), ('v', 0xF)]

/-- The machine key that a symbol stands for. -/
def keyOf? (symbol : Int) : Option Nat :=
  (keymap.find? fun entry => (entry.1.toNat : Int) = symbol).map Prod.snd

/-- What an event at the window means to the machine, if it means anything. -/
def effect {τ : Type} : WindowEvent → Option (Event τ)
  | down symbol =>
    if symbol = escape then some .exit
    else if symbol = f1 then some .toggleDetails
    else (keyOf? symbol).map fun key => .press key
  | up symbol => (keyOf? symbol).map fun key => .release key
  | close => some .exit

end WindowEvent

/-! ### Pictures -/

/-- A colour with its opacity. -/
structure Rgba where
  /-- Red. -/
  red : UInt8
  /-- Green. -/
  green : UInt8
  /-- Blue. -/
  blue : UInt8
  /-- Opacity. -/
  alpha : UInt8
  deriving DecidableEq, Repr

namespace Rgba

/-- A lit pixel is white and a dark one black; both are opaque. -/
def ofPixel (lit : Bool) : Rgba :=
  let v : UInt8 := if lit then 255 else 0
  ⟨v, v, v, 255⟩

/-- The four bytes. -/
def bytes (c : Rgba) : List UInt8 := [c.red, c.green, c.blue, c.alpha]

end Rgba

/-- An enlarged frame. -/
structure Picture where
  /-- The dots along the side of a pixel. -/
  scale : Nat
  /-- The frame. -/
  frame : Frame
  deriving DecidableEq, Repr

namespace Picture

/-- Dots in a row. -/
def width (p : Picture) : Nat := p.frame.width * p.scale

/-- The number of rows of dots. -/
def height (p : Picture) : Nat := p.frame.height * p.scale

/-- Every element `n` times over. -/
def stretch {α : Type} (n : Nat) (l : List α) : List α := l.flatMap (List.replicate n)

/-- The rows of dots, from the bottom. -/
def rows (p : Picture) : List (List Rgba) :=
  stretch p.scale (p.frame.rows.reverse.map fun row => stretch p.scale (row.map Rgba.ofPixel))

/-- The picture as a row of bytes. -/
def bytes (p : Picture) : List UInt8 := p.rows.flatMap fun row => row.flatMap Rgba.bytes

/-- The bytes of a row of dots. -/
def pitch (p : Picture) : Nat := 4 * p.width

/-- The number of bytes. -/
def byteCount (p : Picture) : Nat := p.pitch * p.height

/-- The number of bytes when only the height of the frame is enlarged. -/
def columnByteCount (p : Picture) : Nat := 4 * p.frame.width * p.height

end Picture

/-! ### Drawing -/

/-- What the window asks of the graphics system. -/
inductive GraphicsCall where
  /-- A window is opened. -/
  | openWindow (width height : Nat) (title : String)
  /-- An image is made. -/
  | makeImage (picture : Picture)
  /-- A line of text is made, so many dots above the bottom. -/
  | makeLabel (text : String) (y : Int)
  /-- The graphics system may do what is due. -/
  | tick
  /-- The window takes the drawing that follows. -/
  | activate
  /-- The window is wiped. -/
  | wipe
  /-- The image takes another picture. -/
  | updateImage (picture : Picture)
  /-- The image is drawn. -/
  | drawImage
  /-- A line of text is drawn. -/
  | drawLabel (text : String)
  /-- What was drawn is shown. -/
  | flip
  /-- The window is closed. -/
  | close
  deriving Repr

/-- The window. -/
structure Window where
  /-- The dots along the side of a pixel. -/
  scale : Nat
  /-- The text that tells the frames in a second. -/
  framesText : String
  /-- The text that tells the instructions in a second. -/
  cyclesText : String
  deriving DecidableEq, Repr

namespace Window

/-- The usual enlargement. -/
def standardScale : Nat := 10

/-- The title. -/
def title : String := "CHIP-8 Emulator"

/-- The text that tells the frames in a second. -/
def framesLine (n : Int) : String := s!"FPS: {n}"

/-- The text that tells the instructions in a second. -/
def cyclesLine (n : Int) : String := s!"Cycles/s: {n}"

/-- The note of a report in the journal. -/
def reportNote (cycles frames : Int) : String := s!"{cyclesLine cycles} {framesLine frames}"

/-- The distance of the upper line of text from the top. -/
def framesDrop : Nat := 15

/-- The distance of the lower line of text from the top. -/
def cyclesDrop : Nat := 30

/-- The picture of a dark screen. -/
def darkPicture (scale : Nat) : Picture :=
  ⟨scale, (Screen.blank Screen.standardWidth Screen.standardHeight).frame⟩

/-- Opens a window of a given enlargement. -/
def create (scale : Nat) : Window × List GraphicsCall :=
  let w : Window := ⟨scale, framesLine 0, cyclesLine 0⟩
  let picture := darkPicture scale
  (w, [
    .openWindow picture.width picture.height title,
    .makeImage picture,
    .makeLabel w.framesText (picture.height - framesDrop),
    .makeLabel w.cyclesText (picture.height - cyclesDrop)])

/-- Opens a window, whose enlargement must not be negative.  There has to be room for its picture,
which is enlarged in height and then in width. -/
def create? (scale : Int) : Except Fault (Window × List GraphicsCall) :=
  if ¬ Extent.Fits scale then .error .tooLarge
  else if scale < 0 then .error .badValue
  else do
    Extent.claim (darkPicture scale.toNat).columnByteCount
    Extent.claim (darkPicture scale.toNat).byteCount
    return create scale.toNat

/-- What comes before the events of a poll. -/
def polling : List GraphicsCall := [.tick]

/-- Shows a frame. -/
def present (w : Window) (frame : Frame) : List GraphicsCall :=
  [.activate, .wipe, .updateImage ⟨w.scale, frame⟩, .drawImage,
    .drawLabel w.framesText, .drawLabel w.cyclesText, .flip]

/-- Changes the lines of text. -/
def showReport (w : Window) (cycles frames : Int) : Window :=
  { w with framesText := framesLine frames, cyclesText := cyclesLine cycles }

end Window

end Chip8
