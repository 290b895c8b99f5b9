import Chip8.CommandLine

/-!
# The terminal

In a terminal the screen is drawn with block characters, two rows of pixels to a line of text
(`Terminal.lines`).  A terminal tells which keys are typed but not when they come up, so a typed
key counts as held for `Desk.holdTime`.

Nothing happens behind the back of a pass: `Desk.turn` gives the events that are due at its
beginning, which are the keys that were typed, the keys that come up, and the ticks of the timers
since the pass before.  A key wait that would nap ends its pass instead, and `Session.rewind` puts
the program counter back on it, so that the next pass takes it up again.
-/

namespace Chip8

/-! ### Drawing -/

namespace Terminal

/-- The character that shows two pixels, one above the other. -/
def cell : Bool → Bool → Char
  | true, true => '█'
  | true, false => '▀'
  | false, true => '▄'
  | false, false => ' '

/-- The lines of text that show a frame. -/
def lines (f : Frame) : List String :=
  (List.range ((f.height + 1) / 2)).map fun row =>
    String.ofList ((List.range f.width).map fun x =>
      cell (f.isLit x (2 * row)) (f.isLit x (2 * row + 1)))

/-- Wipes the terminal. -/
def wipe : String := "\x1b[2J"

/-- Goes to the upper left corner. -/
def home : String := "\x1b[H"

/-- Wipes the rest of the line and goes to the next one. -/
def lineEnd : String := "\x1b[K\r\n"

/-- Rings the bell. -/
def bell : String := "\x07"

/-- The text that shows a frame and the speed. -/
def draw (w : Window) (f : Frame) : String :=
  home ++ String.join ((lines f ++ [s!"{w.framesText}  {w.cyclesText}"]).map (· ++ lineEnd))

/-- What a moment of the session brings to the terminal. -/
def watch {τ : Type} (w : Window) : Moment τ → Window × String
  | .shown _ _ frame => (w, draw w frame)
  | .reported _ cycles frames => (w.showReport cycles frames, "")
  | _ => (w, "")

/-- What the moments of a pass bring to the terminal. -/
def watchAll {τ : Type} (w : Window) (moments : List (Moment τ)) : Window × String :=
  moments.foldl (fun (w, text) moment =>
    let (w, more) := watch w moment
    (w, text ++ more)) (w, "")

end Terminal

/-! ### Events -/

/-- What has to be remembered between two passes. -/
structure Desk where
  /-- When the timers tick next. -/
  nextTick : Float
  /-- The typed symbols that are held, with the times at which they come up. -/
  held : List (Int × Float) := []

namespace Desk

/-- How long a typed key counts as held, in seconds. -/
def holdTime : Float := 0.15

/-- The symbol of a typed character: the tabulator stands for F1. -/
def symbolOf (c : Char) : Int :=
  if c = '\x1b' then WindowEvent.escape
  else if c = '\t' then WindowEvent.f1
  else c.toLower.toNat

/-- The typed keys go down, and each of them is held from now on. -/
def type (d : Desk) (typed : List Char) (now : Float) : List WindowEvent × Desk :=
  let symbols := (typed.map symbolOf).eraseDups
  let others := d.held.filter fun key => key.1 ∉ symbols
  (symbols.map .down, { d with held := others ++ symbols.map fun key => (key, now + holdTime) })

/-- The keys come up whose time has come. -/
def lift (d : Desk) (now : Float) : List WindowEvent × Desk :=
  let (due, held) := d.held.partition fun key => key.2 ≤ now
  (due.map fun key => .up key.1, { d with held })

/-- More ticks than this make no difference to an eight-bit counter. -/
def tickLimit : Nat := 255

/-- The number of ticks that are due, at most `tickLimit`. -/
def ticksDue (d : Desk) (period now : Float) : Nat :=
  if d.nextTick ≤ now then
    min tickLimit (((Binary64.truncate? ((now - d.nextTick) / period)).getD 0).toNat + 1)
  else 0

/-- The timers tick as often as they should have. -/
def tick (d : Desk) (period now : Float) : List (Event Float) × Desk :=
  let n := d.ticksDue period now
  (List.replicate n .tick,
    if n = 0 then d
    else
      let next := d.nextTick + period * Binary64.ofInt n
      { d with nextTick := if next < now then now + period else next })

/-- The events that are due at the beginning of a pass. -/
def turn (d : Desk) (period : Float) (typed : List Char) (now : Float) :
    List (Event Float) × Desk :=
  let (up, d) := d.lift now
  let (down, d) := d.type typed now
  let (ticks, d) := d.tick period now
  ((up ++ down).filterMap WindowEvent.effect ++ ticks, d)

end Desk

/-- The attendant of a pass: the events arrive at its first poll, which comes after `polls` others,
and a key wait does not nap. -/
def Attendant.once (polls : Nat) (events : List (Event Float)) : Attendant Float :=
  { feed := { atPoll := fun n => if n = polls + 1 then events else [] }
    interval := keyPollInterval
    patience := 0 }

namespace Session

variable {κ τ : Type}

/-- Puts the program counter back on the last instruction. -/
def rewind (s : Session κ τ) : Session κ τ :=
  { s with machine := { s.machine with pc := Machine.previousAddress s.machine.pc } }

/-- Forgets what was noticed and written. -/
def forget (s : Session κ τ) : Session κ τ :=
  { s with moments := #[] }.withAround fun around =>
    { around with journal := { around.journal with messages := #[] } }

end Session

end Chip8
