/-!
# Countdown timers

The machine has two eight-bit counters, the delay timer and the sound timer.  The program sets and
reads them, and sixty times a second each of them goes down by one until it is nought.
-/

namespace Chip8

/-- An eight-bit counter. -/
structure Counter where
  /-- Its value, below `2 ^ 8`. -/
  value : Nat := 0
  deriving DecidableEq, Repr

namespace Counter

/-- A counter that starts from the low eight bits of a number. -/
def ofInt (v : Int) : Counter := ⟨(v % 0x100).toNat⟩

/-- Takes the low eight bits of a number. -/
def set (_ : Counter) (v : Int) : Counter := ofInt v

/-- Goes down by one, and stays at nought. -/
def decrement (c : Counter) : Counter := ⟨c.value - 1⟩

end Counter

/-- The two timers of the machine. -/
structure Countdown where
  /-- The delay timer, which programs wait by. -/
  delay : Counter := {}
  /-- The sound timer; the buzzer sounds while it runs. -/
  sound : Counter := {}
  deriving DecidableEq, Repr

namespace Countdown

/-- Sets the delay timer. -/
def setDelay (t : Countdown) (v : Int) : Countdown := { t with delay := t.delay.set v }

/-- Sets the sound timer. -/
def setSound (t : Countdown) (v : Int) : Countdown := { t with sound := t.sound.set v }

/-- One tick: the delay timer goes down. -/
def tickDelay (t : Countdown) : Countdown := { t with delay := t.delay.decrement }

/-- One tick: the sound timer goes down. -/
def tickSound (t : Countdown) : Countdown := { t with sound := t.sound.decrement }

/-- A tick of both timers, the delay timer first. -/
def tick (t : Countdown) : Countdown := t.tickDelay.tickSound

end Countdown

end Chip8
