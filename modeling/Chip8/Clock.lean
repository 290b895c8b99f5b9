/-!
# Clocks

A clock is a state `κ` that shows a time in `τ`.  Looking at it may take time, and sleeping makes
time pass.  Everything that is paced by time is written over an arbitrary clock, so that it can be
run with floating-point seconds and reasoned about with exact ones.

`VirtualClock` is a clock that moves only when it is told to: by a fixed amount at each reading,
and by the length of each sleep.
-/

namespace Chip8

/-- A clock with states `κ` that shows times in `τ`. -/
class Clock (κ : Type) (τ : outParam Type) where
  /-- The time the clock shows. -/
  time : κ → τ
  /-- The clock after someone looked at it. -/
  read : κ → κ
  /-- The clock after some time has passed. -/
  pass : τ → κ → κ

/-- A clock that moves only when it is told to. -/
structure VirtualClock (τ : Type) where
  /-- The time it shows. -/
  now : τ
  /-- How far each reading moves it. -/
  step : τ
  /-- How often it was read. -/
  readings : Nat := 0
  deriving Repr

instance {τ : Type} [Add τ] : Clock (VirtualClock τ) τ where
  time c := c.now
  read c := { c with now := c.now + c.step, readings := c.readings + 1 }
  pass t c := { c with now := c.now + t }

end Chip8
