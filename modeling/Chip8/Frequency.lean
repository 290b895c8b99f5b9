import Chip8.Decimal.Shortest
import Chip8.Fault

/-!
# Frequencies

How often something happens in a second.  A frequency is a whole number or a double, and the two
differ in a division: the quotient of two whole numbers is rounded once, from its exact value
(`Frequency.over?`), while a whole number that meets a double becomes a double first
(`Frequency.toFloat?`), which fails if it is too large for one.
-/

namespace Chip8

/-- How often something happens in a second. -/
inductive Frequency where
  /-- A whole number. -/
  | whole (hz : Int)
  /-- A double. -/
  | real (hz : Float)
  deriving Repr

namespace Frequency

/-- The frequency in a message. -/
def text : Frequency → String
  | whole hz => toString hz
  | real hz => floatText hz

/-- The frequency as a double. -/
def toFloat? : Frequency → Except Fault Float
  | whole hz =>
    let x := Binary64.ofInt hz
    if x.isFinite then .ok x else .error .tooLarge
  | real hz => .ok hz

/-- A double divided by a frequency. -/
def divide? (x : Float) (f : Frequency) : Except Fault Float :=
  match f.toFloat? with
  | .error fault => .error fault
  | .ok hz => if hz == 0 then .error .divisionByZero else .ok (x / hz)

/-- The time between two occurrences, in seconds. -/
def period? (f : Frequency) : Except Fault Float := divide? 1.0 f

/-- How much of a period goes by from one sample to the next, at so many samples in a second. -/
def over? (f : Frequency) (sampleRate : Int) : Except Fault Float :=
  match f with
  | whole hz =>
    if sampleRate = 0 then .error .divisionByZero
    else
      let x := Binary64.ratio hz sampleRate
      if x.isFinite then .ok x else .error .tooLarge
  | real hz => divide? hz (whole sampleRate)

end Frequency

end Chip8
