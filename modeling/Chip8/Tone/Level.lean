import Chip8.Decimal.Binary32
import Chip8.Tone.Basic

/-!
# Sample values

A high sample stands at the volume and a low one at minus the volume, in single precision.  For
sixteen-bit sound the level is scaled in single precision and cut towards zero.
-/

namespace Chip8

namespace Tone

/-- The level of a sample. -/
def level (volume : Float) (high : Bool) : Float32 :=
  Binary32.nearest (if high then volume else -volume)

/-- The low sixteen bits of a whole number, read with a sign; a number beyond thirty-two bits
gives nought. -/
def lowSigned16 (n : Int) : Int :=
  if -0x80000000 ≤ n ∧ n < 0x80000000 then n.bmod 0x10000 else 0

/-- The sixteen-bit value of a sample. -/
def pcm16 (volume : Float) (high : Bool) : Int :=
  lowSigned16 ((Binary32.truncate? (level volume high * 32767)).getD 0)

end Tone

end Chip8
