import Chip8.Extent
import Chip8.Frequency

/-!
# The tone of the buzzer

A tone is a square wave.  Its phase is measured in turns and moves by a fixed step per sample,
kept between nought and one; a sample is high in the first half of a turn and low in the second.
While the sound timer stands at nought every sample is low, so switching the tone on and off makes
no click, and the phase goes on moving.

The sound timer is read once for each sample.  Phases are written over any numbers that can be
brought back into a turn (`Turns`).

`Tone.samples` and `Tone.block` answer a request, and `Tone.samples?` and `Tone.block?` refuse one
that asks for more than there is room for.
-/

namespace Chip8

/-- Numbers that measure turns. -/
class Turns (τ : Type) where
  /-- The fraction of a turn that is left when whole turns are taken away. -/
  wrap : τ → τ
  /-- Half a turn. -/
  half : τ
  /-- A whole number of turns. -/
  ofInt : Int → τ

/-- The part of a double behind the point, with the sign of a remainder by one: never negative. -/
def fractionalPart (x : Float) : Float :=
  let rest := x - (if x < 0 then x.ceil else x.floor)
  if rest < 0 then rest + 1 else if rest == 0 then 0 else rest

instance : Turns Float where
  wrap := fractionalPart
  half := 0.5
  ofInt := Binary64.ofInt

/-- A square wave that is being played. -/
structure Tone (τ : Type) where
  /-- How far the phase moves from one sample to the next. -/
  step : τ
  /-- The phase of the next sample. -/
  phase : τ
  /-- The number of samples in a tick of the timers. -/
  samplesPerTick : Int
  /-- How often the sound timer was read. -/
  reads : Nat := 0
  deriving Repr

namespace Tone

/-- The usual frequency. -/
def standardFrequency : Frequency := .whole 440

/-- The usual volume. -/
def standardVolume : Float := 0.12

/-- The usual number of samples in a second. -/
def standardSampleRate : Int := 44100

/-- The ticks of the timers in a second. -/
def ticksPerSecond : Int := 60

/-- A tone at the start of a turn.  The sample rate must not be nought. -/
def ofRates? (frequency : Frequency) (sampleRate : Int) : Except Fault (Tone Float) :=
  (frequency.over? sampleRate).map fun step =>
    { step, phase := 0, samplesPerTick := sampleRate / ticksPerSecond }

/-- Allows the phases of so many samples, eight bytes each.  The count is rounded to a double, and
if that is just beyond a word it asks for none. -/
def roomForPhases (count : Int) : Except Fault Unit :=
  match Binary64.truncate? (Binary64.ofInt count) with
  | none => .error .badValue
  | some n =>
    if n < -Extent.wordLimit ∨ Extent.wordLimit < n then .error .badValue
    else if n = Extent.wordLimit then .ok ()
    else Extent.claim (8 * max n 0)

section Samples

variable {τ : Type} [Add τ] [Mul τ] [LE τ] [DecidableLE τ] [Turns τ]

/-- The phase `k` samples on. -/
def phaseAt (t : Tone τ) (k : Int) : τ := Turns.wrap (t.phase + t.step * Turns.ofInt k)

/-- The next samples, each high or low; `reading n` is what reading number `n` of the sound timer
gives.  A negative count makes no samples, but moves the phase back. -/
def samples (t : Tone τ) (reading : Nat → Nat) (count : Int) : List Bool × Tone τ :=
  ((List.range count.toNat).map fun k =>
      reading (t.reads + k) ≠ 0 ∧ t.phaseAt k ≤ Turns.half,
    { t with phase := t.phaseAt count, reads := t.reads + count.toNat })

/-- The number of samples that answer a request for some bytes: two bytes to a sample, at least
one sample, and at most a tick's worth. -/
def blockLength (t : Tone τ) (bytes : Int) : Int := max 1 (min (bytes / 2) t.samplesPerTick)

/-- The samples that answer a request for some bytes. -/
def block (t : Tone τ) (reading : Nat → Nat) (bytes : Int) : List Bool × Tone τ :=
  t.samples reading (t.blockLength bytes)

/-- Why a request for so many samples is refused, if it is, and what it makes of the tone.  The
phase moves once there is room for the phases, whether or not there is room for the readings. -/
def refusal? (t : Tone τ) (count : Int) : Option (Fault × Tone τ) :=
  match roomForPhases count, Extent.count? count with
  | .error fault, _ => some (fault, t)
  | .ok (), .error fault => some (fault, { t with phase := t.phaseAt count })
  | .ok (), .ok _ => none

/-- The next samples, if there is room for them. -/
def samples? (t : Tone τ) (reading : Nat → Nat) (count : Int) :
    Except Fault (List Bool) × Tone τ :=
  match t.refusal? count with
  | some (fault, t) => (.error fault, t)
  | none => let (samples, t) := t.samples reading count; (.ok samples, t)

/-- The samples that answer a request for some bytes, if there is room for them. -/
def block? (t : Tone τ) (reading : Nat → Nat) (bytes : Int) : Except Fault (List Bool) × Tone τ :=
  t.samples? reading (t.blockLength bytes)

end Samples

end Tone

end Chip8
