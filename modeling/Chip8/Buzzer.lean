import Chip8.Tone.Level

/-!
# The buzzer

The buzzer plays the tone through a player.  Switching it on makes a new player and queues a new
stream of the tone on it; switching it off takes the player away.  The tone itself goes on where it
was.

A stream answers each request with a packet of samples, its time since the stream's start, and its
duration.  The times are sums of durations; they are written over any numbers that have the quotient
of two whole numbers (`Seconds`), which need not be those that measure the turns of the tone.
-/

namespace Chip8

/-- What the buzzer asks of the sound system. -/
inductive PlayerCall where
  /-- A player is made. -/
  | make
  /-- A stream is queued on it. -/
  | queue
  /-- It plays. -/
  | play
  /-- It pauses. -/
  | pause
  /-- It is taken away. -/
  | delete
  deriving DecidableEq, Repr

/-- The calls that switch the buzzer on. -/
def PlayerCall.switchOn : List PlayerCall := [make, queue, play]

/-- The calls that switch the buzzer off. -/
def PlayerCall.switchOff : List PlayerCall := [pause, delete]

/-- Numbers that measure seconds. -/
class Seconds (τ : Type) where
  /-- The quotient of two whole numbers. -/
  ratio : Int → Int → τ

instance : Seconds Float := ⟨Binary64.ratio⟩

/-- A stretch of sound. -/
structure Packet (τ : Type) where
  /-- Its samples. -/
  samples : List Bool
  /-- When it begins. -/
  timestamp : τ
  /-- How long it lasts. -/
  duration : τ
  deriving Repr

/-- The buzzer, with the numbers that measure its turns and those that measure its times. -/
structure Buzzer (φ : Type) (τ : Type := φ) where
  /-- Its tone. -/
  tone : Tone φ
  /-- Samples in a second. -/
  sampleRate : Int
  /-- There is a player. -/
  on : Bool := false
  /-- How many streams were queued. -/
  queued : Nat := 0
  /-- The time of the next packet of the latest stream. -/
  timestamp : τ
  deriving Repr

namespace Buzzer

/-- The number of sound channels. -/
def channels : Nat := 1

/-- The bits of a sample. -/
def sampleBits : Nat := 16

/-- A silent buzzer.  The sample rate must not be nought. -/
def ofSampleRate? (sampleRate : Int) : Except Fault (Buzzer Float) :=
  (Tone.ofRates? Tone.standardFrequency sampleRate).map fun tone =>
    { tone, sampleRate, timestamp := 0 }

variable {φ τ : Type}

/-- Switches the buzzer on, if it is off: a new stream begins at time nought. -/
def start [OfNat τ 0] (b : Buzzer φ τ) : Buzzer φ τ × List PlayerCall :=
  if b.on then (b, [])
  else ({ b with on := true, queued := b.queued + 1, timestamp := 0 }, PlayerCall.switchOn)

/-- Switches the buzzer off, if it is on. -/
def stop (b : Buzzer φ τ) : Buzzer φ τ × List PlayerCall :=
  if b.on then ({ b with on := false }, PlayerCall.switchOff) else (b, [])

/-- The next packet of the latest stream begins at the given time. -/
def seek (b : Buzzer φ τ) (time : τ) : Buzzer φ τ := { b with timestamp := time }

section Packets

variable [Add φ] [Mul φ] [LE φ] [DecidableLE φ] [Turns φ] [Add τ] [Seconds τ]

/-- The packet that answers a request for some bytes. -/
def packet (b : Buzzer φ τ) (reading : Nat → Nat) (bytes : Int) : Packet τ × Buzzer φ τ :=
  let (samples, tone) := b.tone.block reading bytes
  let duration := Seconds.ratio samples.length b.sampleRate
  (⟨samples, b.timestamp, duration⟩, { b with tone, timestamp := b.timestamp + duration })

/-- The packet that answers a request for some bytes, if there is room for it. -/
def packet? (b : Buzzer φ τ) (reading : Nat → Nat) (bytes : Int) :
    Except Fault (Packet τ) × Buzzer φ τ :=
  match b.tone.refusal? (b.tone.blockLength bytes) with
  | some (fault, tone) => (.error fault, { b with tone })
  | none => let (packet, b) := b.packet reading bytes; (.ok packet, b)

end Packets

end Buzzer

end Chip8
