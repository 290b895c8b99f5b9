import Chip8.Machine.Step
import Chip8.Ticker

/-!
# Sessions

A session is a machine that is being used: it has a timer clock, a display that frames are shown
on, and perhaps a buzzer.  `Setup` is how a session is arranged, `Session` its state, and a `Moment`
is something that the outside of the machine gets to notice.

A run keeps three deadlines (`Schedule`): for the next instruction, for the next frame and for the
next report of the speed.
-/

namespace Chip8

/-- The periods that pace a session. -/
structure Pace (τ : Type) where
  /-- The time an instruction takes. -/
  cycle : τ
  /-- The time a frame stays on the display. -/
  frame : τ
  /-- The time between two reports of the speed. -/
  report : τ
  deriving Repr

namespace Pace

/-- The usual number of instructions in a second. -/
def standardCycles : Frequency := .whole 700

/-- The usual number of frames in a second. -/
def standardFrames : Frequency := .whole 60

/-- The pace of so many instructions and frames in a second. -/
def ofRates? (cycles frames : Frequency) : Except Fault (Pace Float) := do
  let cycle ← cycles.period?
  let frame ← frames.period?
  return ⟨cycle, frame, 1.0⟩

end Pace

/-- How a session is arranged. -/
structure Setup (τ : Type) where
  /-- The periods. -/
  pace : Pace τ
  /-- The frequency as the journal shows it. -/
  rateText : String
  /-- The input source, which also attends to key waits. -/
  attendant : Attendant τ
  /-- There is a buzzer. -/
  hasSound : Bool := true
  /-- The display notes each report of the speed in the journal. -/
  announces : Bool := false

/-- Something that the outside notices. -/
inductive Moment (τ : Type) where
  /-- A frame was shown, after so many instructions, at a time. -/
  | shown (cycles : Nat) (time : τ) (frame : Frame)
  /-- The speed was reported, after so many instructions. -/
  | reported (cycles cyclesPerSecond framesPerSecond : Nat)
  /-- The rest of an instruction's time was slept out. -/
  | slept (duration : τ)
  /-- The buzzer was switched on. -/
  | soundOn
  /-- The buzzer was switched off. -/
  | soundOff
  deriving DecidableEq, Repr

/-- The state of a session. -/
structure Session (κ τ : Type) where
  /-- The machine and its surroundings. -/
  machine : Machine κ
  /-- The timer clock. -/
  ticker : Ticker τ
  /-- How many frames were shown. -/
  frames : Nat := 0
  /-- The speed last reported. -/
  cyclesPerSecond : Nat := 0
  /-- The frames of the second last reported. -/
  framesPerSecond : Nat := 0
  /-- What the outside noticed, in order. -/
  moments : Array (Moment τ) := #[]

/-- The deadlines of a run, and the counts at the last report. -/
structure Schedule (τ : Type) where
  /-- When the next instruction is due. -/
  cycle : τ
  /-- When the next frame is due. -/
  frame : τ
  /-- When the next report is due. -/
  report : τ
  /-- The instructions completed at the last report. -/
  cyclesAtReport : Nat
  /-- The frames shown at the last report. -/
  framesAtReport : Nat
  deriving Repr

/-- How a run ended. -/
inductive Ending where
  /-- The allowed number of instructions was reached. -/
  | limit
  /-- The user asked to leave. -/
  | exit
  /-- Something failed. -/
  | fault (fault : Fault)
  deriving DecidableEq, Repr

namespace Session

variable {κ τ : Type}

/-- Changes the surroundings. -/
def withAround (s : Session κ τ) (f : Surroundings κ → Surroundings κ) : Session κ τ :=
  { s with machine := { s.machine with around := f s.machine.around } }

/-- Writes an instruction note. -/
def note (s : Session κ τ) (text : String) : Session κ τ := s.withAround (·.note text)

/-- The user has asked to leave. -/
def exitRequested (s : Session κ τ) : Bool := s.machine.around.exitRequested

/-- The outside notices something. -/
def notice (s : Session κ τ) (moment : Moment τ) : Session κ τ :=
  { s with moments := s.moments.push moment }

/-- The journal. -/
def journal (s : Session κ τ) : Journal := s.machine.around.journal

/-- Lets the timer clock act, which may write to the journal. -/
def withTicker (s : Session κ τ) (act : Ticker τ → Journal → Ticker τ × Journal) :
    Session κ τ :=
  let (ticker, journal) := act s.ticker s.journal
  { s with ticker }.withAround fun around => { around with journal }

end Session

end Chip8
