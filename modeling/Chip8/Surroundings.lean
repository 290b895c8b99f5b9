import Chip8.Clock
import Chip8.Countdown
import Chip8.Journal
import Chip8.Keyboard

/-!
# The surroundings of the processor

While a program runs, things happen around it: keys go down and up, the timers tick, time passes,
the user asks to leave or to stay after all, or switches the journal's details.  Each is an `Event`,
and `Surroundings` is the state that events act on.

Events arrive at two kinds of moments, which are numbered: when the input source is polled, and
when a key wait has slept.  A `Feed` says which events arrive when, so a run is determined by its
feed and its clock.
-/

namespace Chip8

/-- Something that happens around the processor. -/
inductive Event (τ : Type) where
  /-- A key goes down. -/
  | press (key : Int)
  /-- A key comes up. -/
  | release (key : Int)
  /-- The timers tick. -/
  | tick
  /-- The user asks to leave. -/
  | exit
  /-- The user no longer asks to leave. -/
  | stay
  /-- Time passes. -/
  | advance (duration : τ)
  /-- The user switches the journal's details. -/
  | toggleDetails
  deriving DecidableEq, Repr

/-- What surrounds the processor; `κ` is the state of the clock. -/
structure Surroundings (κ : Type) where
  /-- The keys. -/
  keyboard : Keyboard := {}
  /-- The delay and sound timers. -/
  timers : Countdown := {}
  /-- The clock. -/
  clock : κ
  /-- The user has asked to leave. -/
  exitRequested : Bool := false
  /-- How often the input source was polled. -/
  polls : Nat := 0
  /-- How often a key wait asked whether to leave. -/
  checks : Nat := 0
  /-- How often a key wait slept. -/
  naps : Nat := 0
  /-- The journal. -/
  journal : Journal := {}
  deriving Repr

/-- Which events arrive when: at the polls and after the naps of a key wait, counted from one. -/
structure Feed (τ : Type) where
  /-- The events of a poll. -/
  atPoll : Nat → List (Event τ)
  /-- The events after a nap. -/
  atNap : Nat → List (Event τ) := fun _ => []

namespace Surroundings

variable {κ τ : Type} [Clock κ τ]

/-- Lets an event happen. -/
def occur (s : Surroundings κ) : Event τ → Surroundings κ
  | .press key => { s with keyboard := s.keyboard.press key }
  | .release key => { s with keyboard := s.keyboard.release key }
  | .tick => { s with timers := s.timers.tick }
  | .exit => { s with exitRequested := true }
  | .stay => { s with exitRequested := false }
  | .advance duration => { s with clock := Clock.pass duration s.clock }
  | .toggleDetails => { s with journal := s.journal.toggle }

/-- Lets events happen one after the other. -/
def deliver (s : Surroundings κ) (events : List (Event τ)) : Surroundings κ :=
  events.foldl occur s

/-- Polls the input source: the next poll's events happen. -/
def poll (feed : Feed τ) (s : Surroundings κ) : Surroundings κ :=
  let n := s.polls + 1
  deliver { s with polls := n } (feed.atPoll n)

/-- The clock moves by the length of a nap. -/
def sleep (interval : τ) (s : Surroundings κ) : Surroundings κ :=
  { s with naps := s.naps + 1, clock := Clock.pass interval s.clock }

/-- A nap of a key wait: the clock moves, then the nap's events happen. -/
def nap (feed : Feed τ) (interval : τ) (s : Surroundings κ) : Surroundings κ :=
  let s := s.sleep interval
  s.deliver (feed.atNap s.naps)

/-- Writes an instruction note. -/
def note (s : Surroundings κ) (text : String) : Surroundings κ :=
  { s with journal := s.journal.note text }

end Surroundings

end Chip8
