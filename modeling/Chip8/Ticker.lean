import Chip8.Countdown
import Chip8.Frequency
import Chip8.Journal

/-!
# The timer clock

The timers tick on a worker thread of their own, once per period.  `Ticker` is the life of that
thread: it is started, stopped and joined, it may die unasked, and a stop flag outlives it.

`Ticker.work` is the body of the thread.  It waits until a deadline, ticks, and moves the deadline
on by one period; a wait may return late, and if it returned so late that the deadline lies more
than a period back, the deadline is set anew from the present, so that missed ticks are not made
up for in a burst.
-/

namespace Chip8

/-- The worker thread that a timer clock holds. -/
inductive Worker where
  /-- There is none. -/
  | absent
  /-- It runs. -/
  | alive
  /-- It has ended without having been stopped. -/
  | dead
  deriving DecidableEq, Repr

/-- A timer clock. -/
structure Ticker (τ : Type) where
  /-- The time between two ticks. -/
  period : τ
  /-- The ticks in a second, rounded, for the journal; some periods have no such number. -/
  rate : Except Fault Int
  /-- The thread has been asked to stop. -/
  stopping : Bool := false
  /-- The thread. -/
  worker : Worker := .absent
  /-- How many threads were started. -/
  started : Nat := 0
  /-- How many threads were joined. -/
  joined : Nat := 0

namespace Ticker

variable {τ : Type}

/-- The usual number of ticks in a second. -/
def standardRate : Frequency := .whole 60

/-- The name of the worker thread. -/
def workerName : String := "chip8-timers"

/-- The ticks in a second that belong to a period, rounded. -/
def rateOf (period : Float) : Except Fault Int := do
  let hz ← (Frequency.real period).period?
  match Binary64.roundEven? hz with
  | some n => .ok n
  | none => .error (if hz.isNaN then .badValue else .tooLarge)

/-- A timer clock of the given number of ticks in a second, which must not be nought. -/
def ofRate? (f : Frequency) : Except Fault (Ticker Float) :=
  f.period?.map fun period => { period, rate := rateOf period }

/-- A timer clock of the usual rate. -/
def standard : Except Fault (Ticker Float) := ofRate? standardRate

/-- The thread runs. -/
def running (t : Ticker τ) : Bool := t.worker = .alive

/-- The note of a start. -/
def startNote (rate : Int) : String := s!"Timers started at {rate} Hz"

/-- Starts a thread, unless one runs, and notes it if the rate can be told. -/
def start (t : Ticker τ) (j : Journal) : Ticker τ × Journal :=
  if t.running then (t, j)
  else
    ({ t with stopping := false, worker := .alive, started := t.started + 1 },
      match t.rate with
      | .ok rate => j.note (startNote rate)
      | .error _ => j)

/-- What is wrong with a start: it leaves the thread running, but cannot tell its rate. -/
def startFault? (t : Ticker τ) : Option Fault :=
  match t.running, t.rate with
  | false, .error fault => some fault
  | _, _ => none

/-- Stops the thread, if there is one, and waits for its end. -/
def stop (t : Ticker τ) (j : Journal) : Ticker τ × Journal :=
  if t.worker = .absent then (t, j)
  else
    ({ t with stopping := true, worker := .absent, joined := t.joined + 1 },
      j.note "Timers stopped")

/-- The thread ends unasked. -/
def die (t : Ticker τ) : Ticker τ :=
  if t.worker = .alive then { t with worker := .dead } else t

/-- The course of a thread's work. -/
structure Course (τ : Type) where
  /-- The lengths of its waits. -/
  waits : List τ
  /-- The times of its ticks. -/
  ticks : List τ
  /-- The time at its end. -/
  time : τ
  /-- The timers at its end. -/
  timers : Countdown

section Work

variable [Add τ] [Sub τ] [LT τ] [OfNat τ 0] [DecidableLT τ]

/-- How long to wait for a deadline. -/
def timeout (deadline now : τ) : τ := if 0 < deadline - now then deadline - now else 0

/-- The deadline after a tick at the time `now`. -/
def nextDeadline (period deadline now : τ) : τ :=
  if deadline + period < now - period then now + period else deadline + period

/-- Works from the time `now` on towards a deadline.  Each wait takes the next lateness and returns
that much after its timeout; when there is none left the thread is asked to stop. -/
def workFrom (period : τ) : (late : List τ) → (deadline now : τ) → Countdown → Course τ
  | [], deadline, now, timers => ⟨[timeout deadline now], [], now, timers⟩
  | late :: rest, deadline, now, timers =>
    let wait := timeout deadline now
    let now := now + (wait + late)
    let after := workFrom period rest (nextDeadline period deadline now) now timers.tick
    { after with waits := wait :: after.waits, ticks := now :: after.ticks }

/-- The body of the thread, begun at the time `now`.  A thread that was asked to stop before it
began waits once and ends. -/
def work (t : Ticker τ) (late : List τ) (now : τ) (timers : Countdown) : Course τ :=
  workFrom t.period (if t.stopping then [] else late) (now + t.period) now timers

end Work

end Ticker

end Chip8
