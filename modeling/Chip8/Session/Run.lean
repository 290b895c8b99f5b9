import Chip8.Session.Basic

/-!
# Running a session

A run is a row of *passes*.  A pass polls the input source, ends the run if the user wants to
leave, executes one instruction, shows a frame if one is due and the picture changed, reports the
speed if that is due, and sleeps out the rest of the instruction's time.

Whatever way a run ends, the buzzer is switched off and the timer clock is stopped.
-/

namespace Chip8

namespace Session

variable {κ τ : Type} [Clock κ τ]

/-- Looks at the clock. -/
def look (s : Session κ τ) : τ × Session κ τ :=
  (Clock.time s.machine.around.clock,
    s.withAround fun a => { a with clock := Clock.read s.machine.around.clock })

/-- Shows the picture on the display. -/
def present (s : Session κ τ) : Session κ τ :=
  let (frame, screen) := s.machine.screen.snapshot
  { s with machine := { s.machine with screen }, frames := s.frames + 1 }.notice
    (.shown s.machine.cycles (Clock.time s.machine.around.clock) frame)

/-- Reports the instructions and frames since the last report. -/
def report (u : Setup τ) (s : Session κ τ) (d : Schedule τ) : Session κ τ :=
  let cycles := s.machine.cycles - d.cyclesAtReport
  let frames := s.frames - d.framesAtReport
  let s := { s with cyclesPerSecond := cycles, framesPerSecond := frames }.notice
    (.reported s.machine.cycles cycles frames)
  if u.announces then s.note s!"Cycles/s: {cycles} FPS: {frames}" else s

section Pacing

variable [Add τ] [Sub τ] [Neg τ] [LT τ] [LE τ] [OfNat τ 0] [DecidableLT τ] [DecidableLE τ]

/-- Once a frame is due, shows it if the picture changed, and sets the next deadline: one frame
later, or one frame from now if that has passed as well. -/
def showIfDue (u : Setup τ) (s : Session κ τ) (d : Schedule τ) (now : τ) :
    Session κ τ × Schedule τ :=
  if d.frame ≤ now then
    let s := if s.machine.screen.dirty then s.present else s
    let next := d.frame + u.pace.frame
    (s, { d with frame := if next < now then now + u.pace.frame else next })
  else (s, d)

/-- Once a report is due, reports the speed. -/
def reportIfDue (u : Setup τ) (s : Session κ τ) (d : Schedule τ) (now : τ) :
    Session κ τ × Schedule τ :=
  if d.report ≤ now then
    (s.report u d,
      { d with
        report := now + u.pace.report
        cyclesAtReport := s.machine.cycles
        framesAtReport := s.frames })
  else (s, d)

/-- Sleeps until the next instruction is due.  A run that is more than a frame behind gives up
the lost time. -/
def paceOut (u : Setup τ) (s : Session κ τ) (d : Schedule τ) : Session κ τ × Schedule τ :=
  let due := d.cycle + u.pace.cycle
  let (now, s) := s.look
  let remaining := due - now
  if 0 < remaining then
    ((s.withAround fun a => { a with clock := Clock.pass remaining a.clock }).notice
      (.slept remaining), { d with cycle := due })
  else if remaining < -u.pace.frame then
    let (now, s) := s.look
    (s, { d with cycle := now })
  else (s, { d with cycle := due })

/-- What follows an instruction in a pass. -/
def afterInstruction (u : Setup τ) (s : Session κ τ) (d : Schedule τ) :
    Session κ τ × Schedule τ :=
  let (now, s) := s.look
  let (s, d) := s.showIfDue u d now
  let (s, d) := s.reportIfDue u d now
  s.paceOut u d

/-- One pass of a run; it tells how the run ended, if it did. -/
def pass (u : Setup τ) (s : Session κ τ) (d : Schedule τ) :
    Session κ τ × Schedule τ × Option Ending :=
  let s := s.withAround (·.poll u.attendant.feed)
  if s.exitRequested then (s.note "Exit requested", d, some .exit)
  else
    match s.machine.step u.attendant with
    | (machine, .error fault) => ({ s with machine }, d, some (.fault fault))
    | (machine, .ok _) =>
      let (s, d) := afterInstruction u { s with machine } d
      (s, d, none)

/-- At most `n` passes. -/
def passes (u : Setup τ) : (n : Nat) → Session κ τ → Schedule τ → Session κ τ × Ending
  | 0, s, _ => (s, .limit)
  | n + 1, s, d =>
    match s.pass u d with
    | (s, _, some ending) => (s, ending)
    | (s, d, none) => passes u n s d

/-- The deadlines of a run that begins now. -/
def schedule (u : Setup τ) (s : Session κ τ) : Schedule τ × Session κ τ :=
  let (now, s) := s.look
  ({ cycle := now
     frame := now + u.pace.frame
     report := now + u.pace.report
     cyclesAtReport := s.machine.cycles
     framesAtReport := s.frames }, s)

/-- Starts the timer clock and the buzzer. -/
def setOut (u : Setup τ) (s : Session κ τ) : Session κ τ :=
  let s := s.withTicker Ticker.start
  let s := if u.hasSound then s.notice .soundOn else s
  s.note s!"Running at {u.rateText} Hz"

/-- Where a failed machine stands. -/
def haltText (m : Machine κ) : String :=
  s!"Emulation halted after {m.cycles} cycles (pc=0x{Hex.upper 3 m.pc})"

/-- Reports a fatal emulation error in the journal. -/
def mourn (s : Session κ τ) (fault : Fault) : Session κ τ :=
  if fault.isEmulation then
    s.withAround fun a => { a with journal := a.journal.write .error (haltText s.machine) }
  else s

/-- Stops the buzzer and the timer clock. -/
def close (u : Setup τ) (s : Session κ τ) : Session κ τ :=
  let s := if u.hasSound then s.notice .soundOff else s
  s.withTicker Ticker.stop

/-- Ends a run. -/
def finish (u : Setup τ) (s : Session κ τ) (ending : Ending) : Session κ τ :=
  let s := match ending with
    | .fault fault => s.mourn fault
    | _ => s
  s.close u

/-- Runs for at most `limit` instructions. -/
def run (u : Setup τ) (limit : Nat) (s : Session κ τ) : Session κ τ × Ending :=
  let (d, s) := (s.setOut u).schedule u
  let (s, ending) := s.passes u limit d
  (s.finish u ending, ending)

/-- Runs a session that may not have been set up yet. -/
def run? (u? : Option (Setup τ)) (limit : Nat) (s : Session κ τ) : Session κ τ × Ending :=
  match u? with
  | none => (s, .fault .unattached)
  | some u => s.run u limit

/-- A limit that a run without one cannot reach, if the input source asks to leave from poll
number `closing` on: every pass polls at least once. -/
def roomUntil (closing : Nat) (s : Session κ τ) : Nat := closing - s.machine.around.polls + 1

end Pacing

end Session

end Chip8
