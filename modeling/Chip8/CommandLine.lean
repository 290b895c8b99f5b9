import Chip8.Buzzer
import Chip8.Decimal.Numeral
import Chip8.RomFile
import Chip8.Session.Run
import Chip8.Window

/-!
# The command line

The program is called with the name of a program file and, if wanted, the number of instructions
in a second.  It loads the file, opens a window and runs until the user leaves.  A fatal emulation
error is written to the journal and gives the status one; a failure of another kind is passed on.
-/

namespace Chip8

namespace CommandLine

/-- Reads a frequency, which has to be positive and finite. -/
def parseFrequency (text : String) : Except Fault Float :=
  match Numeral.ofString? text with
  | none => .error (.notANumber text)
  | some number =>
    let hz := number.toFloat
    if 0 < hz && hz.isFinite then .ok hz else .error (.notPositive text)

/-- Reads the arguments: the name of the program file and the frequency. -/
def parse : List String → Except Fault (String × Frequency)
  | [path] => .ok (path, Pace.standardCycles)
  | [path, text] => (parseFrequency text).map fun hz => (path, .real hz)
  | _ => .error .usage

/-- What surrounds a call of the program. -/
structure Environment (κ : Type) where
  /-- Reads a program file. -/
  read : String → Except Fault (Array UInt8)
  /-- The random bytes. -/
  random : RandomBytes
  /-- The clock. -/
  clock : κ
  /-- The input source. -/
  attendant : Attendant Float
  /-- The poll from which on every poll asks to leave. -/
  closing : Nat

/-- A session with its arrangement, as the command line makes it. -/
structure Launch (κ : Type) where
  /-- How the session is arranged. -/
  setup : Setup Float
  /-- The frequency. -/
  frequency : Frequency
  /-- The session. -/
  session : Session κ Float

/-- What a call of the program came to. -/
structure Outcome (κ : Type) where
  /-- The status, or the failure that was passed on. -/
  status : Except Fault Nat
  /-- What was printed. -/
  printed : String
  /-- The journal. -/
  journal : Journal
  /-- The session, if it came to one. -/
  launch? : Option (Launch κ)

variable {κ : Type}

/-- What is printed before a program file is read. -/
def loadingLine (path : String) : String := s!"Loading ROM: {path}\n"

/-- Makes a session of a program. -/
def prepare (env : Environment κ) (journal : Journal) (program : Array UInt8)
    (frequency : Frequency) : Except Fault (Launch κ) := do
  let machine ← Machine.boot Store.standardSize program env.random { clock := env.clock, journal }
  let pace ← Pace.ofRates? frequency Pace.standardFrames
  let ticker ← Ticker.standard
  let setup : Setup Float :=
    { pace, rateText := frequency.text, attendant := env.attendant, announces := true }
  return { setup, frequency, session := { machine, ticker } }

/-- A failure ends the call: an emulation error is reported, another one passed on. -/
def fail (printed : String) (journal : Journal) (launch? : Option (Launch κ)) (fault : Fault) :
    Outcome κ :=
  if fault.isEmulation then ⟨.ok 1, printed, journal.write .error fault.message, launch?⟩
  else ⟨.error fault, printed, journal, launch?⟩

/-- A run that came to an end ends the call. -/
def conclude (printed : String) (launch : Launch κ) (ending : Ending) : Outcome κ :=
  match ending with
  | .fault fault => fail printed launch.session.journal (some launch) fault
  | _ => ⟨.ok 0, printed, launch.session.journal, some launch⟩

/-- The journal at the start of a call. -/
def freshJournal : Journal := Journal.opened {} .info

/-- Calls the program with some arguments. -/
def call [Clock κ Float] (env : Environment κ) (arguments : List String) : Outcome κ :=
  match parse arguments with
  | .error fault => fail "" freshJournal none fault
  | .ok (path, frequency) =>
    let printed := loadingLine path
    match env.read path >>= fun program => prepare env freshJournal program frequency with
    | .error fault => fail printed freshJournal none fault
    | .ok launch =>
      let (session, ending) :=
        launch.session.run launch.setup (launch.session.roomUntil env.closing)
      conclude printed { launch with session } ending

/-- The calls that a moment of the session brings to the sound system. -/
def soundCalls {τ : Type} : Moment τ → List PlayerCall
  | .soundOn => PlayerCall.switchOn
  | .soundOff => PlayerCall.switchOff
  | _ => []

/-- What a moment of the session brings to the window. -/
def watch {τ : Type} (w : Window) : Moment τ → Window × List GraphicsCall
  | .shown _ _ frame => (w, w.present frame)
  | .reported _ cycles frames => (w.showReport cycles frames, [])
  | _ => (w, [])

/-- Everything that the moments of a session bring to its window, from its opening to its close. -/
def graphics {τ : Type} (moments : List (Moment τ)) : List GraphicsCall :=
  let (w, opening) := Window.create Window.standardScale
  let (_, calls) := moments.foldl (fun (w, calls) moment =>
    let (w, more) := watch w moment
    (w, calls ++ more)) (w, opening)
  calls ++ [.close]

end CommandLine

end Chip8
