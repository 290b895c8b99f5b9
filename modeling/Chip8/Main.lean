import Chip8.Terminal

/-!
# Playing in a terminal

The program with its command line: it reads a program file, listens to the keyboard, and runs
passes of the session one after the other, each at the time it begins.
-/

namespace Chip8

namespace Terminal

/-- The seconds since a fixed moment. -/
def seconds : IO Float := do
  return Binary64.ofInt (← IO.monoNanosNow) / 1e9

/-- Sleeps until a time is reached, whole milliseconds long. -/
def sleepUntil (time : Float) : IO Unit := do
  let rest := (time - (← seconds)) * 1000
  IO.sleep ((Binary64.truncate? rest.ceil).getD 0).toNat.toUInt32

/-- Why a file could not be read. -/
def fileError : IO.Error → FileError
  | .noFileOrDirectory .. => .missing
  | .inappropriateType _ _ reason => .other reason
  | .permissionDenied _ _ reason => .other reason
  | .invalidArgument _ _ reason => .other reason
  | error => .other error.toString

/-- Reads a program file. -/
def readProgram (path : String) : IO (Except Fault (Array UInt8)) := do
  try
    let contents ← IO.FS.withFile path .read fun file => file.readBinToEnd
    return .ok contents.data
  catch error => return .error (.unreadable path (fileError error))

/-- Listens to the keyboard until Escape is typed; gives the place where typed characters gather. -/
def listen : IO (IO.Ref (Array Char)) := do
  let typed ← IO.mkRef #[]
  let input ← IO.getStdin
  let hear : IO Unit := do
    repeat
      let bytes ← input.read 1
      let chars := bytes.toList.map fun b => Char.ofNat b.toNat
      typed.modify (· ++ chars.toArray)
      if chars.isEmpty || chars.contains '\x1b' then break
  discard <| IO.asTask hear Task.Priority.dedicated
  return typed

/-- Prints what a session has brought to the terminal and to the journal. -/
def deliver (w : Window) (s : Session (VirtualClock Float) Float) : IO Window := do
  let (w, text) := watchAll w s.moments.toList
  IO.print text
  (← IO.getStdout).flush
  IO.eprint s.journal.text
  return w

/-- Runs a session to its end. -/
def play (launch : CommandLine.Launch (VirtualClock Float)) :
    IO (CommandLine.Outcome (VirtualClock Float)) := do
  let typed ← listen
  let begin ← seconds
  let at' (time : Float) (s : Session (VirtualClock Float) Float) :=
    s.withAround fun around => { around with clock := { around.clock with now := time } }
  let setup := launch.setup
  let (schedule, session) := ((at' begin launch.session).setOut setup).schedule setup
  let period := session.ticker.period
  let mut desk : Desk := { nextTick := begin + period }
  let mut window := (Window.create Window.standardScale).1
  let mut schedule := schedule
  let mut session := session
  let mut ending := Ending.limit
  IO.print wipe
  repeat
    let now ← seconds
    let (events, after) := desk.turn period (← typed.swap #[]).toList now
    let s := at' now session
    let attendant := Attendant.once s.machine.around.polls events
    let (s, next, result) := s.pass { setup with attendant } schedule
    window ← deliver window s
    let silent := session.machine.around.timers.sound.value = 0
    if silent && s.machine.around.timers.sound.value ≠ 0 then IO.print bell
    desk := after
    schedule := next
    session := s.forget
    match result with
    | some (.fault .waitedTooLong) => session := session.rewind
    | some reached =>
      ending := reached
      break
    | none => pure ()
    sleepUntil s.machine.around.clock.now
  return CommandLine.conclude "" { launch with session := session.finish setup ending } ending

/-- Prints the rest of the journal; the status of the program. -/
def leave (outcome : CommandLine.Outcome (VirtualClock Float)) : IO UInt32 := do
  IO.print outcome.printed
  IO.eprint outcome.journal.text
  match outcome.status with
  | .ok status => return status.toUInt32
  | .error fault => throw (IO.userError fault.message)

end Terminal

end Chip8

open Chip8 in
/-- Calls the program with the arguments of the command line. -/
def main (arguments : List String) : IO UInt32 := do
  let journal := CommandLine.freshJournal
  match CommandLine.parse arguments with
  | .error fault => Terminal.leave (CommandLine.fail "" journal none fault)
  | .ok (path, frequency) =>
    IO.print (CommandLine.loadingLine path)
    let program ← Terminal.readProgram path
    let env : CommandLine.Environment (VirtualClock Float) :=
      { read := fun _ => program
        random := RandomBytes.cycling (← IO.getRandomBytes 65536).data
        clock := ⟨0, 0, 0⟩
        attendant := Attendant.once 0 []
        closing := 0 }
    match env.read path >>= fun rom => CommandLine.prepare env journal rom frequency with
    | .error fault => Terminal.leave (CommandLine.fail "" journal none fault)
    | .ok launch => Terminal.leave (← Terminal.play launch)
