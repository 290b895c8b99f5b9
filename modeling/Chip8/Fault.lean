import Chip8.Text.Hex
import Chip8.Text.Quoted

/-!
# What can go wrong

Every failure is a value of `Fault`, named for its cause.  The *fatal emulation errors*
(`Fault.isEmulation`) are those that a run reports to the user before it stops: a program that
cannot be loaded, a command line that cannot be read, and the three ways in which an instruction
fails.  The others are failures of the surroundings.  `Fault.message` is the text shown.
-/

namespace Chip8

/-- Why a program file could not be read. -/
inductive FileError where
  /-- Nothing has this name. -/
  | missing
  /-- The name belongs to a directory. -/
  | isDirectory
  /-- The path leads through something that is not a directory. -/
  | notDirectory
  /-- A part of the path is longer than any name may be. -/
  | nameTooLong
  /-- Another reason, in the system's words. -/
  | other (reason : String)
  deriving DecidableEq, Repr

/-- The system's wording of the reason. -/
def FileError.reason : FileError → String
  | missing => "No such file or directory"
  | isDirectory => "Is a directory"
  | notDirectory => "Not a directory"
  | nameTooLong => "File name too long"
  | other reason => reason

/-- The cause of a failure. -/
inductive Fault where
  /-- The word at this address is no instruction. -/
  | unknownInstruction (word : Nat) (address : Int)
  /-- The instruction at this address returns although no call is open. -/
  | emptyStack (address : Int)
  /-- An access needs this address, which lies outside the memory. -/
  | outOfBounds (address : Int)
  /-- The program is longer than the memory from its start. -/
  | programTooLarge (size : Nat) (capacity : Int)
  /-- The program file could not be read. -/
  | unreadable (path : String) (error : FileError)
  /-- The command line has too few or too many arguments. -/
  | usage
  /-- The frequency on the command line is no number. -/
  | notANumber (text : String)
  /-- The frequency on the command line is a number, but neither positive nor finite. -/
  | notPositive (text : String)
  /-- The machine was run before it had an input source and a display. -/
  | unattached
  /-- A size was out of range, or a path held a character that no path may hold. -/
  | badValue
  /-- A rate or an extent was zero where it divides. -/
  | divisionByZero
  /-- A number was too large for the numbers it was to be turned into. -/
  | tooLarge
  /-- There is no room for what was asked for. -/
  | outOfMemory
  /-- A key wait slept more often than it may. -/
  | waitedTooLong
  deriving DecidableEq, Repr

namespace Fault

/-- The fault belongs to the emulation and is reported to the user. -/
def isEmulation : Fault → Bool
  | unattached | badValue | divisionByZero | tooLarge | outOfMemory | waitedTooLong => false
  | _ => true

/-- How to call the program. -/
def usageText : String := "Usage: chip8vm <rom-file> [instructions-per-second]"

/-- The text of the fault. -/
def message : Fault → String
  | unknownInstruction word address =>
    s!"Unknown opcode: {Hex.upper 4 word} at 0x{Hex.upper 3 address}"
  | emptyStack address => s!"Stack underflow on 00EE at 0x{Hex.upper 3 address}"
  | outOfBounds address => s!"Memory access out of bounds: 0x{Hex.upper 0 address}"
  | programTooLarge size capacity =>
    s!"ROM is {size} bytes but only {capacity} bytes fit above 0x200"
  | unreadable path error => s!"Could not load ROM {path}: {error.reason}"
  | usage => usageText
  | notANumber text => s!"Invalid frequency: {quoted text} (expected a number of Hz)"
  | notPositive text => s!"Invalid frequency: {quoted text} (must be a positive number)"
  | unattached => "attach() collaborators before run()"
  | badValue => "value out of range"
  | divisionByZero => "division by zero"
  | tooLarge => "number too large"
  | outOfMemory => "out of memory"
  | waitedTooLong => "the key wait gave up"

end Fault

end Chip8
