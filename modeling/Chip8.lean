import Chip8.Buzzer
import Chip8.Clock
import Chip8.CommandLine
import Chip8.Countdown
import Chip8.Decimal.Binary32
import Chip8.Decimal.Binary64
import Chip8.Decimal.Numeral
import Chip8.Decimal.Shortest
import Chip8.Extent
import Chip8.Fault
import Chip8.Frequency
import Chip8.Instruction.Basic
import Chip8.Instruction.Decode
import Chip8.Journal
import Chip8.KeyWait
import Chip8.Keyboard
import Chip8.Machine.Basic
import Chip8.Machine.Execute
import Chip8.Machine.Step
import Chip8.Main
import Chip8.Proofs.Keyboard.Chronicle
import Chip8.Proofs.Keyboard.Delivery
import Chip8.Proofs.Keyboard.Wait
import Chip8.Proofs.Machine.Execute
import Chip8.Proofs.Machine.Faults
import Chip8.Proofs.Machine.Reach
import Chip8.Proofs.Machine.Step
import Chip8.Proofs.Machine.Veil
import Chip8.Proofs.Screen
import Chip8.Proofs.Session.Frame
import Chip8.Proofs.Session.KeyDelivery
import Chip8.Proofs.Store
import Chip8.RomFile
import Chip8.Screen
import Chip8.Session.Basic
import Chip8.Session.Run
import Chip8.Store
import Chip8.Surroundings
import Chip8.Terminal
import Chip8.Text.Digit
import Chip8.Text.Hex
import Chip8.Text.Printable
import Chip8.Text.Quoted
import Chip8.Ticker
import Chip8.Tone.Basic
import Chip8.Tone.Level
import Chip8.Window
import Chip8.Proofs.Machine.Bare
import Chip8.Proofs.Session.Plain
import Chip8.Proofs.Machine.Calls
import Chip8.Proofs.Session.Display
import Chip8.Proofs.Session.Hidden
import Chip8.Proofs.Machine.Footprint
import Chip8.Proofs.Machine.Timers
import Chip8.Proofs.Session.Pacing
import Chip8.Proofs.Machine.Resume
import Chip8.Proofs.Machine.Ticks
import Chip8.Proofs.Machine.Saving
import Chip8.Proofs.Session.Cleanup
import Chip8.Proofs.Session.Composition
import Chip8.Proofs.Session.Course
import Chip8.Proofs.Instruction.Digits
import Chip8.Proofs.Instruction.Template
import Chip8.Proofs.Screen.Parity
import Chip8.Proofs.Keyboard.Outcome
import Chip8.Proofs.Decimal.Whole
import Chip8.Proofs.Tone.Stream
import Chip8.Proofs.Machine.Arithmetic
import Chip8.Proofs.Machine.Successor
import Chip8.Proofs.Screen.Involution
import Chip8.Proofs.Screen.Rotation
import Chip8.Proofs.Store.Writes
import Chip8.Proofs.Deadline
import Chip8.Proofs.Ticker.Punctual
import Chip8.Proofs.Session.Moments
import Chip8.Proofs.Session.FrameRate
import Chip8.Proofs.Session.Statistics
import Chip8.Proofs.Session.Leaving
import Chip8.Proofs.Tone.Gate
import Chip8.Proofs.Window.Picture
import Chip8.Proofs.Window.Input
import Chip8.Proofs.Ticker.Threads
import Chip8.Proofs.Store.FromEnd
