import Chip8.Instruction.Decode
import Chip8.Machine.Basic

/-!
# What each operation does

`Machine.execute` is the effect of an operation on the machine whose program counter already points
past the instruction.  An operation that fails has no effect, because it fails before it changes
anything.  Waiting for a key is not among the effects here: it depends on what happens meanwhile
(`Machine.step`).

`Machine.noteOf` is what the journal says of a completed instruction, read off the state after it.
-/

namespace Chip8

namespace Machine

variable {κ : Type}

/-- The low eight bits. -/
def byte (v : Int) : Nat := (v % 0x100).toNat

/-- Returns from the latest open call. -/
def leave (m : Machine κ) : Except Fault (Machine κ) :=
  match m.stack with
  | [] => .error (.emptyStack (previousAddress m.pc))
  | address :: rest => .ok { m with pc := address, stack := rest }

/-- Adds a register to the index register; the flag says that twelve bits did not hold the sum. -/
def addIndex (m : Machine κ) (x : Fin 16) : Machine κ :=
  let total := m.index + m.reg x
  let exceeds := decide (0x1000 ≤ total)
  { m with index := if exceeds then total % 0x1000 else total }.setReg flag exceeds.toNat

/-- Draws a sprite of `n` rows from the index register on; the flag says that a pixel went off. -/
def drawSprite (m : Machine κ) (x y : Fin 16) (n : Nat) : Except Fault (Machine κ) :=
  (m.screen.draw (m.reg x) (m.reg y) n m.index m.store).map fun (screen, off) =>
    { m with screen }.setReg flag off.toNat

/-- Takes a random byte, under a mask. -/
def drawRandom (m : Machine κ) (x : Fin 16) (mask : Nat) : Machine κ :=
  let (b, random) := m.random.draw
  { m with random }.setReg x (b.toNat &&& mask)

/-- Writes values from the index register on. -/
def storeAtIndex (m : Machine κ) (values : Array Int) : Except Fault (Machine κ) :=
  (m.store.writeBlock m.index values).map fun store => { m with store }

/-- The decimal digits of a register, three of them if it holds a byte. -/
def decimal (v : Nat) : Array Int := #[(v / 100 : Nat), (v / 10 % 10 : Nat), (v % 10 : Nat)]

/-- The registers up to `Vx`. -/
def registersTo (m : Machine κ) (x : Fin 16) : Array Int :=
  (m.registers.toArray.extract 0 (x + 1)).map Int.ofNat

/-- Fills the registers up to `Vx` from the index register on. -/
def loadRegisters (m : Machine κ) (x : Fin 16) : Except Fault (Machine κ) :=
  (m.store.readBlock m.index (x + 1 : Nat)).map fun block =>
    { m with registers := m.registers.mapFinIdx fun r old _ =>
        if r ≤ x then (block.getD r 0).toNat else old }

/-- Changes the timers. -/
def withTimers (m : Machine κ) (f : Countdown → Countdown) : Machine κ :=
  { m with around := { m.around with timers := f m.around.timers } }

/-- The effect of an operation with the operands of an instruction. -/
def execute (m : Machine κ) (i : Instruction) : Op → Except Fault (Machine κ)
  | .clearScreen => .ok { m with screen := m.screen.clear }
  | .leave => m.leave
  | .jump => .ok { m with pc := i.nnn }
  | .call => .ok { m with pc := i.nnn, stack := m.pc :: m.stack }
  | .skipIfByte => .ok (m.skipIf (m.reg i.x = i.kk))
  | .skipUnlessByte => .ok (m.skipIf (m.reg i.x ≠ i.kk))
  | .skipIfEqual => .ok (m.skipIf (m.reg i.x = m.reg i.y))
  | .setByte => .ok (m.setReg i.x i.kk)
  | .addByte => .ok (m.setReg i.x ((m.reg i.x + i.kk) % 0x100))
  | .copy => .ok (m.setReg i.x (m.reg i.y))
  | .or => .ok (m.setReg i.x (m.reg i.x ||| m.reg i.y))
  | .and => .ok (m.setReg i.x (m.reg i.x &&& m.reg i.y))
  | .xor => .ok (m.setReg i.x (m.reg i.x ^^^ m.reg i.y))
  | .add =>
    let total := m.reg i.x + m.reg i.y
    .ok (m.setWithFlag i.x (total % 0x100) (0xFF < total))
  | .subtract =>
    .ok (m.setWithFlag i.x (byte (m.reg i.x - m.reg i.y)) (m.reg i.y ≤ m.reg i.x))
  | .shiftRight => .ok (m.setWithFlag i.x (m.reg i.x / 2) (m.reg i.x % 2 = 1))
  | .subtractFrom =>
    .ok (m.setWithFlag i.x (byte (m.reg i.y - m.reg i.x)) (m.reg i.x ≤ m.reg i.y))
  | .shiftLeft => .ok (m.setWithFlag i.x (m.reg i.x * 2 % 0x100) (m.reg i.x / 0x80 % 2 = 1))
  | .skipUnlessEqual => .ok (m.skipIf (m.reg i.x ≠ m.reg i.y))
  | .setIndex => .ok { m with index := i.nnn }
  | .jumpOffset => .ok { m with pc := (i.nnn + m.reg first : Nat) }
  | .random => .ok (m.drawRandom i.x i.kk)
  | .draw => m.drawSprite i.x i.y i.n
  | .skipIfPressed => .ok (m.skipIf (m.around.keyboard.isPressed (m.reg i.x)))
  | .skipUnlessPressed => .ok (m.skipIf (!m.around.keyboard.isPressed (m.reg i.x)))
  | .readDelay => .ok (m.setReg i.x m.around.timers.delay.value)
  | .awaitKey => .ok m
  | .setDelay => .ok (m.withTimers (·.setDelay (m.reg i.x)))
  | .setSound => .ok (m.withTimers (·.setSound (m.reg i.x)))
  | .addIndex => .ok (m.addIndex i.x)
  | .glyph => .ok { m with index := (Store.fontStart + m.reg i.x * glyphHeight : Nat) }
  | .storeDecimal => m.storeAtIndex (decimal (m.reg i.x))
  | .dump => m.storeAtIndex (m.registersTo i.x)
  | .load => m.loadRegisters i.x

/-- The digit of a register in a note. -/
def registerDigit (x : Fin 16) : String := Hex.upper 0 x.val

/-- What the journal says of an instruction, given the state after it. -/
def noteOf (m : Machine κ) (i : Instruction) : Op → Option String
  | .clearScreen => some "Clear the display"
  | .leave => some s!"Return to {Hex.lower m.pc}"
  | .jump => some s!"Jump to address {Hex.lower i.nnn}"
  | .call => some s!"Call subroutine at {Hex.lower i.nnn}"
  | .setByte => some s!"Set V{registerDigit i.x} = {i.kk}"
  | .add => some (s!"Add V{registerDigit i.y} to V{registerDigit i.x}: " ++
      s!"result {m.reg i.x}, carry={m.reg flag}")
  | .setIndex => some s!"Set I = {Hex.upper 3 m.index}"
  | .jumpOffset => some s!"Jump to address V0 + {Hex.upper 3 i.nnn} = {Hex.upper 3 m.pc}"
  | .draw => some s!"Drew sprite, collision={m.reg flag}"
  | .awaitKey =>
    some s!"Key {Hex.upper 0 (m.reg i.x)} pressed, stored in V{registerDigit i.x}"
  | _ => none

/-- Notes an instruction in the journal, if the journal wants notes. -/
def noted (m : Machine κ) (i : Instruction) (op : Op) : Machine κ :=
  if m.around.journal.details then
    match m.noteOf i op with
    | some text => { m with around := m.around.note text }
    | none => m
  else m

end Machine

end Chip8
