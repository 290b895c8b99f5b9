import Chip8.Instruction.Basic

/-!
# Decoding

The decoder looks a word up in a table of bit patterns (`Encoding.table`).  A row fixes the bits
under its mask and leaves the others to the operands; the rows are tried in order.
-/

namespace Chip8

/-- The words of one operation: those that agree with `pattern` on the bits of `mask`. -/
structure Encoding where
  /-- The bits that the operation fixes. -/
  mask : Nat
  /-- Their values. -/
  pattern : Nat
  /-- The operation. -/
  op : Op
  deriving DecidableEq, Repr

namespace Encoding

/-- The word belongs to the operation. -/
def accepts (e : Encoding) (word : Nat) : Bool := word &&& e.mask = e.pattern

/-- The bit patterns of all operations. -/
def table : List Encoding := [
  ⟨0xFFFF, 0x00E0, .clearScreen⟩,
  ⟨0xFFFF, 0x00EE, .leave⟩,
  ⟨0xF000, 0x1000, .jump⟩,
  ⟨0xF000, 0x2000, .call⟩,
  ⟨0xF000, 0x3000, .skipIfByte⟩,
  ⟨0xF000, 0x4000, .skipUnlessByte⟩,
  ⟨0xF00F, 0x5000, .skipIfEqual⟩,
  ⟨0xF000, 0x6000, .setByte⟩,
  ⟨0xF000, 0x7000, .addByte⟩,
  ⟨0xF00F, 0x8000, .copy⟩,
  ⟨0xF00F, 0x8001, .or⟩,
  ⟨0xF00F, 0x8002, .and⟩,
  ⟨0xF00F, 0x8003, .xor⟩,
  ⟨0xF00F, 0x8004, .add⟩,
  ⟨0xF00F, 0x8005, .subtract⟩,
  ⟨0xF00F, 0x8006, .shiftRight⟩,
  ⟨0xF00F, 0x8007, .subtractFrom⟩,
  ⟨0xF00F, 0x800E, .shiftLeft⟩,
  ⟨0xF00F, 0x9000, .skipUnlessEqual⟩,
  ⟨0xF000, 0xA000, .setIndex⟩,
  ⟨0xF000, 0xB000, .jumpOffset⟩,
  ⟨0xF000, 0xC000, .random⟩,
  ⟨0xF000, 0xD000, .draw⟩,
  ⟨0xF0FF, 0xE09E, .skipIfPressed⟩,
  ⟨0xF0FF, 0xE0A1, .skipUnlessPressed⟩,
  ⟨0xF0FF, 0xF007, .readDelay⟩,
  ⟨0xF0FF, 0xF00A, .awaitKey⟩,
  ⟨0xF0FF, 0xF015, .setDelay⟩,
  ⟨0xF0FF, 0xF018, .setSound⟩,
  ⟨0xF0FF, 0xF01E, .addIndex⟩,
  ⟨0xF0FF, 0xF029, .glyph⟩,
  ⟨0xF0FF, 0xF033, .storeDecimal⟩,
  ⟨0xF0FF, 0xF055, .dump⟩,
  ⟨0xF0FF, 0xF065, .load⟩]

end Encoding

/-- The operation of the first row that accepts the word. -/
def Op.find? (rows : List Encoding) (word : Nat) : Option Op :=
  (rows.find? (·.accepts word)).map Encoding.op

/-- Decodes by the given rows; only the low sixteen bits of the number count. -/
def Instruction.decodeWith (rows : List Encoding) (number : Int) : Instruction :=
  let word := (number % 0x10000).toNat
  ⟨Op.find? rows word, word⟩

/-- The instruction in the low sixteen bits of a number. -/
def Instruction.decode (number : Int) : Instruction := decodeWith Encoding.table number

end Chip8
