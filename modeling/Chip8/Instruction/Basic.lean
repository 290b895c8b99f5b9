import Chip8.Text.Hex

/-!
# Operations and instructions

An instruction is a sixteen-bit word.  Each of the thirty-four operations has a *template* of four
characters, one per hexadecimal digit of the word: an upper-case digit stands for itself, and the
letters `x`, `y`, `n` and `k` stand for any digit.  The operands are read off the word by position
alone, whatever the operation.
-/

namespace Chip8

/-- The operations of the machine. -/
inductive Op where
  | clearScreen | leave | jump | call
  | skipIfByte | skipUnlessByte | skipIfEqual
  | setByte | addByte
  | copy | or | and | xor | add | subtract | shiftRight | subtractFrom | shiftLeft
  | skipUnlessEqual | setIndex | jumpOffset | random | draw
  | skipIfPressed | skipUnlessPressed
  | readDelay | awaitKey | setDelay | setSound | addIndex | glyph | storeDecimal | dump | load
  deriving DecidableEq, Repr

namespace Op

/-- All operations, in the order of their words. -/
def all : List Op :=
  [clearScreen, leave, jump, call, skipIfByte, skipUnlessByte, skipIfEqual, setByte, addByte,
    copy, or, and, xor, add, subtract, shiftRight, subtractFrom, shiftLeft,
    skipUnlessEqual, setIndex, jumpOffset, random, draw, skipIfPressed, skipUnlessPressed,
    readDelay, awaitKey, setDelay, setSound, addIndex, glyph, storeDecimal, dump, load]

/-- The template of the words that mean the operation. -/
def template : Op → String
  | clearScreen => "00E0"
  | leave => "00EE"
  | jump => "1nnn"
  | call => "2nnn"
  | skipIfByte => "3xkk"
  | skipUnlessByte => "4xkk"
  | skipIfEqual => "5xy0"
  | setByte => "6xkk"
  | addByte => "7xkk"
  | copy => "8xy0"
  | or => "8xy1"
  | and => "8xy2"
  | xor => "8xy3"
  | add => "8xy4"
  | subtract => "8xy5"
  | shiftRight => "8xy6"
  | subtractFrom => "8xy7"
  | shiftLeft => "8xyE"
  | skipUnlessEqual => "9xy0"
  | setIndex => "Annn"
  | jumpOffset => "Bnnn"
  | random => "Cxkk"
  | draw => "Dxyn"
  | skipIfPressed => "Ex9E"
  | skipUnlessPressed => "ExA1"
  | readDelay => "Fx07"
  | awaitKey => "Fx0A"
  | setDelay => "Fx15"
  | setSound => "Fx18"
  | addIndex => "Fx1E"
  | glyph => "Fx29"
  | storeDecimal => "Fx33"
  | dump => "Fx55"
  | load => "Fx65"

/-- The name under which listings show the operation. -/
def name : Op → String
  | clearScreen => "CLEAR_SCREEN"
  | leave => "RETURN"
  | jump => "JUMP"
  | call => "CALL"
  | skipIfByte => "SKIP_IF_VX_IS_KK"
  | skipUnlessByte => "SKIP_IF_VX_IS_NOT_KK"
  | skipIfEqual => "SKIP_IF_VX_IS_VY"
  | setByte => "SET_VX_TO_KK"
  | addByte => "ADD_KK_TO_VX"
  | copy => "SET_VX_TO_VY"
  | or => "OR_VY_INTO_VX"
  | and => "AND_VY_INTO_VX"
  | xor => "XOR_VY_INTO_VX"
  | add => "ADD_VY_TO_VX"
  | subtract => "SUBTRACT_VY_FROM_VX"
  | shiftRight => "SHIFT_RIGHT_VX"
  | subtractFrom => "SET_VX_TO_VY_MINUS_VX"
  | shiftLeft => "SHIFT_LEFT_VX"
  | skipUnlessEqual => "SKIP_IF_VX_IS_NOT_VY"
  | setIndex => "SET_I"
  | jumpOffset => "JUMP_WITH_OFFSET"
  | random => "RANDOM"
  | draw => "DRAW_SPRITE"
  | skipIfPressed => "SKIP_IF_KEY_PRESSED"
  | skipUnlessPressed => "SKIP_IF_KEY_NOT_PRESSED"
  | readDelay => "SET_VX_TO_DELAY"
  | awaitKey => "AWAIT_KEY_PRESS"
  | setDelay => "SET_DELAY_TO_VX"
  | setSound => "SET_SOUND_TO_VX"
  | addIndex => "ADD_VX_TO_I"
  | glyph => "SET_I_TO_GLYPH"
  | storeDecimal => "STORE_BCD"
  | dump => "DUMP_REGISTERS"
  | load => "LOAD_REGISTERS"

end Op

/-- A decoded word; a word that is no instruction has no operation. -/
structure Instruction where
  /-- The operation, if the word has one. -/
  op : Option Op
  /-- The word, below `2 ^ 16`. -/
  word : Nat
  deriving DecidableEq, Repr

namespace Instruction

/-- The register named by the second digit of the word. -/
def x (i : Instruction) : Fin 16 := ⟨i.word / 0x100 % 16, Nat.mod_lt _ (by decide)⟩

/-- The register named by the third digit of the word. -/
def y (i : Instruction) : Fin 16 := ⟨i.word / 0x10 % 16, Nat.mod_lt _ (by decide)⟩

/-- The last digit of the word. -/
def n (i : Instruction) : Nat := i.word % 0x10

/-- The low byte of the word. -/
def kk (i : Instruction) : Nat := i.word % 0x100

/-- The address in the last three digits of the word. -/
def nnn (i : Instruction) : Nat := i.word % 0x1000

/-- The name of the operation, or the mark of a word that has none. -/
def name (i : Instruction) : String := (i.op.map Op.name).getD "UNKNOWN"

/-- The template of the operation, or the mark of a word that has none. -/
def template (i : Instruction) : String := (i.op.map Op.template).getD "????"

/-- The listing of the instruction: the word and the name of its operation. -/
def listing (i : Instruction) : String := s!"{Hex.upper 4 i.word} {i.name}"

end Instruction

end Chip8
