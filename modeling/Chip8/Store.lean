import Chip8.Extent

/-!
# Memory

`Store` is a row of bytes with addresses from nought.  A fresh store holds the glyphs of the
sixteen hexadecimal digits at `Store.fontStart`; programs are loaded at `Store.programStart`.

Every access is checked first (`Store.check`): it fails with the first address that it cannot
have, and a failed access changes nothing.  A block is named by the ends of a window, and an end
below nought is counted back from the end of the memory (`Store.position`).
-/

namespace Chip8

/-- The glyphs of the digits `0` to `F`, five rows each, the picture in the upper four bits. -/
def glyphs : Array UInt8 := #[
  0xF0, 0x90, 0x90, 0x90, 0xF0,
  0x20, 0x60, 0x20, 0x20, 0x70,
  0xF0, 0x10, 0xF0, 0x80, 0xF0,
  0xF0, 0x10, 0xF0, 0x10, 0xF0,
  0x90, 0x90, 0xF0, 0x10, 0x10,
  0xF0, 0x80, 0xF0, 0x10, 0xF0,
  0xF0, 0x80, 0xF0, 0x90, 0xF0,
  0xF0, 0x10, 0x20, 0x40, 0x40,
  0xF0, 0x90, 0xF0, 0x90, 0xF0,
  0xF0, 0x90, 0xF0, 0x10, 0xF0,
  0xF0, 0x90, 0xF0, 0x90, 0x90,
  0xE0, 0x90, 0xE0, 0x90, 0xE0,
  0xF0, 0x80, 0x80, 0x80, 0xF0,
  0xE0, 0x90, 0x90, 0x90, 0xE0,
  0xF0, 0x80, 0xF0, 0x80, 0xF0,
  0xF0, 0x80, 0xF0, 0x80, 0x80]

/-- The number of rows of a glyph. -/
def glyphHeight : Nat := 5

/-- The memory of the machine. -/
structure Store where
  /-- The bytes, by address. -/
  bytes : Array UInt8
  deriving DecidableEq, Repr

namespace Store

/-- The usual number of bytes. -/
def standardSize : Nat := 4096

/-- The address of the glyph of `0`. -/
def fontStart : Nat := 0x050

/-- The address of a program's first byte. -/
def programStart : Nat := 0x200

/-- The number of bytes. -/
def size (s : Store) : Nat := s.bytes.size

/-- The byte at an address; beyond the end there is nought. -/
def byteAt (s : Store) (address : Nat) : UInt8 := s.bytes.getD address 0

/-! ### Windows -/

/-- The place that an end of a window means: below nought it is counted back from the end of the
memory, and no further than to its start. -/
def position (s : Store) (i : Int) : Nat := (if i < 0 then i + s.size else i).toNat

/-- The bytes of the window from `start` up to `stop`; none if `stop` lies before `start`. -/
def window (s : Store) (start stop : Int) : Array UInt8 :=
  s.bytes.extract (s.position start) (s.position stop)

/-- Replaces the window from `start` up to `stop` by a block, which may have another length; if
`stop` lies before `start` the block is inserted at `start`. -/
def replace (s : Store) (start stop : Int) (block : Array UInt8) : Store :=
  let i := s.position start
  ⟨s.bytes.extract 0 i ++ block ++ s.bytes.extract (max i (s.position stop)) s.size⟩

/-- Lays a block over the bytes from an address on. -/
def overlay (s : Store) (address : Nat) (block : Array UInt8) : Store :=
  ⟨s.bytes.mapIdx fun i old => if i < address then old else block.getD (i - address) old⟩

/-- A memory of `size` bytes, all nought but for the glyphs.  A memory that ends before the
glyphs do is lengthened to hold them. -/
def ofSize (size : Nat) : Store :=
  replace ⟨Array.replicate size 0⟩ fontStart (fontStart + glyphs.size) glyphs

/-- A memory of the given size, which must not be negative. -/
def ofSize? (size : Int) : Except Fault Store :=
  if ¬ Extent.Fits size then .error .tooLarge
  else if size < 0 then .error .badValue
  else (Extent.claim size).map fun _ => ofSize size.toNat

/-! ### Checked access -/

/-- Allows an access to `length` bytes at `address`, or names the first address it cannot have. -/
def check (s : Store) (address length : Int) : Except Fault Unit :=
  if address < 0 then .error (.outOfBounds address)
  else if s.size < address + length then .error (.outOfBounds (max address s.size))
  else .ok ()

/-- The byte at an address. -/
def readByte (s : Store) (address : Int) : Except Fault UInt8 :=
  (s.check address 1).map fun _ => s.byteAt address.toNat

/-- The sixteen-bit word at an address, high byte first. -/
def readWord (s : Store) (address : Int) : Except Fault Nat :=
  (s.check address 2).map fun _ =>
    0x100 * (s.byteAt address.toNat).toNat + (s.byteAt (address.toNat + 1)).toNat

/-- The bytes of a block. -/
def readBlock (s : Store) (address length : Int) : Except Fault (Array UInt8) :=
  (s.check address length).map fun _ => s.window address (address + length)

/-- The low eight bits of a number. -/
def lowByte (v : Int) : UInt8 := UInt8.ofNat (v % 0x100).toNat

/-- Writes the low bytes of the values from an address on. -/
def writeBlock (s : Store) (address : Int) (values : Array Int) : Except Fault Store :=
  (s.check address values.size).map fun _ => s.overlay address.toNat (values.map lowByte)

/-- Writes the low byte of a value. -/
def writeByte (s : Store) (address value : Int) : Except Fault Store :=
  s.writeBlock address #[value]

/-- Loads a program at an address, provided it is no longer than the memory from there on. -/
def load (s : Store) (program : Array UInt8) (start : Int) : Except Fault Store :=
  let capacity := s.size - start
  if capacity < program.size then .error (.programTooLarge program.size capacity)
  else .ok (s.replace start (start + program.size) program)

/-- What the journal says of a loaded program. -/
def loadNote (program : Array UInt8) (start : Int) : String :=
  s!"Loaded {program.size} bytes at {Hex.lower start}"

end Store

end Chip8
