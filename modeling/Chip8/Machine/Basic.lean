import Chip8.KeyWait
import Chip8.Screen

/-!
# The machine

The state of the virtual machine: sixteen registers, an index register, the program counter, the
call stack, a cycle counter, the memory, the screen, a source of random bytes, and the
surroundings.  Register `F` doubles as the flag of carries, borrows and collisions.
-/

namespace Chip8

/-- A source of random bytes. -/
structure RandomBytes where
  /-- The bytes it gives, in order. -/
  byteAt : Nat → UInt8
  /-- How many were drawn. -/
  drawn : Nat := 0

namespace RandomBytes

/-- Gives the bytes of a row over and over; an empty row gives noughts. -/
def cycling (bytes : Array UInt8) : RandomBytes := ⟨fun n => bytes.getD (n % bytes.size) 0, 0⟩

/-- Draws the next byte. -/
def draw (r : RandomBytes) : UInt8 × RandomBytes :=
  (r.byteAt r.drawn, { r with drawn := r.drawn + 1 })

end RandomBytes

/-- The state of the virtual machine; `κ` is the state of the clock around it. -/
structure Machine (κ : Type) where
  /-- The registers `V0` to `VF`. -/
  registers : Vector Nat 16 := Vector.replicate 16 0
  /-- The index register. -/
  index : Int := 0
  /-- The address of the next instruction. -/
  pc : Int := Store.programStart
  /-- The return addresses of the open calls, the latest first. -/
  stack : List Int := []
  /-- The number of instructions completed. -/
  cycles : Nat := 0
  /-- The memory. -/
  store : Store
  /-- The screen. -/
  screen : Screen := Screen.blank Screen.standardWidth Screen.standardHeight
  /-- The random bytes. -/
  random : RandomBytes
  /-- The surroundings. -/
  around : Surroundings κ

namespace Machine

variable {κ : Type}

/-- The register that is added to the target of a jump with an offset. -/
def first : Fin 16 := 0

/-- The flag register. -/
def flag : Fin 16 := 15

/-- The value of a register. -/
def reg (m : Machine κ) (x : Fin 16) : Nat := m.registers[x]

/-- Puts a value into a register. -/
def setReg (m : Machine κ) (x : Fin 16) (v : Nat) : Machine κ :=
  { m with registers := m.registers.set x v }

/-- Puts a result into a register and then sets the flag, which wins if both are the same. -/
def setWithFlag (m : Machine κ) (x : Fin 16) (result : Nat) (f : Bool) : Machine κ :=
  (m.setReg x result).setReg flag f.toNat

/-- The address after the instruction at an address. -/
def nextAddress (address : Int) : Int := (address + 2) % 0x10000

/-- The address of the instruction before an address. -/
def previousAddress (address : Int) : Int := (address - 2) % 0x10000

/-- Skips the next instruction if a condition holds. -/
def skipIf (m : Machine κ) (c : Bool) : Machine κ :=
  if c then { m with pc := nextAddress m.pc } else m

/-- Clears the registers, the stack and the counters; memory, screen and surroundings stay. -/
def reset (m : Machine κ) : Machine κ :=
  { m with
    registers := Vector.replicate 16 0
    index := 0
    pc := Store.programStart
    stack := []
    cycles := 0 }

/-- Loads a program to the usual place and notes it. -/
def load (m : Machine κ) (program : Array UInt8) : Except Fault (Machine κ) :=
  (m.store.load program Store.programStart).map fun store =>
    { m with store, around := m.around.note (Store.loadNote program Store.programStart) }

/-- A machine with `size` bytes of memory and a program in it, switched on. -/
def boot (size : Int) (program : Array UInt8) (random : RandomBytes) (around : Surroundings κ) :
    Except Fault (Machine κ) := do
  let store ← Store.ofSize? size
  load { store, random, around } program

end Machine

end Chip8
