import Chip8.Machine.Execute

/-!
# One instruction

`Machine.step` begins a cycle, fetches the word at the program counter, decodes it and carries it
out.  The result is the machine afterwards and either the instruction or the fault that stopped
it; a failed instruction does not count as a cycle.

A key wait that the user cancels leaves the program counter on the waiting instruction, which is
then executed again when the program is resumed.
-/

namespace Chip8

namespace Machine

variable {κ τ : Type} [Clock κ τ]

/-- Begins a cycle: key-downs from now on belong to it. -/
def beginCycle (m : Machine κ) : Machine κ :=
  { m with around := { m.around with keyboard := m.around.keyboard.nextCycle } }

/-- The word at the program counter, and the machine with the counter behind it. -/
def fetch (m : Machine κ) : Except Fault (Nat × Machine κ) :=
  (m.store.readWord m.pc).map fun word => (word, { m with pc := nextAddress m.pc })

/-- Waits for a key and puts it into a register. -/
def awaitKey (a : Attendant τ) (m : Machine κ) (i : Instruction) :
    Machine κ × Except Fault Unit :=
  match m.around.waitForKey a with
  | (.key key, around) => (({ m with around }.setReg i.x key).noted i .awaitKey, .ok ())
  | (.cancelled, around) => ({ m with around, pc := previousAddress m.pc }, .ok ())
  | (.exhausted, around) => ({ m with around }, .error .waitedTooLong)

/-- Carries out an instruction that was fetched from `address`. -/
def perform (a : Attendant τ) (m : Machine κ) (address : Int) (i : Instruction) :
    Machine κ × Except Fault Unit :=
  match i.op with
  | none => (m, .error (.unknownInstruction i.word address))
  | some .awaitKey => m.awaitKey a i
  | some op =>
    match m.execute i op with
    | .ok after => (after.noted i op, .ok ())
    | .error fault => (m, .error fault)

/-- Executes one instruction. -/
def step (a : Attendant τ) (m : Machine κ) : Machine κ × Except Fault Instruction :=
  let m := m.beginCycle
  match m.fetch with
  | .error fault => (m, .error fault)
  | .ok (word, fetched) =>
    let i := Instruction.decode word
    match fetched.perform a m.pc i with
    | (after, .error fault) => (after, .error fault)
    | (after, .ok ()) => ({ after with cycles := after.cycles + 1 }, .ok i)

end Machine

end Chip8
