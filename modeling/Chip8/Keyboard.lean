/-!
# The keyboard

Sixteen keys, each held down or not, and the recent *key-downs*: the moments at which a key that
was up went down, stamped with the cycle in which that happened.  The queue keeps the last
`Keyboard.capacity` of them, oldest first.  A key outside `0` to `15` does nothing.

A key wait takes the oldest key-down that is still *fresh*, that is, stamped with the current cycle
or the one before (`Keyboard.dropStale`).
-/

namespace Chip8

/-- A key that went down. -/
structure KeyDown where
  /-- The key. -/
  key : Nat
  /-- The cycle in which it went down. -/
  cycle : Nat
  deriving DecidableEq, Repr

/-- The state of the keyboard. -/
structure Keyboard where
  /-- Which keys are held. -/
  held : Vector Bool 16 := Vector.replicate 16 false
  /-- The number of instructions begun. -/
  cycle : Nat := 0
  /-- The recent key-downs, oldest first. -/
  downs : List KeyDown := []
  deriving DecidableEq, Repr

namespace Keyboard

/-- The greatest length of the queue. -/
def capacity : Nat := 16

/-- Begins the next instruction. -/
def nextCycle (k : Keyboard) : Keyboard := { k with cycle := k.cycle + 1 }

/-- The number is a key. -/
def IsKey (key : Int) : Prop := 0 ≤ key ∧ key < 16

instance (key : Int) : Decidable (IsKey key) := inferInstanceAs (Decidable (_ ∧ _))

/-- The key is held down. -/
def isPressed (k : Keyboard) (key : Int) : Bool :=
  if h : IsKey key then k.held.get ⟨key.toNat, by unfold IsKey at h; omega⟩ else false

/-- The last elements of a list, at most `capacity` of them. -/
def latest (downs : List KeyDown) : List KeyDown := downs.drop (downs.length - capacity)

/-- A key goes down.  If it was up, the key-down joins the queue, and a full queue loses its
oldest entry. -/
def press (k : Keyboard) (key : Int) : Keyboard :=
  if h : IsKey key then
    { k with
      held := k.held.set key.toNat true (by unfold IsKey at h; omega)
      downs :=
        if k.isPressed key then k.downs else latest (k.downs ++ [⟨key.toNat, k.cycle⟩]) }
  else k

/-- A key comes up. -/
def release (k : Keyboard) (key : Int) : Keyboard :=
  if h : IsKey key then
    { k with held := k.held.set key.toNat false (by unfold IsKey at h; omega) }
  else k

/-- The held keys, ascending. -/
def pressedKeys (k : Keyboard) : List Nat :=
  (List.range 16).filter fun key => k.isPressed key

/-- All keys are up and nothing waits. -/
def reset (k : Keyboard) : Keyboard :=
  { k with held := Vector.replicate 16 false, downs := [] }

/-- Drops the key-downs that are older than the previous cycle. -/
def dropStale (k : Keyboard) : Keyboard :=
  { k with downs := k.downs.dropWhile fun d => d.cycle + 1 < k.cycle }

/-- Takes the oldest key-down off the queue. -/
def take? (k : Keyboard) : Option (Nat × Keyboard) :=
  match k.downs with
  | [] => none
  | d :: rest => some (d.key, { k with downs := rest })

end Keyboard

end Chip8
