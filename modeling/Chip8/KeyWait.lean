import Chip8.Surroundings

/-!
# Waiting for a key

A key wait takes the oldest fresh key-down if there is one.  Otherwise it goes round: it polls the
input source, takes a key-down if the poll brought one, asks whether the user wants to leave, and
naps.  It ends with a key, or cancelled by the user, or, after more naps than its attendant has
patience for, without a result.
-/

namespace Chip8

/-- Who attends to a key wait. -/
structure Attendant (τ : Type) where
  /-- The events that arrive meanwhile. -/
  feed : Feed τ
  /-- The wait polls the input source. -/
  polled : Bool := true
  /-- The wait asks whether the user wants to leave. -/
  heeded : Bool := true
  /-- The length of a nap. -/
  interval : τ
  /-- The greatest number of naps that may have been taken when another one begins. -/
  patience : Nat

/-- The usual length of a nap, in seconds. -/
def keyPollInterval : Float := 0.001

/-- How a key wait ended. -/
inductive Waited where
  /-- A key went down. -/
  | key (key : Nat)
  /-- The user asked to leave. -/
  | cancelled
  /-- There were too many naps. -/
  | exhausted
  deriving DecidableEq, Repr

namespace Surroundings

variable {κ τ : Type} [Clock κ τ]

/-- Takes the oldest key-down that waits. -/
def takeKey? (s : Surroundings κ) : Option (Nat × Surroundings κ) :=
  s.keyboard.take?.map fun (key, keyboard) => (key, { s with keyboard })

/-- Polls, if the wait polls at all. -/
def pollFor (a : Attendant τ) (s : Surroundings κ) : Surroundings κ :=
  if a.polled then s.poll a.feed else s

/-- Asks whether to leave, if the wait asks at all. -/
def askFor (a : Attendant τ) (s : Surroundings κ) : Bool × Surroundings κ :=
  if a.heeded then (s.exitRequested, { s with checks := s.checks + 1 }) else (false, s)

/-- One round of a key wait up to its nap; without a result the wait has to nap. -/
def waitRound (a : Attendant τ) (s : Surroundings κ) : Option Waited × Surroundings κ :=
  match s.takeKey? with
  | some (key, s) => (some (.key key), s)
  | none =>
    let s := s.pollFor a
    match s.takeKey? with
    | some (key, s) => (some (.key key), s)
    | none =>
      let (leaving, s) := s.askFor a
      (if leaving then some .cancelled else none, s)

/-- Goes round until there is a result, with `room` naps at most; the nap after the last one
ends the wait before its events happen. -/
def waitRounds (a : Attendant τ) : (room : Nat) → Surroundings κ → Waited × Surroundings κ
  | 0, s =>
    match s.waitRound a with
    | (some result, s) => (result, s)
    | (none, s) => (.exhausted, s.sleep a.interval)
  | room + 1, s =>
    match s.waitRound a with
    | (some result, s) => (result, s)
    | (none, s) => waitRounds a room (s.nap a.feed a.interval)

/-- Waits for a key; key-downs that are no longer fresh do not count. -/
def waitForKey (a : Attendant τ) (s : Surroundings κ) : Waited × Surroundings κ :=
  waitRounds a (a.patience - s.naps) { s with keyboard := s.keyboard.dropStale }

end Surroundings

end Chip8
