/-!
# The journal

Messages for the user, each with a level.  Two things decide whether a message is written: the
*threshold*, below which nothing is written, and, for the instruction notes, whether *details* are
switched on.  Switching the details also moves the threshold.

Until the journal is opened (`Journal.opened`) only grave messages come out, and without a heading.
-/

namespace Chip8

/-- The gravity of a message. -/
inductive Level where
  | debug | info | warning | error | critical
  deriving DecidableEq, Repr

namespace Level

/-- The levels in ascending order. -/
def rank : Level → Nat
  | debug => 10
  | info => 20
  | warning => 30
  | error => 40
  | critical => 50

/-- The name in the heading of a message. -/
def name : Level → String
  | debug => "DEBUG"
  | info => "INFO"
  | warning => "WARNING"
  | error => "ERROR"
  | critical => "CRITICAL"

/-- The level of a given name. -/
def ofName? (name : String) : Option Level :=
  [debug, info, warning, error, critical].find? fun l => l.name = name

instance : LE Level := ⟨fun a b => a.rank ≤ b.rank⟩

instance (a b : Level) : Decidable (a ≤ b) := inferInstanceAs (Decidable (a.rank ≤ b.rank))

end Level

/-- A message that was written. -/
structure Message where
  /-- Its gravity. -/
  level : Level
  /-- Its text. -/
  text : String
  /-- It was written under a heading. -/
  headed : Bool
  deriving DecidableEq, Repr

/-- The line of the message. -/
def Message.line (m : Message) : String :=
  if m.headed then s!"{m.level.name} chip8vm: {m.text}\n" else s!"{m.text}\n"

/-- The journal with everything written so far. -/
structure Journal where
  /-- Instruction notes are written. -/
  details : Bool := false
  /-- The least level written. -/
  threshold : Level := .warning
  /-- The journal was opened, so messages have headings. -/
  isOpen : Bool := false
  /-- The messages written, oldest first. -/
  messages : Array Message := #[]
  deriving DecidableEq, Repr

namespace Journal

/-- Writes a message, if its level allows it. -/
def write (j : Journal) (level : Level) (text : String) : Journal :=
  if j.threshold ≤ level ∧ (j.isOpen ∨ Level.warning ≤ level) then
    { j with messages := j.messages.push ⟨level, text, j.isOpen⟩ }
  else j

/-- Writes an instruction note, if details are on. -/
def note (j : Journal) (text : String) : Journal :=
  if j.details then j.write .debug text else j

/-- Switches the details on or off. -/
def switch (j : Journal) (on : Bool) : Journal :=
  { j with details := on, threshold := if on then .debug else .info }

/-- The word for a truth value in a message. -/
def truthWord (b : Bool) : String := if b then "True" else "False"

/-- Switches the details to the other state and says so. -/
def toggle (j : Journal) : Journal :=
  (j.switch !j.details).write .info s!"logsOn: {truthWord !j.details}"

/-- Opens the journal at a threshold; an open journal stays as it is. -/
def opened (j : Journal) (threshold : Level) : Journal :=
  if j.isOpen then j else { j with isOpen := true, threshold }

/-- An open journal with details on or off. -/
def started (details : Bool) : Journal := (opened {} .info).switch details

/-- The lines written, as one text. -/
def text (j : Journal) : String := String.join (j.messages.toList.map Message.line)

end Journal

end Chip8
