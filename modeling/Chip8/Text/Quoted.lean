import Chip8.Text.Hex
import Chip8.Text.Printable

/-!
# Quoted text

How a message quotes a piece of the user's input.  The text stands between single quotes, unless
it holds a single quote and no double quote, in which case it stands between double quotes.  The
quote in use and the backslash are escaped, the line feed, carriage return and tabulator have
short escapes, and every other unprintable character is written by its code point.
-/

namespace Chip8

namespace Quoted

/-- The quotation mark that surrounds the text. -/
def mark (text : List Char) : Char :=
  if '\'' ∈ text ∧ '"' ∉ text then '"' else '\''

/-- The escape of a code point: two, four or eight digits, whichever suffices first. -/
def codePoint (n : Nat) : List Char :=
  let digits := Hex.digits n
  if n < 0x100 then '\\' :: 'x' :: Hex.padded 2 digits
  else if n < 0x10000 then '\\' :: 'u' :: Hex.padded 4 digits
  else '\\' :: 'U' :: Hex.padded 8 digits

/-- One character between quotation marks `q`. -/
def escape (q c : Char) : List Char :=
  if c = q ∨ c = '\\' then ['\\', c]
  else if c = '\n' then ['\\', 'n']
  else if c = '\r' then ['\\', 'r']
  else if c = '\t' then ['\\', 't']
  else if isPrintable c then [c]
  else codePoint c.toNat

end Quoted

/-- The text between quotation marks, with escapes. -/
def quoted (text : String) : String :=
  let q := Quoted.mark text.toList
  String.ofList (q :: text.toList.flatMap (Quoted.escape q) ++ [q])

end Chip8
