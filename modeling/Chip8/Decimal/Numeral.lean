import Chip8.Decimal.Binary64
import Chip8.Text.Digit

/-!
# Reading a number

The grammar of a number typed by the user: blanks around it are dropped, decimal digits of any
script count, single underscores may stand between digits, and the rest is a sign, digits with an
optional point, and an optional exponent; or the name of infinity or of the undefined number in
any case.  The value is rounded once, to the nearest double.
-/

namespace Chip8

/-- A number as it was written. -/
inductive Numeral where
  /-- The value `± digits * 10 ^ exponent`. -/
  | finite (negative : Bool) (digits : Nat) (exponent : Int)
  /-- An infinity. -/
  | infinite (negative : Bool)
  /-- The undefined number. -/
  | undefined
  deriving DecidableEq, Repr

namespace Numeral

/-- The text without the blanks at both ends. -/
def trimmed (text : List Char) : List Char :=
  ((text.dropWhile isBlank).reverse.dropWhile isBlank).reverse

/-- The ASCII character that a character of a number stands for, if there is one. -/
def plain? (c : Char) : Option Char :=
  if c.toNat < 127 then some c else (Digit.value? c).map Nat.digitChar

/-- Drops the underscores, each of which has to stand between two digits. -/
def joined? : List Char → Option (List Char)
  | [] => some []
  | '_' :: _ => none
  | c :: '_' :: d :: rest =>
    if c.isDigit ∧ d.isDigit then (joined? (d :: rest)).map (c :: ·) else none
  | c :: rest => (joined? rest).map (c :: ·)

/-- Splits off a leading sign; the flag says that it is a minus. -/
def signed : List Char → Bool × List Char
  | '-' :: rest => (true, rest)
  | '+' :: rest => (false, rest)
  | rest => (false, rest)

/-- The value of a row of digits. -/
def valueOf (digits : List Char) : Nat :=
  digits.foldl (fun n c => 10 * n + (c.toNat - '0'.toNat)) 0

/-- The exponent that ends a number: nothing, or a letter, a sign and at least one digit. -/
def exponent? : List Char → Option Int
  | [] => some 0
  | c :: rest =>
    let (negative, digits) := signed rest
    if c.toLower = 'e' ∧ digits ≠ [] ∧ digits.all Char.isDigit then
      some (if negative then -valueOf digits else valueOf digits)
    else none

/-- A number without its sign: digits, an optional point and more digits, an optional exponent. -/
def unsigned? (negative : Bool) (text : List Char) : Option Numeral :=
  let (whole, rest) := text.span Char.isDigit
  let (fraction, rest) := match rest with
    | '.' :: rest => rest.span Char.isDigit
    | rest => ([], rest)
  if whole = [] ∧ fraction = [] then none
  else (exponent? rest).map fun e =>
    .finite negative (valueOf (whole ++ fraction)) (e - fraction.length)

/-- Reads a number written in ASCII without underscores. -/
def ofPlain? (text : List Char) : Option Numeral :=
  let (negative, body) := signed text
  let name := String.ofList (body.map Char.toLower)
  if name = "inf" ∨ name = "infinity" then some (.infinite negative)
  else if name = "nan" then some .undefined
  else unsigned? negative body

/-- Reads a number. -/
def ofString? (text : String) : Option Numeral :=
  ((trimmed text.toList).mapM plain?).bind fun plain => (joined? plain).bind ofPlain?

/-- The double nearest to the number. -/
def toFloat : Numeral → Float
  | finite negative digits exponent => Binary64.ofDecimal negative digits exponent
  | infinite negative => Binary64.ofMagnitude negative Binary64.infinityBits
  | undefined => Float.ofBits 0x7ff8000000000000

end Numeral

end Chip8
