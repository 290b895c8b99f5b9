import Chip8.Decimal.Binary64

/-!
# Shortest decimal text of a double

The text of a double has the fewest significant digits that read back as the same double, and of
the numerals with so few digits it is the nearest one.  `Shortest.ofParts` finds the digits in
exact arithmetic: the reals that round to a double form an interval, and on each decimal grid only
the two neighbours of the double itself have to be tried.  `Float.text` lays the digits out:
positionally between `0.0001` and `10 ^ 16`, with an exponent outside.
-/

namespace Chip8

/-- A positive decimal numeral: `digits * 10 ^ exponent`. -/
structure Shortest where
  /-- The digits, read as a natural number. -/
  digits : Nat
  /-- The weight of the last digit. -/
  exponent : Int
  deriving DecidableEq, Repr

namespace Shortest

/-- The ratio `num / den` in units of `10 ^ k`, as a ratio. -/
def scaled (num den : Nat) (k : Int) : Nat × Nat :=
  if 0 ≤ k then (num, den * Nat.pow 10 k.toNat) else (num * Nat.pow 10 (-k).toNat, den)

/-- The position `k` of the leading digit of a positive ratio, which lies between `10 ^ (k - 1)` and
`10 ^ k`. -/
def leading (num den : Nat) : Int :=
  if den ≤ num then Binary64.digitCount (num / den)
  else 1 - Binary64.digitCount ((den - 1) / num)

/-- Four times the value and the ends of the interval that rounds to it, all in units of a quarter
of the last bit.  Just above a power of two the gap below is half as wide as the gap above. -/
def interval (p : Binary64.Parts) : Nat × Nat × Nat :=
  let v := 4 * p.significand
  let narrow := p.significand = Binary64.hidden ∧ Binary64.minExponent < p.exponent
  (if narrow then v - 1 else v - 2, v, v + 2)

/-- The neighbours of the value on the grid of `n` significant digits that lie in its interval. -/
def candidates (p : Binary64.Parts) (n : Nat) : List Shortest :=
  let (low, value, high) := interval p
  let (num, den) := Binary64.scaled value 4 (-p.exponent)
  let k := leading num den - n
  let (num, den) := scaled num den k
  let inside (c : Nat) : Bool :=
    -- `c` against an end of the interval, which stands to `value` as `low` or `high` does
    let below := low * num
    let above := high * num
    let at' := c * den * value
    if p.significand % 2 = 0 then below ≤ at' ∧ at' ≤ above else below < at' ∧ at' < above
  let q := num / den
  let rest := 2 * (num % den)
  let nearer := if rest < den ∨ (rest = den ∧ q % 2 = 0) then [q, q + 1] else [q + 1, q]
  (nearer.filter inside).map (⟨·, k⟩)

/-- The shortest numeral of a nonzero double, the nearest of its length. -/
def ofParts (p : Binary64.Parts) : Shortest :=
  (((List.range 17).map (· + 1)).findSome? fun n => (candidates p n).head?).getD ⟨p.significand, 0⟩

/-- The significant digits as text, without trailing noughts, and the position of the point
before the first of them. -/
def significant (s : Shortest) : List Char × Int :=
  let text := Nat.toDigits 10 s.digits
  ((text.reverse.dropWhile (· = '0')).reverse, s.exponent + text.length)

/-- Positional notation; a whole number keeps one nought behind the point. -/
def positional (digits : List Char) (point : Int) : List Char :=
  if point ≤ 0 then '0' :: '.' :: (List.replicate (-point).toNat '0' ++ digits)
  else
    let whole := digits.take point.toNat
    let fraction := digits.drop point.toNat
    whole ++ List.replicate (point.toNat - whole.length) '0' ++
      '.' :: (if fraction.isEmpty then ['0'] else fraction)

/-- Notation with an exponent of at least two digits. -/
def scientific (digits : List Char) (point : Int) : List Char :=
  let e := point - 1
  let exponent := Nat.toDigits 10 e.natAbs
  digits.take 1 ++ (if digits.length ≤ 1 then [] else '.' :: digits.drop 1) ++
    'e' :: (if e < 0 then '-' else '+') ::
      (List.replicate (2 - exponent.length) '0' ++ exponent)

/-- The numeral in the notation that suits its size. -/
def text (s : Shortest) : List Char :=
  let (digits, point) := s.significant
  if -4 < point ∧ point ≤ 16 then positional digits point else scientific digits point

end Shortest

/-- The shortest text that reads back as the double. -/
def floatText (x : Float) : String :=
  match Binary64.parts? x with
  | none => if x.isNaN then "nan" else if x < 0 then "-inf" else "inf"
  | some p =>
    let body := if p.significand = 0 then ['0', '.', '0'] else (Shortest.ofParts p).text
    String.ofList (if p.negative then '-' :: body else body)

end Chip8
