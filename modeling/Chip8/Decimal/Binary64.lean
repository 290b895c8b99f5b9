/-!
# Double-precision numbers as exact values

A finite double is `± significand * 2 ^ exponent`; `Binary64.parts?` takes it apart and
`Binary64.nearest` finds the double closest to a ratio of natural numbers, a tie going to the even
significand.  Between the two all arithmetic is exact, so a decimal numeral, a whole number and
the rounding of a double to a whole number are each rounded once.
-/

namespace Chip8

/-- The quotient `num / den` rounded to the nearest natural number, a half going to the even
neighbour. -/
def divRoundEven (num den : Nat) : Nat :=
  let q := num / den
  let r := num % den
  if 2 * r < den then q else if den < 2 * r then q + 1 else q + q % 2

namespace Binary64

/-- A finite double, exactly: `± significand * 2 ^ exponent`. -/
structure Parts where
  /-- The sign bit is set. -/
  negative : Bool
  /-- The significand, hidden bit included. -/
  significand : Nat
  /-- The weight of the significand's last bit. -/
  exponent : Int
  deriving DecidableEq, Repr

/-- The exponent of the subnormal numbers. -/
def minExponent : Int := -1074

/-- The weight of the bit above the stored fraction, `2 ^ 52`. -/
def hidden : Nat := 0x10000000000000

/-- The bits of infinity; the finite doubles of the same sign have smaller bits. -/
def infinityBits : Nat := 0x7ff * hidden

/-- Takes a finite double apart; an infinity or a NaN has no parts. -/
def parts? (x : Float) : Option Parts :=
  let bits := x.toBits.toNat
  let negative := bits.testBit 63
  let biased := bits / hidden % 0x800
  let fraction := bits % hidden
  if biased = 0x7ff then none
  else if biased = 0 then some ⟨negative, fraction, minExponent⟩
  else some ⟨negative, fraction + hidden, minExponent + (biased - 1)⟩

/-- The double with the given sign and the given bits below the sign bit, which has the weight
`2 ^ 63`. -/
def ofMagnitude (negative : Bool) (bits : Nat) : Float :=
  Float.ofBits (UInt64.ofNat (bits + if negative then 0x8000000000000000 else 0))

/-- The ratio `num / den` in units of `2 ^ e`, as a ratio. -/
def scaled (num den : Nat) (e : Int) : Nat × Nat :=
  if 0 ≤ e then (num, den * Nat.pow 2 e.toNat) else (num * Nat.pow 2 (-e).toNat, den)

/-- The bits of the double nearest to `num / den`: the significand is taken to 53 bits, or to fewer
among the subnormal numbers.  A carry out of the significand moves into the exponent by itself. -/
def nearestBits (num den : Nat) : Nat :=
  let guess : Int := num.log2 - den.log2 - 52
  let (n, d) := scaled num den guess
  let e := max minExponent (if n / d < hidden then guess - 1 else guess)
  let (n, d) := scaled num den e
  min infinityBits ((e - minExponent).toNat * hidden + divRoundEven n d)

/-- The double nearest to `± num / den`. -/
def nearest (negative : Bool) (num den : Nat) : Float :=
  ofMagnitude negative (if num = 0 then 0 else nearestBits num den)

/-- The double nearest to the quotient of two whole numbers, the second of which is not nought. -/
def ratio (num den : Int) : Float :=
  nearest (decide (num < 0) != decide (den < 0)) num.natAbs den.natAbs

/-- The double nearest to a whole number. -/
def ofInt (n : Int) : Float := nearest (n < 0) n.natAbs 1

/-- The number of decimal digits of `n`; nought has none. -/
def digitCount (n : Nat) : Nat := if n = 0 then 0 else (Nat.toDigits 10 n).length

/-- The double nearest to `± digits * 10 ^ exponent`.  Exponents far outside the range of the
doubles are settled without computing the power. -/
def ofDecimal (negative : Bool) (digits : Nat) (exponent : Int) : Float :=
  let magnitude := exponent + digitCount digits
  if digits = 0 ∨ magnitude < -400 then ofMagnitude negative 0
  else if 400 < magnitude then ofMagnitude negative infinityBits
  else if 0 ≤ exponent then nearest negative (digits * Nat.pow 10 exponent.toNat) 1
  else nearest negative digits (Nat.pow 10 (-exponent).toNat)

/-- The whole number nearest to a finite double, a half going to the even neighbour. -/
def roundEven? (x : Float) : Option Int :=
  (parts? x).map fun p =>
    let (n, d) := scaled p.significand 1 (-p.exponent)
    let m := divRoundEven n d
    if p.negative then -m else m

/-- The next whole number towards zero. -/
def Parts.truncate (p : Parts) : Int :=
  let (n, d) := scaled p.significand 1 (-p.exponent)
  if p.negative then -(n / d : Nat) else (n / d : Nat)

/-- The whole number next to a finite double towards zero. -/
def truncate? (x : Float) : Option Int := (parts? x).map Parts.truncate

end Binary64

end Chip8
