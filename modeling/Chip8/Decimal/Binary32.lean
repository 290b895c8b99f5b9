import Chip8.Decimal.Binary64

/-!
# Single precision

A finite single is `± significand * 2 ^ exponent` as a finite double is, with a shorter significand
and a smaller range.  `Binary32.nearest` finds the single closest to a double, a tie going to the
even significand, and `Binary32.parts?` takes a single apart.
-/

namespace Chip8

namespace Binary32

/-- The exponent of the subnormal numbers. -/
def minExponent : Int := -149

/-- The weight of the bit above the stored fraction, `2 ^ 23`. -/
def hidden : Nat := 0x800000

/-- The bits of infinity; the finite singles of the same sign have smaller bits. -/
def infinityBits : Nat := 0xff * hidden

/-- The bits of the number that is none. -/
def nanBits : UInt32 := 0x7fc00000

/-- Takes a finite single apart; an infinity or a NaN has no parts. -/
def parts? (x : Float32) : Option Binary64.Parts :=
  let bits := x.toBits.toNat
  let negative := bits.testBit 31
  let biased := bits / hidden % 0x100
  let fraction := bits % hidden
  if biased = 0xff then none
  else if biased = 0 then some ⟨negative, fraction, minExponent⟩
  else some ⟨negative, fraction + hidden, minExponent + (biased - 1)⟩

/-- The single with the given sign and the given bits below the sign bit, which has the weight
`2 ^ 31`. -/
def ofMagnitude (negative : Bool) (bits : Nat) : Float32 :=
  Float32.ofBits (UInt32.ofNat (bits + if negative then 0x80000000 else 0))

/-- The bits of the single nearest to a finite double without its sign: the significand is taken to
24 bits, or to fewer among the subnormal numbers.  A carry out of the significand moves into the
exponent by itself. -/
def nearestBits (p : Binary64.Parts) : Nat :=
  let e := max minExponent (p.exponent + p.significand.log2 - 23)
  let (n, d) := Binary64.scaled p.significand 1 (e - p.exponent)
  min infinityBits ((e - minExponent).toNat * hidden + divRoundEven n d)

/-- The single nearest to a double. -/
def nearest (x : Float) : Float32 :=
  match Binary64.parts? x with
  | some p => ofMagnitude p.negative (nearestBits p)
  | none => if x.isNaN then Float32.ofBits nanBits else ofMagnitude (x < 0) infinityBits

/-- The whole number next to a finite single towards zero. -/
def truncate? (x : Float32) : Option Int := (parts? x).map Binary64.Parts.truncate

end Binary32

end Chip8
