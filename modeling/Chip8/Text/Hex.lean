/-!
# Hexadecimal text

Addresses and instruction words are shown in base sixteen.  Messages write the digits in upper
case and pad them with zeros to a least width (`Hex.upper`); journal lines write them in lower
case behind `0x` (`Hex.lower`).  A negative number is a minus sign before its absolute value, and
the sign counts towards the width.
-/

namespace Chip8

namespace Hex

/-- The digits of `n` in base sixteen, most significant first, in lower case. -/
def digits (n : Nat) : List Char := Nat.toDigits 16 n

/-- `text` behind as many copies of `'0'` as bring it to `width` characters. -/
def padded (width : Nat) (text : List Char) : List Char :=
  List.replicate (width - text.length) '0' ++ text

/-- `n` in upper case, at least `width` characters long. -/
def upper (width : Nat) (n : Int) : String :=
  let text := (digits n.natAbs).map Char.toUpper
  String.ofList (if n < 0 then '-' :: padded (width - 1) text else padded width text)

/-- `n` in lower case, marked as hexadecimal by `0x`. -/
def lower (n : Int) : String :=
  String.ofList ((if n < 0 then ['-'] else []) ++ '0' :: 'x' :: digits n.natAbs)

/-- The two digits of a byte, in lower case. -/
def ofByte (b : UInt8) : String := String.ofList (padded 2 (digits b.toNat))

end Hex

end Chip8
