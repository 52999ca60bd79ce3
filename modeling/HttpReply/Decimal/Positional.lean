import HttpReply.Decimal.Shortest

/-!
The text of a floating-point number: its shortest decimal, written out in full. No exponent is
used at any magnitude, and a whole number has no point.
-/

namespace HttpReply.Decimal

/-- Digits with the point in place. Zeros fill the places between the digits and the point. -/
def Digits.positional (d : Digits) : List Char :=
  let written := Nat.toDigits 10 d.coefficient
  let places := (-d.exponent).toNat
  if places = 0 then written ++ List.replicate d.exponent.toNat '0'
  else
    let filled := List.replicate (places + 1 - written.length) '0' ++ written
    filled.take (filled.length - places) ++ '.' :: filled.drop (filled.length - places)

/-- The magnitude of infinity. A larger one is not a number. -/
def infinity : Nat := 0x7ff * impliedBit

/-- The bit that holds the sign of a double. -/
def signBit : Nat := Nat.pow 2 63

/-- The text of a double from its bit pattern. The sign of zero is kept, an infinity has a sign,
and every bit pattern that is not a number reads the same. -/
def textOfBits (bits : UInt64) : String :=
  let magnitude := bits.toNat % signBit
  let sign := if bits.toNat < signBit then [] else ['-']
  if infinity < magnitude then "NaN"
  else if magnitude = infinity then String.ofList (sign ++ ['i', 'n', 'f'])
  else if magnitude = 0 then String.ofList (sign ++ ['0'])
  else String.ofList (sign ++ (Binary.ofMagnitude magnitude).shortest.positional)

/-- The text of a double. -/
def text (x : Float) : String :=
  textOfBits x.toBits

end HttpReply.Decimal
