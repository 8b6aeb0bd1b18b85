/-!
# Binary floating point values

A decimal literal denotes a 64-bit binary floating point value. Such a value is kept as its bit
pattern and its finite magnitude is `significand * 2 ^ scale` in units of `2 ^ -1074`, the smallest
positive value, so that reading and writing decimals is exact arithmetic on natural numbers.
-/

namespace Apex

/-- A 64-bit binary floating point value, as its bit pattern: sign, eleven bits of exponent,
fifty-two bits of fraction. -/
structure Binary64 where
  /-- The bit pattern. -/
  bits : UInt64
deriving DecidableEq, Repr, Inhabited

namespace Binary64

/-- The bit pattern without its sign, as a number. Patterns of positive values count upwards in
the order of the values. -/
def magnitude (v : Binary64) : Nat := v.bits.toNat % Nat.pow 2 63

/-- Whether the sign bit is set. It may be set on zero and on a NaN as well. -/
def isNegative (v : Binary64) : Bool := Nat.pow 2 63 ≤ v.bits.toNat

/-- The magnitude pattern of infinity. Larger patterns stand for no number. -/
def infinityPattern : Nat := 2047 * Nat.pow 2 52

/-- Whether the value is one of the two infinities. -/
def isInfinite (v : Binary64) : Bool := v.magnitude == infinityPattern

/-- Whether the value is not a number. -/
def isNaN (v : Binary64) : Bool := infinityPattern < v.magnitude

/-- The number of smallest positive values that make one. -/
@[irreducible] def unitsPerOne : Nat := Nat.pow 2 1074

/-- The value with a sign and a magnitude pattern. -/
def ofPattern (negative : Bool) (pattern : Nat) : Binary64 :=
  ⟨UInt64.ofNat (if negative then Nat.pow 2 63 + pattern else pattern)⟩

/-- The value with the opposite sign. -/
def neg (v : Binary64) : Binary64 := ofPattern (!v.isNegative) v.magnitude

/-- The integer part of a finite magnitude: fifty-three bits, fewer for values below the normal
range. -/
def significand (v : Binary64) : Nat :=
  let fraction := v.magnitude % Nat.pow 2 52
  if v.magnitude / Nat.pow 2 52 = 0 then fraction else Nat.pow 2 52 + fraction

/-- The exponent of a finite magnitude, counted from the smallest one. -/
def scale (v : Binary64) : Nat := v.magnitude / Nat.pow 2 52 - 1

/-- `num / den` rounded to the nearest integer, a half to the even neighbour. -/
def roundToEven (num den : Nat) : Nat :=
  let quotient := num / den
  let twice := 2 * (num % den)
  if den < twice || (twice == den && quotient % 2 == 1) then quotient + 1 else quotient

/-- The magnitude pattern nearest to `num / den`. The scale is the one that leaves fifty-three
bits of significand, or zero for smaller values; a significand that is rounded up to fifty-four
bits carries into the exponent, and whatever lies past the largest finite value is infinite. -/
def nearestPattern (num den : Nat) : Nat :=
  let units := num * unitsPerOne
  let scale := Nat.log2 (units / den) - 52
  min (scale * Nat.pow 2 52 + roundToEven units (den * Nat.pow 2 scale)) infinityPattern

/-- The value nearest to `digits * 10 ^ exponent`. -/
def ofDecimal (negative : Bool) (digits : Nat) (exponent : Int) : Binary64 :=
  ofPattern negative <|
    match exponent with
    | .ofNat up => nearestPattern (digits * Nat.pow 10 up) 1
    | .negSucc down => nearestPattern digits (Nat.pow 10 (down + 1))

/-- Positive infinity. -/
def infinity : Binary64 := ofPattern false infinityPattern

/-- The value that is not a number. -/
def nan : Binary64 := ofPattern false (infinityPattern + Nat.pow 2 51)

end Binary64

/-- The number written by a row of decimal digits. -/
def decimalValue (digits : List Char) : Nat :=
  digits.foldl (fun n c => n * 10 + (c.toNat - '0'.toNat)) 0

end Apex
