import Apex.Number.Binary64
import Apex.Text.Word

/-!
# Reading floating point values

Decimal notation in full: a sign, digits with or without a point, and an exponent, or one of the
words for infinity and for no number.
-/

namespace Apex.Binary64

/-- The sign at the start of a text and what follows it. -/
def takeSign : List Char → Bool × List Char
  | '-' :: cs => (true, cs)
  | '+' :: cs => (false, cs)
  | cs => (false, cs)

/-- The exponent written by a text that is nothing else, empty meaning zero. -/
def exponentOf? : List Char → Option Int
  | [] => some 0
  | e :: cs =>
    let (negative, digits) := takeSign cs
    if (e = 'e' ∨ e = 'E') ∧ !digits.isEmpty ∧ digits.all Char.isDigit then
      let n : Int := decimalValue digits
      some (if negative then -n else n)
    else none

/-- The value nearest to `digits * 10 ^ exponent`, where `digits` has `count` places. Exponents
far out of range are decided without computing the power. -/
def ofBoundedDecimal (negative : Bool) (digits count : Nat) (exponent : Int) : Binary64 :=
  if digits = 0 ∨ exponent + count < -400 then ofPattern negative 0
  else if 400 < exponent then ofPattern negative infinityPattern
  else ofDecimal negative digits exponent

/-- The value written by a text. -/
def ofText? (text : String) : Option Binary64 :=
  let (negative, cs) := takeSign text.toList
  let word := lowerWord (String.ofList cs)
  if word = "inf" ∨ word = "infinity" then some (ofPattern negative infinityPattern)
  else if word = "nan" then some (ofPattern negative nan.magnitude)
  else
    let whole := cs.takeWhile Char.isDigit
    let (fraction, rest) :=
      match cs.dropWhile Char.isDigit with
      | '.' :: cs => (cs.takeWhile Char.isDigit, cs.dropWhile Char.isDigit)
      | cs => ([], cs)
    let digits := whole ++ fraction
    if digits.isEmpty then none
    else
      (exponentOf? rest).map fun exponent =>
        ofBoundedDecimal negative (decimalValue digits) digits.length
          (exponent - fraction.length)

end Apex.Binary64
