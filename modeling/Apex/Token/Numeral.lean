import Apex.Token.Basic
import Apex.Token.Fault

/-!
# Numerals

A numeral is a row of digits, perhaps a point with more digits, and perhaps a letter: `L` makes a
whole number a long, `d` makes any number a floating point value. Whole numbers have to fit into
64 bits with a sign.
-/

namespace Apex

/-- What the letter after a numeral says. -/
inductive NumeralMark where
  | none | long | floating
deriving DecidableEq, Repr

/-- A numeral in its parts. -/
structure Numeral where
  /-- The digits before the point. -/
  whole : List Char
  /-- The digits after the point; without any there is no point either. -/
  fraction : List Char
  /-- The letter after the digits. -/
  mark : NumeralMark
deriving DecidableEq, Repr

namespace Numeral

/-- The digits after a point. A point without a digit behind it belongs to what follows. -/
def fractionAhead : List Char → List Char
  | '.' :: cs => cs.takeWhile Char.isDigit
  | _ => []

/-- The letter that belongs to a numeral. A number with a point cannot be a long. -/
def markAhead (hasFraction : Bool) : List Char → NumeralMark
  | c :: _ =>
    if (c = 'l' ∨ c = 'L') ∧ !hasFraction then .long
    else if c = 'd' ∨ c = 'D' then .floating
    else .none
  | [] => .none

/-- The numeral at the start of a text. -/
def read (text : List Char) : Numeral :=
  let whole := text.takeWhile Char.isDigit
  let afterWhole := text.dropWhile Char.isDigit
  let fraction := fractionAhead afterWhole
  let rest := if fraction.isEmpty then afterWhole else afterWhole.drop (fraction.length + 1)
  ⟨whole, fraction, markAhead (!fraction.isEmpty) rest⟩

/-- Number of characters of the numeral. -/
def length (n : Numeral) : Nat :=
  n.whole.length + (if n.fraction.isEmpty then 0 else n.fraction.length + 1) +
    (if n.mark = .none then 0 else 1)

/-- The number without its letter, as a 64-bit integer, if it fits. -/
def wholeValue? (n : Numeral) : Option Int64 :=
  let value := decimalValue n.whole
  if value < Nat.pow 2 63 then some (Int64.ofNat value) else none

/-- The token of a numeral. -/
def kind (n : Numeral) : Except LexFault TokenKind :=
  if n.mark = .floating ∨ !n.fraction.isEmpty then
    .ok (.decimal
      (.ofDecimal false (decimalValue (n.whole ++ n.fraction)) (-(n.fraction.length : Int))))
  else
    match n.wholeValue?, n.mark with
    | some value, .long => .ok (.long value)
    | some value, _ => .ok (.integer value)
    | none, .long => .error (.longRange (String.ofList n.whole))
    | none, _ => .error (.integerRange (String.ofList n.whole))

end Numeral

end Apex
