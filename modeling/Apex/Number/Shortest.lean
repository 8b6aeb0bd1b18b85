import Apex.Number.Binary64

/-!
# Decimal text of floating point values

A finite value is written with the fewest decimal digits that read back to it; among texts of that
length the one nearest to the value is taken, and of two equally near ones the larger. The digits
stand in plain positional notation, however many zeros that takes: there is never an exponent.
-/

namespace Apex

/-- A decimal number `digits * 10 ^ exponent`. -/
structure Decimal where
  /-- The digits, read as one number. -/
  digits : Nat
  /-- The place of the last digit. -/
  exponent : Int
deriving DecidableEq, Repr

namespace Decimal

/-- The digits with the point put in its place. -/
def text (d : Decimal) : String :=
  let digits := Nat.toDigits 10 d.digits
  match d.exponent with
  | .ofNat zeros => String.ofList (digits ++ List.replicate zeros '0')
  | .negSucc n =>
    let padded := List.replicate (n + 2 - digits.length) '0' ++ digits
    let whole := padded.length - (n + 1)
    String.ofList (padded.take whole ++ '.' :: padded.drop whole)

end Decimal

namespace Binary64

/-- What `10 ^ exponent` contributes to the numerator and the denominator of a comparison. -/
def powerPair (exponent : Int) : Nat × Nat :=
  match exponent with
  | .ofNat up => (1, Nat.pow 10 up)
  | .negSucc down => (Nat.pow 10 (down + 1), 1)

/-- The multiple of `10 ^ exponent` that reads back to the value, if one of the two multiples next
to the value does. All comparisons are made in quarters of the value's last binary place: reals
less than two quarters above it read back to it, and as many below, or one quarter below when the
significand is the smallest of its length. The two ends read back when the significand is even. -/
def onGrid (v : Binary64) (exponent : Int) : Option Nat :=
  let m := v.significand
  let (up, down) := powerPair exponent
  let unit := Nat.pow 2 v.scale * up
  let den := unitsPerOne * down
  let below := m * unit / den
  let rest := m * unit % den
  let lower := (4 * m - if m = Nat.pow 2 52 then 1 else 2) * unit
  let upper := (4 * m + 2) * unit
  let closed := m % 2 == 0
  let belowReads := let x := 4 * below * den; lower < x || (closed && lower == x)
  let aboveReads := let x := 4 * (below + 1) * den; x < upper || (closed && x == upper)
  if belowReads && aboveReads then
    some (if 2 * rest < den then below else below + 1)
  else if belowReads then some below
  else if aboveReads then some (below + 1)
  else none

/-- The first decimal found on ever finer grids, starting at `10 ^ exponent`. -/
def searchGrids (v : Binary64) : Nat → Int → Decimal
  | 0, exponent => ⟨(v.onGrid exponent).getD 0, exponent⟩
  | steps + 1, exponent =>
    match v.onGrid exponent with
    | some digits => ⟨digits, exponent⟩
    | none => searchGrids v steps (exponent - 1)

/-- An exponent `k` with `v < 10 ^ k`, the smallest one. The value is scaled by `10 ^ 400`, which
lifts every positive value above one. -/
def decimalMagnitude (v : Binary64) : Int :=
  let lifted := v.significand * Nat.pow 2 v.scale * Nat.pow 10 400 / unitsPerOne
  ((Nat.toDigits 10 lifted).length : Int) - 400

/-- The shortest decimal that reads back to a finite positive value. Seventeen digits suffice. -/
def shortest (v : Binary64) : Decimal := v.searchGrids 17 v.decimalMagnitude

/-- The value in decimal. -/
def text (v : Binary64) : String :=
  if v.isNaN then "NaN"
  else
    let body :=
      if v.isInfinite then "inf"
      else if v.magnitude = 0 then "0"
      else v.shortest.text
    if v.isNegative then "-" ++ body else body

end Binary64

end Apex
