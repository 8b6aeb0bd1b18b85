import Apex.Layout.Literal
import Apex.Proofs.Decimals.Shortest
import Apex.Token.Numeral

/-!
# Decimals as literals

A value that is written as a literal stands as digits around a point, and these digits denote the
value again.
-/

namespace Apex

/-! ## Digits -/

theorem decimalValue_eq (digits : List Char) :
    decimalValue digits = Nat.ofDigitChars 10 digits 0 := by
  have step : (fun (n : Nat) (c : Char) => n * 10 + (c.toNat - '0'.toNat)) =
      fun n c => 10 * n + (c.toNat - '0'.toNat) := by
    funext n c
    rw [Nat.mul_comm]
  unfold decimalValue Nat.ofDigitChars
  rw [step]

theorem decimalValue_toDigits (n : Nat) : decimalValue (Nat.toDigits 10 n) = n := by
  rw [decimalValue_eq]
  exact Nat.ofDigitChars_toDigits (by decide) (by decide)

theorem all_isDigit_toDigits (n : Nat) : (Nat.toDigits 10 n).all Char.isDigit = true :=
  List.all_eq_true.mpr fun _ h => Nat.isDigit_of_mem_toDigits (by decide) (by decide) h

theorem all_isDigit_zeros (n : Nat) : (List.replicate n '0').all Char.isDigit = true := by
  rw [List.all_replicate]
  split <;> rfl

/-- Zeros in front do not count. -/
theorem decimalValue_zeros_append (n : Nat) (digits : List Char) :
    decimalValue (List.replicate n '0' ++ digits) = decimalValue digits := by
  simp only [decimalValue_eq, Nat.ofDigitChars_append, Nat.ofDigitChars_replicate_zero,
    Nat.mul_zero]

/-- Zeros behind multiply by ten each. -/
theorem decimalValue_append_zeros (digits : List Char) (n : Nat) :
    decimalValue (digits ++ List.replicate n '0') = decimalValue digits * 10 ^ n := by
  simp only [decimalValue_eq, Nat.ofDigitChars_append, Nat.ofDigitChars_replicate_zero]
  exact Nat.mul_comm _ _

namespace Binary64

/-! ## What digits denote -/

/-- The digits before and after a point denote the value. -/
structure Denoted (v : Binary64) (whole fraction : List Char) : Prop where
  /-- There are digits before the point. -/
  whole_ne_nil : whole ≠ []
  /-- There are digits after the point. -/
  fraction_ne_nil : fraction ≠ []
  /-- They are digits indeed. -/
  digits : whole.all Char.isDigit = true ∧ fraction.all Char.isDigit = true
  /-- They are read as the value. -/
  value : ofDecimal false (decimalValue (whole ++ fraction)) (-(fraction.length : Int)) = v

theorem eq_ofPattern {v : Binary64} (positive : v.isNegative = false) :
    v = ofPattern false v.magnitude := by
  have power : Nat.pow 2 63 = 9223372036854775808 := by decide
  have small : v.bits.toNat < Nat.pow 2 63 := by
    simpa only [isNegative, decide_eq_false_iff_not, Nat.not_le] using positive
  have same : v.magnitude = v.bits.toNat := Nat.mod_eq_of_lt small
  unfold ofPattern
  rw [same, if_neg (by decide), UInt64.ofNat_toNat]

variable {v : Binary64} {n : Nat}

/-- A decimal with digits after the point is the value around which it lies. -/
theorem ofDecimal_eq_of_surrounds (positive : v.isNegative = false)
    (finite : v.magnitude ≤ infinityPattern) {digits : Nat}
    (h : v.Surrounds digits (Nat.pow 10 (n + 1))) :
    ofDecimal false digits (-((n + 1 : Nat) : Int)) = v := by
  show ofPattern false (nearestPattern digits (Nat.pow 10 (n + 1))) = v
  rw [h.nearestPattern_eq finite (Nat.pow_pos (by decide))]
  exact (eq_ofPattern positive).symm

/-- The point stands in front of the last digits of a number, with zeros before it if need be. -/
theorem denoted_split (positive : v.isNegative = false) (finite : v.magnitude ≤ infinityPattern)
    {digits : Nat} (h : v.SurroundsAt digits (.negSucc n)) {padded : List Char}
    (all : padded.all Char.isDigit = true) (value : decimalValue padded = digits)
    (long : n + 2 ≤ padded.length) :
    v.Denoted (padded.take (padded.length - (n + 1))) (padded.drop (padded.length - (n + 1))) where
  whole_ne_nil := by
    rw [ne_eq, List.take_eq_nil_iff]
    rintro (none | rfl)
    · omega
    · simp at long
  fraction_ne_nil := by
    rw [ne_eq, List.drop_eq_nil_iff]
    omega
  digits := by
    rw [← Bool.and_eq_true, ← List.all_append, List.take_append_drop]
    exact all
  value := by
    have length : (padded.drop (padded.length - (n + 1))).length = n + 1 := by
      rw [List.length_drop]
      omega
    rw [List.take_append_drop, length, value]
    unfold SurroundsAt at h
    rw [show (powerPair (.negSucc n)).2 = 1 from rfl, Nat.mul_one] at h
    exact ofDecimal_eq_of_surrounds positive finite h

/-- A whole number gets a zero after the point. -/
theorem denoted_whole (positive : v.isNegative = false) (finite : v.magnitude ≤ infinityPattern)
    {digits : Nat} (h : v.SurroundsAt digits (.ofNat n)) :
    v.Denoted (Nat.toDigits 10 digits ++ List.replicate n '0') ['0'] where
  whole_ne_nil := by simp [Nat.toDigits_ne_nil]
  fraction_ne_nil := List.cons_ne_nil _ _
  digits := by
    rw [List.all_append, all_isDigit_toDigits, all_isDigit_zeros]
    exact ⟨rfl, rfl⟩
  value := by
    have value : decimalValue (Nat.toDigits 10 digits ++ List.replicate n '0' ++ ['0']) =
        digits * Nat.pow 10 n * 10 := by
      rw [show (['0'] : List Char) = List.replicate 1 '0' from rfl, decimalValue_append_zeros,
        decimalValue_append_zeros, decimalValue_toDigits]
      rfl
    rw [value]
    exact ofDecimal_eq_of_surrounds positive finite (h.mul (k := 10) (by decide))

/-! ## Literals -/

theorem contains_point {cs : List Char} (digits : cs.all Char.isDigit = true) :
    cs.contains '.' = false := by
  rw [List.contains_eq_mem, decide_eq_false_iff_not]
  intro member
  exact absurd (List.all_eq_true.mp digits _ member) (by decide)

/-- A text is a literal for the value: digits around a point. -/
def IsLiteral (v : Binary64) (text : String) : Prop :=
  ∃ whole fraction, text.toList = whole ++ '.' :: fraction ∧ v.Denoted whole fraction

/-- The text without a point gets one with a zero behind it. -/
theorem isLiteral_whole {text : String} {whole : List Char} (spelled : text.toList = whole)
    (h : v.Denoted whole ['0']) :
    v.IsLiteral (if text.toList.contains '.' then text else text ++ ".0") := by
  rw [spelled, contains_point h.digits.1, if_neg (by decide)]
  exact ⟨whole, ['0'], by rw [String.toList_append, spelled]; rfl, h⟩

theorem isLiteral_shortest (positive : v.isNegative = false) (finite : v.magnitude ≤ infinityPattern)
    (some : v.magnitude ≠ 0) :
    v.IsLiteral (if v.shortest.text.toList.contains '.' then v.shortest.text
      else v.shortest.text ++ ".0") := by
  have around := surroundsAt_shortest some
  generalize v.shortest = d at *
  obtain ⟨digits, exponent⟩ := d
  cases exponent with
  | ofNat zeros => exact isLiteral_whole String.toList_ofList (denoted_whole positive finite around)
  | negSucc n =>
    let padded := List.replicate (n + 2 - (Nat.toDigits 10 digits).length) '0' ++
      Nat.toDigits 10 digits
    have spelled : (Decimal.text ⟨digits, .negSucc n⟩).toList =
        padded.take (padded.length - (n + 1)) ++ '.' :: padded.drop (padded.length - (n + 1)) :=
      String.toList_ofList
    have point : (Decimal.text ⟨digits, .negSucc n⟩).toList.contains '.' = true := by
      simp [spelled]
    rw [point, if_pos rfl]
    refine ⟨_, _, spelled, denoted_split positive finite around ?_ ?_ ?_⟩
    · rw [List.all_append, all_isDigit_zeros, all_isDigit_toDigits]
      rfl
    · rw [decimalValue_zeros_append, decimalValue_toDigits]
    · simp only [padded, List.length_append, List.length_replicate]
      omega

/-- The number that is written for an infinity is too large for any other value. -/
theorem isLiteral_infinity (positive : v.isNegative = false)
    (infinite : v.magnitude = infinityPattern) :
    v.IsLiteral ("1" ++ String.ofList (List.replicate 309 '0') ++ ".0") := by
  refine ⟨'1' :: List.replicate 309 '0', ['0'], ?_, List.cons_ne_nil _ _, List.cons_ne_nil _ _,
    ⟨?_, rfl⟩, ?_⟩
  · simp only [String.toList_append, String.toList_ofList]
    rfl
  · rw [List.all_cons, all_isDigit_zeros]
    rfl
  · have value (n : Nat) :
        ofDecimal false (decimalValue ('1' :: List.replicate n '0' ++ ['0'])) (-(1 : Nat) : Int) =
          ofPattern false (nearestPattern (Nat.pow 10 (n + 1)) (Nat.pow 10 1)) := by
      rw [List.cons_append, ← List.replicate_succ', ← List.singleton_append,
        decimalValue_append_zeros, show decimalValue ['1'] = 1 from rfl, Nat.one_mul]
      rfl
    have large : nearestPattern (Nat.pow 10 (309 + 1)) (Nat.pow 10 1) = infinityPattern := by
      decide +kernel
    rw [show (['0'] : List Char).length = 1 from rfl, value, large, ← infinite]
    exact (eq_ofPattern positive).symm

theorem denoted_zero (positive : v.isNegative = false) (zero : v.magnitude = 0) :
    v.Denoted ['0'] ['0'] := by
  refine ⟨List.cons_ne_nil _ _, List.cons_ne_nil _ _, ⟨rfl, rfl⟩, ?_⟩
  show ofPattern false (nearestPattern 0 (Nat.pow 10 1)) = v
  have pattern : nearestPattern 0 (Nat.pow 10 1) = 0 := by decide +kernel
  rw [pattern, ← zero]
  exact (eq_ofPattern positive).symm

/-- A number that is not negative is written as digits around a point that denote it. -/
theorem isLiteral_literalText (positive : v.isNegative = false) (number : v.isNaN = false) :
    v.IsLiteral v.literalText := by
  have finite : v.magnitude ≤ infinityPattern := by simpa [isNaN] using number
  unfold literalText
  cases infinite : v.isInfinite with
  | true =>
    rw [if_pos rfl, positive]
    exact isLiteral_infinity positive (by simpa [isInfinite] using infinite)
  | false =>
    have body : v.text = if v.magnitude = 0 then "0" else v.shortest.text := by
      simp only [text, number, infinite, positive, Bool.false_eq_true, if_false]
    rw [if_neg (by decide), body]
    dsimp only
    split
    · next zero => exact isLiteral_whole rfl (denoted_zero positive zero)
    · next some => exact isLiteral_shortest positive finite some

/-! ## Signs -/

theorem magnitude_neg (negative : v.isNegative = true) : v.neg.magnitude = v.magnitude := by
  have power : Nat.pow 2 63 = 9223372036854775808 := by decide
  have small : v.magnitude < Nat.pow 2 63 := Nat.mod_lt _ (Nat.two_pow_pos 63)
  have bits : (UInt64.ofNat v.magnitude).toNat = v.magnitude := by
    rw [UInt64.toNat_ofNat']
    exact Nat.mod_eq_of_lt (by omega)
  unfold neg
  rw [negative]
  show (UInt64.ofNat v.magnitude).toNat % Nat.pow 2 63 = v.magnitude
  rw [bits]
  exact Nat.mod_eq_of_lt small

/-- The decimal of a value is that of its magnitude. -/
theorem shortest_congr {w : Binary64} (same : v.magnitude = w.magnitude) :
    v.shortest = w.shortest := by
  have significand : v.significand = w.significand := by
    unfold Binary64.significand
    rw [same]
  have scale : v.scale = w.scale := by
    unfold Binary64.scale
    rw [same]
  have grid : v.onGrid = w.onGrid := by
    funext exponent
    unfold onGrid
    rw [significand, scale]
  have search (steps : Nat) (exponent : Int) :
      v.searchGrids steps exponent = w.searchGrids steps exponent := by
    induction steps generalizing exponent with
    | zero => rw [searchGrids, searchGrids, grid]
    | succ steps ih => rw [searchGrids, searchGrids, grid, ih]
  unfold shortest decimalMagnitude
  rw [search, significand, scale]

/-- A negative value is written as its opposite behind a sign. -/
theorem literalText_negative (negative : v.isNegative = true) (positive : v.neg.isNegative = false)
    (number : v.neg.isNaN = false) : v.literalText = "-" ++ v.neg.literalText := by
  have same := magnitude_neg negative
  have infinite : v.isInfinite = v.neg.isInfinite := by
    unfold isInfinite
    rw [same]
  have nan : v.isNaN = false := by
    rw [← number]
    unfold isNaN
    rw [same]
  have body : v.text = "-" ++ v.neg.text := by
    simp only [text, nan, number, negative, positive, infinite, same, shortest_congr same,
      Bool.false_eq_true, if_false, if_true]
  unfold literalText
  rw [infinite, negative, positive, body]
  cases v.neg.isInfinite with
  | true =>
    simp only [if_true, Bool.false_eq_true, if_false, String.append_assoc]
    rfl
  | false =>
    have point : ("-" ++ v.neg.text).toList.contains '.' = v.neg.text.toList.contains '.' := by
      rw [String.toList_append]
      simp
    simp only [Bool.false_eq_true, if_false, point]
    split
    · rfl
    · rw [String.append_assoc]

end Binary64

end Apex
