import Apex.Number.Shortest
import Mathlib.Tactic.Linarith
import Mathlib.Tactic.NormNum

/-!
# Rounding decimals

Around every floating point value lie the numbers to which no other value is nearer. Quotients of
natural numbers are rounded to the value around which they lie.
-/

namespace Apex.Binary64

/-! ## The parts of a value -/

theorem pow_52 : Nat.pow 2 52 = 4503599627370496 := by decide

/-- A finite magnitude is its exponent above its significand. -/
theorem magnitude_eq (v : Binary64) : v.magnitude = v.scale * Nat.pow 2 52 + v.significand := by
  unfold scale significand
  rw [pow_52]
  dsimp only
  split <;> omega

theorem significand_lt (v : Binary64) : v.significand < 9007199254740992 := by
  unfold significand
  rw [pow_52]
  dsimp only
  split <;> omega

/-- Only the smallest values have a short significand. -/
theorem le_significand (v : Binary64) (large : v.scale ≠ 0) : 4503599627370496 ≤ v.significand := by
  unfold scale at large
  unfold significand
  rw [pow_52] at *
  dsimp only
  split <;> omega

theorem unitsPerOne_pos : 0 < unitsPerOne := by decide +kernel

/-- How far below the value, in quarters of its last place, a number may lie. Below a power of two
the values lie more densely. -/
def margin (v : Binary64) : Nat := if v.significand = Nat.pow 2 52 then 1 else 2

/-- The quotient lies around the value: no other value is nearer to it, and of two values equally
near this one is even. -/
structure Surrounds (v : Binary64) (num den : Nat) : Prop where
  /-- It is not too small. -/
  lower : (4 * v.significand - v.margin) * (Nat.pow 2 v.scale * den) ≤ 4 * (num * unitsPerOne)
  /-- It is not too large. -/
  upper : 4 * (num * unitsPerOne) ≤ (4 * v.significand + 2) * (Nat.pow 2 v.scale * den)
  /-- It lies on neither end, unless the value is even. -/
  inside : v.significand % 2 = 0 ∨
    (4 * v.significand - v.margin) * (Nat.pow 2 v.scale * den) < 4 * (num * unitsPerOne) ∧
      4 * (num * unitsPerOne) < (4 * v.significand + 2) * (Nat.pow 2 v.scale * den)

/-- The quotient may be written with other numbers. -/
theorem Surrounds.mul {v : Binary64} {num den k : Nat} (h : v.Surrounds num den) (some : 0 < k) :
    v.Surrounds (num * k) (den * k) := by
  have left (a : Nat) : a * (Nat.pow 2 v.scale * (den * k)) = a * (Nat.pow 2 v.scale * den) * k := by
    simp only [Nat.mul_assoc]
  have right : 4 * (num * k * unitsPerOne) = 4 * (num * unitsPerOne) * k := by
    rw [Nat.mul_right_comm num, Nat.mul_assoc 4]
  constructor
  · rw [left, right]
    exact Nat.mul_le_mul_right k h.lower
  · rw [left, right]
    exact Nat.mul_le_mul_right k h.upper
  · rw [left, left, right]
    exact h.inside.imp_right fun inside =>
      ⟨Nat.mul_lt_mul_of_pos_right inside.1 some, Nat.mul_lt_mul_of_pos_right inside.2 some⟩

/-! ## Rounding -/

/-- A quotient at most a half away from a number is rounded to it, if it is even or nearer than
that. -/
theorem roundToEven_eq {num den m : Nat} (some : 0 < den) (lower : 2 * m * den ≤ 2 * num + den)
    (upper : 2 * num ≤ (2 * m + 1) * den)
    (inside : m % 2 = 0 ∨ 2 * m * den < 2 * num + den ∧ 2 * num < (2 * m + 1) * den) :
    roundToEven num den = m := by
  have split := Nat.div_add_mod num den
  have rest := Nat.mod_lt num some
  unfold roundToEven
  dsimp only
  generalize num / den = q at *
  generalize num % den = r at *
  subst split
  have near : q = m ∨ q + 1 = m := by
    have high : q < m + 1 := by
      by_contra high
      have : den * (m + 1) ≤ den * q := Nat.mul_le_mul_left den (by omega)
      nlinarith
    have low : m < q + 2 := by
      by_contra low
      have : den * (q + 2) ≤ den * m := Nat.mul_le_mul_left den (by omega)
      nlinarith
    omega
  rcases near with rfl | rfl
  · have upper : 2 * r ≤ den := by nlinarith
    have inside : q % 2 = 0 ∨ 2 * r < den := inside.imp_right fun inside => by nlinarith [inside.2]
    rw [if_neg]
    simp only [Bool.or_eq_true, Bool.and_eq_true, decide_eq_true_eq, beq_iff_eq]
    omega
  · have lower : den ≤ 2 * r := by nlinarith
    have inside : (q + 1) % 2 = 0 ∨ den < 2 * r :=
      inside.imp_right fun inside => by nlinarith [inside.1]
    rw [if_pos]
    simp only [Bool.or_eq_true, Bool.and_eq_true, decide_eq_true_eq, beq_iff_eq]
    omega

/-- The scale of a quotient that has fifty-three bits before the point at some scale. -/
theorem scale_eq {units den s : Nat} (some : 0 < den)
    (lower : 4503599627370496 * (Nat.pow 2 s * den) ≤ units)
    (upper : units < 9007199254740992 * (Nat.pow 2 s * den)) : Nat.log2 (units / den) - 52 = s := by
  have power : (4503599627370496 : Nat) = 2 ^ 52 := by norm_num
  have power' : (9007199254740992 : Nat) = 2 ^ 53 := by norm_num
  have low : 2 ^ (52 + s) ≤ units / den := by
    rw [Nat.le_div_iff_mul_le some, Nat.pow_add, Nat.mul_assoc]
    exact power ▸ lower
  have high : units / den < 2 ^ (53 + s) := by
    rw [Nat.div_lt_iff_lt_mul some, Nat.pow_add, Nat.mul_assoc]
    exact power' ▸ upper
  have positive : units / den ≠ 0 := by
    have := Nat.two_pow_pos (52 + s)
    omega
  have atLeast := (Nat.le_log2 positive).mpr low
  have below := (Nat.log2_lt positive).mpr high
  omega

/-- The scale of a quotient with fewer bits before the point. -/
theorem scale_eq_zero {units den : Nat} (some : 0 < den)
    (upper : units < 9007199254740992 * den) : Nat.log2 (units / den) - 52 = 0 := by
  by_cases positive : units / den = 0
  · rw [positive]
    rfl
  · have high : units / den < 2 ^ 53 := by
      rw [Nat.div_lt_iff_lt_mul some]
      exact upper
    have below := (Nat.log2_lt positive).mpr high
    omega

/-- What lies around a value is rounded to it. -/
theorem Surrounds.nearestPattern_eq {v : Binary64} {num den : Nat} (h : v.Surrounds num den)
    (finite : v.magnitude ≤ infinityPattern) (some : 0 < den) :
    nearestPattern num den = v.magnitude := by
  obtain ⟨lower, upper, inside⟩ := h
  have parts := v.magnitude_eq
  have short := v.significand_lt
  have long := v.le_significand
  have wide : v.margin = 2 ∧ v.significand ≠ 4503599627370496 ∨
      v.margin = 1 ∧ v.significand = 4503599627370496 := by
    unfold margin
    rw [pow_52]
    split
    · next power => exact .inr ⟨rfl, power⟩
    · next other => exact .inl ⟨rfl, other⟩
  have unit : 0 < Nat.pow 2 v.scale * den := Nat.mul_pos (Nat.two_pow_pos _) some
  suffices same : Nat.log2 (num * unitsPerOne / den) - 52 = v.scale ∧
        roundToEven (num * unitsPerOne) (den * Nat.pow 2 v.scale) = v.significand ∨
      0 < v.scale ∧ v.significand = 4503599627370496 ∧
        Nat.log2 (num * unitsPerOne / den) - 52 = v.scale - 1 ∧
        roundToEven (num * unitsPerOne) (den * Nat.pow 2 (v.scale - 1)) = 9007199254740992 by
    unfold nearestPattern
    dsimp only
    rw [pow_52] at *
    rcases same with ⟨scale, rounded⟩ | ⟨some, power, scale, rounded⟩
    · rw [scale, rounded, ← parts]
      exact Nat.min_eq_left finite
    · rw [scale, rounded]
      refine (Nat.min_eq_left ?_).trans ?_ <;> omega
  generalize num * unitsPerOne = units at *
  by_cases full : 4503599627370496 * (Nat.pow 2 v.scale * den) ≤ units ∨ v.scale = 0
  · left
    have top : (4 * v.significand + 2) * (Nat.pow 2 v.scale * den) ≤
        36028797018963966 * (Nat.pow 2 v.scale * den) := Nat.mul_le_mul_right _ (by omega)
    constructor
    · rcases full with full | smallest
      · exact scale_eq some full (by omega)
      · rw [smallest] at upper top unit ⊢
        rw [show Nat.pow 2 0 * den = den from Nat.one_mul den] at upper top unit
        exact scale_eq_zero some (by omega)
    · have below : 4 * v.significand * (Nat.pow 2 v.scale * den) ≤
          (4 * v.significand - v.margin) * (Nat.pow 2 v.scale * den) +
            2 * (Nat.pow 2 v.scale * den) := by
        rw [← Nat.add_mul]
        exact Nat.mul_le_mul_right _ (by omega)
      rw [Nat.mul_comm den]
      generalize Nat.pow 2 v.scale * den = width at *
      refine roundToEven_eq unit (by linarith) (by linarith) (inside.imp_right fun inside => ?_)
      exact ⟨by linarith [inside.1], by linarith [inside.2]⟩
  · right
    obtain ⟨low, large⟩ := not_or.mp full
    obtain ⟨s, scale⟩ := Nat.exists_eq_add_one_of_ne_zero large
    -- Only a power of two has values with more places below it.
    have power : v.margin = 1 ∧ v.significand = 4503599627370496 := by
      by_contra other
      obtain ⟨margin, ne⟩ := wide.resolve_right other
      have : 18014398509481986 * (Nat.pow 2 v.scale * den) ≤
          (4 * v.significand - v.margin) * (Nat.pow 2 v.scale * den) :=
        Nat.mul_le_mul_right _ (by have := long large; omega)
      omega
    have half : Nat.pow 2 v.scale * den = 2 * (Nat.pow 2 s * den) := by
      rw [scale, show Nat.pow 2 (s + 1) = Nat.pow 2 s * 2 from rfl, Nat.mul_comm (Nat.pow 2 s),
        Nat.mul_assoc]
    rw [power.1, power.2, half] at lower
    rw [half] at low unit
    have before : v.scale - 1 = s := by omega
    rw [before]
    refine ⟨by omega, power.2, scale_eq some (by omega) (by omega), ?_⟩
    rw [Nat.mul_comm den]
    exact roundToEven_eq (by omega) (by omega) (by omega) (.inl rfl)

end Apex.Binary64
