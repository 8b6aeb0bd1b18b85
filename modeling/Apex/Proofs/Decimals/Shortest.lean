import Apex.Proofs.Decimals.Nearest

/-!
# The shortest decimal reads back

A multiple of a power of ten that is taken for a value lies around the value. On the last of the
grids that are searched neighbouring multiples are so close together that one of them does, so the
search finds a decimal, and whatever it finds reads back to the value.
-/

namespace Apex.Binary64

/-! ## One grid -/

section

variable (v : Binary64) (unit den : Nat)

/-- The number, in quarters, lies around the value, of which `unit` is the last place. -/
def Covers (x : Nat) : Prop :=
  (4 * v.significand - v.margin) * unit ≤ x ∧ x ≤ (4 * v.significand + 2) * unit ∧
    (v.significand % 2 = 0 ∨
      (4 * v.significand - v.margin) * unit < x ∧ x < (4 * v.significand + 2) * unit)

/-- The last multiple of `den` that is not larger than the value. -/
def lastBelow : Nat := v.significand * unit / den

/-- Whether that multiple is read back as the value. -/
def belowReads : Bool :=
  let lower := (4 * v.significand - v.margin) * unit
  let x := 4 * v.lastBelow unit den * den
  lower < x || (v.significand % 2 == 0 && lower == x)

/-- Whether the next multiple is read back as the value. -/
def aboveReads : Bool :=
  let upper := (4 * v.significand + 2) * unit
  let x := 4 * (v.lastBelow unit den + 1) * den
  x < upper || (v.significand % 2 == 0 && x == upper)

variable {v} {unit den : Nat}

theorem lastBelow_le : v.lastBelow unit den * den ≤ v.significand * unit := Nat.div_mul_le_self _ _

theorem lt_lastBelow (spaced : 0 < den) :
    v.significand * unit < (v.lastBelow unit den + 1) * den := by
  have split := Nat.div_add_mod (v.significand * unit) den
  have rest := Nat.mod_lt (v.significand * unit) spaced
  unfold lastBelow
  nlinarith

theorem covers_of_belowReads (some : 0 < unit) (reads : v.belowReads unit den = true) :
    v.Covers unit (4 * v.lastBelow unit den * den) := by
  have high : 4 * v.lastBelow unit den * den < (4 * v.significand + 2) * unit := by
    have := @lastBelow_le v unit den
    nlinarith
  unfold belowReads at reads
  simp only [Bool.or_eq_true, Bool.and_eq_true, decide_eq_true_eq, beq_iff_eq] at reads
  rcases reads with reads | ⟨even, reads⟩
  · exact ⟨reads.le, high.le, .inr ⟨reads, high⟩⟩
  · exact ⟨reads.le, high.le, .inl even⟩

theorem covers_of_aboveReads (spaced : 0 < den) (reads : v.aboveReads unit den = true) :
    v.Covers unit (4 * (v.lastBelow unit den + 1) * den) := by
  have low : (4 * v.significand - v.margin) * unit < 4 * (v.lastBelow unit den + 1) * den := by
    have := Nat.mul_le_mul_right unit (Nat.sub_le (4 * v.significand) v.margin)
    have := @lt_lastBelow v unit den spaced
    nlinarith
  unfold aboveReads at reads
  simp only [Bool.or_eq_true, Bool.and_eq_true, decide_eq_true_eq, beq_iff_eq] at reads
  rcases reads with reads | ⟨even, reads⟩
  · exact ⟨low.le, reads.le, .inr ⟨low, reads⟩⟩
  · exact ⟨low.le, reads.le, .inl even⟩

/-- If the multiples are close together, one of the two is read back. -/
theorem reads_of_fine (large : v.margin ≤ 4 * v.significand)
    (fine : 4 * den < (2 + v.margin) * unit) :
    v.belowReads unit den = true ∨ v.aboveReads unit den = true := by
  by_contra none
  unfold belowReads aboveReads at none
  simp only [Bool.or_eq_true, Bool.and_eq_true, decide_eq_true_eq, beq_iff_eq, not_or, not_lt]
    at none
  obtain ⟨⟨low, -⟩, high, -⟩ := none
  obtain ⟨m, hm⟩ := Nat.exists_eq_add_of_le large
  rw [hm, Nat.add_sub_cancel_left] at low
  nlinarith

end

/-- What is found on a grid is one of the two multiples next to the value, one that reads back. -/
theorem onGrid_cases (v : Binary64) (exponent : Int) :
    let unit := Nat.pow 2 v.scale * (powerPair exponent).1
    let den := unitsPerOne * (powerPair exponent).2
    (v.onGrid exponent = none ∧ v.belowReads unit den = false ∧ v.aboveReads unit den = false) ∨
      (v.onGrid exponent = some (v.lastBelow unit den) ∧ v.belowReads unit den = true) ∨
      (v.onGrid exponent = some (v.lastBelow unit den + 1) ∧ v.aboveReads unit den = true) := by
  have chosen {below above : Bool} {x y : Nat} {near : Prop} [Decidable near] :
      let found := if below && above then some (if near then x else y) else if below then some x
        else if above then some y else none
      (found = none ∧ below = false ∧ above = false) ∨ (found = some x ∧ below = true) ∨
        (found = some y ∧ above = true) := by
    cases below <;> cases above <;> by_cases h : near <;> simp [h]
  unfold onGrid belowReads aboveReads lastBelow margin
  dsimp only
  exact chosen

/-! ## All grids -/

theorem powerPair_pos (exponent : Int) :
    0 < (powerPair exponent).1 ∧ 0 < (powerPair exponent).2 := by
  cases exponent with
  | ofNat up => exact ⟨Nat.one_pos, Nat.pow_pos (by decide)⟩
  | negSucc down => exact ⟨Nat.pow_pos (by decide), Nat.one_pos⟩

/-- The multiple of the power of ten lies around the value. -/
def SurroundsAt (v : Binary64) (digits : Nat) (exponent : Int) : Prop :=
  v.Surrounds (digits * (powerPair exponent).2) (powerPair exponent).1

theorem Covers.surrounds {v : Binary64} {digits up down : Nat}
    (h : v.Covers (Nat.pow 2 v.scale * up) (4 * digits * (unitsPerOne * down))) :
    v.Surrounds (digits * down) up := by
  have swap : 4 * digits * (unitsPerOne * down) = 4 * (digits * down * unitsPerOne) := by
    rw [Nat.mul_assoc, Nat.mul_assoc, Nat.mul_comm unitsPerOne]
  rw [swap] at h
  exact ⟨h.1, h.2.1, h.2.2⟩

variable {v : Binary64} {exponent : Int}

theorem surroundsAt_of_onGrid {digits : Nat} (found : v.onGrid exponent = some digits) :
    v.SurroundsAt digits exponent := by
  obtain ⟨up, down⟩ := powerPair_pos exponent
  rcases v.onGrid_cases exponent with ⟨none, -⟩ | ⟨below, reads⟩ | ⟨above, reads⟩
  · rw [none] at found
    cases found
  · rw [below] at found
    cases found
    exact (covers_of_belowReads (Nat.mul_pos (Nat.two_pow_pos _) up) reads).surrounds
  · rw [above] at found
    cases found
    exact (covers_of_aboveReads (Nat.mul_pos unitsPerOne_pos down) reads).surrounds

theorem onGrid_ne_none (large : v.margin ≤ 4 * v.significand)
    (fine : 4 * (unitsPerOne * (powerPair exponent).2) <
      (2 + v.margin) * (Nat.pow 2 v.scale * (powerPair exponent).1)) :
    v.onGrid exponent ≠ none := by
  have reads := reads_of_fine large fine
  rcases v.onGrid_cases exponent with ⟨-, below, above⟩ | ⟨found, -⟩ | ⟨found, -⟩
  · rw [below, above] at reads
    exact absurd reads (by decide)
  · rw [found]
    exact Option.some_ne_none _
  · rw [found]
    exact Option.some_ne_none _

/-- What is found on one of the grids lies around the value, if the last grid is fine enough. -/
theorem surroundsAt_searchGrids {steps : Nat} (last : v.onGrid (exponent - steps) ≠ none) :
    v.SurroundsAt (v.searchGrids steps exponent).digits (v.searchGrids steps exponent).exponent := by
  induction steps generalizing exponent with
  | zero =>
    obtain ⟨digits, found⟩ := Option.ne_none_iff_exists'.mp last
    rw [show exponent - (0 : Nat) = exponent from Int.sub_zero _] at found
    rw [searchGrids, found]
    exact surroundsAt_of_onGrid found
  | succ steps ih =>
    rw [searchGrids]
    cases found : v.onGrid exponent with
    | some digits => exact surroundsAt_of_onGrid found
    | none =>
      refine ih ?_
      rwa [show exponent - 1 - (steps : Int) = exponent - (steps + 1 : Nat) by omega]

/-! ## The first grid -/

/-- A finer power of ten scales by the ratio of the two. -/
theorem powerPair_sub (exponent : Int) (steps : Nat) :
    (powerPair (exponent - steps)).1 * (powerPair exponent).2 =
      10 ^ steps * ((powerPair exponent).1 * (powerPair (exponent - steps)).2) := by
  cases exponent with
  | ofNat up =>
    rcases Nat.le_total steps up with below | above
    · obtain ⟨left, rfl⟩ := Nat.exists_eq_add_of_le below
      rw [show Int.ofNat (steps + left) - (steps : Int) = Int.ofNat left by
        simp only [Int.ofNat_eq_natCast]
        omega]
      show 1 * 10 ^ (steps + left) = 10 ^ steps * (1 * 10 ^ left)
      rw [Nat.one_mul, Nat.one_mul, Nat.pow_add]
    · obtain ⟨left, rfl⟩ := Nat.exists_eq_add_of_le above
      cases left with
      | zero =>
        rw [show Int.ofNat up - ((up + 0 : Nat) : Int) = Int.ofNat 0 by
          simp only [Int.ofNat_eq_natCast]
          omega]
        show 1 * 10 ^ up = 10 ^ up * (1 * 1)
        omega
      | succ left =>
        rw [show Int.ofNat up - ((up + (left + 1) : Nat) : Int) = Int.negSucc left by
          simp only [Int.ofNat_eq_natCast]
          omega]
        show 10 ^ (left + 1) * 10 ^ up = 10 ^ (up + (left + 1)) * (1 * 1)
        rw [Nat.pow_add 10 up, Nat.mul_comm (10 ^ up)]
        omega
  | negSucc down =>
    rw [show Int.negSucc down - (steps : Int) = Int.negSucc (down + steps) by omega]
    show 10 ^ (down + steps + 1) * 1 = 10 ^ steps * (10 ^ (down + 1) * 1)
    rw [Nat.mul_one, Nat.mul_one, Nat.add_right_comm, Nat.pow_add, Nat.mul_comm]

/-- A bound on a number scaled by a power of ten is one on the number. -/
theorem powerPair_le {value digits lift : Nat}
    (bound : 10 ^ digits * unitsPerOne ≤ value * 10 ^ lift) :
    unitsPerOne * (powerPair (digits - lift : Int)).2 ≤
      value * (powerPair (digits - lift : Int)).1 := by
  have scaled := powerPair_sub digits lift
  obtain ⟨up, -⟩ := powerPair_pos (digits - lift : Int)
  generalize powerPair (digits - lift : Int) = fine at *
  change fine.1 * 10 ^ digits = 10 ^ lift * (1 * fine.2) at scaled
  rw [Nat.one_mul] at scaled
  have lifted : 0 < 10 ^ lift := Nat.pow_pos (by decide)
  refine Nat.le_of_mul_le_mul_left ?_ lifted
  calc 10 ^ lift * (unitsPerOne * fine.2) = 10 ^ digits * unitsPerOne * fine.1 := by
        rw [Nat.mul_left_comm, ← scaled]
        ac_rfl
    _ ≤ value * 10 ^ lift * fine.1 := Nat.mul_le_mul_right _ bound
    _ = 10 ^ lift * (value * fine.1) := by ac_rfl

/-- The lift is so large that every positive value is one or more. -/
theorem unitsPerOne_le : unitsPerOne ≤ Nat.pow 10 400 := by decide +kernel

/-- The value is at least the power of ten below which the search starts. -/
theorem decimalMagnitude_le (positive : 0 < v.significand) :
    unitsPerOne * (powerPair (v.decimalMagnitude - 1)).2 ≤
      v.significand * Nat.pow 2 v.scale * (powerPair (v.decimalMagnitude - 1)).1 := by
  have lift := unitsPerOne_le
  unfold decimalMagnitude
  dsimp only
  generalize hlift : (400 : Nat) = n at *
  rw [show (400 : Int) = ((400 : Nat) : Int) from rfl, hlift]
  have large : 1 ≤ v.significand * Nat.pow 2 v.scale := Nat.mul_pos positive (Nat.two_pow_pos _)
  generalize v.significand * Nat.pow 2 v.scale = value at *
  have some : value * Nat.pow 10 n / unitsPerOne ≠ 0 := by
    refine (Nat.div_pos ?_ unitsPerOne_pos).ne'
    exact lift.trans (Nat.le_mul_of_pos_left _ large)
  generalize lifted : value * Nat.pow 10 n / unitsPerOne = whole at *
  obtain ⟨digits, length⟩ := Nat.exists_eq_add_one_of_ne_zero
    (Nat.length_toDigits_pos (b := 10) (n := whole)).ne'
  rw [length, show ((digits + 1 : Nat) : Int) - n - 1 = digits - n by omega]
  refine powerPair_le ?_
  have long : 10 ^ digits ≤ whole := by
    cases digits with
    | zero => exact Nat.pos_of_ne_zero some
    | succ digits =>
      have := (Nat.length_toDigits_le_iff (b := 10) (n := whole) (k := digits + 1) (by decide)
        (by omega)).not.mp (by omega)
      omega
  calc 10 ^ digits * unitsPerOne ≤ whole * unitsPerOne := Nat.mul_le_mul_right _ long
    _ ≤ value * 10 ^ n := lifted ▸ Nat.div_mul_le_self _ _

/-- Sixteen more digits tell a value from its neighbours. -/
theorem fine_of_decimalMagnitude (positive : 0 < v.significand) :
    4 * (unitsPerOne * (powerPair (v.decimalMagnitude - 17)).2) <
      (2 + v.margin) * (Nat.pow 2 v.scale * (powerPair (v.decimalMagnitude - 17)).1) := by
  have start := decimalMagnitude_le positive
  have finer := powerPair_sub (v.decimalMagnitude - 1) 16
  rw [show v.decimalMagnitude - 1 - (16 : Nat) = v.decimalMagnitude - 17 by omega] at finer
  obtain ⟨-, coarse⟩ := powerPair_pos (v.decimalMagnitude - 1)
  obtain ⟨up, -⟩ := powerPair_pos (v.decimalMagnitude - 17)
  generalize powerPair (v.decimalMagnitude - 1) = first at *
  generalize powerPair (v.decimalMagnitude - 17) = last at *
  have spread : 10 ^ 16 * (unitsPerOne * last.2) ≤
      v.significand * (Nat.pow 2 v.scale * last.1) := by
    refine Nat.le_of_mul_le_mul_left ?_ coarse
    calc first.2 * (10 ^ 16 * (unitsPerOne * last.2))
        = unitsPerOne * first.2 * (10 ^ 16 * last.2) := by ac_rfl
      _ ≤ v.significand * Nat.pow 2 v.scale * first.1 * (10 ^ 16 * last.2) :=
        Nat.mul_le_mul_right _ start
      _ = v.significand * Nat.pow 2 v.scale * (10 ^ 16 * (first.1 * last.2)) := by ac_rfl
      _ = first.2 * (v.significand * (Nat.pow 2 v.scale * last.1)) := by
        rw [← finer]
        ac_rfl
  have unit : 0 < Nat.pow 2 v.scale * last.1 := Nat.mul_pos (Nat.two_pow_pos _) up
  have wide : 4 * v.significand < (2 + v.margin) * 10 ^ 16 := by
    have := v.significand_lt
    unfold margin
    rw [pow_52]
    split <;> omega
  have scaled := Nat.mul_lt_mul_of_pos_right wide unit
  generalize Nat.pow 2 v.scale * last.1 = width at *
  generalize unitsPerOne * last.2 = space at *
  nlinarith

theorem significand_pos (positive : v.magnitude ≠ 0) : 0 < v.significand := by
  have parts := v.magnitude_eq
  by_cases smallest : v.scale = 0
  · rw [smallest, Nat.zero_mul, Nat.zero_add] at parts
    omega
  · have := v.le_significand smallest
    omega

/-- The shortest decimal lies around the value. -/
theorem surroundsAt_shortest (positive : v.magnitude ≠ 0) :
    v.SurroundsAt v.shortest.digits v.shortest.exponent := by
  have some := significand_pos positive
  refine surroundsAt_searchGrids (onGrid_ne_none ?_ (fine_of_decimalMagnitude some))
  unfold margin
  split <;> omega

end Apex.Binary64
