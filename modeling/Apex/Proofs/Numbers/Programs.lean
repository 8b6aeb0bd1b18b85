import Apex.Proofs.Numbers.Declarations
import Apex.Proofs.Spans.Programs
import Apex.Proofs.Writing.Genuine

/-!
# Whole numbers of programs

At whatever depth the grammar is built, the numbers of an accepted program are read from the numbers
of its row, one from each. A literal carries the number of its token, or its opposite if it is the
value of an annotation behind a minus sign. The opposite is taken in 64 bits: there is none for the
least number, which no source text can hold, but a row of tokens can.
-/

namespace Apex

/-! ## The numbers of a row -/

section

variable {row : List Token} {t : Token}

theorem signBefore?_concat {i : Nat} (inside : i ≤ row.length) :
    signBefore? (row ++ [t]) i = signBefore? row i := by
  cases i with
  | zero => rfl
  | succ i => rw [signBefore?, signBefore?, List.getElem?_append_left inside]

theorem NumberToken.at?_concat {i : Nat} (inside : i < row.length) :
    at? (row ++ [t]) i = at? row i := by
  unfold at?
  rw [List.getElem?_append_left inside, signBefore?_concat (Nat.le_of_lt inside)]

/-- The numbers of a row are those before its end. -/
theorem filterMap_at?_concat :
    (List.range row.length).filterMap (NumberToken.at? (row ++ [t])) = numberTokens row :=
  List.filterMap_congr fun _ inside => NumberToken.at?_concat (List.mem_range.mp inside)

theorem numberTokens_concat (ends : t.isEnd = true) :
    numberTokens (row ++ [t]) = numberTokens row := by
  have none : t.kind.whole? = none := by
    unfold Token.isEnd at ends
    cases hk : t.kind <;> rw [hk] at ends <;> first | rfl | cases ends
  have last : NumberToken.at? (row ++ [t]) row.length = Option.none := by
    simp [NumberToken.at?, none]
  rw [numberTokens, List.length_append, List.length_singleton, List.range_succ,
    List.filterMap_append, filterMap_at?_concat, List.filterMap_cons, last, List.filterMap_nil,
    List.append_nil]

end

/-- A row of tokens with its end is a row with the same numbers and an end behind it. -/
theorem Cursor.withEnd_eq_concat (tokens : List Token) :
    ∃ row t, withEnd tokens = row ++ [t] ∧ numberTokens row = numberTokens tokens := by
  unfold withEnd
  cases last : tokens.getLast? with
  | none =>
    obtain rfl := List.getLast?_eq_none_iff.mp last
    exact ⟨[], _, rfl, rfl⟩
  | some t =>
    obtain ⟨row, rfl⟩ := List.getLast?_eq_some_iff.mp last
    by_cases ends : t.isEnd = true
    · exact ⟨row, t, if_pos ends, (numberTokens_concat ends).symm⟩
    · exact ⟨row ++ [t], _, if_neg ends, rfl⟩

/-- From the first token to the end stand all numbers of a row. -/
theorem Cursor.numbersTo_of_last {tokens : List Token} {c' : Cursor}
    (last : c'.position + 1 = (ofTokens tokens).tokens.size) :
    (ofTokens tokens).numbersTo c' = numberTokens tokens := by
  obtain ⟨row, t, eq, same⟩ := withEnd_eq_concat tokens
  have whole : (ofTokens tokens).tokens.toList = row ++ [t] := eq
  have length : c'.position = row.length := by
    have size : (ofTokens tokens).tokens.size = row.length + 1 := by
      rw [← Array.length_toList, whole, List.length_append, List.length_singleton]
    omega
  have start : (ofTokens tokens).position = 0 := rfl
  rw [numbersTo, whole, start, Nat.sub_zero, length, ← List.range_eq_range', filterMap_at?_concat,
    same]

/-! ## Programs -/

namespace Grammar

open Apex.Parser Node

variable {D : Deeper} {c c' : Cursor}

theorem tallies_bottom : Deeper.bottom.Tallies where
  typeRef _ _ _ := nofun
  annotationMark _ _ _ := nofun
  annotationValue _ _ _ _ := nofun
  assignment _ _ _ := nofun
  ternary _ _ _ := nofun
  unary _ _ _ := nofun
  statement _ _ _ := nofun
  typeDeclaration _ := nofun
  ahead := matchesAhead_stays

theorem tallies_above (hD : D.Tallies) : (above D).Tallies where
  typeRef := typeRef_tallies hD.typeRef
  annotationMark := annotation_tallies hD
  annotationValue := annotationValue_tallies hD
  assignment := assignment_tallies hD
  ternary := ternary_tallies hD
  unary := unary_tallies hD
  statement := statement_tallies hD
  typeDeclaration := typeDeclaration_tally hD
  ahead := matchesAhead_stays

theorem tallies_levels (depth : Nat) : (levels depth).Tallies := by
  induction depth with
  | zero => exact tallies_bottom
  | succ depth ih => exact tallies_above ih

theorem compilationUnit_tally (hD : D.Tallies) {u : CompilationUnit}
    (h : compilationUnit D c = .ok (u, c')) : c'.atEnd = true ∧ Tally false [u.node] c c' := by
  obtain ⟨⟨found, count⟩, c₁, run, ends, done⟩ := compilationUnit_ok.mp h
  cases done
  refine ⟨ends, ?_⟩
  rcases declarationAndSemicolons_ok.mp run with ⟨_, n, _, semis, done⟩ |
    ⟨_, d, c₁, n, _, hd, semis, done⟩
  · cases done
    exact (Tally.leaf rfl (semicolons_silent semis).numberless).around rfl
  · cases done
    exact ((declaration_tallies hD hd).before (semicolons_silent semis)).around rfl

end Grammar

/-- The literal carries the integer of the token, or its exact opposite where it takes the sign. -/
structure NumberLiteral.IsExact (w : NumberLiteral) (t : NumberToken) : Prop where
  isLong_eq : w.number.isLong = t.number.isLong
  value_eq : w.number.value.toInt =
    if w.takesSign t then -t.number.value.toInt else t.number.value.toInt

/-- The literal stands where the token does and is exact, but the least number is left as it is
where its sign should be taken. -/
structure NumberLiteral.IsAlmostExact (w : NumberLiteral) (t : NumberToken) : Prop where
  span_eq : w.span = t.placeFor w.isValue
  exact_iff : w.IsExact t ↔ ¬(w.takesSign t = true ∧ t.number.value = Int64.minValue)
  least : w.takesSign t = true → t.number.value = Int64.minValue → w.number = t.number

theorem toInt_neg_of_ne_minValue {v : Int64} (other : v ≠ Int64.minValue) :
    (-v).toInt = -v.toInt := by
  have low := v.le_toInt
  have high := v.toInt_lt
  have bound : v.toInt ≠ -2 ^ 63 := fun least => other (Int64.toInt_inj.mp least)
  rw [Int64.toInt_neg]
  exact Int.bmod_eq_of_le (by omega) (by omega)

theorem NumberLiteral.IsReadFrom.isAlmostExact {w : NumberLiteral} {t : NumberToken}
    (h : w.IsReadFrom t) : w.IsAlmostExact t := by
  have number := h.number_eq
  refine ⟨h.span_eq, ?_, ?_⟩
  · cases takes : w.takesSign t with
    | false =>
      rw [takes, if_neg Bool.false_ne_true] at number
      refine iff_of_true ⟨by rw [number], ?_⟩ (by simp)
      rw [takes, if_neg Bool.false_ne_true, number]
    | true =>
      rw [takes, if_pos rfl] at number
      by_cases least : t.number.value = Int64.minValue
      · refine iff_of_false (fun exact => ?_) fun other => other ⟨rfl, least⟩
        have value : (-Int64.minValue).toInt = -Int64.minValue.toInt := by
          have value := exact.value_eq
          rwa [takes, if_pos rfl, number, WholeNumber.negated, least] at value
        exact absurd value (by decide)
      · refine iff_of_true ⟨by rw [number]; rfl, ?_⟩ fun taken => least taken.2
        rw [takes, if_pos rfl, number]
        exact toInt_neg_of_ne_minValue least
  · intro takes least
    rw [takes, if_pos rfl] at number
    rw [number, WholeNumber.negated, least]
    show WholeNumber.mk t.number.isLong Int64.minValue = t.number
    rw [← least]

/-- The whole numbers of an accepted row are read into those of its tree, one into each. -/
theorem isReadFrom_of_parse {tokens : List Token} {unit : CompilationUnit}
    (accepted : parse tokens = .ok unit) :
    Multiset.Rel NumberLiteral.IsReadFrom (unit.node.numbers false : Multiset NumberLiteral)
      (numberTokens tokens : Multiset NumberToken) := by
  obtain ⟨stray, c', run⟩ := parse_ok.mp accepted
  obtain ⟨ends, tally⟩ := Grammar.compilationUnit_tally (Grammar.tallies_levels maxNesting) run
  have matched := tally.matched
  have last := Cursor.last_of_atEnd stray tally.upto ends
  rw [Cursor.numbersTo_of_last last, Node.numbersOf, Node.numbersOf, List.append_nil] at matched
  exact matched

/-- Every whole number of an accepted row is a literal of its tree where it stands, and the tree
has no others. All are exact, except for the least number where its sign should be taken. -/
theorem numbers_of_parse {tokens : List Token} {unit : CompilationUnit}
    (accepted : parse tokens = .ok unit) :
    Multiset.Rel NumberLiteral.IsAlmostExact (unit.node.numbers false : Multiset NumberLiteral)
      (numberTokens tokens : Multiset NumberToken) :=
  (isReadFrom_of_parse accepted).mono fun _ _ _ _ read => read.isAlmostExact

/-- A class with an annotation whose value is a number behind a sign. -/
def signedRow (number : TokenKind) : List Token :=
  [.plain (.punctuation .at) ⟨0, 1⟩, .plain (.name "A") ⟨1, 2⟩,
    .plain (.punctuation .openParen) ⟨2, 3⟩, .plain (.operator .minus) ⟨3, 4⟩,
    .plain number ⟨4, 5⟩, .plain (.punctuation .closeParen) ⟨5, 6⟩,
    .plain (.keyword .kwClass) ⟨6, 7⟩, .plain (.name "C") ⟨7, 8⟩,
    .plain (.punctuation .openBrace) ⟨8, 9⟩, .plain (.punctuation .closeBrace) ⟨9, 10⟩]

theorem numbers_of_parse_signed :
    ∃ unit, parse (signedRow (.long 5)) = .ok unit ∧
      Multiset.Rel NumberLiteral.IsAlmostExact (unit.node.numbers false : Multiset NumberLiteral)
        (numberTokens (signedRow (.long 5)) : Multiset NumberToken) := by
  have found : (parse (signedRow (.long 5))).toOption.isSome = true := by decide +kernel
  cases accepted : parse (signedRow (.long 5)) with
  | error e =>
    rw [accepted] at found
    cases found
  | ok unit => exact ⟨unit, rfl, numbers_of_parse accepted⟩

/-- The least number behind a sign comes out as it went in, which is not its opposite. -/
theorem not_isExact_of_parse :
    ∃ unit, parse (signedRow (.integer Int64.minValue)) = .ok unit ∧
      ∃ w ∈ unit.node.numbers false, ∀ t ∈ numberTokens (signedRow (.integer Int64.minValue)),
        ¬w.IsExact t := by
  have found : (parse (signedRow (.integer Int64.minValue))).toOption.map
      (·.node.numbers false) = some [⟨⟨false, Int64.minValue⟩, ⟨3, 5⟩, true⟩] := by decide +kernel
  cases accepted : parse (signedRow (.integer Int64.minValue)) with
  | error e =>
    rw [accepted] at found
    cases found
  | ok unit =>
    rw [accepted] at found
    refine ⟨unit, rfl, ⟨⟨false, Int64.minValue⟩, ⟨3, 5⟩, true⟩, ?_, ?_⟩
    · rw [show unit.node.numbers false = _ from Option.some.inj found]
      exact List.mem_singleton_self _
    · intro t member exact
      have only : numberTokens (signedRow (.integer Int64.minValue)) =
          [⟨⟨false, Int64.minValue⟩, ⟨4, 5⟩, some ⟨3, 4⟩⟩] := by decide
      rw [only] at member
      obtain rfl := List.mem_singleton.mp member
      exact absurd exact.value_eq (by decide)

/-! ## Source texts -/

theorem mem_of_mem_numberTokens {row : List Token} {t : NumberToken} (h : t ∈ numberTokens row) :
    ∃ token ∈ row, token.kind.whole? = some t.number := by
  obtain ⟨i, _, found⟩ := List.mem_filterMap.mp h
  obtain ⟨token, place, found⟩ := Option.bind_eq_some_iff.mp found
  obtain ⟨n, whole, rfl⟩ := Option.map_eq_some_iff.mp found
  exact ⟨token, List.mem_of_getElem? place, whole⟩

/-- No number of a source text is below zero. -/
theorem Token.Genuine.whole?_nonneg {t : Token} {n : WholeNumber} (genuine : t.Genuine)
    (h : t.kind.whole? = some n) : 0 ≤ n.value.toInt := by
  unfold Genuine at genuine
  cases hk : t.kind <;> rw [hk] at h genuine <;> cases h <;> exact genuine

/-- All whole numbers of an accepted source text are exact. -/
theorem isExact_of_parseSource {source : String} {unit : CompilationUnit}
    (accepted : parseSource source = .ok unit) :
    ∃ tokens, lex source = .ok tokens ∧
      Multiset.Rel NumberLiteral.IsExact (unit.node.numbers false : Multiset NumberLiteral)
        (numberTokens tokens : Multiset NumberToken) := by
  unfold parseSource at accepted
  split at accepted
  · next tokens read =>
    refine ⟨tokens, read, (isReadFrom_of_parse accepted).mono fun w _ t member made => ?_⟩
    refine made.isAlmostExact.exact_iff.mpr fun ⟨_, least⟩ => ?_
    obtain ⟨token, mem, whole⟩ := mem_of_mem_numberTokens (Multiset.mem_coe.mp member)
    have genuine : token.Genuine := by
      refine (sound_of_lex read).genuine token ?_
      rw [tokens_of_lex read]
      exact List.mem_toArray.mpr mem
    have nonneg := genuine.whole?_nonneg whole
    rw [least] at nonneg
    exact absurd nonneg (by decide)
  · cases accepted
  · cases accepted

end Apex
