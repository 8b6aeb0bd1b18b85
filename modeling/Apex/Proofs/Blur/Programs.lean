import Apex.Proofs.Blur.Declarations
import Mathlib.Data.List.Forall2

/-!
# Programs through a blur

No level of the grammar can see through a blur. So rows of tokens that look alike are both programs
with trees that look alike, or are refused with errors that do. Through the blur that erases all
places this says that a program means the same in every layout: of the places of its tokens the
grammar only ever asks whether a `>` touches the next one.
-/

namespace Apex

namespace Grammar

open Apex.Parser Apex.Parser.Like

variable {b : Blur} {D : Deeper}

/-! ## Nesting -/

theorem bottom_like : Deeper.bottom.Like b where
  typeRef := fail _
  annotationMark := fail _
  annotationValue := fail _
  assignment := fail _
  ternary := fail _
  unary := fail _
  statement := fail _
  typeDeclaration _ _ _ := fail _
  ahead _ hl := matchesAhead (hl _ (fail _))

theorem above_like (h : D.Like b) : (above D).Like b where
  typeRef := typeRef_like h.typeRef
  annotationMark := annotation_like h
  annotationValue := annotationValue_like h
  assignment := assignment_like h
  ternary := ternary_like h
  unary := unary_like h
  statement := statement_like h
  typeDeclaration _ _ hr := typeDeclaration_like h hr
  ahead _ hl := matchesAhead (hl _ (typeRef_like h.typeRef))

/-- However deeply programs may be nested, the grammar cannot see through a blur. -/
theorem levels_like (depth : Nat) : (levels depth).Like b := by
  induction depth with
  | zero => exact bottom_like
  | succ depth ih => exact above_like ih

end Grammar

/-! ## Rows of tokens -/

/-- Rows that look alike: the tokens do, and the same `>` tokens touch what is behind them. -/
structure RowsLike (b : Blur) (tokens tokens' : List Token) : Prop where
  length : tokens.length = tokens'.length
  token : ∀ i (h : i < tokens.length) (h' : i < tokens'.length), tokens[i].Like b tokens'[i]
  joined : ∀ i (h : i + 1 < tokens.length) (h' : i + 1 < tokens'.length),
    tokens[i].Joins tokens[i + 1] ↔ tokens'[i].Joins tokens'[i + 1]

namespace RowsLike

variable {b : Blur} {tokens tokens' : List Token}

theorem getLast? (rows : RowsLike b tokens tokens') :
    (tokens.getLast? = none ∧ tokens'.getLast? = none) ∨
      ∃ t t', tokens.getLast? = some t ∧ tokens'.getLast? = some t' ∧ t.Like b t' := by
  have length := rows.length
  rw [List.getLast?_eq_getElem?, List.getLast?_eq_getElem?]
  rcases Nat.eq_zero_or_pos tokens.length with none | some
  · left
    constructor <;> exact List.getElem?_eq_none (by omega)
  · right
    refine ⟨_, _, List.getElem?_eq_getElem (by omega), List.getElem?_eq_getElem (by omega), ?_⟩
    simp only [← length]
    exact rows.token _ _ _

/-- An end put behind rows that look alike leaves them alike. -/
theorem append_end (rows : RowsLike b tokens tokens') {t t' : Token} (last : t.Like b t')
    (isEnd : t.kind = .endOfFile) : RowsLike b (tokens ++ [t]) (tokens' ++ [t']) where
  length := by simp [rows.length]
  token i h h' := by
    have length := rows.length
    simp only [List.length_append, List.length_singleton] at h h'
    rcases Nat.lt_or_ge i tokens.length with inner | outer
    · rw [List.getElem_append_left inner, List.getElem_append_left (by omega)]
      exact rows.token i _ _
    · rw [List.getElem_append_right outer, List.getElem_append_right (by omega)]
      simpa using last
  joined i h h' := by
    have length := rows.length
    simp only [List.length_append, List.length_singleton] at h h'
    rcases Nat.lt_or_ge (i + 1) tokens.length with inner | outer
    · rw [List.getElem_append_left (by omega), List.getElem_append_left inner,
        List.getElem_append_left (by omega), List.getElem_append_left (by omega)]
      exact rows.joined i _ _
    · have isEnd' := (last.kind.eq_iff rfl).mp isEnd
      rw [List.getElem_append_right (show tokens.length ≤ i + 1 from outer),
        List.getElem_append_right (show tokens'.length ≤ i + 1 by omega)]
      simp [Token.Joins, isEnd, isEnd']

theorem withEnd (rows : RowsLike b tokens tokens') :
    RowsLike b (Cursor.withEnd tokens) (Cursor.withEnd tokens') := by
  have ended (s s' : Span) (same : b.span s = b.span s') :
      Token.Like b (.plain .endOfFile s) (.plain .endOfFile s') := ⟨.refl _, same, rfl⟩
  unfold Cursor.withEnd
  rcases rows.getLast? with ⟨none, none'⟩ | ⟨t, t', last, last', like⟩
  · rw [none, none']
    have empty := List.getLast?_eq_none_iff.mp none
    have empty' := List.getLast?_eq_none_iff.mp none'
    subst empty empty'
    exact append_end rows (ended _ _ rfl) rfl
  · rw [last, last']
    dsimp only
    rw [like.isEnd]
    split
    · exact rows
    · exact append_end rows (ended _ _ (b.span_end like.span)) rfl

theorem ofTokens (rows : RowsLike b tokens tokens') :
    (Cursor.ofTokens tokens).Like b (Cursor.ofTokens tokens') where
  position := rfl
  size := rows.withEnd.length
  token i h h' := rows.withEnd.token i h h'
  joined i h h' := rows.withEnd.joined i h h'

end RowsLike

/-- Both rows have a stray token behind their first end, or neither does. -/
theorem Cursor.Like.strayAfterEnd? {b : Blur} {c d : Cursor} (like : c.Like b d) :
    (c.strayAfterEnd? = none ∧ d.strayAfterEnd? = none) ∨
      ∃ t t', c.strayAfterEnd? = some t ∧ d.strayAfterEnd? = some t' ∧ t.Like b t' := by
  have size := like.size
  have ends : c.tokens.map Token.isEnd = d.tokens.map Token.isEnd := by
    refine Array.ext (by simpa using size) fun i h h' => ?_
    rw [Array.getElem_map, Array.getElem_map]
    exact (like.token i _ _).isEnd
  have first : c.tokens.findIdx? Token.isEnd = d.tokens.findIdx? Token.isEnd := by
    have found := congrArg (Array.findIdx? id) ends
    rwa [Array.findIdx?_map, Array.findIdx?_map] at found
  unfold Cursor.strayAfterEnd?
  rw [first]
  cases d.tokens.findIdx? Token.isEnd with
  | none => exact .inl ⟨rfl, rfl⟩
  | some i =>
    rcases Nat.lt_or_ge (i + 1) c.tokens.size with inner | outer
    · right
      refine ⟨_, _, Array.getElem?_eq_getElem inner, Array.getElem?_eq_getElem (by omega), ?_⟩
      exact like.token _ _ _
    · left
      constructor <;> exact Array.getElem?_eq_none (by omega)

/-- Rows that look alike are parsed alike, whatever may be nested in them. -/
theorem outcome_parseWith {b : Blur} {D : Deeper} (h : D.Like b) {tokens tokens' : List Token}
    (rows : RowsLike b tokens tokens') :
    b.outcome (parseWith D tokens) = b.outcome (parseWith D tokens') := by
  have like := rows.ofTokens
  have unit := Grammar.compilationUnit_like h _ _ like
  unfold parseWith
  rcases like.strayAfterEnd? with ⟨none, none'⟩ | ⟨t, t', stray, stray', same⟩
  · simp only [none, none']
    generalize Grammar.compilationUnit D (Cursor.ofTokens tokens) = left at unit ⊢
    generalize Grammar.compilationUnit D (Cursor.ofTokens tokens') = right at unit ⊢
    cases unit with
    | ok same like => exact congrArg Except.ok same
    | error same => exact congrArg Except.error same
  · simp only [stray, stray', Blur.outcome, ParseError.blur, same.span, same.kind.blur]

theorem outcome_parse {b : Blur} {tokens tokens' : List Token} (rows : RowsLike b tokens tokens') :
    b.outcome (parse tokens) = b.outcome (parse tokens') :=
  outcome_parseWith (Grammar.levels_like _) rows

/-! ## Layout -/

/-- Tokens that say the same, wherever they stand: their kinds are equal apart from the places of
bound variables, and a keyword is written alike. -/
def Token.SaysSame (t t' : Token) : Prop :=
  t.kind.blur .erasing = t'.kind.blur .erasing ∧
    (t.kind.keyword?.isSome → t.spelling = t'.spelling)

instance (t t' : Token) : Decidable (t.SaysSame t') := inferInstanceAs (Decidable (_ ∧ _))

instance (t u : Token) : Decidable (t.Joins u) := inferInstanceAs (Decidable (_ ∧ _))

theorem Token.SaysSame.like {t t' : Token} (same : t.SaysSame t') : t.Like .erasing t' where
  kind := TokenKind.like_of_blur same.1
  span := rfl
  word := by
    obtain ⟨kind, span, spelling⟩ := t
    obtain ⟨kind', span', spelling'⟩ := t'
    obtain ⟨kinds, spellings⟩ := same
    dsimp only at kinds spellings ⊢
    cases TokenKind.like_of_blur kinds with
    | refl =>
      cases kind with
      | keyword k => rw [Token.writtenWord?, Token.writtenWord?, spellings rfl]
      | _ => rfl
    | name same => exact congrArg some same
    | soql | sosl => rfl

/-- No message tells where anything stands. -/
theorem ParseError.message_erasing (e : ParseError) : (e.blur .erasing).message = e.message := by
  have description (k : TokenKind) : (k.blur .erasing).description = k.description := by
    cases k <;> rfl
  cases e with
  | unexpected span expected found =>
    exact congrArg ("expected " ++ listAlternatives expected ++ ", found " ++ ·) (description found)
  | malformedAnnotationValue span fault =>
    have reason : (fault.blur .erasing).reason = fault.reason := by
      cases fault with
      | noValue found =>
        exact congrArg (· ++ " is not a literal, array or annotation") (description found)
      | continued found =>
        exact congrArg ("unexpected " ++ · ++ " after value") (description found)
    exact congrArg ("malformed annotation value: " ++ ·) reason
  | unknownTriggerEvent | duplicateModifier => rfl
  | lexical e => rfl

/-- The grammar does not depend on layout. Rows whose tokens say the same, and in which the same
`>` tokens touch a `>` or `>=` behind them, are both accepted, with trees that differ in nothing but
places, or are both refused, for the same reason and with the same message. -/
theorem parse_of_saysSame {tokens tokens' : List Token}
    (same : List.Forall₂ Token.SaysSame tokens tokens')
    (joined : List.Forall₂ (fun p p' : Token × Token => p.1.Joins p.2 ↔ p'.1.Joins p'.2)
      (tokens.zip tokens.tail) (tokens'.zip tokens'.tail)) :
    match parse tokens, parse tokens' with
    | .ok unit, .ok unit' => unit.blur .erasing = unit'.blur .erasing
    | .error e, .error e' => e.blur .erasing = e'.blur .erasing ∧ e.message = e'.message
    | _, _ => False := by
  have rows : RowsLike .erasing tokens tokens' :=
    { length := same.length_eq
      token := fun i h h' => (same.get h h').like
      joined := fun i h h' => by
        have pair := joined.get (i := i) (by simp; omega) (by simp; omega)
        simpa using pair }
  have outcome := outcome_parse rows
  cases accepted : parse tokens <;> cases accepted' : parse tokens' <;>
    simp only [accepted, accepted', Blur.outcome, reduceCtorEq, Except.ok.injEq,
      Except.error.injEq] at outcome
  · exact ⟨outcome, by rw [← ParseError.message_erasing, outcome, ParseError.message_erasing]⟩
  · exact outcome

/-- A shift and nested type arguments, written on one line and on several. -/
theorem parse_of_saysSame_lines :
    ∃ tokens tokens' unit unit', lex "class C \x7b A<B<C>> x = y >> 1; \x7d" = .ok tokens ∧
      lex "class C\x7b\n  A < B < C>> x\n = y>>1 ;\n\x7d" = .ok tokens' ∧
      parse tokens = .ok unit ∧ parse tokens' = .ok unit' ∧
      unit.blur .erasing = unit'.blur .erasing := by
  have hypotheses : ((lex "class C \x7b A<B<C>> x = y >> 1; \x7d").toOption.bind fun tokens =>
      (lex "class C\x7b\n  A < B < C>> x\n = y>>1 ;\n\x7d").toOption.map fun tokens' =>
        (parse tokens).toBool && decide (List.Forall₂ Token.SaysSame tokens tokens' ∧
          List.Forall₂ (fun p p' : Token × Token => p.1.Joins p.2 ↔ p'.1.Joins p'.2)
            (tokens.zip tokens.tail) (tokens'.zip tokens'.tail))) = some true := by
    decide +kernel
  cases lexed : lex "class C \x7b A<B<C>> x = y >> 1; \x7d" with
  | error e => simp [lexed, Except.toOption] at hypotheses
  | ok tokens =>
    cases lexed' : lex "class C\x7b\n  A < B < C>> x\n = y>>1 ;\n\x7d" with
    | error e => simp [lexed, lexed', Except.toOption] at hypotheses
    | ok tokens' =>
      simp only [lexed, lexed', Except.toOption, Option.bind_some, Option.map_some,
        Option.some.injEq, Bool.and_eq_true, decide_eq_true_eq] at hypotheses
      obtain ⟨accepted, same, joined⟩ := hypotheses
      have outcome := parse_of_saysSame same joined
      cases parsed : parse tokens with
      | error e => simp [parsed, Except.toBool] at accepted
      | ok unit =>
        rw [parsed] at outcome
        cases parsed' : parse tokens' with
        | error e => simp only [parsed'] at outcome
        | ok unit' =>
          simp only [parsed'] at outcome
          exact ⟨tokens, tokens', unit, unit', rfl, rfl, parsed, parsed', outcome⟩

end Apex
