import Apex.Proofs.Blur.Lexemes
import Apex.Proofs.Blur.Programs

/-!
# Source texts without regard to letter case

The language does not tell small letters from capitals. When the letters of a source text are
written in another case, quoted literals apart, the same tokens stand in the same places, with the
same keywords, and names that differ in letter case only. So the same program is read, or the same
error is found at the same place.
-/

namespace Apex

/-! ## Tokens -/

/-- What is left of a token without regard to letter case. -/
def Token.folded (t : Token) : TokenKind × Span × Option String :=
  (t.kind.blur .folding, t.span, t.writtenWord?.map lowerWord)

theorem Token.like_of_folded {t t' : Token} (same : t.folded = t'.folded) : t.Like .folding t' := by
  simp only [folded, Prod.mk.injEq] at same
  exact ⟨TokenKind.like_of_blur same.1, same.2.1, same.2.2⟩

theorem Token.Like.folded {t t' : Token} (like : t.Like .folding t') : t.folded = t'.folded := by
  simp only [Token.folded, like.kind.blur, show t.span = t'.span from like.span,
    show t.writtenWord?.map lowerWord = t'.writtenWord?.map lowerWord from like.word]

theorem RowsLike.of_folded {tokens tokens' : List Token}
    (same : tokens.map Token.folded = tokens'.map Token.folded) :
    RowsLike .folding tokens tokens' := by
  have length : tokens.length = tokens'.length := by simpa using congrArg List.length same
  have token (i : Nat) (h : i < tokens.length) (h' : i < tokens'.length) :
      tokens[i].Like .folding tokens'[i] := by
    refine Token.like_of_folded ?_
    have at' := congrArg (·[i]?) same
    simpa [h, h'] using at'
  refine ⟨length, token, fun i h h' => ?_⟩
  have first := token i (by omega) (by omega)
  have second := token (i + 1) h h'
  have start : tokens[i].span = tokens'[i].span := first.span
  have stop : tokens[i + 1].span = tokens'[i + 1].span := second.span
  have operator (o : Operator) : tokens[i].kind = .operator o ↔ tokens'[i].kind = .operator o :=
    first.kind.eq_iff rfl
  have operator' (o : Operator) :
      tokens[i + 1].kind = .operator o ↔ tokens'[i + 1].kind = .operator o :=
    second.kind.eq_iff rfl
  simp only [Token.Joins, start, stop, operator, operator']

/-- Stretches of text read so far, up to letter case. -/
structure Lexing.Like (l l' : Lexing) : Prop where
  tokens : l.tokens.map Token.folded = l'.tokens.map Token.folded
  errors : l.errors = l'.errors
  offset : l.offset = l'.offset

/-- A keyword keeps the way it is written. -/
theorem writtenWord?_ofKeyword (k : Keyword) (written : String) (span : Span) :
    (Token.ofKeyword k written span).writtenWord? = some written := by
  unfold Token.ofKeyword Token.writtenWord?
  by_cases usual : written = k.word
  · simp only [usual, if_pos, TokenKind.word?]
  · simp only [if_neg usual]

theorem writtenWord?_plain (kind : TokenKind) (span : Span) :
    (Token.plain kind span).writtenWord? = kind.word? := by
  cases kind <;> rfl

theorem Lexing.Like.add {l l' : Lexing} (like : l.Like l') {content content' : LexemeContent}
    (same : content.folded = content'.folded) (stop : Nat) :
    (l.add content stop).Like (l'.add content' stop) := by
  obtain ⟨tokens, errors, offset⟩ := like
  cases content <;> cases content' <;>
    simp only [LexemeContent.folded, reduceCtorEq, LexemeContent.token.injEq,
      LexemeContent.keyword.injEq, LexemeContent.faulty.injEq] at same
  case blank.blank => exact ⟨tokens, errors, rfl⟩
  case token.token kind kind' =>
    have kinds := TokenKind.like_of_blur same
    have token : (Token.plain kind ⟨l.offset, stop⟩).Like .folding
        (.plain kind' ⟨l'.offset, stop⟩) := by
      refine ⟨kinds, by rw [offset]; rfl, ?_⟩
      rw [writtenWord?_plain, writtenWord?_plain]
      exact kinds.word?
    refine ⟨?_, errors, rfl⟩
    simp only [Lexing.add, List.map_cons, token.folded, tokens]
  case keyword.keyword k written k' written' =>
    obtain ⟨rfl, same⟩ := same
    have token : (Token.ofKeyword k written ⟨l.offset, stop⟩).Like .folding
        (.ofKeyword k written' ⟨l'.offset, stop⟩) := by
      refine ⟨.refl _, by rw [offset]; rfl, ?_⟩
      rw [writtenWord?_ofKeyword, writtenWord?_ofKeyword]
      exact congrArg some same
    refine ⟨?_, errors, rfl⟩
    simp only [Lexing.add, List.map_cons, token.folded, tokens]
  case faulty.faulty found found' =>
    subst same
    exact ⟨tokens, by simp only [Lexing.add, errors], rfl⟩

/-! ## Quoted characters -/

/-- Which characters of a text belong to quoted literals. The first `skip` characters belong to a
lexeme that has been met before, a quoted literal if `quoted` says so. -/
def quotedMarks (quoted : Bool) : (skip : Nat) → List Char → List Bool
  | _, [] => []
  | skip + 1, _ :: cs => quoted :: quotedMarks quoted skip cs
  | 0, c :: cs => (c == '\'') :: quotedMarks (c == '\'') (Lexeme.read 0 c cs).more cs

/-- The second text is the first one with some letters outside quoted literals written in another
case. -/
structure Recased (source source' : String) : Prop where
  letters : source.toList.map Char.toLower = source'.toList.map Char.toLower
  quoted : ∀ p ∈ (quotedMarks false 0 source.toList).zip (source.toList.zip source'.toList),
    p.1 = true → p.2.1 = p.2.2

/-- Inside a quoted literal nothing is changed. -/
theorem take_eq_of_quoted {skip : Nat} {cs ds : List Char} (length : cs.length = ds.length)
    (same : ∀ p ∈ (quotedMarks true skip cs).zip (cs.zip ds), p.1 = true → p.2.1 = p.2.2) :
    cs.take skip = ds.take skip := by
  induction skip generalizing cs ds with
  | zero => rfl
  | succ skip ih =>
    rcases cs with _ | ⟨c, cs⟩ <;> rcases ds with _ | ⟨d, ds⟩
    · rfl
    · exact nomatch length
    · exact nomatch length
    · simp only [quotedMarks, List.zip_cons_cons, List.forall_mem_cons] at same
      rw [List.take_succ_cons, List.take_succ_cons, same.1 trivial,
        ih (by simpa using length) same.2]

/-! ## The lexer -/

/-- A text and the same text in other letter case are cut into lexemes that look alike. -/
theorem lexFrom_like {l l' : Lexing} (like : l.Like l') {quoted : Bool} {skip : Nat}
    {cs ds : List Char} (letters : cs.map Char.toLower = ds.map Char.toLower)
    (same : ∀ p ∈ (quotedMarks quoted skip cs).zip (cs.zip ds), p.1 = true → p.2.1 = p.2.2) :
    (lexFrom l skip cs).Like (lexFrom l' skip ds) := by
  induction cs generalizing l l' quoted skip ds with
  | nil =>
    cases List.map_eq_nil_iff.mp letters.symm
    exact like
  | cons c cs ih =>
    rcases ds with _ | ⟨d, ds⟩
    · exact nomatch letters
    have length : cs.length = ds.length := by simpa using congrArg List.length letters
    simp only [List.map_cons, List.cons.injEq] at letters
    cases skip with
    | succ skip =>
      simp only [quotedMarks, List.zip_cons_cons, List.forall_mem_cons] at same
      exact ih like letters.2 same.2
    | zero =>
      simp only [quotedMarks, List.zip_cons_cons, List.forall_mem_cons] at same
      obtain ⟨first, rest⟩ := same
      rw [Lexeme.more_read 0 l.offset] at rest
      have read : (Lexeme.read l.offset c cs).folded = (Lexeme.read l.offset d ds).folded := by
        by_cases quote : c = '\''
        · subst quote
          cases first rfl
          rw [Lexeme.read_quote] at rest ⊢
          rw [Lexeme.read_quote, Lexeme.quoted_congr _ length (take_eq_of_quoted length rest)]
        · exact Lexeme.read_like _ quote letters.1 letters.2
      have more : (Lexeme.read l.offset c cs).more = (Lexeme.read l.offset d ds).more := by
        have folded := congrArg Lexeme.more read
        exact folded
      have size : byteSize (c :: cs.take (Lexeme.read l.offset c cs).more) =
          byteSize (d :: ds.take (Lexeme.read l.offset d ds).more) := by
        rw [← byteSize_lower, ← byteSize_lower (d :: _), List.map_cons, List.map_cons,
          List.map_take, List.map_take, letters.1, letters.2, more]
      rw [lexFrom, lexFrom, ← like.offset, size, ← more]
      have content := congrArg Lexeme.content read
      exact ih (like.add content _) letters.2 rest

/-- The same tokens stand in the same places, or the same faults. -/
theorem lex_like {source source' : String} (recased : Recased source source') :
    match lex source, lex source' with
    | .ok tokens, .ok tokens' => RowsLike .folding tokens tokens'
    | .error errors, .error errors' => errors = errors'
    | _, _ => False := by
  have like := lexFrom_like (l := ⟨[], [], 0⟩) ⟨rfl, rfl, rfl⟩ recased.letters recased.quoted
  unfold lex
  generalize lexFrom ⟨[], [], 0⟩ 0 source.toList = left at like ⊢
  generalize lexFrom ⟨[], [], 0⟩ 0 source'.toList = right at like ⊢
  obtain ⟨tokens, errors, offset⟩ := like
  dsimp only
  rw [errors, offset]
  by_cases clean : right.errors.isEmpty = true
  · rw [if_pos clean, if_pos clean]
    refine RowsLike.of_folded ?_
    simp only [List.map_reverse, List.map_cons, tokens]
  · rw [if_neg clean, if_neg clean]

/-! ## Parsing -/

/-- The language does not tell small letters from capitals. Of two texts that differ in the case of
letters outside quoted literals either both are programs, with trees that differ in nothing but the
case of names and queries, or both are refused with the same error at the same place. -/
theorem parseSource_of_recased {source source' : String} (recased : Recased source source') :
    match parseSource source, parseSource source' with
    | .ok unit, .ok unit' => unit.blur .folding = unit'.blur .folding
    | .error e, .error e' => e.blur .folding = e'.blur .folding ∧ e.span = e'.span
    | _, _ => False := by
  have lexed := lex_like recased
  unfold parseSource
  generalize lex source = left at lexed ⊢
  generalize lex source' = right at lexed ⊢
  rcases left with errors | tokens <;> rcases right with errors' | tokens' <;>
    dsimp only at lexed ⊢
  · subst lexed
    cases errors with
    | nil => exact ⟨rfl, rfl⟩
    | cons first _ => exact ⟨rfl, rfl⟩
  · have outcome := outcome_parse lexed
    generalize parse tokens = left at outcome ⊢
    generalize parse tokens' = right at outcome ⊢
    rcases left with e | unit <;> rcases right with e' | unit' <;>
      simp only [Blur.outcome, reduceCtorEq, Except.ok.injEq, Except.error.injEq] at outcome
    · have span := congrArg ParseError.span outcome
      rw [ParseError.span_blur, ParseError.span_blur] at span
      exact ⟨outcome, span⟩
    · exact outcome

/-- A class in two spellings, with a literal that keeps its capital. -/
theorem parseSource_of_recased_class :
    Recased "Class C \x7b String t = 'Ab' + x.Get(2L)[0]; \x7d"
        "cLASS c \x7b STRING T = 'Ab' + X.gET(2l)[0]; \x7d" ∧
      ∃ unit unit', parseSource "Class C \x7b String t = 'Ab' + x.Get(2L)[0]; \x7d" = .ok unit ∧
        parseSource "cLASS c \x7b STRING T = 'Ab' + X.gET(2l)[0]; \x7d" = .ok unit' ∧
        unit.blur .folding = unit'.blur .folding := by
  have both (source source' : String) (recased : Recased source source')
      (accepted : (parseSource source).toBool = true) :
      ∃ unit unit', parseSource source = .ok unit ∧ parseSource source' = .ok unit' ∧
        unit.blur .folding = unit'.blur .folding := by
    have outcome := parseSource_of_recased recased
    cases parsed : parseSource source with
    | error e => simp [parsed, Except.toBool] at accepted
    | ok unit =>
      rw [parsed] at outcome
      cases parsed' : parseSource source' with
      | error e => simp only [parsed'] at outcome
      | ok unit' =>
        simp only [parsed'] at outcome
        exact ⟨unit, unit', rfl, rfl, outcome⟩
  have recased : Recased "Class C \x7b String t = 'Ab' + x.Get(2L)[0]; \x7d"
      "cLASS c \x7b STRING T = 'Ab' + X.gET(2l)[0]; \x7d" :=
    ⟨by decide +kernel, by decide +kernel⟩
  exact ⟨recased, both _ _ recased (by decide +kernel)⟩

end Apex
