import Apex.Proofs.Blur.Sources
import Apex.Proofs.Writing.Spelling

/-!
# What a source can hold

Every token that is read of a source text is one that a text can hold: words are words of the
language, numbers have no sign, and queries are queries. So whatever stands in a source can be
written again.
-/

namespace Apex

open Grammar

/-! ## Values -/

namespace Binary64

theorem infinityPattern_lt : infinityPattern < Nat.pow 2 63 := by decide

theorem nearestPattern_le (num den : Nat) : nearestPattern num den ≤ infinityPattern :=
  Nat.min_le_right ..

/-- Patterns are positive numbers up to infinity. -/
theorem ofPattern_spec {pattern : Nat} (small : pattern ≤ infinityPattern) :
    (ofPattern false pattern).isNegative = false ∧
      (ofPattern false pattern).magnitude = pattern := by
  have power : Nat.pow 2 63 = 9223372036854775808 := by decide
  have below := Nat.lt_of_le_of_lt small infinityPattern_lt
  have bits : (UInt64.ofNat pattern).toNat = pattern := by
    rw [UInt64.toNat_ofNat']
    exact Nat.mod_eq_of_lt (by omega)
  constructor
  · simp only [isNegative, ofPattern, Bool.false_eq_true, if_false, bits, decide_eq_false_iff_not]
    omega
  · simp only [magnitude, ofPattern, Bool.false_eq_true, if_false, bits]
    exact Nat.mod_eq_of_lt below

theorem ofDecimal_eq_ofPattern (digits : Nat) (exponent : Int) :
    ∃ pattern, pattern ≤ infinityPattern ∧
      ofDecimal false digits exponent = ofPattern false pattern := by
  unfold ofDecimal
  cases exponent with
  | ofNat up => exact ⟨_, nearestPattern_le .., rfl⟩
  | negSucc down => exact ⟨_, nearestPattern_le .., rfl⟩

end Binary64

/-! ## Tokens -/

theorem genuine_word {c : Char} (cs : List Char) (letter : isWordStart c = true) {span : Span}
    {t : Token} (bears : (Lexeme.word c cs).content.token? span = some t) : t.Genuine := by
  have word : IsWord (String.ofList (c :: cs.takeWhile isWordPart)) :=
    ⟨c, _, String.toList_ofList, letter, List.all_takeWhile⟩
  unfold Lexeme.word at bears
  dsimp only at bears
  split at bears
  · next k found =>
    cases bears
    exact ⟨_, writtenWord?_ofKeyword .., word, found⟩
  · next found =>
    cases bears
    exact ⟨word, found⟩

theorem genuine_numeral {n : Numeral} {kind : TokenKind} (found : n.kind = .ok kind) (span : Span) :
    (Token.plain kind span).Genuine := by
  have whole : ∀ {value}, n.wholeValue? = some value → 0 ≤ value.toInt := by
    intro value fits
    unfold Numeral.wholeValue? at fits
    dsimp only at fits
    split at fits
    · next small =>
      cases fits
      rw [Int64.toInt_ofNat_of_lt small]
      exact Int.natCast_nonneg _
    · cases fits
  unfold Numeral.kind at found
  split at found
  · cases found
    obtain ⟨pattern, small, eq⟩ := Binary64.ofDecimal_eq_ofPattern
      (decimalValue (n.whole ++ n.fraction)) (-(n.fraction.length : Int))
    obtain ⟨positive, magnitude⟩ := Binary64.ofPattern_spec small
    show _ ∧ _
    rw [eq]
    refine ⟨positive, ?_⟩
    simpa [Binary64.isNaN, magnitude] using small
  · split at found
    · next fits _ =>
      cases found
      exact whole fits
    · next fits _ =>
      cases found
      exact whole fits
    · cases found
    · cases found

theorem genuine_query {language : QueryLanguage} {start : Nat} {cs : List Char} {span : Span}
    {t : Token} (ahead : queryAhead? cs = some language)
    (bears : (Lexeme.query language start cs).content.token? span = some t) : t.Genuine := by
  rcases found : queryLength 0 0 false cs with ⟨n, ending⟩
  unfold Lexeme.query at bears
  rw [found] at bears
  cases ending with
  | sourceEnd => cases bears
  | sourceEndInString => cases bears
  | closed =>
    obtain ⟨inner, rest, rfl, rfl, ends⟩ := queryLength_closed found
    rw [Nat.zero_add] at found ends bears
    simp only [List.take_left] at bears
    have holds : language.Holds (Query.ofText (start + 1) inner) := by
      have text : (Query.ofText (start + 1) inner).text = String.ofList inner := rfl
      refine ⟨⟨?_, ?_⟩, ?_⟩
      · rw [text, String.toList_ofList, ← queryAhead?_append_bracket inner rest, ahead]
      · rw [text, String.toList_ofList, ends []]
      · rw [text, String.toList_ofList]
        have moved := Query.ofText_moved (start + 1) 0 inner
        rw [Nat.zero_add] at moved
        rw [moved]
        simp only [Query.blur, Query.moved, List.map_map]
        rfl
    cases language with
    | soql =>
      cases bears
      exact holds
    | sosl =>
      cases bears
      exact holds

theorem genuine_mark {c : Char} {cs : List Char} {kind : TokenKind} {more : Nat}
    (found : Lexeme.markAhead? c cs = some (kind, more)) (span : Span) :
    (Token.plain kind span).Genuine := by
  revert found
  fun_cases Lexeme.markAhead? c cs
  all_goals
    intro found
    cases found
  all_goals first | exact trivial | rfl

theorem genuine_read {start : Nat} {c : Char} {cs : List Char} {span : Span} {t : Token}
    (bears : (Lexeme.read start c cs).content.token? span = some t) : t.Genuine := by
  obtain ⟨lexeme, reads, same⟩ := Lexeme.exists_reads start c cs
  rw [same] at bears
  cases reads with
  | gap | lineComment => cases bears
  | word _ letter => exact genuine_word cs letter bears
  | numeral =>
    unfold Lexeme.numeral at bears
    dsimp only at bears
    split at bears
    · next found =>
      cases bears
      exact genuine_numeral found _
    · cases bears
  | blockComment cs =>
    unfold Lexeme.blockComment at bears
    split at bears <;> cases bears
  | quoted =>
    unfold Lexeme.quoted at bears
    dsimp only at bears
    split at bears
    · split at bears
      · cases bears
        trivial
      · cases bears
    · cases bears
  | sign =>
    unfold Lexeme.sign at bears
    split at bears
    · next ahead =>
      split at ahead
      · exact genuine_query ahead bears
      · cases ahead
    · split at bears
      · next found =>
        cases bears
        exact genuine_mark found _
      · cases bears

/-! ## Rows -/

theorem genuine_lexFrom {l : Lexing} (h : ∀ t ∈ l.tokens, t.Genuine) (skip : Nat)
    (cs : List Char) : ∀ t ∈ (lexFrom l skip cs).tokens, t.Genuine := by
  induction cs generalizing l skip with
  | nil => cases skip <;> exact h
  | cons c cs ih =>
    cases skip with
    | succ skip => exact ih h skip
    | zero =>
      refine ih ?_ _
      have read := @genuine_read l.offset c cs
        ⟨l.offset, l.offset + byteSize (c :: cs.take (Lexeme.read l.offset c cs).more)⟩
      cases content : (Lexeme.read l.offset c cs).content with
      | blank | faulty => exact h
      | token kind =>
        rw [content] at read
        exact List.forall_mem_cons.mpr ⟨read rfl, h⟩
      | keyword k written =>
        rw [content] at read
        exact List.forall_mem_cons.mpr ⟨read rfl, h⟩

/-- The tokens of a text are those that a text can hold. -/
theorem sound_of_lex {source : String} {tokens : List Token} (h : lex source = .ok tokens) :
    (Cursor.ofTokens tokens).Sound := by
  refine ⟨sorted_of_lex h, ?_⟩
  rw [tokens_of_lex h]
  unfold lex at h
  dsimp only at h
  split at h
  · cases h
    intro t member
    have member : t = Token.plain .endOfFile
          (Span.point (lexFrom ⟨[], [], 0⟩ 0 source.toList).offset) ∨
        t ∈ (lexFrom ⟨[], [], 0⟩ 0 source.toList).tokens := by
      simpa [or_comm] using member
    rcases member with rfl | member
    · trivial
    · exact genuine_lexFrom (by simp) 0 source.toList t member
  · cases h

/-! ## Forms -/

/-- The word that opens a query behind a bracket. -/
def IsSelect (text : String) : Prop := sameWord "select" text = true

/-- The kind is one that can be written: a token of a source, and no name that could be taken for
the start of a query. -/
def TokenKind.Sayable : TokenKind → Prop
  | .name text => IsWord text ∧ Keyword.reservedOfWord? text = none ∧ ¬IsSelect text
  | .keyword k => k.isReserved = true
  | .integer value | .long value => 0 ≤ value.toInt
  | .decimal value => value.isNegative = false ∧ value.isNaN = false
  | .soql query => QueryLanguage.soql.Holds query
  | .sosl query => QueryLanguage.sosl.Holds query
  | .operator o => o.isComposed = false
  | .string _ | .punctuation _ => True
  | .endOfFile => False

/-- The form is one that can be written. -/
def Form.Sayable : Form → Prop
  | .kind k => k.Sayable
  | .word text => IsWord text ∧ ¬IsSelect text
  | .spelled _ | .operator _ | .zero _ => True

theorem QueryLanguage.Holds.of_blur_eq {language : QueryLanguage} {q q' : Query}
    (h : language.Holds q) (same : q.blur .erasing = q'.blur .erasing) : language.Holds q' := by
  have text : (q.blur .erasing).text = (q'.blur .erasing).text := by rw [same]
  have text : q.text = q'.text := text
  unfold QueryLanguage.Holds at h ⊢
  rwa [← same, ← text]

theorem not_isSelect_of_reserved {text : String} {k : Keyword}
    (h : Keyword.reservedOfWord? text = some k) : ¬IsSelect text := by
  intro select
  have found := (Option.filter_eq_some_iff.mp h).1
  rw [← Keyword.ofWord?_eq_of_sameWord select] at found
  have none : Keyword.ofWord? "select" = none := by decide +kernel
  rw [none] at found
  cases found

theorem Form.Reads.sayable {form : Form} {c c' : Cursor} (h : form.Reads .source c c')
    (sound : c.Sound) (free : ∀ t ∈ c.tokens, ∀ text, t.kind = .name text → ¬IsSelect text) :
    form.Sayable := by
  have genuine := sound.current
  have free := free _ c.current_mem
  unfold Token.Genuine at genuine
  cases form with
  | kind k =>
    obtain ⟨same, inside, _⟩ := h
    cases hk : c.current.kind with
    | name text =>
      rw [hk] at genuine same
      cases k <;> cases same
      exact ⟨genuine.1, genuine.2, free _ hk⟩
    | keyword j =>
      rw [hk] at genuine same
      cases k <;> cases same
      obtain ⟨_, _, _, found⟩ := genuine
      exact (Option.filter_eq_some_iff.mp found).2
    | soql q =>
      rw [hk] at genuine same
      cases k <;> simp only [TokenKind.blur, reduceCtorEq, TokenKind.soql.injEq] at same
      exact genuine.of_blur_eq same
    | sosl q =>
      rw [hk] at genuine same
      cases k <;> simp only [TokenKind.blur, reduceCtorEq, TokenKind.sosl.injEq] at same
      exact genuine.of_blur_eq same
    | endOfFile => simp [Token.isEnd, hk] at inside
    | _ =>
      rw [hk] at genuine same
      cases k <;> cases same
      exact genuine
  | word text =>
    obtain ⟨written, _, _⟩ := h
    cases hk : c.current.kind with
    | name w =>
      simp only [Token.writtenWord?, hk, TokenKind.word?, Option.some.injEq] at written
      subst written
      rw [hk] at genuine
      exact ⟨genuine.1, free _ hk⟩
    | keyword k =>
      rw [hk] at genuine
      obtain ⟨w, again, word, found⟩ := genuine
      rw [written] at again
      cases again
      exact ⟨word, not_isSelect_of_reserved found⟩
    | _ => simp [Token.writtenWord?, hk, TokenKind.word?] at written
  | spelled | operator | zero => trivial

/-- What stands in a source can be written, unless a name in it spells the word of queries. -/
theorem sayable_of_stands {forms : List Form} {c c' : Cursor} (h : Stands .source forms c c')
    (sound : c.Sound) (free : ∀ t ∈ c.tokens, ∀ text, t.kind = .name text → ¬IsSelect text) :
    ∀ form ∈ forms, form.Sayable := by
  induction forms generalizing c with
  | nil => simp
  | cons form forms ih =>
    obtain ⟨c₁, first, rest⟩ := h
    have moved := first.before
    refine List.forall_mem_cons.mpr ⟨first.sayable sound free, ih rest (moved.upto.sound sound) ?_⟩
    rwa [moved.tokens]

end Apex
