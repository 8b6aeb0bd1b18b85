import Apex.Grammar.Expr
import Apex.Proofs.Blur.Trees
import Apex.Proofs.Forms.Trees
import Apex.Proofs.Spans.Rows

/-!
# Forms on a row of tokens

Forms stand between two places of a row if the tokens there are of these forms, one form behind
the other. Two rows that are read in parallel are compared by the shapes of their tokens: all that
the grammar asks of a token, and all that a text keeps of it.
-/

namespace Apex

/-! ## Words and shapes -/

namespace Keyword

/-- The contextual keyword that a word spells. -/
def contextualOfWord? (word : String) : Option Keyword := (ofWord? word).filter (!·.isReserved)

theorem word_of_ofWord? {word : String} {k : Keyword} (h : ofWord? word = some k) :
    k.word = lowerWord word := by
  have found := List.find?_some h
  simpa using found

theorem ofWord?_eq_of_sameWord {v w : String} (h : sameWord v w = true) :
    ofWord? v = ofWord? w := by
  have same : lowerWord v = lowerWord w := by simpa [sameWord] using h
  unfold ofWord?
  rw [same]

theorem ofWord?_word (k : Keyword) : ofWord? k.word = some k := by
  cases k <;> decide +kernel

theorem ofWord?_of_isSpelledBy {k : Keyword} {w : String} (h : k.isSpelledBy w = true) :
    ofWord? w = some k := by
  rw [← ofWord?_eq_of_sameWord h, ofWord?_word]

theorem contextualOfWord?_word {w : String} {k : Keyword} (h : contextualOfWord? w = some k) :
    contextualOfWord? k.word = some k := by
  obtain ⟨found, contextual⟩ := Option.filter_eq_some_iff.mp h
  unfold contextualOfWord?
  rw [ofWord?_word]
  exact Option.filter_eq_some_iff.mpr ⟨rfl, contextual⟩

end Keyword

namespace TokenKind

/-- What the kind looks like when contextual keywords are read without regard to letter case and
the places of bound variables do not count. -/
def shape : TokenKind → TokenKind
  | .name text =>
    match Keyword.contextualOfWord? text with
    | some k => .name k.word
    | none => .name text
  | kind => kind.blur .erasing

/-- Whether the kind is a whole number or the sign that may stand before one. -/
def startsNumber : TokenKind → Bool
  | .integer _ | .long _ | .operator .minus => true
  | .operator _ | .keyword _ | .punctuation _ | .name _ | .decimal _ | .string _ | .soql _
  | .sosl _ | .endOfFile => false

/-- Whether the value of an annotation's argument may stand behind the token. -/
def opensValue : TokenKind → Bool
  | .operator .assign => true
  | .punctuation p => p == .openParen || p == .openBrace || p == .comma
  | _ => false

/-- Whether the kind is its own shape and the shape of nothing else: it is a keyword, a mark or an
operator, or the end. -/
def isFixed : TokenKind → Bool
  | .keyword _ | .operator _ | .punctuation _ | .endOfFile => true
  | _ => false

theorem blur_of_isFixed {k : TokenKind} (h : k.isFixed = true) : k.blur .erasing = k := by
  cases k <;> first | rfl | cases h

theorem eq_of_blur_eq {j k : TokenKind} (h : j.blur .erasing = k.blur .erasing) (fixed : k.isFixed = true) :
    j = k := by
  rw [blur_of_isFixed fixed] at h
  cases j <;> cases k <;> simp_all [blur, isFixed]

theorem shape_name (w : String) : ∃ v, (TokenKind.name w).shape = .name v := by
  simp only [shape]
  cases Keyword.contextualOfWord? w with
  | some k => exact ⟨k.word, rfl⟩
  | none => exact ⟨w, rfl⟩

theorem eq_of_shape_eq {j k : TokenKind} (h : j.shape = k.shape) (fixed : k.isFixed = true) :
    j = k := by
  cases j with
  | name w =>
    obtain ⟨v, hv⟩ := shape_name w
    rw [hv] at h
    cases k <;> simp_all [shape, blur, isFixed]
  | _ => cases k <;> simp_all [shape, blur, isFixed]

theorem shape_eq_blur {k : TokenKind} (h : k.isName = false) : k.shape = k.blur .erasing := by
  cases k <;> first | rfl | cases h

/-- Erasing is finer than taking shapes. -/
theorem shape_eq_of_blur_eq {j k : TokenKind} (h : j.blur .erasing = k.blur .erasing) : j.shape = k.shape := by
  cases j <;> cases k <;> simp_all [blur, shape, Blur.erasing]

theorem isName_eq_of_shape_eq {j k : TokenKind} (h : j.shape = k.shape) : j.isName = k.isName := by
  cases j with
  | name w =>
    obtain ⟨v, hv⟩ := shape_name w
    rw [hv] at h
    cases k <;> first | rfl | cases h
  | _ =>
    cases k with
    | name w =>
      obtain ⟨v, hv⟩ := shape_name w
      rw [hv] at h
      cases h
    | _ => rfl

/-- Names of one shape are the same word in different letter case at most. -/
theorem sameWord_of_shape_eq {v w : String} (h : (TokenKind.name v).shape = (TokenKind.name w).shape) :
    sameWord v w = true := by
  unfold shape at h
  cases hv : Keyword.contextualOfWord? v with
  | none =>
    cases hw : Keyword.contextualOfWord? w with
    | none =>
      simp only [hv, hw, name.injEq] at h
      simp [sameWord, h]
    | some k =>
      simp only [hv, hw, name.injEq] at h
      rw [h, Keyword.contextualOfWord?_word hw] at hv
      cases hv
  | some j =>
    cases hw : Keyword.contextualOfWord? w with
    | none =>
      simp only [hv, hw, name.injEq] at h
      rw [← h, Keyword.contextualOfWord?_word hv] at hw
      cases hw
    | some k =>
      simp only [hv, hw, name.injEq] at h
      have foundV := Keyword.word_of_ofWord? (Option.filter_eq_some_iff.mp hv).1
      have foundW := Keyword.word_of_ofWord? (Option.filter_eq_some_iff.mp hw).1
      simp [sameWord, ← foundV, ← foundW, h]

theorem spells_eq_of_shape_eq {j k : TokenKind} (h : j.shape = k.shape) (kw : Keyword) :
    j.spells kw = k.spells kw := by
  have names := isName_eq_of_shape_eq h
  cases j with
  | name v =>
    cases k with
    | name w =>
      have same := sameWord_of_shape_eq h
      simp only [sameWord, beq_iff_eq] at same
      simp [spells, Keyword.isSpelledBy, sameWord, same]
    | _ => cases names
  | _ => cases k <;> first | rfl | cases names

/-- Names that spell one contextual keyword have one shape. -/
theorem shape_of_spells {k : TokenKind} {kw : Keyword} (h : k.spells kw = true)
    (contextual : kw.isReserved = false) : k.shape = .name kw.word := by
  cases k with
  | name w =>
    have found := Keyword.ofWord?_of_isSpelledBy h
    have : Keyword.contextualOfWord? w = some kw :=
      Option.filter_eq_some_iff.mpr ⟨found, by simp [contextual]⟩
    simp [shape, this]
  | _ => cases h

theorem operator?_eq_of_shape_eq {j k : TokenKind} (h : j.shape = k.shape) :
    j.operator? = k.operator? := by
  cases hj : j.isFixed with
  | true => rw [eq_of_shape_eq h.symm hj]
  | false =>
    cases hk : k.isFixed with
    | true => rw [eq_of_shape_eq h hk]
    | false =>
      cases j <;> cases hj <;> cases k <;> cases hk <;> rfl

end TokenKind

/-! ## Tokens of a text -/

/-- The text is a word of the language. -/
def IsWord (text : String) : Prop :=
  ∃ c cs, text.toList = c :: cs ∧ isWordStart c = true ∧ cs.all isWordPart = true

/-- The text is that of a query of the given language. -/
def QueryLanguage.Opens (language : QueryLanguage) (text : String) : Prop :=
  queryAhead? (text.toList ++ [']']) = some language ∧
    queryLength 0 0 false (text.toList ++ [']']) = (text.toList.length, .closed)

/-- The query is one that a source text can hold: its text opens a query of the language, and its
variables are those that the text binds. -/
def QueryLanguage.Holds (language : QueryLanguage) (query : Query) : Prop :=
  language.Opens query.text ∧
    query.blur .erasing = (Query.ofText 0 query.text.toList).blur .erasing

/-- The token is one that a source text can hold. -/
def Token.Genuine (t : Token) : Prop :=
  match t.kind with
  | .name text => IsWord text ∧ Keyword.reservedOfWord? text = none
  | .keyword k =>
    ∃ written, t.writtenWord? = some written ∧ IsWord written ∧
      Keyword.reservedOfWord? written = some k
  | .integer value | .long value => 0 ≤ value.toInt
  | .decimal value => value.isNegative = false ∧ value.isNaN = false
  | .soql query => QueryLanguage.soql.Holds query
  | .sosl query => QueryLanguage.sosl.Holds query
  | .operator o => o.isComposed = false
  | .string _ | .punctuation _ | .endOfFile => True

/-- The row is one that a source text is cut into. -/
structure Cursor.Sound (c : Cursor) : Prop where
  sorted : c.Sorted
  genuine : ∀ t ∈ c.tokens, t.Genuine

namespace Cursor

variable {c c' : Cursor}

theorem Upto.sound (h : c.Upto c') (s : c.Sound) : c'.Sound :=
  ⟨h.sorted s.sorted, by rw [h.tokens]; exact s.genuine⟩

theorem Sound.advance (s : c.Sound) : c.advance.Sound := (upto_advance c).sound s

theorem current_mem (c : Cursor) : c.current ∈ c.tokens := by
  rw [c.current_eq c.inBounds]
  exact Array.getElem_mem _

theorem Sound.current (s : c.Sound) : c.current.Genuine := s.genuine _ c.current_mem

end Cursor

/-- A word's token is of the kind that the word says. -/
theorem Token.Genuine.kind_eq_wordKind {t : Token} {text : String} (h : t.Genuine)
    (written : t.writtenWord? = some text) : t.kind = wordKind text := by
  unfold Genuine at h
  unfold wordKind
  cases hk : t.kind with
  | name w =>
    simp only [writtenWord?, hk, TokenKind.word?, Option.some.injEq] at h written
    subst written
    rw [h.2]
  | keyword k =>
    simp only [hk] at h
    obtain ⟨w, hw, _, found⟩ := h
    rw [written] at hw
    cases hw
    rw [found]
  | _ => simp [writtenWord?, hk, TokenKind.word?] at written

/-! ## Operators on a row -/

/-- The kinds of the tokens that spell an operator. -/
def Operator.kinds : Operator → List TokenKind
  | .shiftRight => [.operator .greater, .operator .greater]
  | .shiftRightZero => [.operator .greater, .operator .greater, .operator .greater]
  | .shiftRightAssign => [.operator .greater, .operator .greaterEqual]
  | .shiftRightZeroAssign => [.operator .greater, .operator .greater, .operator .greaterEqual]
  | o => [.operator o]

namespace Grammar

variable {c d : Cursor}

/-- Tokens of the given kinds lie ahead. -/
def KindsAhead : List TokenKind → Cursor → Prop
  | [], _ => True
  | k :: ks, c => c.current.kind = k ∧ KindsAhead ks c.advance

theorem isEnd_of_greater (h : c.current.kind = .operator .greater) : c.current.isEnd = false :=
  Parser.isEnd_of_kind h (by simp)

theorem composedAhead?_kinds {o : Operator} {n : Nat} (h : composedAhead? c = some (o, n)) :
    KindsAhead o.kinds c ∧ n = o.kinds.length := by
  unfold composedAhead? at h
  split at h
  case isFalse => cases h
  next first =>
    have first : c.current.kind = .operator .greater := by
      have := (Bool.and_eq_true_iff.mp first).1
      simpa using this
    have e₁ := Cursor.peek_one (isEnd_of_greater first)
    rw [e₁] at h
    cases second : c.advance.current.kind with
    | operator q =>
      have e₂ : q = .greater → c.peek 2 = c.advance.advance.current := by
        rintro rfl
        rw [Cursor.peek_succ (isEnd_of_greater first), Cursor.peek_one (isEnd_of_greater second)]
      cases q <;> simp only [second, reduceCtorEq] at h
      case greaterEqual =>
        cases h
        exact ⟨⟨first, second, trivial⟩, rfl⟩
      case greater =>
        rw [e₂ rfl] at h
        split at h
        · cases third : c.advance.advance.current.kind with
          | operator r =>
            cases r <;> simp only [third] at h <;> cases h <;>
              first
              | exact ⟨⟨first, second, third, trivial⟩, rfl⟩
              | exact ⟨⟨first, second, trivial⟩, rfl⟩
          | _ =>
            simp only [third] at h
            cases h
            exact ⟨⟨first, second, trivial⟩, rfl⟩
        · cases h
          exact ⟨⟨first, second, trivial⟩, rfl⟩
    | _ => simp only [second, reduceCtorEq] at h

theorem composedAhead?_of_kind (h : c.current.kind ≠ .operator .greater) :
    composedAhead? c = none := by
  unfold composedAhead?
  rw [if_neg]
  simp [h]

theorem operatorAhead?_kinds {o : Operator} {n : Nat} (h : operatorAhead? c = some (o, n)) :
    KindsAhead o.kinds c ∧ n = o.kinds.length := by
  unfold operatorAhead? at h
  cases hc : composedAhead? c with
  | some found =>
    simp only [hc] at h
    cases h
    exact composedAhead?_kinds hc
  | none =>
    cases hk : c.current.kind with
    | operator p =>
      simp only [hc, hk] at h
      split at h
      · cases h
      · next single =>
        cases h
        cases o <;> first | exact absurd rfl single | exact ⟨⟨hk, trivial⟩, rfl⟩
    | _ => simp only [hc, hk, reduceCtorEq] at h

/-- Unless it begins with `>`, the operator ahead is known from the token under the cursor. -/
theorem operatorAhead?_congr (h : c.current.kind.operator? = d.current.kind.operator?)
    (other : c.current.kind ≠ .operator .greater) : operatorAhead? c = operatorAhead? d := by
  have other' : d.current.kind ≠ .operator .greater := by
    intro hd
    rw [hd] at h
    cases hc : c.current.kind <;> simp_all [TokenKind.operator?]
  unfold operatorAhead?
  rw [composedAhead?_of_kind other, composedAhead?_of_kind other']
  cases hc : c.current.kind <;> cases hd : d.current.kind <;>
    simp_all [TokenKind.operator?]

end Grammar

/-! ## Forms on a row -/

open Grammar

/-- Where forms are looked for: in a source, or in the text of a tree. -/
inductive Side where
  | source | text

/-- The tokens from the first place to the second are of the form. A sign before the number zero
is found in a source only. -/
def Form.Reads (side : Side) (form : Form) (c c' : Cursor) : Prop :=
  match form with
  | .kind k => c.current.kind.blur .erasing = k.blur .erasing ∧ c.current.isEnd = false ∧ c' = c.advance
  | .word text =>
    c.current.writtenWord? = some text ∧ c.current.kind = wordKind text ∧ c' = c.advance
  | .spelled k => c.current.kind.spells k = true ∧ c' = c.advance
  | .operator o => ∃ n, operatorAhead? c = some (o, n) ∧ c' = c.advances n
  | .zero k =>
    k.startsNumber = true ∧
      match side with
      | .source =>
        (c.current.kind = k ∧ c' = c.advance) ∨
          (c.current.kind = .operator .minus ∧ c.advance.current.kind = k ∧
            c' = c.advance.advance)
      | .text => c.current.kind = k ∧ c' = c.advance

/-- The tokens from the first place to the second are of the forms, one behind the other. -/
def Stands (side : Side) : List Form → Cursor → Cursor → Prop
  | [], c, c' => c' = c
  | form :: forms, c, c' => ∃ c₁, form.Reads side c c₁ ∧ Stands side forms c₁ c'

namespace Cursor

variable {c c' : Cursor}

theorem before_advances (h : c.current.isEnd = false) {n : Nat} (hn : n ≠ 0) :
    c.Before (c.advances n) := by
  obtain ⟨n, rfl⟩ := Nat.exists_eq_succ_of_ne_zero hn
  have first := before_advance h
  have more : ∀ (n : Nat) (d : Cursor), d.Upto (d.advances n) := by
    intro n
    induction n with
    | zero => exact fun d => .refl d
    | succ n ih => exact fun d => (upto_advance d).trans (ih d.advance)
  exact first.trans_upto (more n c.advance)

end Cursor

section

variable {side : Side} {form : Form} {forms others : List Form} {c c₁ c' d : Cursor}

theorem Operator.kinds_ne_nil (o : Operator) : o.kinds ≠ [] := by cases o <;> simp [kinds]

theorem isEnd_of_kindsAhead {o : Operator} (h : KindsAhead o.kinds c) :
    c.current.isEnd = false := by
  cases o <;> exact Parser.isEnd_of_kind h.1 (by simp)

theorem Form.Reads.before (h : form.Reads side c c') : c.Before c' := by
  cases form with
  | kind k =>
    obtain ⟨_, inside, rfl⟩ := h
    exact Cursor.before_advance inside
  | word text =>
    obtain ⟨written, _, rfl⟩ := h
    exact Cursor.before_advance (Parser.isEnd_of_writtenWord? written)
  | spelled k =>
    obtain ⟨spells, rfl⟩ := h
    refine Cursor.before_advance ?_
    cases hk : c.current.kind <;> simp_all [TokenKind.spells, Token.isEnd]
  | operator o =>
    obtain ⟨n, ahead, rfl⟩ := h
    obtain ⟨kinds, rfl⟩ := operatorAhead?_kinds ahead
    exact Cursor.before_advances (isEnd_of_kindsAhead kinds) (by simp [o.kinds_ne_nil])
  | zero k =>
    obtain ⟨number, reads⟩ := h
    have inside : ∀ {j : TokenKind}, j.startsNumber = true → j ≠ .endOfFile := by
      rintro j hj rfl
      cases hj
    cases side with
    | text =>
      obtain ⟨hk, rfl⟩ := reads
      exact Parser.before_of_kind hk (inside number)
    | source =>
      obtain ⟨hk, rfl⟩ | ⟨sign, hk, rfl⟩ := reads
      · exact Parser.before_of_kind hk (inside number)
      · have first := Parser.before_of_kind sign (by simp)
        exact first.trans (Parser.before_of_kind hk (inside number))

theorem Stands.upto (h : Stands side forms c c') : c.Upto c' := by
  induction forms generalizing c with
  | nil =>
    cases h
    exact .refl _
  | cons form forms ih =>
    obtain ⟨c₁, first, rest⟩ := h
    exact first.before.upto.trans (ih rest)

theorem Stands.before (h : Stands side forms c c') (some : forms ≠ []) : c.Before c' := by
  cases forms with
  | nil => exact absurd rfl some
  | cons form forms =>
    obtain ⟨c₁, first, rest⟩ := h
    exact first.before.trans_upto rest.upto

theorem stands_append :
    Stands side (forms ++ others) c c' ↔
      ∃ c₁, Stands side forms c c₁ ∧ Stands side others c₁ c' := by
  induction forms generalizing c with
  | nil =>
    constructor
    · exact fun h => ⟨c, rfl, h⟩
    · rintro ⟨_, rfl, h⟩
      exact h
  | cons form forms ih =>
    constructor
    · rintro ⟨c₁, first, rest⟩
      obtain ⟨c₂, rest, more⟩ := ih.mp rest
      exact ⟨c₂, ⟨c₁, first, rest⟩, more⟩
    · rintro ⟨c₂, ⟨c₁, first, rest⟩, more⟩
      exact ⟨c₁, first, ih.mpr ⟨c₂, rest, more⟩⟩

theorem Stands.append (h : Stands side forms c c₁) (h' : Stands side others c₁ c') :
    Stands side (forms ++ others) c c' :=
  stands_append.mpr ⟨c₁, h, h'⟩

theorem stands_single : Stands side [form] c c' ↔ form.Reads side c c' := by
  constructor
  · rintro ⟨c₁, first, rfl⟩
    exact first
  · exact fun h => ⟨c', h, rfl⟩

end

end Apex
