import Apex.Proofs.Blur.Lexemes
import Mathlib.Data.List.TakeWhile

/-!
# Lexemes on their own

What a lexeme contributes is settled by its own characters: neither the place where it stands nor
the text behind it matters, although some lexemes are told by looking further ahead than they reach.
-/

namespace Apex

/-! ## Other places -/

/-- The span `n` bytes further on. -/
def Span.moved (n : Nat) (s : Span) : Span := ⟨s.start + n, s.stop + n⟩

/-- The value with its place `n` bytes further on. -/
def Spanned.moved {α : Type} (n : Nat) (s : Spanned α) : Spanned α := ⟨s.value, s.span.moved n⟩

/-- The query with its bound variables `n` bytes further on. -/
def Query.moved (n : Nat) (q : Query) : Query := ⟨q.text, q.binds.map (Spanned.moved n)⟩

/-- The kind `n` bytes further on. Only queries have places in them. -/
def TokenKind.moved (n : Nat) : TokenKind → TokenKind
  | .soql q => .soql (q.moved n)
  | .sosl q => .sosl (q.moved n)
  | kind => kind

/-- The token `n` bytes further on. -/
def Token.moved (n : Nat) (t : Token) : Token := ⟨t.kind.moved n, t.span.moved n, t.spelling⟩

/-- The error `n` bytes further on. -/
def LexError.moved (n : Nat) (e : LexError) : LexError := ⟨e.fault, e.span.moved n⟩

/-- The content `n` bytes further on. -/
def LexemeContent.moved (n : Nat) : LexemeContent → LexemeContent
  | .blank => .blank
  | .token kind => .token (kind.moved n)
  | .keyword k written => .keyword k written
  | .faulty errors => .faulty (errors.map (LexError.moved n))

/-- The lexeme `n` bytes further on. -/
def Lexeme.moved (n : Nat) (lexeme : Lexeme) : Lexeme := ⟨lexeme.more, lexeme.content.moved n⟩

/-- The token under a span that a lexeme contributes, if it is one. -/
def LexemeContent.token? (span : Span) : LexemeContent → Option Token
  | .token kind => some (.plain kind span)
  | .keyword k written => some (.ofKeyword k written span)
  | .blank | .faulty _ => none

theorem LexemeContent.token?_moved (n : Nat) (span : Span) (content : LexemeContent) :
    (content.moved n).token? (span.moved n) = (content.token? span).map (Token.moved n) := by
  cases content <;> rfl

theorem LexemeContent.span_of_token? {span : Span} {content : LexemeContent} {t : Token}
    (bears : content.token? span = some t) : t.span = span := by
  cases content <;> cases bears <;> rfl

/-! ## What a text starts with -/

/-- The ways a lexeme can start, with what is read there. -/
inductive Lexeme.Reads (start : Nat) : Char → List Char → Lexeme → Prop
  | gap {c : Char} {cs : List Char} (isGap : isGap c) : Reads start c cs ⟨0, .blank⟩
  | word {c : Char} {cs : List Char} (noGap : ¬isGap c) (letter : isWordStart c) :
    Reads start c cs (word c cs)
  | numeral {c : Char} {cs : List Char} (noGap : ¬isGap c) (noLetter : ¬isWordStart c)
    (digit : c.isDigit) : Reads start c cs (numeral start c cs)
  | lineComment (cs : List Char) :
    Reads start '/' ('/' :: cs) ⟨1 + (cs.takeWhile (· != '\n')).length, .blank⟩
  | blockComment (cs : List Char) : Reads start '/' ('*' :: cs) (blockComment start cs)
  | quoted (cs : List Char) : Reads start '\'' cs (quoted start cs)
  | sign {c : Char} {cs : List Char} (noGap : ¬isGap c) (noLetter : ¬isWordStart c)
    (noDigit : ¬c.isDigit) (unquoted : c ≠ '\'')
    (noLine : ∀ rest, c = '/' → cs = '/' :: rest → False)
    (noBlock : ∀ rest, c = '/' → cs = '*' :: rest → False) : Reads start c cs (sign start c cs)

namespace Lexeme

theorem Reads.eq {start : Nat} {c : Char} {cs : List Char} {lexeme : Lexeme}
    (reads : Reads start c cs lexeme) : read start c cs = lexeme := by
  cases reads with
  | gap isGap => exact if_pos isGap
  | word noGap letter =>
    unfold read
    rw [if_neg noGap, if_pos letter]
  | numeral noGap noLetter digit =>
    unfold read
    rw [if_neg noGap, if_neg noLetter, if_pos digit]
  | lineComment cs => rfl
  | blockComment cs => rfl
  | quoted cs => rfl
  | sign noGap noLetter noDigit unquoted noLine noBlock =>
    exact read_eq_sign noGap noLetter noDigit unquoted noLine noBlock

theorem read_query {language : QueryLanguage} {cs : List Char}
    (ahead : queryAhead? cs = some language) (start : Nat) :
    read start '[' cs = query language start cs := by
  have sign : Reads start '[' cs (sign start '[' cs) :=
    .sign (by decide) (by decide) (by decide) (by decide) nofun nofun
  rw [sign.eq, Lexeme.sign, if_pos rfl, ahead]

theorem exists_reads (start : Nat) (c : Char) (cs : List Char) :
    ∃ lexeme, Reads start c cs lexeme ∧ read start c cs = lexeme := by
  suffices ∃ lexeme, Reads start c cs lexeme from this.imp fun _ reads => ⟨reads, reads.eq⟩
  by_cases gap : isGap c
  · exact ⟨_, .gap gap⟩
  by_cases letter : isWordStart c
  · exact ⟨_, .word gap letter⟩
  by_cases digit : c.isDigit
  · exact ⟨_, .numeral gap letter digit⟩
  by_cases quote : c = '\''
  · subst quote
    exact ⟨_, .quoted cs⟩
  by_cases line : ∃ rest, c = '/' ∧ cs = '/' :: rest
  · obtain ⟨rest, rfl, rfl⟩ := line
    exact ⟨_, .lineComment rest⟩
  by_cases block : ∃ rest, c = '/' ∧ cs = '*' :: rest
  · obtain ⟨rest, rfl, rfl⟩ := block
    exact ⟨_, .blockComment rest⟩
  exact ⟨_, .sign gap letter digit quote (fun rest slash found => line ⟨rest, slash, found⟩)
    fun rest slash found => block ⟨rest, slash, found⟩⟩

end Lexeme

/-! ## Reading at another place -/

/-- What has been decoded, `n` bytes further on. -/
def Decoding.moved (n : Nat) (found : Decoding) : Decoding :=
  ⟨found.value, found.errors.map (LexError.moved n)⟩

theorem decodeQuoted_moved (n : Nat) (found : Decoding) (offset skip : Nat) (cs : List Char) :
    decodeQuoted (found.moved n) (offset + n) skip cs =
      (decodeQuoted found offset skip cs).moved n := by
  fun_induction decodeQuoted found offset skip cs with
  | case1 found offset => rw [decodeQuoted.eq_1]
  | case2 found offset skip c cs ih => rw [decodeQuoted.eq_2, Nat.add_right_comm, ih]
  | case3 found offset cs digits code run found' ih =>
    rw [decodeQuoted.eq_3, run, ← ih, Nat.add_right_comm offset 2 n]
    dsimp only
    congr 1
    unfold found'
    split
    · rfl
    · simp only [Decoding.moved, List.map_cons, LexError.moved, Span.moved]
      congr 4
      omega
  | case4 found offset letter cs noCode found' ih =>
    rw [decodeQuoted.eq_4 _ _ _ _ noCode, Nat.add_right_comm offset n 1,
      Nat.add_right_comm (offset + 1) n, ← ih]
    congr 1
    unfold found'
    split <;> rfl
  | case5 found offset c cs noCode noEscape ih =>
    rw [decodeQuoted.eq_5 _ _ _ _ noCode noEscape, Nat.add_right_comm, ← ih]
    rfl

/-- The bound variables of a query are found wherever it stands. -/
theorem bindsIn_moved (n : Nat) (found : List (Spanned String)) (offset : Nat) (inString : Bool)
    (cs : List Char) :
    bindsIn (found.map (Spanned.moved n)) (offset + n) inString cs =
      (bindsIn found offset inString cs).map (Spanned.moved n) := by
  fun_induction bindsIn found offset inString cs
  case case1 => rw [bindsIn.eq_1]
  case case5 found offset inString c cs outside ahead bind span ih =>
    rw [bindsIn.eq_def]
    simp only [if_neg outside, if_pos ahead, Nat.add_right_comm _ n]
    rw [← ih]
    rfl
  all_goals
    rw [bindsIn.eq_def]
    simp_all [Nat.add_right_comm _ n]

theorem Query.ofText_moved (n offset : Nat) (text : List Char) :
    Query.ofText (offset + n) text = (Query.ofText offset text).moved n := by
  have binds := bindsIn_moved n [] offset false text
  unfold Query.ofText Query.moved
  rw [List.map_reverse, ← binds, List.map_nil]

/-- A numeral is a number. -/
theorem Numeral.kind_cases {n : Numeral} {kind : TokenKind} (found : n.kind = .ok kind) :
    (∃ v, kind = .integer v) ∨ (∃ v, kind = .long v) ∨ ∃ v, kind = .decimal v := by
  unfold Numeral.kind at found
  split at found
  · cases found
    exact .inr (.inr ⟨_, rfl⟩)
  · split at found <;> cases found
    · exact .inr (.inl ⟨_, rfl⟩)
    · exact .inl ⟨_, rfl⟩

namespace Lexeme

/-- A mark is an operator or a punctuation mark. -/
theorem markAhead?_cases {c : Char} {cs : List Char} {kind : TokenKind} {more : Nat}
    (found : markAhead? c cs = some (kind, more)) :
    (∃ o, kind = .operator o) ∨ ∃ p, kind = .punctuation p := by
  revert found
  fun_cases markAhead? c cs
  all_goals
    intro found
    cases found
  all_goals
    first
    | exact .inl ⟨_, rfl⟩
    | exact .inr ⟨_, rfl⟩

theorem faulty_moved (n : Nat) (fault : LexFault) (start : Nat) (c : Char) (cs : List Char)
    (more : Nat) : faulty fault (start + n) c cs more = (faulty fault start c cs more).moved n := by
  unfold faulty
  rw [Nat.add_right_comm]
  rfl

theorem blockComment_moved (n start : Nat) (cs : List Char) :
    blockComment (start + n) cs = (blockComment start cs).moved n := by
  unfold blockComment
  split
  · rfl
  · exact faulty_moved n _ start _ _ _

theorem quoted_moved (n start : Nat) (cs : List Char) :
    quoted (start + n) cs = (quoted start cs).moved n := by
  have decoded (inner : List Char) : decodeQuoted ⟨[], []⟩ (start + n + 1) 0 inner =
      (decodeQuoted ⟨[], []⟩ (start + 1) 0 inner).moved n := by
    rw [Nat.add_right_comm]
    exact decodeQuoted_moved n ⟨[], []⟩ (start + 1) 0 inner
  unfold quoted
  dsimp only
  rw [decoded]
  split
  · simp only [Decoding.moved, List.isEmpty_map, ← List.map_reverse]
    split
    all_goals rfl
  · simp only [Decoding.moved, moved, LexemeContent.moved, List.map_append, List.map_reverse,
      List.map_cons, List.map_nil, LexError.moved, Span.moved, Nat.add_right_comm]

theorem query_moved (language : QueryLanguage) (n start : Nat) (cs : List Char) :
    query language (start + n) cs = (query language start cs).moved n := by
  unfold query
  rcases queryLength 0 0 false cs with ⟨length, ending⟩
  cases ending with
  | closed =>
    dsimp only
    rw [Nat.add_right_comm, Query.ofText_moved]
    cases language <;> rfl
  | sourceEnd => exact faulty_moved n _ start _ _ _
  | sourceEndInString => exact faulty_moved n _ start _ _ _

theorem numeral_moved (n start : Nat) (c : Char) (cs : List Char) :
    numeral (start + n) c cs = (numeral start c cs).moved n := by
  unfold numeral
  dsimp only
  split
  · next kind found =>
    obtain ⟨v, rfl⟩ | ⟨v, rfl⟩ | ⟨v, rfl⟩ := Numeral.kind_cases found <;> rfl
  · exact faulty_moved n _ start _ _ _

theorem sign_moved (n start : Nat) (c : Char) (cs : List Char) :
    sign (start + n) c cs = (sign start c cs).moved n := by
  unfold sign
  split
  · exact query_moved _ n start cs
  · split
    · next kind more found =>
      obtain ⟨o, rfl⟩ | ⟨p, rfl⟩ := markAhead?_cases found <;> rfl
    · exact faulty_moved n _ start _ _ _

/-- A lexeme contributes the same wherever it stands. -/
theorem read_moved (n start : Nat) (c : Char) (cs : List Char) :
    read (start + n) c cs = (read start c cs).moved n := by
  obtain ⟨lexeme, cut, same⟩ := exists_reads start c cs
  rw [same]
  cases cut with
  | gap isGap => exact (Reads.gap isGap).eq
  | word noGap letter =>
    rw [(Reads.word noGap letter).eq]
    unfold word moved
    dsimp only
    split <;> rfl
  | numeral noGap noLetter digit =>
    rw [(Reads.numeral noGap noLetter digit).eq, numeral_moved]
  | lineComment cs => rfl
  | blockComment cs => exact blockComment_moved n start cs
  | quoted cs => exact quoted_moved n start cs
  | sign noGap noLetter noDigit unquoted noLine noBlock =>
    rw [(Reads.sign noGap noLetter noDigit unquoted noLine noBlock).eq, sign_moved]

end Lexeme

/-! ## Kinds of content -/

/-- The content is no end of the text, and where there are faults there is one. -/
def LexemeContent.IsProper : LexemeContent → Prop
  | .token kind => kind ≠ .endOfFile
  | .faulty errors => errors ≠ []
  | .blank | .keyword _ _ => True

theorem LexemeContent.IsProper.isEnd_eq_false {content : LexemeContent} (proper : content.IsProper)
    {span : Span} {t : Token} (bears : content.token? span = some t) : t.isEnd = false := by
  cases content with
  | blank | faulty => exact nomatch bears
  | keyword k written => cases bears; rfl
  | token kind =>
    cases bears
    cases kind <;> first | rfl | exact absurd rfl proper

/-- What has no token is blank space or has a fault in it. -/
theorem LexemeContent.IsProper.blank_or_faulty {content : LexemeContent} (proper : content.IsProper)
    {span : Span} (bears : content.token? span = none) :
    content = .blank ∨ ∃ e errors, content = .faulty (e :: errors) := by
  cases content with
  | blank => exact .inl rfl
  | token | keyword => exact nomatch bears
  | faulty errors =>
    obtain ⟨e, errors, rfl⟩ := List.exists_cons_of_ne_nil proper
    exact .inr ⟨e, errors, rfl⟩

namespace Lexeme

theorem isProper_faulty (fault : LexFault) (start : Nat) (c : Char) (cs : List Char) (more : Nat) :
    (faulty fault start c cs more).content.IsProper := nofun

theorem isProper_quoted (start : Nat) (cs : List Char) : (quoted start cs).content.IsProper := by
  unfold quoted
  dsimp only
  split
  · split
    · exact nofun
    · next found =>
      intro none
      rw [List.reverse_eq_nil_iff.mp none] at found
      exact found rfl
  · exact List.append_ne_nil_of_right_ne_nil _ nofun

theorem isProper_query (language : QueryLanguage) (start : Nat) (cs : List Char) :
    (query language start cs).content.IsProper := by
  unfold query
  rcases queryLength 0 0 false cs with ⟨length, ending⟩
  cases ending with
  | closed => cases language <;> exact nofun
  | sourceEnd | sourceEndInString => exact isProper_faulty _ _ _ _ _

theorem isProper_read (start : Nat) (c : Char) (cs : List Char) :
    (read start c cs).content.IsProper := by
  obtain ⟨lexeme, cut, same⟩ := exists_reads start c cs
  rw [same]
  cases cut with
  | gap isGap => trivial
  | word noGap letter =>
    unfold word
    dsimp only
    split
    · trivial
    · exact nofun
  | numeral noGap noLetter digit =>
    unfold numeral
    dsimp only
    split
    · next kind found =>
      obtain ⟨v, rfl⟩ | ⟨v, rfl⟩ | ⟨v, rfl⟩ := Numeral.kind_cases found <;> exact nofun
    · exact isProper_faulty _ _ _ _ _
  | lineComment cs => trivial
  | blockComment cs =>
    unfold blockComment
    split
    · trivial
    · exact isProper_faulty _ _ _ _ _
  | quoted cs => exact isProper_quoted start cs
  | sign noGap noLetter noDigit unquoted noLine noBlock =>
    unfold sign
    split
    · exact isProper_query _ _ _
    · split
      · next kind more found =>
        obtain ⟨o, rfl⟩ | ⟨p, rfl⟩ := markAhead?_cases found <;> exact nofun
      · exact isProper_faulty _ _ _ _ _

end Lexeme

/-! ## Reading no further than a lexeme reaches -/

theorem dropWhile_take {p : Char → Bool} (n : Nat) (cs : List Char) :
    (cs.take n).dropWhile p = (cs.dropWhile p).take (n - (cs.takeWhile p).length) := by
  induction cs generalizing n with
  | nil => simp
  | cons c cs ih =>
    cases n with
    | zero => simp
    | succ n =>
      by_cases hc : p c = true
      · simp [hc, ih]
      · simp [hc]

theorem takeWhile_take_length (p : Char → Bool) (cs : List Char) :
    (cs.take (cs.takeWhile p).length).takeWhile p = cs.takeWhile p := by
  rw [← List.take_takeWhile, List.take_length]

namespace Numeral

theorem fractionAhead_take (n : Nat) (cs : List Char) :
    fractionAhead (cs.take n) = (fractionAhead cs).take (n - 1) := by
  cases n with
  | zero => simp [fractionAhead]
  | succ n =>
    fun_cases fractionAhead cs with
    | case1 cs => exact List.take_takeWhile.symm
    | case2 cs pointless =>
      rw [List.take_nil]
      refine fractionAhead.eq_2 _ fun rest found => ?_
      rcases cs with _ | ⟨c, cs⟩
      · cases found
      · obtain ⟨rfl, -⟩ := List.cons.inj found
        exact pointless cs rfl

theorem markAhead_take (hasFraction : Bool) (cs : List Char) :
    markAhead hasFraction (cs.take (if markAhead hasFraction cs = .none then 0 else 1)) =
      markAhead hasFraction cs := by
  split
  · next none => rw [none]; rfl
  · cases cs <;> rfl

/-- A numeral is read from its own characters. -/
theorem read_take (text : List Char) : read (text.take (read text).length) = read text := by
  unfold read length
  dsimp only
  rw [← List.take_takeWhile, dropWhile_take]
  generalize text.takeWhile Char.isDigit = whole
  generalize text.dropWhile Char.isDigit = after
  rw [List.take_of_length_le (by omega), Nat.add_assoc, Nat.add_sub_cancel_left, fractionAhead_take]
  by_cases empty : fractionAhead after = []
  · simp [empty, markAhead_take]
  · have point : (fractionAhead after).isEmpty = false := by simpa using empty
    simp only [point, Bool.false_eq_true, if_false, Bool.not_false]
    rw [List.take_of_length_le (by omega)]
    simp only [point, Bool.false_eq_true, if_false, Bool.not_false]
    rw [List.drop_take, Nat.add_sub_cancel_left, markAhead_take]

end Numeral

/-- A closed literal ends at a quote, which is found by the characters up to it. -/
theorem quotedLength_closed {n m : Nat} {cs : List Char} (closed : quotedLength n cs = (m, .closed)) :
    ∃ inner rest, cs = inner ++ '\'' :: rest ∧ m = n + inner.length ∧
      ∀ rest', quotedLength n (inner ++ '\'' :: rest') = (m, .closed) := by
  fun_induction quotedLength n cs with
  | case1 | case3 | case4 => cases closed
  | case2 n cs =>
    cases closed
    exact ⟨[], cs, rfl, rfl, fun _ => rfl⟩
  | case5 n c cs ih =>
    obtain ⟨inner, rest, rfl, rfl, ends⟩ := ih closed
    refine ⟨'\\' :: c :: inner, rest, rfl, by simp only [List.length_cons]; omega, fun rest' => ?_⟩
    exact (quotedLength.eq_5 _ _ _).trans (ends rest')
  | case6 n c cs quote newline last shield ih =>
    obtain ⟨inner, rest, rfl, rfl, ends⟩ := ih closed
    refine ⟨c :: inner, rest, rfl, by simp only [List.length_cons]; omega, fun rest' => ?_⟩
    have unshielded : c ≠ '\\' := by
      rintro rfl
      cases found : inner ++ '\'' :: rest with
      | nil => exact last rfl found
      | cons d ds => exact shield d ds rfl found
    rw [List.cons_append, quotedLength.eq_6 _ _ _ quote newline (absurd · unshielded)
      fun _ _ => (absurd · unshielded), ends rest']

/-- A closed query ends at a bracket, which is found by the characters up to it. -/
theorem queryLength_closed {depth n m : Nat} {inString : Bool} {cs : List Char}
    (closed : queryLength depth n inString cs = (m, .closed)) :
    ∃ inner rest, cs = inner ++ ']' :: rest ∧ m = n + inner.length ∧
      ∀ rest', queryLength depth n inString (inner ++ ']' :: rest') = (m, .closed) := by
  fun_induction queryLength depth n inString cs
  case case1 => split at closed <;> cases closed
  case case2 => cases closed
  case case6 n inString cs outside _ =>
    cases closed
    refine ⟨[], cs, rfl, rfl, fun rest' => ?_⟩
    rw [List.nil_append, queryLength.eq_def]
    simp [outside]
  case case3 depth n c cs ih =>
    obtain ⟨inner, rest, rfl, rfl, ends⟩ := ih closed
    refine ⟨'\\' :: c :: inner, rest, rfl, by simp only [List.length_cons]; omega, fun rest' => ?_⟩
    rw [List.cons_append, List.cons_append, queryLength.eq_def]
    exact ends rest'
  all_goals
    rename_i ih
    obtain ⟨inner, rest, rfl, rfl, ends⟩ := ih closed
    refine ⟨_ :: inner, rest, rfl, by simp only [List.length_cons]; omega, fun rest' => ?_⟩
    rw [List.cons_append, queryLength.eq_def]
    simp_all

theorem takeWhile_append_stop {p : Char → Bool} {stop : Char} (stops : p stop = false)
    (inner rest : List Char) : (inner ++ stop :: rest).takeWhile p = inner.takeWhile p := by
  induction inner with
  | nil => simp [stops]
  | cons c inner ih => simp only [List.cons_append, List.takeWhile_cons, ih]

theorem dropWhile_append_stop {p : Char → Bool} {stop : Char} (stops : p stop = false)
    (inner rest : List Char) :
    (inner ++ stop :: rest).dropWhile p = inner.dropWhile p ++ stop :: rest := by
  induction inner with
  | nil => simp [stops]
  | cons c inner ih =>
    simp only [List.cons_append, List.dropWhile_cons, ih]
    split <;> rfl

theorem head?_append_stop (inner : List Char) (stop : Char) (rest : List Char) :
    (inner ++ stop :: rest).head? = (inner ++ [stop]).head? := by
  cases inner <;> rfl

/-- Whether a query starts is settled before the next closing bracket. -/
theorem queryAhead?_append_bracket (inner rest : List Char) :
    queryAhead? (inner ++ ']' :: rest) = queryAhead? (inner ++ [']']) := by
  have space : isWhiteSpace ']' = false := by decide
  have letter : isWordPart ']' = false := by decide
  unfold queryAhead?
  simp only [dropWhile_append_stop space, dropWhile_append_stop letter,
    takeWhile_append_stop letter, head?_append_stop _ _ rest]
  split
  · cases ((inner.dropWhile isWhiteSpace).dropWhile isWordPart).dropWhile isWhiteSpace <;> rfl
  · rfl

namespace Lexeme

theorem exists_of_take_eq_cons {n : Nat} {c : Char} {cs rest : List Char}
    (found : cs.take n = c :: rest) : ∃ rest, cs = c :: rest :=
  ⟨rest ++ cs.drop n, by rw [← List.cons_append, ← found, List.take_append_drop]⟩

theorem word_take (c : Char) (cs : List Char) : word c (cs.take (word c cs).more) = word c cs := by
  unfold word
  dsimp only
  rw [takeWhile_take_length]

theorem numeral_more (start : Nat) (c : Char) (cs : List Char) :
    (numeral start c cs).more = (Numeral.read (c :: cs)).length - 1 := by
  unfold numeral
  dsimp only
  split <;> rfl

theorem numeral_take {start : Nat} {c : Char} {cs : List Char} {span : Span} {t : Token}
    (digit : c.isDigit) (bears : (numeral start c cs).content.token? span = some t) :
    numeral start c (cs.take (numeral start c cs).more) = numeral start c cs := by
  have long : 0 < (Numeral.read (c :: cs)).length := by
    simp only [Numeral.length, Numeral.read, List.takeWhile_cons, digit, if_true, List.length_cons]
    omega
  have same := Numeral.read_take (c :: cs)
  rw [List.take_cons long] at same
  rw [numeral_more]
  unfold numeral at bears ⊢
  rw [same]
  cases found : (Numeral.read (c :: cs)).kind with
  | ok kind => simp only [found]
  | error fault =>
    simp only [found] at bears
    exact nomatch bears

/-- What is read of a quoted literal without faults does not depend on what follows. -/
theorem quoted_take {start : Nat} {cs : List Char} {span : Span} {t : Token}
    (bears : (quoted start cs).content.token? span = some t) :
    quoted start (cs.take (quoted start cs).more) = quoted start cs := by
  rcases found : quotedLength 0 cs with ⟨n, ending⟩
  have closed : ending = .closed := by
    by_contra open'
    simp [quoted, found, open', LexemeContent.token?] at bears
  subst closed
  obtain ⟨inner, rest, rfl, rfl, ends⟩ := quotedLength_closed found
  rw [quoted_more, found]
  simp only [reduceCtorEq, if_false, Nat.zero_add] at found ends ⊢
  rw [List.take_length_add_append, List.take_succ_cons, List.take_zero]
  unfold quoted
  rw [found, ends []]
  simp only [if_true, List.take_left]

/-- A query reaches to a closing bracket, and does not depend on what follows it. -/
theorem query_closed {language : QueryLanguage} {start : Nat} {cs : List Char} {span : Span}
    {t : Token} (bears : (query language start cs).content.token? span = some t) :
    ∃ inner rest, cs = inner ++ ']' :: rest ∧
      (query language start cs).more = inner.length + 1 ∧
      query language start (inner ++ [']']) = query language start cs := by
  rcases found : queryLength 0 0 false cs with ⟨n, ending⟩
  have closed : ending = .closed := by
    unfold query at bears
    rw [found] at bears
    cases ending with
    | closed => rfl
    | sourceEnd | sourceEndInString => exact nomatch bears
  subst closed
  obtain ⟨inner, rest, rfl, rfl, ends⟩ := queryLength_closed found
  rw [Nat.zero_add] at found ends
  refine ⟨inner, rest, rfl, ?_, ?_⟩
  · unfold query
    rw [found]
  · unfold query
    rw [found, ends []]
    simp only [List.take_left]

theorem markAhead?_take {c : Char} {cs : List Char} {kind : TokenKind} {more : Nat}
    (found : markAhead? c cs = some (kind, more)) :
    markAhead? c (cs.take more) = some (kind, more) := by
  revert found
  fun_cases markAhead? c cs
  all_goals
    intro found
    cases found
  all_goals rfl

theorem sign_take {start : Nat} {c : Char} {cs : List Char} {span : Span} {t : Token}
    (bears : (sign start c cs).content.token? span = some t) :
    sign start c (cs.take (sign start c cs).more) = sign start c cs := by
  cases ahead : (if c = '[' then queryAhead? cs else none) with
  | some language =>
    have isQuery : sign start c cs = query language start cs := by
      unfold sign
      rw [ahead]
    rw [isQuery] at bears ⊢
    obtain ⟨inner, rest, rfl, more, same⟩ := query_closed bears
    rw [more, List.take_length_add_append, List.take_succ_cons, List.take_zero]
    unfold sign
    rw [← queryAhead?_append_bracket, ahead]
    exact same
  | none =>
    unfold sign at bears ⊢
    rw [ahead] at bears ⊢
    cases mark : markAhead? c cs with
    | none =>
      rw [mark] at bears
      exact nomatch bears
    | some found =>
      obtain ⟨kind, more⟩ := found
      have same := markAhead?_take mark
      have noQuery : (if c = '[' then queryAhead? (cs.take more) else none) = none := by
        split
        · next bracket =>
          subst bracket
          cases mark
          rfl
        · rfl
      simp only [noQuery, same]

/-- A lexeme that becomes a token is told by its own characters. -/
theorem read_take {start : Nat} {c : Char} {cs : List Char} {span : Span} {t : Token}
    (bears : (read start c cs).content.token? span = some t) :
    read start c (cs.take (read start c cs).more) = read start c cs := by
  obtain ⟨lexeme, cut, same⟩ := exists_reads start c cs
  rw [same] at bears ⊢
  cases cut with
  | gap isGap => exact nomatch bears
  | word noGap letter => rw [(Reads.word noGap letter).eq, word_take]
  | numeral noGap noLetter digit =>
    rw [(Reads.numeral noGap noLetter digit).eq, numeral_take digit bears]
  | lineComment cs => exact nomatch bears
  | blockComment cs =>
    unfold blockComment at bears
    split at bears <;> exact nomatch bears
  | quoted cs => rw [(Reads.quoted _).eq, quoted_take bears]
  | sign noGap noLetter noDigit unquoted noLine noBlock =>
    rw [(Reads.sign noGap noLetter noDigit unquoted _ _).eq, sign_take bears]
    · intro rest slash found
      obtain ⟨rest, rfl⟩ := exists_of_take_eq_cons found
      exact noLine rest slash rfl
    · intro rest slash found
      obtain ⟨rest, rfl⟩ := exists_of_take_eq_cons found
      exact noBlock rest slash rfl

end Lexeme

end Apex
