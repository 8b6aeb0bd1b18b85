import Apex.Proofs.Blur.Programs
import Apex.Proofs.Tiling.Blanks
import Apex.Proofs.Tiling.QueryWords
import Apex.Proofs.Tiling.Reaches

/-!
# Blank space is interchangeable

Blank space and comments between two tokens do the same as a single space would, unless an opening
bracket then takes the words behind it for the start of a query. White space alone always does the
same.
-/

namespace Apex

/-! ## Brackets -/

theorem Lexeme.markAhead?_openBracket {c : Char} {cs : List Char} {more : Nat}
    (found : markAhead? c cs = some (.punctuation .openBracket, more)) : c = '[' ∧ more = 0 := by
  revert found
  fun_cases markAhead? c cs
  all_goals
    intro found
    cases found
  exact ⟨rfl, rfl⟩

/-- A bracket is read as a mark only where no query is found ahead. -/
theorem Lexeme.queryAhead?_of_read_bracket {start : Nat} {c : Char} {cs : List Char} {span : Span}
    {b : Token} (bears : (read start c cs).content.token? span = some b)
    (bracket : b.kind = .punctuation .openBracket) :
    c = '[' ∧ queryAhead? cs = none ∧ (read start c cs).more = 0 := by
  obtain ⟨lexeme, reads, same⟩ := exists_reads start c cs
  rw [same] at bears ⊢
  cases reads with
  | gap isGap => exact nomatch bears
  | word noGap letter =>
    unfold word at bears
    dsimp only at bears
    split at bears <;> cases bears <;> exact nomatch bracket
  | numeral noGap noLetter digit =>
    unfold numeral at bears
    dsimp only at bears
    split at bears
    · next number =>
      cases bears
      rcases Numeral.kind_cases number with ⟨v, rfl⟩ | ⟨v, rfl⟩ | ⟨v, rfl⟩ <;> exact nomatch bracket
    · exact nomatch bears
  | lineComment cs => exact nomatch bears
  | blockComment cs =>
    unfold blockComment at bears
    split at bears <;> exact nomatch bears
  | quoted cs =>
    unfold quoted at bears
    dsimp only at bears
    split at bears
    · split at bears
      · cases bears
        exact nomatch bracket
      · exact nomatch bears
    · exact nomatch bears
  | sign noGap noLetter noDigit unquoted noLine noBlock =>
    unfold sign at bears ⊢
    split at bears
    · next language ahead =>
      unfold query at bears
      rcases scan : queryLength 0 0 false cs with ⟨n, ending⟩
      rw [scan] at bears
      cases ending <;> cases language <;> cases bears <;> exact nomatch bracket
    · next noQuery =>
      split at bears
      · next mark =>
        cases bears
        obtain rfl : _ = TokenKind.punctuation .openBracket := bracket
        obtain ⟨rfl, more⟩ := markAhead?_openBracket mark
        rw [if_pos rfl] at noQuery
        exact ⟨rfl, noQuery, more⟩
      · exact nomatch bears

/-- Behind an opening bracket among the tokens, the text `before` goes on with `after` as a query
does. The brackets stand at their places in `before`. -/
def OpensQuery (tokens : List Token) (before after : List Char) : Prop :=
  ∃ b ∈ tokens, b.kind = .punctuation .openBracket ∧ ∃ outer inner, before = outer ++ inner ∧
    byteSize outer = b.span.stop ∧ queryAhead? (inner ++ after) ≠ none

/-- Behind an opening bracket of an accepted text no query is found. -/
theorem not_opensQuery_of_lex {source : String} {tokens some : List Token}
    (accepted : lex source = .ok tokens) (sub : some ⊆ tokens) {before after : List Char}
    (whole : source.toList = before ++ after) : ¬OpensQuery some before after := by
  rintro ⟨b, mem, bracket, outer, inner, rfl, size, found⟩
  rcases eq_end_or_isFrom_of_lex accepted (sub mem) with rfl | ⟨place, c, cs, stands, bears⟩
  · exact nomatch bracket
  obtain ⟨front, whole', place'⟩ := stands
  obtain ⟨rfl, noQuery, more⟩ := Lexeme.queryAhead?_of_read_bracket bears bracket
  have span := LexemeContent.span_of_token? bears
  have same : outer ++ (inner ++ after) = (front ++ ['[']) ++ cs := by
    rw [← List.append_assoc, ← whole, whole', List.append_assoc]
    rfl
  have size' : byteSize outer = byteSize (front ++ ['[']) := by
    rw [size, span, Lexeme.spanAt, more, byteSize_append, place']
    rfl
  obtain ⟨-, rfl⟩ := append_inj_of_byteSize same size'
  exact found noQuery

/-! ## Replacing blank space -/

theorem Lexing.next_bracket {l : Lexing} {cs : List Char} (noQuery : queryAhead? cs = none) :
    l.next '[' cs = ⟨.plain (.punctuation .openBracket) ⟨l.offset, l.offset + 1⟩ :: l.tokens,
      l.errors, l.offset + 1⟩ := by
  rw [next, Lexeme.spanAt, Lexeme.read_bracket noQuery]
  rfl

/-- What is read keeps the tokens that have been read. -/
theorem Reaches.tokens {rest text : List Char} {l l' : Lexing} (h : Reaches rest l text l') :
    l.tokens ⊆ l'.tokens := by
  induction h with
  | refl l => exact List.Subset.refl _
  | @step l l' c cs within later ih =>
    refine List.Subset.trans ?_ ih
    unfold Lexing.next
    cases (Lexeme.read l.offset c (cs ++ rest)).content with
    | blank | faulty => exact List.Subset.refl _
    | token | keyword => exact List.subset_cons_self _ _

/-- What is read before the token in front of some blank space is read as well when a space takes
its place, unless a bracket is now followed by the words of a query. -/
theorem Reaches.replace {d x : Char} {w xs ys q : List Char} {l l' : Lexing}
    (h : Reaches (d :: w ++ x :: xs) l q l') (hx : x ∈ blankStarts) (clean : l'.errors = [])
    (ahead : ∀ (l₁ : Lexing) (r : List Char), '[' :: r <:+ q →
      Reaches (d :: w ++ x :: xs) (l₁.next '[' (r ++ (d :: w ++ x :: xs))) r l' →
      queryAhead? (r ++ (d :: w ++ x :: xs)) = none →
      queryAhead? (r ++ (d :: w ++ ' ' :: ys)) = none) :
    Reaches (d :: w ++ ' ' :: ys) l q l' := by
  induction h with
  | refl l => exact .refl l
  | @step l l' c cs within later ih =>
    have same : Lexeme.read l.offset c (cs ++ (d :: w ++ ' ' :: ys)) =
        Lexeme.read l.offset c (cs ++ (d :: w ++ x :: xs)) := by
      have shorter : cs.length < (cs ++ d :: w).length := by
        rw [List.length_append, List.length_cons]
        omega
      have clean' := later.step_clean clean
      rw [← List.append_assoc] at within clean' later
      rw [← List.append_assoc, ← List.append_assoc]
      refine Lexeme.read_replace hx (by omega) (fun _ => by omega) clean' ?_
      rintro rfl noQuery
      rw [Lexeme.read_bracket noQuery] at later
      rw [List.append_assoc] at noQuery later ⊢
      exact ahead l cs (List.suffix_refl _) later noQuery
    have next := Lexing.next_congr same within
    refine .step ?_ ?_
    · rwa [same]
    · rw [same, next]
      refine ih clean fun l₁ r suffix => ahead l₁ r ?_
      exact (suffix.trans (List.drop_suffix _ _)).trans (List.suffix_cons _ _)

/-- The text, with `rest` behind it, is read as the tokens `front` and, at its end, the token `t`. -/
inductive EndsIn (rest : List Char) (front : List Token) (t : Token) : List Char → Prop
  | intro {text w : List Char} {d : Char} {l : Lexing}
    (reaches : Reaches (d :: w ++ rest) ⟨[], [], 0⟩ text l) (clean : l.errors = [])
    (tokens : l.tokens = front.reverse)
    (bears : (Lexeme.read l.offset d (w ++ rest)).content.token?
      (Lexeme.spanAt l.offset d (w ++ rest)) = some t)
    (length : (Lexeme.read l.offset d (w ++ rest)).more = w.length) :
    EndsIn rest front t (text ++ d :: w)

namespace EndsIn

variable {rest before : List Char} {front : List Token} {t : Token}

/-- What stands behind the token is read next. -/
theorem lexFrom (h : EndsIn rest front t before) :
    Apex.lexFrom ⟨[], [], 0⟩ 0 (before ++ rest) =
      Apex.lexFrom ⟨t :: front.reverse, [], byteSize before⟩ 0 rest := by
  obtain @⟨text, w, d, l, reaches, clean, tokens, bears, length⟩ := h
  have offset := reaches.offset
  rw [Nat.zero_add] at offset
  have next : l.add (Lexeme.read l.offset d (w ++ rest)).content
      (l.offset + byteSize (d :: w)) = ⟨t :: front.reverse, [], byteSize (text ++ d :: w)⟩ := by
    rw [Lexeme.spanAt, length, List.take_left] at bears
    rw [Lexing.add_token bears, clean, tokens, offset, byteSize_append]
  have behind := reaches.lexFrom
  rw [← List.append_assoc] at behind
  rw [behind, List.cons_append, lexFrom_cons, length, List.take_left, List.drop_left, next]

/-- Each token of an accepted text ends a part of it. -/
theorem of_lex {source : List Char} {back : List Token}
    (clean : (Apex.lexFrom ⟨[], [], 0⟩ 0 source).errors = [])
    (tokens : (Apex.lexFrom ⟨[], [], 0⟩ 0 source).tokens.reverse = front ++ t :: back)
    (inside : t.span.stop < byteSize source) :
    ∃ before rest, source = before ++ rest ∧ byteSize before = t.span.stop ∧
      EndsIn rest front t before := by
  obtain ⟨text, d, cs, rfl, l, reaches, tokens, offset, bears⟩ := exists_reaches clean front tokens
  rw [List.append_nil] at tokens
  rw [Nat.zero_add] at offset
  have clean' : l.errors = [] := by
    by_contra faulty
    rw [reaches.lexFrom] at clean
    exact errors_lexFrom faulty 0 _ clean
  have stop : byteSize (text ++ d :: cs.take (Lexeme.read l.offset d cs).more) = t.span.stop := by
    rw [LexemeContent.span_of_token? bears, Lexeme.spanAt, byteSize_append, offset]
  have length : (cs.take (Lexeme.read l.offset d cs).more).length = (Lexeme.read l.offset d cs).more := by
    refine List.length_take_of_le (Nat.le_of_not_lt fun short => ?_)
    rw [List.take_of_length_le short.le] at stop
    omega
  have whole := List.take_append_drop (Lexeme.read l.offset d cs).more cs
  refine ⟨text ++ d :: cs.take (Lexeme.read l.offset d cs).more,
    cs.drop (Lexeme.read l.offset d cs).more, ?_, stop, .intro ?_ clean' tokens ?_ ?_⟩
  · rw [List.append_assoc, List.cons_append, whole]
  · rwa [List.cons_append, whole]
  · rwa [whole]
  · rw [whole, length]

/-- A space may stand behind the token in place of other blank space, unless a bracket is now
followed by the words of a query. -/
theorem replace {x : Char} {xs ys : List Char} (h : EndsIn (x :: xs) front t before)
    (hx : x ∈ blankStarts) (free : ¬OpensQuery (front ++ [t]) before (' ' :: ys)) :
    EndsIn (' ' :: ys) front t before := by
  obtain @⟨text, w, d, l, reaches, clean, tokens, bears, length⟩ := h
  have offset := reaches.offset
  rw [Nat.zero_add] at offset
  have blank : (Lexeme.read l.offset d (w ++ x :: xs)).content ≠ .blank := by
    intro blank
    rw [blank] at bears
    exact nomatch bears
  have clean' (errors : List LexError) :
      (Lexeme.read l.offset d (w ++ x :: xs)).content ≠ .faulty errors := by
    intro faulty
    rw [faulty] at bears
    exact nomatch bears
  -- The bracket may be the last token itself, or stand anywhere in front of it.
  have here : d = '[' → queryAhead? (w ++ x :: xs) = none → queryAhead? (w ++ ' ' :: ys) = none := by
    rintro rfl noQuery
    by_contra found
    rw [Lexeme.read_bracket noQuery] at bears length
    obtain rfl := List.eq_nil_of_length_eq_zero length.symm
    refine free ⟨t, by simp, ?_, text ++ ['['], [], (List.append_nil _).symm, ?_, found⟩
    · cases bears
      rfl
    · rw [LexemeContent.span_of_token? bears, Lexeme.spanAt, Lexeme.read_bracket noQuery,
        byteSize_append, offset]
      rfl
  have earlier (l₁ : Lexing) (r : List Char) (suffix : '[' :: r <:+ text)
      (later : Reaches (d :: w ++ x :: xs) (l₁.next '[' (r ++ (d :: w ++ x :: xs))) r l)
      (noQuery : queryAhead? (r ++ (d :: w ++ x :: xs)) = none) :
      queryAhead? (r ++ (d :: w ++ ' ' :: ys)) = none := by
    by_contra found
    obtain ⟨outer, rfl⟩ := suffix
    rw [Lexing.next_bracket noQuery] at later
    have stop : l.offset = l₁.offset + 1 + byteSize r := later.offset
    refine free ⟨.plain (.punctuation .openBracket) ⟨l₁.offset, l₁.offset + 1⟩,
      List.mem_append_left _ ?_, rfl, outer ++ ['['], r ++ d :: w, ?_, ?_, ?_⟩
    · rw [← List.mem_reverse, ← tokens]
      exact later.tokens List.mem_cons_self
    · rw [List.append_assoc, List.append_assoc]
      rfl
    · have split : l.offset = byteSize (outer ++ ['[']) + byteSize r := by
        rw [offset, ← byteSize_append, List.append_assoc]
        rfl
      dsimp only [Token.plain]
      omega
    · rwa [List.append_assoc]
  have read : Lexeme.read l.offset d (w ++ ' ' :: ys) = Lexeme.read l.offset d (w ++ x :: xs) :=
    Lexeme.read_replace hx length.le (fun none => absurd none blank) clean' here
  refine .intro (reaches.replace hx clean earlier) clean tokens ?_ ?_
  · have span : Lexeme.spanAt l.offset d (w ++ ' ' :: ys) = Lexeme.spanAt l.offset d (w ++ x :: xs) := by
      rw [Lexeme.spanAt, Lexeme.spanAt, read, length, List.take_left, List.take_left]
    rwa [read, span]
  · rw [read, length]

end EndsIn

section

variable {before gap after : String} {front back : List Token} {t u : Token}

/-- The text between two tokens of an accepted text is blank. -/
theorem isBlank_of_lex (accepted : lex (before ++ gap ++ after) = .ok (front ++ t :: u :: back))
    (stop : t.span.stop = before.utf8ByteSize)
    (start : u.span.start = (before ++ gap).utf8ByteSize) :
    IsBlank u.isEnd gap.toList ∧ (u.isEnd = true → after.toList = []) := by
  have whole : (before ++ gap ++ after).toList = before.toList ++ gap.toList ++ after.toList := by
    rw [String.toList_append, String.toList_append]
  have start' := start
  rw [String.utf8ByteSize_append, ← byteSize_toList, ← byteSize_toList] at start'
  rw [← byteSize_toList] at stop
  have tiled : IsTiledFrom (before ++ gap ++ after) 0 (front ++ t :: u :: back) :=
    (cut_of_lex accepted).isTiledFrom (List.nil_append _).symm rfl
  constructor
  · obtain ⟨gap', slice, isBlank⟩ := (List.isChain_cons_cons.mp
      (List.isChain_append.mp tiled.between).2.1).1
    rw [stop, start', Span.slice?_of_append _ _ _ whole, String.ofList_toList] at slice
    cases slice
    exact isBlank
  · intro isEnd
    have mem : u ∈ front ++ t :: u :: back := by simp
    rcases eq_end_or_isFrom_of_lex accepted mem with rfl | ⟨place, c, cs, -, bears⟩
    · rw [String.utf8ByteSize_append] at start
      refine eq_nil_of_byteSize ?_
      rw [byteSize_toList]
      dsimp only [Token.plain, Span.point] at start
      omega
    · rw [(Lexeme.isProper_read place c cs).isEnd_eq_false bears] at isEnd
      exact nomatch isEnd

/-- What is read between the token `t` and the end of the text. -/
theorem exists_more {read : List Token} {ending : Token}
    (tokens : front ++ t :: u :: back = read ++ [ending]) :
    ∃ more, read = front ++ t :: more ∧ u :: back = more ++ [ending] := by
  rcases List.eq_nil_or_concat (u :: back) with none | ⟨more, last, same⟩
  · exact nomatch none
  · rw [same, List.concat_eq_append, ← List.cons_append, ← List.append_assoc] at tokens
    obtain ⟨rfl, last'⟩ := List.append_inj' tokens rfl
    exact ⟨more, rfl, by rw [same, List.concat_eq_append, last']⟩

/-- An accepted text is read up to a token that is not the last one. -/
theorem endsIn_of_lex {rest : String}
    (accepted : lex (before ++ rest) = .ok (front ++ t :: u :: back))
    (stop : t.span.stop = before.utf8ByteSize) (filled : rest ≠ "") :
    EndsIn rest.toList front t before.toList := by
  obtain ⟨clean, tokens⟩ := lex_eq_ok_iff.mp accepted
  obtain ⟨more, read, -⟩ := exists_more tokens
  have whole : (before ++ rest).toList = before.toList ++ rest.toList := String.toList_append
  rw [← byteSize_toList] at stop
  have inside : t.span.stop < byteSize (before ++ rest).toList := by
    rw [whole, byteSize_append, stop]
    have nonempty := mt eq_nil_of_byteSize (mt String.toList_eq_nil_iff.mp filled)
    omega
  obtain ⟨before', rest', whole', size, endsIn⟩ := EndsIn.of_lex clean read inside
  obtain ⟨rfl, rfl⟩ := append_inj_of_byteSize (whole.symm.trans whole') (by rw [size, stop])
  exact endsIn

/-- White space alone between two tokens keeps no bracket from seeing a query. -/
theorem not_opensQuery_of_isWhiteSpace
    (accepted : lex (before ++ gap ++ after) = .ok (front ++ t :: u :: back)) (nonempty : gap ≠ "")
    (white : gap.toList.all isWhiteSpace) :
    ¬OpensQuery (front ++ [t]) before.toList (" " ++ after).toList := by
  obtain ⟨x, spaces, shape⟩ :=
    List.exists_cons_of_ne_nil (mt String.toList_eq_nil_iff.mp nonempty)
  have hx : isWordPart x = false :=
    isWordPart_of_isWhiteSpace (List.all_eq_true.mp white x (shape ▸ List.mem_cons_self))
  have whole :
      (before ++ gap ++ after).toList = before.toList ++ (x :: (spaces ++ after.toList)) := by
    rw [String.toList_append, String.toList_append, shape, List.append_assoc]
    rfl
  have read : front ++ [t] ⊆ front ++ t :: u :: back := by simp
  have noQuery := not_opensQuery_of_lex accepted read whole
  rintro ⟨b, mem, bracket, outer, inner, split, size, found⟩
  refine noQuery ⟨b, mem, bracket, outer, inner, split, size, ?_⟩
  rw [shape] at white
  rwa [queryAhead?_spaces hx white, ← List.singleton_append, ← String.toList_singleton,
    ← String.toList_append]

/-- Any blank space and comments between two tokens of an accepted text can be replaced by a single
space, unless an opening bracket in front then sees a query: the same tokens are read, with the same
values and spellings, those behind it so many bytes earlier. -/
theorem lex_replace_gap
    (accepted : lex (before ++ gap ++ after) = .ok (front ++ t :: u :: back))
    (stop : t.span.stop = before.utf8ByteSize)
    (start : u.span.start = (before ++ gap).utf8ByteSize) (nonempty : gap ≠ "") :
    (∃ later, lex (before ++ " " ++ after) = .ok (front ++ t :: later) ∧
      later.map (Token.moved (gap.utf8ByteSize - 1)) = u :: back) ↔
      ¬OpensQuery (front ++ [t]) before.toList (" " ++ after).toList := by
  have behind : (" " ++ after).toList = ' ' :: after.toList := by
    rw [String.toList_append]
    rfl
  have space : (before ++ " " ++ after).toList = before.toList ++ (" " ++ after).toList := by
    rw [String.append_assoc, String.toList_append]
  constructor
  · rintro ⟨later, accepted', -⟩
    exact not_opensQuery_of_lex accepted' (by simp) space
  intro free
  rw [behind] at free space
  obtain ⟨isBlank, ends⟩ := isBlank_of_lex accepted stop start
  obtain ⟨x, xs, shape⟩ := List.exists_cons_of_ne_nil (mt String.toList_eq_nil_iff.mp nonempty)
  have hx : x ∈ blankStarts := (shape ▸ isBlank).head_mem
  have positive := x.utf8Size_pos
  have whole : (before ++ gap ++ after).toList = before.toList ++ (gap.toList ++ after.toList) := by
    rw [String.toList_append, String.toList_append, List.append_assoc]
  obtain ⟨clean, tokens⟩ := lex_eq_ok_iff.mp accepted
  -- The token `t` is read in front of the gap, and in front of a space.
  have atGap : EndsIn (x :: (xs ++ after.toList)) front t before.toList := by
    rw [String.append_assoc] at accepted
    have endsIn := endsIn_of_lex accepted stop (by simp [nonempty])
    rwa [String.toList_append, shape] at endsIn
  have readGap : lexFrom ⟨[], [], 0⟩ 0 (before ++ gap ++ after).toList =
      lexFrom ⟨t :: front.reverse, [], byteSize before.toList + byteSize gap.toList⟩ 0
        after.toList := by
    rw [whole, shape, List.cons_append, atGap.lexFrom, ← List.cons_append, ← shape,
      lexFrom_blank isBlank _ _ ends]
    rfl
  rw [readGap] at clean tokens
  have readSpace : lexFrom ⟨[], [], 0⟩ 0 (before ++ " " ++ after).toList =
      lexFrom ⟨t :: front.reverse, [], byteSize before.toList + 1⟩ 0 after.toList := by
    rw [space, (atGap.replace hx free).lexFrom]
    have isBlank : IsBlank false [' '] := .gap (by decide) .nil
    exact lexFrom_blank isBlank _ _ nofun
  refine ⟨(lexFrom ⟨[], [], 0⟩ 0 after.toList).row.map (Token.moved (byteSize before.toList + 1)),
    lex_eq_ok_iff.mpr ⟨?_, ?_⟩, ?_⟩
  · rw [readSpace, errors_lexFrom_eq_nil rfl]
    exact (errors_lexFrom_eq_nil rfl _).mp clean
  · rw [readSpace, row_lexFrom]
  · rw [row_lexFrom] at tokens
    rw [(List.cons.inj (List.append_cancel_left tokens)).2, List.map_map]
    refine List.map_congr_left fun token _ => ?_
    have size : 1 ≤ gap.utf8ByteSize := by
      rw [← byteSize_toList, shape, byteSize_cons]
      omega
    rw [Function.comp_apply, Token.moved_moved, byteSize_toList gap]
    congr 1
    omega

end

/-- Two comments behind a word that may announce a query, but is an operand here. -/
theorem lex_replace_gap_operand :
    ∃ front back t u, lex ("a[select" ++ "/*\u00e9*/// '\n" ++ "+ 1]") =
        .ok (front ++ t :: u :: back) ∧
      t.span.stop = "a[select".utf8ByteSize ∧
      u.span.start = ("a[select" ++ "/*\u00e9*/// '\n").utf8ByteSize ∧
      ¬OpensQuery (front ++ [t]) "a[select".toList (" " ++ "+ 1]").toList ∧
      ∃ later, lex ("a[select" ++ " " ++ "+ 1]") = .ok (front ++ t :: later) ∧
        later.map (Token.moved ("/*\u00e9*/// '\n".utf8ByteSize - 1)) = u :: back := by
  have accepted : lex ("a[select" ++ "/*\u00e9*/// '\n" ++ "+ 1]") =
      .ok ([.plain (.name "a") ⟨0, 1⟩, .plain (.punctuation .openBracket) ⟨1, 2⟩] ++
        .plain (.name "select") ⟨2, 8⟩ :: .plain (.operator .plus) ⟨19, 20⟩ ::
        [.plain (.integer 1) ⟨21, 22⟩, .plain (.punctuation .closeBracket) ⟨22, 23⟩,
          .plain .endOfFile ⟨23, 23⟩]) := by
    decide +kernel
  have free : ¬OpensQuery ([.plain (.name "a") ⟨0, 1⟩, .plain (.punctuation .openBracket) ⟨1, 2⟩] ++
      [.plain (.name "select") ⟨2, 8⟩]) "a[select".toList (" " ++ "+ 1]").toList := by
    rintro ⟨b, mem, bracket, outer, inner, split, size, found⟩
    obtain rfl : b = .plain (.punctuation .openBracket) ⟨1, 2⟩ := by
      simp only [List.cons_append, List.nil_append, List.mem_cons, List.not_mem_nil,
        or_false] at mem
      rcases mem with rfl | rfl | rfl
      · cases bracket
      · rfl
      · cases bracket
    have split' : ['a', '['] ++ "select".toList = outer ++ inner := by
      rw [← split]
      decide +kernel
    obtain ⟨-, rfl⟩ := append_inj_of_byteSize split' size.symm
    exact found (by decide +kernel)
  exact ⟨_, _, _, _, accepted, rfl, rfl, free,
    (lex_replace_gap accepted rfl rfl (by decide)).mpr free⟩

/-- A comment behind the first word of a query keeps the query from being seen: in its place a
space makes a difference. -/
theorem not_lex_replace_gap_query :
    ¬∀ (before gap after : String) (front back : List Token) (t u : Token),
      lex (before ++ gap ++ after) = .ok (front ++ t :: u :: back) →
      t.span.stop = before.utf8ByteSize → u.span.start = (before ++ gap).utf8ByteSize → gap ≠ "" →
      ∃ tokens, lex (before ++ " " ++ after) = .ok tokens ∧
        List.Forall₂ Token.SaysSame (front ++ t :: u :: back) tokens := by
  have accepted : lex ("[SELECT" ++ "/**/" ++ "a]") =
      .ok ([.plain (.punctuation .openBracket) ⟨0, 1⟩] ++ .plain (.name "SELECT") ⟨1, 7⟩ ::
        .plain (.name "a") ⟨11, 12⟩ ::
        [.plain (.punctuation .closeBracket) ⟨12, 13⟩, .plain .endOfFile ⟨13, 13⟩]) := by
    decide +kernel
  have ahead : queryAhead? "SELECT a]".toList = some .soql := by
    cbv
  have query : lex ("[SELECT" ++ " " ++ "a]") =
      .ok [.plain (.soql ⟨"SELECT a", []⟩) ⟨0, 10⟩, .plain .endOfFile ⟨10, 10⟩] := by
    unfold lex
    rw [show ("[SELECT" ++ " " ++ "a]").toList = '[' :: "SELECT a]".toList by decide +kernel,
      lexFrom_cons, Lexeme.read_query ahead]
    decide +kernel
  intro all
  obtain ⟨tokens, read, same⟩ := all _ _ _ _ _ _ _ accepted rfl rfl (by decide)
  rw [query] at read
  cases read
  exact absurd same.length_eq (by decide)

end Apex
