import Apex.Proofs.Blur.Programs
import Apex.Proofs.Safety.Counting
import Apex.Proofs.Tiling.Blanks
import Apex.Proofs.Tiling.QueryWords
import Apex.Proofs.Tiling.Quoted
import Apex.Proofs.Tiling.Reaches

/-!
# Lines that are read by themselves

A text is settled if its brackets close each other and its quoted literals and queries are closed.
Then every lexeme that starts in it ends in it, even a bracket that is taken for the start of a
query although it is none. So a line end behind the text changes nothing, and the text is read as if
it stood alone.
-/

namespace Apex

/-! ## Settled texts -/

/-- A character that opens neither a literal nor a query nor a comment, and is no bracket. -/
def isPlain (c : Char) : Bool := c ∉ ['\'', '[', ']', '/']

/-- The text, behind `c`, is a lexeme on its own with it, whatever follows, and a query that holds
it goes on behind it as before it. -/
structure IsUnit (c : Char) (text : List Char) : Prop where
  /-- It is a literal or a query. -/
  special : isPlain c = false
  /-- What it is does not depend on what follows. -/
  reads : ∀ start behind, Lexeme.read start c (text ++ behind) = Lexeme.read start c text
  /-- It reaches to its end. -/
  more : ∀ start, (Lexeme.read start c text).more = text.length
  /-- The scan of a query passes over it. -/
  scanned : ∀ depth n behind, queryLength depth n false (c :: (text ++ behind)) =
    queryLength depth (n + 1 + text.length) false behind

/-- The text closes what it opens, and `depth` brackets that were opened before. No comment starts
in it. -/
inductive Settled : (depth : Nat) → List Char → Prop where
  | nil : Settled 0 []
  | plain {depth : Nat} {c : Char} {cs : List Char} (plain : isPlain c = true)
    (later : Settled depth cs) : Settled depth (c :: cs)
  | slash {depth : Nat} {c : Char} {cs : List Char} (free : c = ' ' ∨ c = '=')
    (later : Settled depth (c :: cs)) : Settled depth ('/' :: c :: cs)
  | opens {depth : Nat} {cs : List Char} (later : Settled (depth + 1) cs) :
    Settled depth ('[' :: cs)
  | closes {depth : Nat} {cs : List Char} (later : Settled depth cs) :
    Settled (depth + 1) (']' :: cs)
  | unit {depth : Nat} {c : Char} {text cs : List Char} (unit : IsUnit c text)
    (later : Settled depth cs) : Settled depth (c :: (text ++ cs))

theorem ne_of_plain {c d : Char} (plain : isPlain c = true) (special : isPlain d = false) :
    c ≠ d := by
  rintro rfl
  rw [special] at plain
  exact nomatch plain

/-- The characters of a sort are plain if no other character is of this sort. -/
theorem isPlain_of {p : Char → Bool} {c : Char} (h : p c = true)
    (none : (['\'', '[', ']', '/'].all fun d => !p d) = true) : isPlain c = true := by
  unfold isPlain
  rw [decide_eq_true_eq]
  intro mem
  have other := List.all_eq_true.mp none c mem
  rw [h] at other
  exact nomatch other

/-! ## Units -/

/-- Outside of quotes, plain characters and slashes mean nothing to a query. -/
theorem queryLength_unquoted (depth n : Nat) {c : Char} (cs : List Char)
    (plain : isPlain c = true ∨ c = '/') :
    queryLength depth n false (c :: cs) = queryLength depth (n + 1) false cs := by
  rcases plain with plain | rfl
  · have unquoted : (c == '\'') = false := beq_false_of_ne (ne_of_plain plain rfl)
    rw [queryLength_outside _ _ _ (ne_of_plain plain rfl) (ne_of_plain plain rfl), unquoted]
  · exact queryLength_outside _ _ _ (by decide) (by decide)

/-- A query that holds a written literal goes on behind it. -/
theorem queryLength_escaped (depth n : Nat) (text behind : List Char) :
    queryLength depth n true (text.flatMap escapeChar ++ '\'' :: behind) =
      queryLength depth (n + (text.flatMap escapeChar).length + 1) false behind := by
  induction text generalizing n with
  | nil => exact queryLength_plain _ _ _ (by decide)
  | cons c text ih =>
    rw [List.flatMap_cons, List.append_assoc, List.length_append]
    rcases escapeChar_cases c with ⟨letter, written, -, -⟩ | ⟨written, quote, backslash, -⟩
    · have passed (cs : List Char) :
          queryLength depth n true ('\\' :: letter :: cs) = queryLength depth (n + 2) true cs := by
        rw [queryLength.eq_def]
        rfl
      rw [written, List.cons_append, List.singleton_append, passed, ih]
      simp only [List.length_cons, List.length_nil]
      congr 1
      omega
    · have inside : (c != '\'') = true := bne_iff_ne.mpr quote
      rw [written, List.singleton_append, queryLength_plain _ _ _ backslash, inside, ih]
      simp only [List.length_cons, List.length_nil]
      congr 1
      omega

/-- A query that is held by another, and has been read up to the text, ends behind it. The other
goes on there. -/
def EndsInner (depth : Nat) (inString : Bool) (text : List Char) : Prop :=
  ∀ outer n behind, queryLength (depth + outer + 1) n inString (text ++ ']' :: behind) =
    queryLength outer (n + text.length + 1) false behind

theorem EndsInner.cons {depth depth' : Nat} {inString inString' : Bool} {c : Char}
    {text : List Char} (h : EndsInner depth' inString' text)
    (passed : ∀ outer n cs, queryLength (depth + outer + 1) n inString (c :: cs) =
      queryLength (depth' + outer + 1) (n + 1) inString' cs) :
    EndsInner depth inString (c :: text) := by
  intro outer n behind
  rw [List.cons_append, passed, h, List.length_cons]
  congr 1
  omega

/-- What closes a query closes it where it is held by another query too. -/
theorem queryLength_inner {depth n m : Nat} {inString : Bool} {cs : List Char}
    (closed : queryLength depth n inString cs = (m, .closed)) :
    ∃ inner rest, cs = inner ++ ']' :: rest ∧ m = n + inner.length ∧
      EndsInner depth inString inner := by
  fun_induction queryLength depth n inString cs with
  | case1 => split at closed <;> cases closed
  | case2 => cases closed
  | case3 depth n c cs ih =>
    obtain ⟨inner, rest, rfl, rfl, ends⟩ := ih closed
    refine ⟨'\\' :: c :: inner, rest, rfl, by simp only [List.length_cons]; omega, ?_⟩
    intro outer n behind
    rw [List.cons_append, List.cons_append, queryLength.eq_def]
    simp only [if_true, ends outer, List.length_cons]
    congr 1
    omega
  | case4 depth n c cs plain ih =>
    obtain ⟨inner, rest, rfl, rfl, ends⟩ := ih closed
    exact ⟨c :: inner, rest, rfl, by rw [List.length_cons]; omega,
      ends.cons fun outer n cs => queryLength_plain _ n cs plain⟩
  | case5 depth n inString cs outside ih =>
    obtain ⟨inner, rest, rfl, rfl, ends⟩ := ih closed
    rw [Bool.not_eq_true] at outside
    refine ⟨'[' :: inner, rest, rfl, by rw [List.length_cons]; omega,
      ends.cons fun outer n cs => ?_⟩
    rw [outside, queryLength_open, Nat.add_right_comm depth 1]
  | case6 n inString cs outside =>
    cases closed
    rw [Bool.not_eq_true] at outside
    refine ⟨[], cs, rfl, rfl, fun outer n behind => ?_⟩
    rw [outside, Nat.zero_add]
    exact queryLength_close _ _ _
  | case7 n inString cs outside depth _ ih =>
    obtain ⟨inner, rest, rfl, rfl, ends⟩ := ih closed
    rw [Bool.not_eq_true] at outside
    refine ⟨']' :: inner, rest, rfl, by rw [List.length_cons]; omega,
      ends.cons fun outer n cs => ?_⟩
    rw [outside, queryLength_close, Nat.add_right_comm depth 1]
  | case8 depth n inString c cs outside opening closing ih =>
    obtain ⟨inner, rest, rfl, rfl, ends⟩ := ih closed
    rw [Bool.not_eq_true] at outside
    refine ⟨c :: inner, rest, rfl, by rw [List.length_cons]; omega,
      ends.cons fun outer n cs => ?_⟩
    rw [outside, queryLength_outside _ _ _ opening closing]

/-- A written literal is a unit. -/
theorem isUnit_quoted (text : List Char) :
    IsUnit '\'' (text.flatMap escapeChar ++ ['\'']) := by
  have read (start : Nat) (behind : List Char) :
      Lexeme.read start '\'' (text.flatMap escapeChar ++ ['\''] ++ behind) =
        ⟨(text.flatMap escapeChar).length + 1, .token (.string (String.ofList text))⟩ := by
    rw [List.append_assoc, List.singleton_append, Lexeme.read_quote, Lexeme.quoted_escaped]
  have alone (start : Nat) := read start []
  simp only [List.append_nil] at alone
  refine ⟨rfl, fun start behind => ?_, fun start => ?_, fun depth n behind => ?_⟩
  · rw [read, alone]
  · rw [alone, List.length_append, List.length_singleton]
  · have opening (cs : List Char) :
        queryLength depth n false ('\'' :: cs) = queryLength depth (n + 1) true cs :=
      queryLength_outside _ _ _ (by decide) (by decide)
    rw [opening, List.append_assoc, List.singleton_append, queryLength_escaped, List.length_append,
      List.length_singleton, Nat.add_assoc (n + 1)]

/-- A query in its brackets is a unit. -/
theorem isUnit_query {language : QueryLanguage} {text : List Char}
    (opens : queryAhead? (text ++ [']']) = some language)
    (closed : queryLength 0 0 false (text ++ [']']) = (text.length, .closed)) :
    IsUnit '[' (text ++ [']']) := by
  obtain ⟨text', rest, same, length, ends⟩ := queryLength_closed closed
  obtain ⟨text'', rest', same', length', inner⟩ := queryLength_inner closed
  obtain rfl : text = text' := (List.append_inj same (by omega)).1
  obtain rfl : text = text'' := (List.append_inj same' (by omega)).1
  have read (start : Nat) (behind : List Char) :
      Lexeme.read start '[' (text ++ [']'] ++ behind) = Lexeme.read start '[' (text ++ [']']) := by
    rw [List.append_assoc, List.singleton_append,
      Lexeme.read_query ((queryAhead?_append_bracket text behind).trans opens),
      Lexeme.read_query opens]
    unfold Lexeme.query
    rw [ends behind, ends []]
    simp only [List.take_left]
  refine ⟨rfl, read, fun start => ?_, fun depth n behind => ?_⟩
  · rw [Lexeme.read_query opens, Lexeme.query, closed, List.length_append, List.length_singleton]
  · have passed := inner depth (n + 1) behind
    rw [Nat.zero_add] at passed
    rw [queryLength_open, List.append_assoc, List.singleton_append, passed, List.length_append,
      List.length_singleton, Nat.add_assoc (n + 1)]

/-! ## Brackets -/

namespace Settled

variable {depth : Nat} {c : Char} {cs : List Char}

theorem of_plain (h : Settled depth (c :: cs)) (plain : isPlain c = true) : Settled depth cs := by
  cases h with
  | plain _ later => exact later
  | slash | opens | closes => exact nomatch plain
  | unit unit =>
    rw [unit.special] at plain
    exact nomatch plain

theorem of_plains {text : List Char} (h : Settled depth (text ++ cs))
    (plain : ∀ d ∈ text, isPlain d = true) : Settled depth cs := by
  induction text with
  | nil => exact h
  | cons c text ih =>
    rw [List.forall_mem_cons] at plain
    exact ih (h.of_plain plain.1) plain.2

end Settled

/-- A closing bracket behind the text closes a query that was opened `depth` brackets before. -/
def ClosesQuery (depth : Nat) (text : List Char) : Prop :=
  ∀ n behind, queryLength depth n false (text ++ ']' :: behind) = (n + text.length, .closed)

namespace ClosesQuery

variable {depth depth' : Nat} {c : Char} {text whole : List Char}

theorem nil : ClosesQuery 0 [] := by
  intro n behind
  exact queryLength_end n behind

/-- The scan goes on behind a character. -/
theorem cons (h : ClosesQuery depth' text)
    (passed : ∀ n cs, queryLength depth n false (c :: cs) = queryLength depth' (n + 1) false cs) :
    ClosesQuery depth (c :: text) := by
  intro n behind
  rw [List.cons_append, passed, h, List.length_cons, Nat.add_right_comm]
  rfl

theorem unit (h : ClosesQuery depth text) (unit : IsUnit c whole) :
    ClosesQuery depth (c :: (whole ++ text)) := by
  intro n behind
  rw [List.cons_append, List.append_assoc, unit.scanned, h, List.length_cons, List.length_append,
    Prod.mk.injEq]
  exact ⟨by omega, rfl⟩

end ClosesQuery

/-- A bracket that was opened before is closed in the text, and a query that started there ends
there. -/
theorem Settled.exists_closing {deep : Nat} {cs : List Char} (h : Settled deep cs)
    (depth inner : Nat) (begun : deep = depth + inner + 1) :
    ∃ text rest, cs = text ++ ']' :: rest ∧ Settled depth rest ∧ ClosesQuery inner text := by
  induction h generalizing inner with
  | nil => omega
  | @plain deep c cs plain later ih =>
    obtain ⟨text, rest, rfl, settled, closes⟩ := ih inner begun
    exact ⟨c :: text, rest, rfl, settled,
      closes.cons fun n cs => queryLength_unquoted _ n cs (.inl plain)⟩
  | @slash deep c cs free later ih =>
    obtain ⟨text, rest, same, settled, closes⟩ := ih inner begun
    refine ⟨'/' :: text, rest, ?_, settled,
      closes.cons fun n cs => queryLength_unquoted _ n cs (.inr rfl)⟩
    rw [same]
    rfl
  | @opens deep cs later ih =>
    obtain ⟨text, rest, rfl, settled, closes⟩ := ih (inner + 1) (by omega)
    exact ⟨'[' :: text, rest, rfl, settled, closes.cons (queryLength_open _)⟩
  | @closes deep cs later ih =>
    cases inner with
    | zero =>
      obtain rfl : deep = depth := by omega
      exact ⟨[], cs, rfl, later, .nil⟩
    | succ inner =>
      obtain ⟨text, rest, rfl, settled, closes⟩ := ih inner (by omega)
      exact ⟨']' :: text, rest, rfl, settled, closes.cons (queryLength_close _)⟩
  | @unit deep c whole cs unit later ih =>
    obtain ⟨text, rest, rfl, settled, closes⟩ := ih inner begun
    refine ⟨c :: (whole ++ text), rest, ?_, settled, closes.unit unit⟩
    rw [List.cons_append, List.append_assoc]

/-! ## Lexemes of a settled text -/

namespace Numeral

theorem exists_fraction (after : List Char) :
    ∃ text rest, after = text ++ rest ∧
      text.length =
        (if (fractionAhead after).isEmpty then 0 else (fractionAhead after).length + 1) ∧
      rest = (if (fractionAhead after).isEmpty then after
        else after.drop ((fractionAhead after).length + 1)) ∧
      ∀ d ∈ text, isPlain d = true := by
  by_cases empty : (fractionAhead after).isEmpty = true
  · exact ⟨[], after, rfl, by rw [if_pos empty]; rfl, by rw [if_pos empty], by simp⟩
  · rw [if_neg empty, if_neg empty]
    cases after with
    | nil => exact absurd rfl empty
    | cons c cs =>
      by_cases point : c = '.'
      · subst point
        have ahead : fractionAhead ('.' :: cs) = cs.takeWhile Char.isDigit := rfl
        have whole : cs = cs.takeWhile Char.isDigit ++ cs.dropWhile Char.isDigit :=
          List.takeWhile_append_dropWhile.symm
        rw [ahead]
        refine ⟨'.' :: cs.takeWhile Char.isDigit, cs.dropWhile Char.isDigit, ?_, rfl, ?_, ?_⟩
        · rw [List.cons_append, ← whole]
        · rw [List.drop_succ_cons]
          conv_rhs => rw [whole]
          rw [List.drop_left' (by rw [← whole])]
        · rw [List.forall_mem_cons]
          refine ⟨rfl, fun d mem => isPlain_of (List.mem_takeWhile_imp mem) (by decide)⟩
      · exact absurd (by rw [fractionAhead.eq_2 _ (by simp [point])]; rfl) empty

theorem exists_mark (hasFraction : Bool) (rest : List Char) :
    ∃ text rest', rest = text ++ rest' ∧
      text.length = (if markAhead hasFraction rest = .none then 0 else 1) ∧
      ∀ d ∈ text, isPlain d = true := by
  by_cases none : markAhead hasFraction rest = .none
  · exact ⟨[], rest, rfl, by rw [if_pos none]; rfl, by simp⟩
  · rw [if_neg none]
    cases rest with
    | nil => exact absurd rfl none
    | cons c cs =>
      refine ⟨[c], cs, rfl, rfl, ?_⟩
      rw [List.forall_mem_singleton]
      dsimp only [markAhead] at none
      split_ifs at none with long floating
      · rcases long.1 with rfl | rfl <;> rfl
      · rcases floating with rfl | rfl <;> rfl
      · exact absurd rfl none

/-- A numeral is made of plain characters. -/
theorem exists_read (text : List Char) :
    ∃ own rest, text = own ++ rest ∧ (read text).length = own.length ∧
      ∀ d ∈ own, isPlain d = true := by
  have whole : text = text.takeWhile Char.isDigit ++ text.dropWhile Char.isDigit :=
    List.takeWhile_append_dropWhile.symm
  obtain ⟨fraction, rest, behind, fractionLength, isRest, fractionPlain⟩ :=
    exists_fraction (text.dropWhile Char.isDigit)
  obtain ⟨mark, rest', behind', markLength, markPlain⟩ :=
    exists_mark (!(fractionAhead (text.dropWhile Char.isDigit)).isEmpty) rest
  refine ⟨text.takeWhile Char.isDigit ++ fraction ++ mark, rest', ?_, ?_, ?_⟩
  · rw [List.append_assoc, ← behind', List.append_assoc, ← behind, ← whole]
  · have parts : read text = ⟨text.takeWhile Char.isDigit,
        fractionAhead (text.dropWhile Char.isDigit),
        markAhead (!(fractionAhead (text.dropWhile Char.isDigit)).isEmpty) rest⟩ := by
      rw [isRest]
      rfl
    rw [parts, length, ← fractionLength, ← markLength, List.length_append, List.length_append]
  · simp only [List.forall_mem_append]
    exact ⟨⟨fun d mem => isPlain_of (List.mem_takeWhile_imp mem) (by decide), fractionPlain⟩,
      markPlain⟩

end Numeral

namespace Lexeme

/-- The lexeme that starts with `c` ends before `rest`, and a line end behind that changes
nothing. -/
structure EndsBefore (start : Nat) (c : Char) (text rest : List Char) : Prop where
  more : (read start c (text ++ rest)).more = text.length
  same : ∀ behind, read start c (text ++ rest ++ '\n' :: behind) = read start c (text ++ rest)

theorem markAhead?_more {c : Char} {cs : List Char} {kind : TokenKind} {more : Nat}
    (found : markAhead? c cs = some (kind, more)) : more ≤ cs.length := by
  revert found
  fun_cases markAhead? c cs
  all_goals
    intro found
    cases found
  all_goals simp

section

variable {start : Nat} {c : Char} {cs : List Char}

theorem numeral_append (behind : List Char) :
    numeral start c (cs ++ '\n' :: behind) = numeral start c cs := by
  have same : Numeral.read (c :: (cs ++ '\n' :: behind)) = Numeral.read (c :: cs) :=
    Numeral.read_append (by decide) (c :: cs)
  obtain ⟨own, rest, whole, length, -⟩ := Numeral.exists_read (c :: cs)
  have short := congrArg List.length whole
  rw [List.length_cons, List.length_append] at short
  unfold numeral
  rw [same]
  dsimp only
  cases (Numeral.read (c :: cs)).kind with
  | ok kind => rfl
  | error fault =>
    dsimp only
    unfold faulty
    rw [List.take_append_of_le_length (by omega)]

/-- A sign is made of plain characters. -/
theorem exists_sign (start : Nat) (cs : List Char) (noBracket : c ≠ '[') :
    ∃ text rest, cs = text ++ rest ∧ (∀ d ∈ text, isPlain d = true) ∧
      (sign start c cs).more = text.length ∧
      ∀ behind, sign start c (cs ++ '\n' :: behind) = sign start c cs := by
  unfold sign
  rw [if_neg noBracket]
  cases mark : markAhead? c cs with
  | none =>
    refine ⟨[], cs, rfl, by simp, rfl, fun behind => ?_⟩
    rw [if_neg noBracket]
    dsimp only
    rw [markAhead?_append (by decide), mark]
    rfl
  | some found =>
    obtain ⟨kind, more⟩ := found
    have joined : more ≤ (cs.takeWhile markJoins).length := by
      rw [← markAhead?_takeWhile] at mark
      exact markAhead?_more mark
    have short := (List.takeWhile_sublist (p := markJoins) (l := cs)).length_le
    refine ⟨cs.take more, cs.drop more, (List.take_append_drop more cs).symm, ?_, ?_, ?_⟩
    · intro d mem
      rw [← List.takeWhile_append_dropWhile (p := markJoins) (l := cs),
        List.take_append_of_le_length joined] at mem
      exact isPlain_of (List.mem_takeWhile_imp (List.mem_of_mem_take mem)) (by decide)
    · rw [List.length_take_of_le (by omega)]
    · intro behind
      rw [if_neg noBracket]
      dsimp only
      rw [markAhead?_append (by decide), mark]

/-- A lexeme that starts with a plain character is made of plain characters. -/
theorem exists_endsBefore_of_plain (plain : isPlain c = true) (start : Nat) (cs : List Char) :
    ∃ text rest, cs = text ++ rest ∧ (∀ d ∈ text, isPlain d = true) ∧
      EndsBefore start c text rest := by
  obtain ⟨lexeme, cut, same⟩ := exists_reads start c cs
  cases cut with
  | gap isGap =>
    refine ⟨[], cs, rfl, by simp, ?_, fun behind => ?_⟩
    · rw [List.nil_append, same]
      rfl
    · rw [List.nil_append, same, (Reads.gap isGap).eq]
  | word noGap letter =>
    have whole : cs = cs.takeWhile isWordPart ++ cs.dropWhile isWordPart :=
      List.takeWhile_append_dropWhile.symm
    refine ⟨_, _, whole, fun d mem => isPlain_of (List.mem_takeWhile_imp mem) (by decide), ?_, ?_⟩
    · rw [← whole, same]
      rfl
    · intro behind
      rw [← whole, same, (Reads.word noGap letter).eq, word_append (by decide)]
  | numeral noGap noLetter digit =>
    obtain ⟨own, rest, whole, length, plain⟩ := Numeral.exists_read (c :: cs)
    have more : (numeral start c cs).more = own.length - 1 := by rw [numeral_more, length]
    cases own with
    | nil =>
      have some : 0 < (Numeral.read (c :: cs)).length := by
        simp only [Numeral.length, Numeral.read, List.takeWhile_cons, digit, if_true,
          List.length_cons]
        omega
      rw [length] at some
      exact absurd some (by decide)
    | cons d text =>
      have whole' : cs = text ++ rest := (List.cons.inj whole).2
      rw [List.forall_mem_cons] at plain
      subst whole'
      refine ⟨text, rest, rfl, plain.2, ?_, ?_⟩
      · rw [same, more]
        rfl
      · intro behind
        rw [same, (Reads.numeral noGap noLetter digit).eq, numeral_append]
  | lineComment | blockComment | quoted => cases plain
  | sign noGap noLetter noDigit unquoted noLine noBlock =>
    obtain ⟨text, rest, rfl, plain', more, again⟩ :=
      exists_sign start cs (ne_of_plain plain rfl)
    have noSlash : c ≠ '/' := ne_of_plain plain rfl
    refine ⟨text, rest, rfl, plain', by rw [same, more], fun behind => ?_⟩
    rw [same, ← again behind]
    exact (Reads.sign noGap noLetter noDigit unquoted (fun _ slash => absurd slash noSlash)
      fun _ slash => absurd slash noSlash).eq

end

end Lexeme

/-- Each lexeme of a settled text ends in it, what is behind it is settled, and a line end behind
the text changes nothing. -/
theorem Settled.exists_lexeme {depth : Nat} {c : Char} {cs : List Char}
    (h : Settled depth (c :: cs)) (start : Nat) :
    ∃ text rest, cs = text ++ rest ∧ (∃ depth', Settled depth' rest) ∧
      Lexeme.EndsBefore start c text rest := by
  cases h with
  | plain plain later =>
    obtain ⟨text, rest, rfl, plains, ends⟩ := Lexeme.exists_endsBefore_of_plain plain start cs
    exact ⟨text, rest, rfl, ⟨_, later.of_plains plains⟩, ends⟩
  | @slash _ d cs free later =>
    rcases free with rfl | rfl
    · exact ⟨[], _, rfl, ⟨_, later⟩, rfl, fun behind => rfl⟩
    · exact ⟨['='], cs, rfl, ⟨_, later.of_plain rfl⟩, rfl, fun behind => rfl⟩
  | opens later =>
    obtain ⟨inner, rest, rfl, settled, closes⟩ := later.exists_closing depth 0 rfl
    have ahead (behind : List Char) :
        queryAhead? (inner ++ ']' :: rest ++ '\n' :: behind) =
          queryAhead? (inner ++ ']' :: rest) := by
      rw [List.append_assoc, List.cons_append, queryAhead?_append_bracket,
        queryAhead?_append_bracket inner rest]
    cases found : queryAhead? (inner ++ ']' :: rest) with
    | none =>
      refine ⟨[], inner ++ ']' :: rest, rfl, ⟨_, later⟩, ?_, fun behind => ?_⟩
      · rw [List.nil_append, Lexeme.read_bracket found]
        rfl
      · rw [List.nil_append, Lexeme.read_bracket found,
          Lexeme.read_bracket ((ahead behind).trans found)]
    | some language =>
      have whole : inner ++ ']' :: rest = inner ++ [']'] ++ rest := by
        rw [List.append_assoc, List.singleton_append]
      have closed (behind : List Char) :
          queryLength 0 0 false (inner ++ ']' :: behind) = (inner.length, .closed) := by
        rw [closes, Nat.zero_add]
      refine ⟨inner ++ [']'], rest, whole, ⟨_, settled⟩, ?_, fun behind => ?_⟩
      · rw [← whole, Lexeme.read_query found, Lexeme.query, closed, List.length_append,
          List.length_singleton]
      · rw [← whole, Lexeme.read_query found, Lexeme.read_query ((ahead behind).trans found),
          List.append_assoc, List.cons_append]
        unfold Lexeme.query
        rw [closed, closed]
        simp only [List.take_left]
  | closes later => exact ⟨[], cs, rfl, ⟨_, later⟩, rfl, fun behind => rfl⟩
  | @unit _ _ text rest unit later =>
    refine ⟨text, rest, rfl, ⟨_, later⟩, ?_, fun behind => ?_⟩
    · rw [unit.reads, unit.more]
    · rw [List.append_assoc, unit.reads, unit.reads]

/-- A settled text in front of a line end is read as if it stood alone. -/
theorem Settled.reaches {depth : Nat} {cs : List Char} (h : Settled depth cs) (l : Lexing)
    (behind : List Char) : Reaches ('\n' :: behind) l cs (lexFrom l 0 cs) := by
  induction length : cs.length using Nat.strong_induction_on generalizing l cs depth with
  | _ n ih =>
  subst length
  cases cs with
  | nil => exact .refl l
  | cons c cs =>
    obtain ⟨text, rest, rfl, ⟨depth', settled⟩, ends⟩ := h.exists_lexeme l.offset
    have alone : lexFrom l 0 (c :: (text ++ rest)) = lexFrom (l.next c (text ++ rest)) 0 rest := by
      rw [lexFrom_cons, ends.more, List.drop_left, Lexing.next, Lexeme.spanAt, ends.more]
    have same : Lexeme.read l.offset c (text ++ (rest ++ '\n' :: behind)) =
        Lexeme.read l.offset c (text ++ rest) := by
      rw [← List.append_assoc, ends.same]
    have next : l.next c (text ++ rest ++ '\n' :: behind) = l.next c (text ++ rest) := by
      rw [List.append_assoc]
      exact Lexing.next_congr same ends.more.le
    have shorter : rest.length < (c :: (text ++ rest)).length := by
      rw [List.length_cons, List.length_append]
      omega
    rw [alone]
    refine .step ?_ ?_
    · rw [ends.same, ends.more, List.length_append]
      exact Nat.le_add_right _ _
    · rw [next, ends.same, ends.more, List.drop_left]
      exact ih _ shorter settled _ rfl

/-! ## What is said -/

/-- What a token says, wherever it stands. -/
def Token.saying (t : Token) : TokenKind × Option String := (t.kind.blur .erasing, t.spelling)

theorem Token.saying_moved (n : Nat) (t : Token) : (t.moved n).saying = t.saying := by
  have query (q : Query) : (q.moved n).blur .erasing = q.blur .erasing := by
    simp only [Query.blur, Query.moved, List.map_map]
    rfl
  obtain ⟨kind, span, spelling⟩ := t
  cases kind with
  | soql q => exact congrArg (fun q => (TokenKind.soql q, spelling)) (query q)
  | sosl q => exact congrArg (fun q => (TokenKind.sosl q, spelling)) (query q)
  | _ => rfl

theorem Token.saysSame_of_saying {t t' : Token} (same : t.saying = t'.saying) : t.SaysSame t' :=
  ⟨congrArg Prod.fst same, fun _ => congrArg Prod.snd same⟩

/-- The same tokens and the same faults have been read, wherever they stand. -/
structure Lexing.SaysSame (l l' : Lexing) : Prop where
  tokens : l.tokens.map Token.saying = l'.tokens.map Token.saying
  errors : l.errors.map LexError.fault = l'.errors.map LexError.fault

namespace Lexing.SaysSame

variable {l l' l'' : Lexing}

theorem symm (h : l.SaysSame l') : l'.SaysSame l := ⟨h.tokens.symm, h.errors.symm⟩

theorem trans (h : l.SaysSame l') (h' : l'.SaysSame l'') : l.SaysSame l'' :=
  ⟨h.tokens.trans h'.tokens, h.errors.trans h'.errors⟩

theorem pass (h : l.SaysSame l') (piece : List Char) : (l.pass piece).SaysSame l' :=
  ⟨h.tokens, h.errors⟩

/-- Behind the same the same is read. -/
theorem lexFrom (h : l.SaysSame l') (cs : List Char) :
    (Apex.lexFrom l 0 cs).SaysSame (Apex.lexFrom l' 0 cs) := by
  have moved (n : Nat) : Token.saying ∘ Token.moved n = Token.saying :=
    funext fun t => t.saying_moved n
  have moved' (n : Nat) : LexError.fault ∘ LexError.moved n = LexError.fault := rfl
  rw [lexFrom_eq l, lexFrom_eq l']
  constructor
  · simp only [behind, Lexing.moved, List.map_append, List.map_map, moved, h.tokens]
  · simp only [behind, Lexing.moved, List.map_append, List.map_map, moved', h.errors]

/-- The outcome of reading two texts that say the same. -/
theorem lex {source source' : String}
    (h : (Apex.lexFrom ⟨[], [], 0⟩ 0 source.toList).SaysSame
      (Apex.lexFrom ⟨[], [], 0⟩ 0 source'.toList)) :
    match lex source, lex source' with
    | .ok tokens, .ok tokens' => List.Forall₂ Token.SaysSame tokens tokens'
    | .error errors, .error errors' => errors.map LexError.fault = errors'.map LexError.fault
    | _, _ => False := by
  unfold Apex.lex
  revert h
  generalize Apex.lexFrom ⟨[], [], 0⟩ 0 source.toList = l
  generalize Apex.lexFrom ⟨[], [], 0⟩ 0 source'.toList = l'
  rintro ⟨tokens, errors⟩
  have clean : l.errors.isEmpty = l'.errors.isEmpty := by
    rw [← List.isEmpty_map, errors, List.isEmpty_map]
  have said {ts ts' : List Token} (same : ts.map Token.saying = ts'.map Token.saying) :
      List.Forall₂ Token.SaysSame ts ts' := by
    rw [← List.forall₂_eq_eq_eq, List.forall₂_map_left_iff, List.forall₂_map_right_iff] at same
    exact same.imp fun _ _ => Token.saysSame_of_saying
  dsimp only
  cases empty : l'.errors.isEmpty with
  | true =>
    rw [empty] at clean
    rw [if_pos clean, if_pos rfl]
    refine said ?_
    rw [List.map_reverse, List.map_reverse, List.map_cons, List.map_cons, tokens]
    rfl
  | false =>
    rw [empty] at clean
    rw [if_neg (Bool.not_eq_true _ ▸ clean), if_neg (by decide)]
    show List.map _ _ = List.map _ _
    rw [List.map_reverse, List.map_reverse, errors]

end Lexing.SaysSame

end Apex
