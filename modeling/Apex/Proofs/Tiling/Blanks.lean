import Apex.Proofs.Tiling.Places

/-!
# Lexemes and blank space

Blank space is passed over, and a lexeme in front of it ends there: what the lexeme is does not
depend on which blank space follows.
-/

namespace Apex

/-! ## Passing over blank space -/

theorem Lexeme.commentLength_inside {n : Nat} {body : List Char} (rest : List Char)
    (inside : ¬['*', '/'] <:+: body ++ ['*']) :
    commentLength n (body ++ '*' :: '/' :: rest) = (n + body.length + 2, true) := by
  induction body generalizing n with
  | nil => rfl
  | cons c body ih =>
    rw [List.cons_append, List.infix_cons_iff, not_or] at inside
    have other : ∀ cs, c = '*' → body ++ '*' :: '/' :: rest = '/' :: cs → False := by
      rintro cs rfl slash
      cases body with
      | nil => cases slash
      | cons d body =>
        obtain ⟨rfl, -⟩ := List.cons.inj slash
        exact inside.1 ⟨body ++ ['*'], rfl⟩
    rw [List.cons_append, commentLength.eq_3 _ _ _ other, ih inside.2, List.length_cons,
      Prod.mk.injEq]
    exact ⟨by omega, rfl⟩

/-- What has been read, with a piece of text passed over behind it. -/
def Lexing.pass (l : Lexing) (piece : List Char) : Lexing :=
  ⟨l.tokens, l.errors, l.offset + byteSize piece⟩

theorem Lexing.pass_append (l : Lexing) (piece piece' : List Char) :
    l.pass (piece ++ piece') = (l.pass piece).pass piece' := by
  simp only [pass, byteSize_append, Nat.add_assoc]

/-- A lexeme that contributes nothing is passed over. -/
theorem lexFrom_pass {l : Lexing} {c : Char} (piece : List Char) {rest : List Char}
    (blank : Lexeme.read l.offset c (piece ++ rest) = ⟨piece.length, .blank⟩) :
    lexFrom l 0 (c :: (piece ++ rest)) = lexFrom (l.pass (c :: piece)) 0 rest := by
  rw [lexFrom_cons, blank, List.take_left, List.drop_left]
  rfl

/-- A comment between slashes and stars is passed over. -/
theorem lexFrom_block {l : Lexing} {body rest : List Char}
    (inside : ¬['*', '/'] <:+: body ++ ['*']) :
    lexFrom l 0 ('/' :: '*' :: (body ++ '*' :: '/' :: rest)) =
      lexFrom (l.pass ('/' :: '*' :: body ++ ['*', '/'])) 0 rest := by
  have blank : Lexeme.read l.offset '/' ('*' :: body ++ ['*', '/'] ++ rest) =
      ⟨('*' :: body ++ ['*', '/']).length, .blank⟩ := by
    rw [List.append_assoc, List.cons_append, (Lexeme.Reads.blockComment _).eq, Lexeme.blockComment]
    simp only [List.cons_append, List.nil_append, Lexeme.commentLength_inside rest inside,
      Nat.zero_add, List.length_cons, List.length_append, List.length_nil]
  have text : '*' :: (body ++ '*' :: '/' :: rest) = '*' :: body ++ ['*', '/'] ++ rest := by
    simp only [List.cons_append, List.append_assoc, List.nil_append]
  rw [text]
  exact lexFrom_pass _ blank

/-- A comment behind two slashes is passed over. -/
theorem lexFrom_line {l : Lexing} {body rest : List Char}
    (ends : (body ++ rest).takeWhile (· != '\n') = body) :
    lexFrom l 0 ('/' :: '/' :: (body ++ rest)) = lexFrom (l.pass ('/' :: '/' :: body)) 0 rest := by
  refine lexFrom_pass ('/' :: body) ?_
  rw [List.cons_append, (Lexeme.Reads.lineComment _).eq, ends, List.length_cons, Nat.add_comm]

theorem takeWhile_line {body : List Char} (inside : '\n' ∉ body) :
    body.takeWhile (· != '\n') = body := by
  refine List.takeWhile_eq_self_iff.mpr fun c mem => ?_
  rw [bne_iff_ne]
  rintro rfl
  exact inside mem

/-- Blank space is passed over. -/
theorem lexFrom_blank {last : Bool} {gap : List Char} (isBlank : IsBlank last gap) (l : Lexing)
    (after : List Char) (ends : last = true → after = []) :
    lexFrom l 0 (gap ++ after) = lexFrom (l.pass gap) 0 after := by
  have gapChar (l : Lexing) {c : Char} {rest : List Char} (isGap : isGap c) :
      lexFrom l 0 (c :: rest) = lexFrom (l.pass [c]) 0 rest :=
    lexFrom_pass [] (Lexeme.Reads.gap isGap).eq
  induction isBlank generalizing l with
  | nil => rfl
  | @gap c cs isGap rest ih =>
    rw [List.cons_append, gapChar l isGap, ih, ← Lexing.pass_append, List.singleton_append]
  | @blockComment body cs inside rest ih =>
    simp only [List.cons_append, List.append_assoc]
    rw [lexFrom_block inside, ih, ← Lexing.pass_append]
    simp only [List.cons_append, List.append_assoc, List.nil_append]
  | @lineComment body cs inside rest ih =>
    have ends : (body ++ '\n' :: (cs ++ after)).takeWhile (· != '\n') = body := by
      rw [takeWhile_append_stop (by decide), takeWhile_line inside]
    simp only [List.cons_append, List.append_assoc]
    rw [lexFrom_line ends, gapChar _ (by decide), ih, ← Lexing.pass_append, ← Lexing.pass_append]
    simp only [List.cons_append, List.nil_append]
  | @lastLine body inside isLast =>
    simp only [List.cons_append]
    refine lexFrom_line ?_
    rw [ends isLast, List.append_nil, takeWhile_line inside]

/-! ## Lexemes in front of blank space -/

/-- The characters that blank space can start with. -/
def blankStarts : List Char := [' ', '\t', '\n', '\r', '\uFEFF', '/']

/-- The signs that continue a mark. -/
def markJoins (c : Char) : Bool := c ∈ ['+', '-', '=', '&', '|', '<', '>']

theorem takeWhile_ne_cons {p : Char → Bool} {sign : Char} {cs : List Char}
    (other : ∀ tail, cs = sign :: tail → False) (tail : List Char)
    (found : cs.takeWhile p = sign :: tail) : False := by
  cases cs with
  | nil => cases found
  | cons c cs =>
    rw [List.takeWhile_cons] at found
    split at found
    · exact other cs (by rw [(List.cons.inj found).1])
    · cases found

namespace Lexeme

/-- How far a mark reaches is told by the signs behind it. -/
theorem markAhead?_takeWhile (c : Char) (cs : List Char) :
    markAhead? c (cs.takeWhile markJoins) = markAhead? c cs := by
  have starts := markAhead?_eq_none_iff c cs
  revert starts
  fun_cases markAhead? c cs
  all_goals intro starts
  case case3 => exact markAhead?.eq_3 _ (takeWhile_ne_cons ‹_›) (takeWhile_ne_cons ‹_›)
  case case6 => exact markAhead?.eq_6 _ (takeWhile_ne_cons ‹_›) (takeWhile_ne_cons ‹_›)
  case case8 => exact markAhead?.eq_8 _ (takeWhile_ne_cons ‹_›)
  case case10 => exact markAhead?.eq_10 _ (takeWhile_ne_cons ‹_›)
  case case13 => exact markAhead?.eq_13 _ (takeWhile_ne_cons ‹_›) (takeWhile_ne_cons ‹_›)
  case case16 => exact markAhead?.eq_16 _ (takeWhile_ne_cons ‹_›) (takeWhile_ne_cons ‹_›)
  case case18 => exact markAhead?.eq_18 _ (takeWhile_ne_cons ‹_›)
  case case21 => exact markAhead?.eq_21 _ (takeWhile_ne_cons ‹_›)
  case case22 single => exact markAhead?.eq_22 _ (fun _ => takeWhile_ne_cons single _) (takeWhile_ne_cons single)
  case case24 => exact markAhead?.eq_24 _ (takeWhile_ne_cons ‹_›)
  case case26 single single' =>
    exact markAhead?.eq_26 _ (fun _ => takeWhile_ne_cons single _) (takeWhile_ne_cons single) (takeWhile_ne_cons single')
  case case28 => exact markAhead?.eq_28 _ (takeWhile_ne_cons ‹_›)
  case case31 single single' single'' =>
    exact markAhead?.eq_31 _ (fun _ => takeWhile_ne_cons single _) (takeWhile_ne_cons single) (takeWhile_ne_cons single')
      (takeWhile_ne_cons single'')
  case case33 => exact markAhead?.eq_33 _ (takeWhile_ne_cons ‹_›)
  case case46 => exact (markAhead?_eq_none_iff _ _).mpr (starts.mp rfl)
  all_goals rfl

end Lexeme

section

variable {x y : Char} {xs ys : List Char}

theorem isWordPart_of_blank (h : x ∈ blankStarts) : isWordPart x = false := by
  have all : blankStarts.all (!isWordPart ·) = true := by decide
  simpa using List.all_eq_true.mp all x h

theorem isDigit_of_blank (h : x ∈ blankStarts) : x.isDigit = false := by
  have all : blankStarts.all (!·.isDigit) = true := by decide
  simpa using List.all_eq_true.mp all x h

theorem markJoins_of_blank (h : x ∈ blankStarts) : markJoins x = false := by
  have all : blankStarts.all (!markJoins ·) = true := by decide
  simpa using List.all_eq_true.mp all x h

theorem ne_of_blank (h : x ∈ blankStarts) {sign : Char} (other : sign ∉ blankStarts) : x ≠ sign := by
  rintro rfl
  exact other h

/-- A numeral ends where blank space starts. -/
theorem Numeral.read_append (h : x ∈ blankStarts) (text : List Char) :
    read (text ++ x :: xs) = read text := by
  have fraction (cs : List Char) : fractionAhead (cs ++ x :: xs) = fractionAhead cs := by
    rcases cs with _ | ⟨d, cs⟩
    · refine fractionAhead.eq_2 _ fun rest found => ?_
      exact ne_of_blank h (by decide) (List.cons.inj found).1
    · by_cases point : d = '.'
      · subst point
        exact takeWhile_append_stop (isDigit_of_blank h) cs xs
      · rw [List.cons_append, fractionAhead.eq_2 _ (by simp [point]),
          fractionAhead.eq_2 _ (by simp [point])]
  have mark (hasFraction : Bool) (cs : List Char) :
      markAhead hasFraction (cs ++ x :: xs) = markAhead hasFraction cs := by
    rcases cs with _ | ⟨d, cs⟩
    · have other (letter : Char) : letter ∉ blankStarts → x ≠ letter := ne_of_blank h
      simp [markAhead, other 'l' (by decide), other 'L' (by decide), other 'd' (by decide),
        other 'D' (by decide)]
    · rfl
  have length (cs : List Char) : (fractionAhead cs).isEmpty = false →
      (fractionAhead cs).length + 1 ≤ cs.length := by
    fun_cases fractionAhead cs with
    | case1 cs => exact fun _ => Nat.succ_le_succ (List.takeWhile_sublist _).length_le
    | case2 => simp
  unfold read
  simp only [takeWhile_append_stop (isDigit_of_blank h), dropWhile_append_stop (isDigit_of_blank h), fraction]
  split
  · rw [mark]
  · next some =>
    rw [List.drop_append_of_le_length (length _ (by simpa using some)), mark]

namespace Lexeme

theorem word_append (h : x ∈ blankStarts) (c : Char) (cs : List Char) :
    word c (cs ++ x :: xs) = word c cs := by
  unfold word
  dsimp only
  rw [takeWhile_append_stop (isWordPart_of_blank h)]

theorem markAhead?_append (h : x ∈ blankStarts) (c : Char) (cs : List Char) :
    markAhead? c (cs ++ x :: xs) = markAhead? c cs := by
  rw [← markAhead?_takeWhile, takeWhile_append_stop (markJoins_of_blank h), markAhead?_takeWhile]

theorem numeral_replace (hx : x ∈ blankStarts) (hy : y ∈ blankStarts) {start : Nat} {c : Char}
    {cs : List Char} (clean : ∀ errors, (numeral start c (cs ++ x :: xs)).content ≠ .faulty errors) :
    numeral start c (cs ++ y :: ys) = numeral start c (cs ++ x :: xs) := by
  have readX : Numeral.read (c :: (cs ++ x :: xs)) = Numeral.read (c :: cs) :=
    Numeral.read_append hx (c :: cs)
  have readY : Numeral.read (c :: (cs ++ y :: ys)) = Numeral.read (c :: cs) :=
    Numeral.read_append hy (c :: cs)
  unfold numeral at clean ⊢
  rw [readX] at clean ⊢
  rw [readY]
  cases kind : (Numeral.read (c :: cs)).kind with
  | ok kind => simp only [kind]
  | error fault =>
    simp only [kind] at clean
    exact absurd rfl (clean _)

end Lexeme

end

section

variable {cs inner rest rest' : List Char}

/-- What stands in front of a place further on. -/
theorem exists_of_append_eq (whole : cs ++ rest = inner ++ rest')
    (long : inner.length ≤ cs.length) :
    ∃ between, cs = inner ++ between ∧ rest' = between ++ rest := by
  rcases List.append_eq_append_iff.mp whole with ⟨between, rfl, rfl⟩ | ⟨between, rfl, rfl⟩
  · have none : between = [] := by
      rw [List.length_append] at long
      exact List.eq_nil_of_length_eq_zero (by omega)
    subst none
    exact ⟨[], by rw [List.append_nil, List.append_nil], rfl⟩
  · exact ⟨between, rfl, rfl⟩

/-- A line that ends within a text does not depend on what follows. -/
theorem takeWhile_within {p : Char → Bool} (within : ((cs ++ rest).takeWhile p).length < cs.length) :
    (cs ++ rest').takeWhile p = (cs ++ rest).takeWhile p := by
  rw [List.takeWhile_append] at within
  rw [List.takeWhile_append, List.takeWhile_append]
  split
  · next all =>
    rw [if_pos all, List.length_append] at within
    omega
  · rfl

namespace Lexeme

theorem blockComment_replace {start : Nat}
    (within : (blockComment start (cs ++ rest)).more ≤ cs.length + 1)
    (clean : ∀ errors, (blockComment start (cs ++ rest)).content ≠ .faulty errors) :
    blockComment start (cs ++ rest') = blockComment start (cs ++ rest) := by
  unfold blockComment at within clean ⊢
  rcases closed : commentLength 0 (cs ++ rest) with ⟨n, isClosed⟩
  rw [closed] at within clean
  cases isClosed with
  | false => exact absurd rfl (clean _)
  | true =>
    obtain ⟨body, behind, whole, rfl, inside⟩ := commentLength_closed closed
    have cut : cs ++ rest = body ++ ['*', '/'] ++ behind :=
      whole.trans (by simp only [List.append_assoc, List.cons_append, List.nil_append])
    obtain ⟨between, rfl, rfl⟩ := exists_of_append_eq cut (by simpa using within)
    simp only [List.append_assoc, List.cons_append, List.nil_append, commentLength_inside _ inside,
      Nat.zero_add]

theorem quoted_replace {start : Nat} (within : (quoted start (cs ++ rest)).more ≤ cs.length)
    (clean : ∀ errors, (quoted start (cs ++ rest)).content ≠ .faulty errors) :
    quoted start (cs ++ rest') = quoted start (cs ++ rest) := by
  rcases closed : quotedLength 0 (cs ++ rest) with ⟨n, ending⟩
  have isClosed : ending = .closed := by
    by_contra open'
    simp [quoted, closed, open'] at clean
  subst isClosed
  obtain ⟨inner, behind, whole, rfl, ends⟩ := quotedLength_closed closed
  rw [quoted_more, closed] at within
  have cut : cs ++ rest = inner ++ ['\''] ++ behind :=
    whole.trans (by rw [List.append_assoc, List.singleton_append])
  obtain ⟨between, rfl, rfl⟩ := exists_of_append_eq cut (by simpa using within)
  unfold quoted
  simp only [List.append_assoc, List.cons_append, List.nil_append, ends, Nat.zero_add,
    List.take_left, if_true]

theorem query_replace {language : QueryLanguage} {start : Nat}
    (within : (query language start (cs ++ rest)).more ≤ cs.length)
    (clean : ∀ errors, (query language start (cs ++ rest)).content ≠ .faulty errors) :
    query language start (cs ++ rest') = query language start (cs ++ rest) ∧
      queryAhead? (cs ++ rest') = queryAhead? (cs ++ rest) := by
  unfold query at within clean ⊢
  rcases closed : queryLength 0 0 false (cs ++ rest) with ⟨n, ending⟩
  rw [closed] at within clean
  cases ending with
  | sourceEnd | sourceEndInString => exact absurd rfl (clean _)
  | closed =>
    obtain ⟨inner, behind, whole, rfl, ends⟩ := queryLength_closed closed
    have cut : cs ++ rest = inner ++ [']'] ++ behind :=
      whole.trans (by rw [List.append_assoc, List.singleton_append])
    obtain ⟨between, rfl, rfl⟩ := exists_of_append_eq cut (by simpa using within)
    simp only [List.append_assoc, List.cons_append, List.nil_append, ends, Nat.zero_add,
      List.take_left, queryAhead?_append_bracket inner (between ++ _), true_and]

end Lexeme

end

section

variable {x y : Char} {xs ys : List Char}

namespace Lexeme

theorem sign_replace (hx : x ∈ blankStarts) (hy : y ∈ blankStarts) {start : Nat} {c : Char}
    {cs : List Char} (within : (sign start c (cs ++ x :: xs)).more ≤ cs.length)
    (clean : ∀ errors, (sign start c (cs ++ x :: xs)).content ≠ .faulty errors)
    (ahead : c = '[' → queryAhead? (cs ++ x :: xs) = none → queryAhead? (cs ++ y :: ys) = none) :
    sign start c (cs ++ y :: ys) = sign start c (cs ++ x :: xs) := by
  unfold sign at within clean ⊢
  cases found : (if c = '[' then queryAhead? (cs ++ x :: xs) else none) with
  | some language =>
    rw [found] at within clean
    have both : query language start (cs ++ y :: ys) = query language start (cs ++ x :: xs) ∧
        queryAhead? (cs ++ y :: ys) = queryAhead? (cs ++ x :: xs) := query_replace within clean
    obtain ⟨same, sameAhead⟩ := both
    rw [sameAhead, found]
    exact same
  | none =>
    have found' : (if c = '[' then queryAhead? (cs ++ y :: ys) else none) = none := by
      split
      · next bracket => exact ahead bracket (by rwa [if_pos bracket] at found)
      · rfl
    rw [found] at clean
    rw [found']
    dsimp only at clean ⊢
    rw [markAhead?_append hx] at clean ⊢
    rw [markAhead?_append hy]
    split
    · rfl
    · next none =>
      rw [none] at clean
      exact absurd rfl (clean _)

/-- A lexeme in front of blank space stays what it is when a space takes its place, unless it is a
bracket that is now followed by the words of a query. -/
theorem read_replace (hx : x ∈ blankStarts) {start : Nat} {c : Char}
    {cs : List Char} (within : (read start c (cs ++ x :: xs)).more ≤ cs.length)
    (strict : (read start c (cs ++ x :: xs)).content = .blank →
      (read start c (cs ++ x :: xs)).more < cs.length)
    (clean : ∀ errors, (read start c (cs ++ x :: xs)).content ≠ .faulty errors)
    (ahead : c = '[' → queryAhead? (cs ++ x :: xs) = none → queryAhead? (cs ++ ' ' :: ys) = none) :
    read start c (cs ++ ' ' :: ys) = read start c (cs ++ x :: xs) := by
  have hy : ' ' ∈ blankStarts := by decide
  -- A slash that starts no comment does not start one in front of a space.
  have other {d : Char} (none : ∀ rest, c = '/' → cs ++ x :: xs = d :: rest → False)
      (visible : ' ' ≠ d) (rest : List Char) (slash : c = '/')
      (found : cs ++ ' ' :: ys = d :: rest) : False := by
    cases cs with
    | nil => exact visible (List.cons.inj found).1
    | cons e cs => exact none (cs ++ x :: xs) slash (by rw [← (List.cons.inj found).1]; rfl)
  obtain ⟨lexeme, reads, same⟩ := exists_reads start c (cs ++ x :: xs)
  rw [same] at within strict clean ⊢
  generalize whole : cs ++ x :: xs = text at reads
  cases reads with
  | gap isGap => exact (Reads.gap isGap).eq
  | word noGap letter =>
    rw [(Reads.word noGap letter).eq, ← whole, word_append hx, word_append hy]
  | numeral noGap noLetter digit =>
    subst whole
    rw [(Reads.numeral noGap noLetter digit).eq]
    exact numeral_replace hx hy clean
  | lineComment cs' =>
    cases cs with
    | nil => exact absurd (strict rfl) (Nat.not_lt_zero _)
    | cons d cs =>
      rw [List.cons_append] at whole
      obtain ⟨rfl, rfl⟩ := List.cons.inj whole
      have inner := strict rfl
      rw [List.length_cons] at inner
      have body : (cs ++ ' ' :: ys).takeWhile (· != '\n') =
          (cs ++ x :: xs).takeWhile (· != '\n') :=
        takeWhile_within (by dsimp only at inner; omega)
      rw [List.cons_append, (Reads.lineComment _).eq, body]
  | blockComment cs' =>
    cases cs with
    | nil => exact absurd (List.cons.inj whole).1 (ne_of_blank hx (by decide))
    | cons d cs =>
      rw [List.cons_append] at whole
      obtain ⟨rfl, rfl⟩ := List.cons.inj whole
      rw [List.cons_append, (Reads.blockComment _).eq]
      exact blockComment_replace within clean
  | quoted cs' =>
    subst whole
    rw [(Reads.quoted _).eq]
    exact quoted_replace within clean
  | sign noGap noLetter noDigit unquoted noLine noBlock =>
    subst whole
    rw [(Reads.sign noGap noLetter noDigit unquoted (other noLine (by decide))
      (other noBlock (by decide))).eq]
    exact sign_replace hx hy within clean ahead

end Lexeme

end

theorem IsBlank.head_mem {last : Bool} {x : Char} {xs : List Char} (h : IsBlank last (x :: xs)) :
    x ∈ blankStarts := by
  generalize whole : x :: xs = gap at h
  cases h with
  | nil => cases whole
  | gap isGap =>
    cases whole
    unfold Apex.isGap at isGap
    simp only [Bool.or_eq_true, beq_iff_eq] at isGap
    simp only [blankStarts, List.mem_cons, List.not_mem_nil, or_false]
    tauto
  | blockComment | lineComment | lastLine =>
    cases whole
    decide

end Apex
