import Apex.Proofs.Tiling.Places

/-!
# Queries are captured exactly

What stands in quotes is told by an automaton that knows nothing of brackets and variables. Set
against it, a query reaches to the first closing bracket at depth zero, its text is what stands
between its brackets, and it records the variables that are bound there, all of them and nothing
else.
-/

namespace Apex

/-! ## Quoted strings -/

/-- How the next character of a text stands to quoted strings. -/
inductive Quoting where
  /-- Outside of them: a quote opens one. -/
  | outside
  /-- In one: a quote closes it. -/
  | inside
  /-- In one, behind a backslash, which shields it. -/
  | shielded
deriving DecidableEq, Repr

namespace Quoting

/-- How what follows a character stands to quoted strings. -/
def next : Quoting → Char → Quoting
  | outside, c => if c = '\'' then inside else outside
  | inside, c => if c = '\\' then shielded else if c = '\'' then outside else inside
  | shielded, _ => inside

/-- How what follows a text stands to quoted strings. -/
def after (q : Quoting) (cs : List Char) : Quoting := cs.foldl next q

/-- The characters of a text without its quoted strings. -/
def unquoted (q : Quoting) : List Char → List Char
  | [] => []
  | c :: cs => if q = outside ∧ c ≠ '\'' then c :: (q.next c).unquoted cs else (q.next c).unquoted cs

theorem unquoted_cons (q : Quoting) (c : Char) (cs : List Char) :
    q.unquoted (c :: cs) = q.unquoted [c] ++ (q.next c).unquoted cs := by
  simp only [unquoted]
  split <;> rfl

/-- The state that a scan of a query keeps between two characters. -/
def ofInString (inString : Bool) : Quoting := if inString then inside else outside

end Quoting

/-! ## The closing bracket -/

/-- A closing bracket behind the text, which starts `depth` brackets deep, closes the outermost of
them, and no earlier one does. -/
structure Closes (q : Quoting) (depth : Nat) (text : List Char) : Prop where
  /-- The bracket is not quoted. -/
  unquoted : q.after text = .outside
  /-- Of the closing brackets that are not quoted only this one is at depth zero. -/
  first : ∀ before after, text ++ [']'] = before ++ ']' :: after → q.after before = .outside →
    (depth + (q.unquoted before).count '[' = (q.unquoted before).count ']' ↔ after = [])

namespace Closes

theorem nil : Closes .outside 0 [] where
  unquoted := rfl
  first before after split _ := by
    cases before with
    | nil =>
      cases split
      exact iff_of_true rfl rfl
    | cons c before =>
      have length := congrArg List.length split
      simp at length

/-- One more character in front, unless it closes the outermost bracket itself. -/
theorem cons {q : Quoting} {c : Char} {depth depth' : Nat} {text : List Char}
    (h : Closes (q.next c) depth' text)
    (brackets : depth + (q.unquoted [c]).count '[' = depth' + (q.unquoted [c]).count ']')
    (inner : q = .outside → c = ']' → depth ≠ 0) : Closes q depth (c :: text) where
  unquoted := h.unquoted
  first before after split outside := by
    cases before with
    | nil =>
      obtain ⟨closing, rest⟩ := List.cons.inj split
      have deep := inner outside closing
      subst rest
      simp [Quoting.unquoted, deep]
    | cons d before =>
      obtain ⟨same, rest⟩ := List.cons.inj split
      subst same
      rw [← h.first before after rest outside, q.unquoted_cons, List.count_append,
        List.count_append]
      omega

/-- A character in quotes, or one that is no bracket. -/
theorem cons_plain {q : Quoting} {c : Char} {depth : Nat} {text : List Char}
    (h : Closes (q.next c) depth text) (plain : q = .outside → c ≠ '[' ∧ c ≠ ']') :
    Closes q depth (c :: text) := by
  refine h.cons ?_ fun outside closing => absurd closing (plain outside).2
  unfold Quoting.unquoted
  split
  · next outside =>
    obtain ⟨opening, closing⟩ := plain outside.1
    simp [Quoting.unquoted, opening, closing]
  · rfl

/-- What is found behind a character, found from the character on. -/
theorem exists_cons {q q' : Quoting} {c : Char} {cs : List Char} {depth depth' n m : Nat}
    (found : ∃ inner rest, cs = inner ++ ']' :: rest ∧ m = n + 1 + inner.length ∧
      Closes q' depth' inner)
    (extend : ∀ inner, Closes q' depth' inner → Closes q depth (c :: inner)) :
    ∃ inner rest, c :: cs = inner ++ ']' :: rest ∧ m = n + inner.length ∧ Closes q depth inner := by
  obtain ⟨inner, rest, rfl, rfl, closes⟩ := found
  exact ⟨c :: inner, rest, rfl, by rw [List.length_cons]; omega, extend inner closes⟩

end Closes

namespace Quoting

theorem next_inside_of_ne {c : Char} (plain : c ≠ '\\') :
    inside.next c = ofInString (c != '\'') := by
  simp only [next, ofInString, if_neg plain, bne_iff_ne]
  split <;> simp_all

theorem next_outside (c : Char) : outside.next c = ofInString (c == '\'') := by
  unfold next ofInString
  simp only [beq_iff_eq]

end Quoting

/-- The scan of a query ends at the bracket that closes it. -/
theorem queryLength_closes {depth n m : Nat} {inString : Bool} {cs : List Char}
    (closed : queryLength depth n inString cs = (m, .closed)) :
    ∃ inner rest, cs = inner ++ ']' :: rest ∧ m = n + inner.length ∧
      Closes (.ofInString inString) depth inner := by
  fun_induction queryLength depth n inString cs with
  | case1 => split at closed <;> cases closed
  | case2 => cases closed
  | case3 depth n c cs ih =>
    have shielded := Closes.exists_cons (q := .shielded) (c := c) (ih closed) fun inner closes =>
      .cons_plain closes (by simp)
    exact Closes.exists_cons shielded fun inner closes => .cons_plain closes (by simp)
  | case4 depth n c cs plain ih =>
    refine Closes.exists_cons (ih closed) fun inner closes => .cons_plain ?_ (by simp [Quoting.ofInString])
    exact (Quoting.next_inside_of_ne plain).symm ▸ closes
  | case5 depth n inString cs outside ih =>
    rw [Bool.not_eq_true] at outside
    subst outside
    exact Closes.exists_cons (ih closed) fun inner closes => .cons closes rfl (by simp)
  | case6 n inString cs outside =>
    rw [Bool.not_eq_true] at outside
    subst outside
    cases closed
    exact ⟨[], cs, rfl, rfl, .nil⟩
  | case7 n inString cs outside depth _ ih =>
    rw [Bool.not_eq_true] at outside
    subst outside
    exact Closes.exists_cons (ih closed) fun inner closes => .cons closes rfl (by simp)
  | case8 depth n inString c cs outside opening closing ih =>
    rw [Bool.not_eq_true] at outside
    subst outside
    refine Closes.exists_cons (ih closed) fun inner closes =>
      .cons_plain ?_ fun _ => ⟨opening, closing⟩
    exact (Quoting.next_outside c).symm ▸ closes

/-! ## Bound variables -/

/-- A dotted name: words that start with a letter or an underscore, with points between them. -/
inductive IsPath : List Char → Prop
  | name {c : Char} {cs : List Char} (start : isWordStart c) (parts : ∀ d ∈ cs, isWordPart d) :
    IsPath (c :: cs)
  | dotted {c : Char} {cs rest : List Char} (start : isWordStart c) (parts : ∀ d ∈ cs, isWordPart d)
    (path : IsPath rest) : IsPath (c :: cs ++ '.' :: rest)

/-- The text starts with a letter or an underscore. -/
def StartsWord (cs : List Char) : Prop := ∃ c rest, cs = c :: rest ∧ isWordStart c

theorem startsWord_iff (cs : List Char) :
    StartsWord cs ↔ (cs.head?.map isWordStart).getD false = true := by
  cases cs with
  | nil => exact iff_of_false nofun nofun
  | cons c cs =>
    refine ⟨?_, fun start => ⟨c, cs, rfl, start⟩⟩
    rintro ⟨_, _, ⟨⟩, start⟩
    exact start

theorem IsPath.startsWord {path : List Char} (isPath : IsPath path) (rest : List Char) :
    StartsWord (path ++ rest) := by
  cases isPath with
  | name start => exact ⟨_, _, rfl, start⟩
  | dotted start => exact ⟨_, _, rfl, start⟩

/-- A colon is no part of a dotted name. -/
theorem IsPath.colon_notMem {path : List Char} (isPath : IsPath path) : ':' ∉ path := by
  have word {c : Char} {cs : List Char} (start : isWordStart c) (parts : ∀ d ∈ cs, isWordPart d) :
      ':' ∉ c :: cs := by
    rintro (_ | ⟨_, mem⟩)
    · exact absurd start (by decide)
    · exact absurd (parts _ mem) (by decide)
  induction isPath with
  | name start parts => exact word start parts
  | dotted start parts path ih =>
    rw [List.mem_append, not_or]
    exact ⟨word start parts, List.not_mem_cons_of_ne_of_not_mem (by decide) ih⟩

/-- A dotted name that has been begun is followed to its end. -/
theorem pathLength_isPath (n : Nat) (cs : List Char) :
    ∃ tail rest, cs = tail ++ rest ∧ pathLength n cs = n + tail.length ∧
      ∀ c ds, isWordStart c → (∀ d ∈ ds, isWordPart d) → IsPath (c :: ds ++ tail) := by
  have stop : ∀ (c : Char) (ds : List Char), isWordStart c → (∀ d ∈ ds, isWordPart d) →
      IsPath (c :: ds ++ []) := by
    intro c ds start parts
    rw [List.append_nil]
    exact .name start parts
  fun_induction pathLength n cs with
  | case1 n c cs start ih =>
    obtain ⟨tail, rest, rfl, length, isPath⟩ := ih
    refine ⟨'.' :: c :: tail, rest, rfl, by rw [length]; simp only [List.length_cons]; omega, ?_⟩
    intro d ds start' parts
    exact .dotted start' parts (isPath c [] start (List.forall_mem_nil _))
  | case3 n c cs other part ih =>
    obtain ⟨tail, rest, rfl, length, isPath⟩ := ih
    refine ⟨c :: tail, rest, rfl, by rw [length, List.length_cons]; omega, ?_⟩
    intro d ds start parts
    rw [List.append_cons, List.cons_append]
    refine isPath d (ds ++ [c]) start fun d' mem => ?_
    rcases List.mem_append.mp mem with mem | mem
    · exact parts d' mem
    · rwa [List.mem_singleton.mp mem]
  | case2 | case4 | case5 => exact ⟨[], _, rfl, rfl, stop⟩

theorem exists_path {c : Char} (start : isWordStart c) (cs : List Char) :
    ∃ path rest, c :: cs = path ++ rest ∧ pathLength 0 (c :: cs) = path.length ∧ IsPath path := by
  obtain ⟨tail, rest, rfl, length, isPath⟩ := pathLength_isPath 1 cs
  refine ⟨c :: tail, rest, rfl, ?_, isPath c [] start nofun⟩
  have noPoint : ∀ d ds, c = '.' → tail ++ rest = d :: ds → False := by
    rintro d ds rfl
    exact absurd start (by decide)
  rw [pathLength.eq_2 _ _ _ noPoint, if_pos (isWordPart_of_isWordStart start), length,
    List.length_cons, Nat.add_comm]

/-- `binds` are the variables bound in the text, which starts at byte `offset`. -/
structure Binds (q : Quoting) (offset : Nat) (text : List Char) (binds : List (Spanned String)) :
    Prop where
  /-- What is bound stands in the text: a colon and a dotted name. -/
  sound : ∀ b ∈ binds, ∃ before path after, text = before ++ ':' :: path ++ after ∧ IsPath path ∧
    b = ⟨String.ofList (':' :: path),
      ⟨offset + byteSize before, offset + byteSize before + byteSize (':' :: path)⟩⟩
  /-- A colon binds if it is not quoted and a letter or an underscore follows, and only then. -/
  complete : ∀ before after, text = before ++ ':' :: after →
    ((∃ b ∈ binds, b.span.start = offset + byteSize before) ↔
      q.after before = .outside ∧ StartsWord after)
  /-- The variables are in the order of the text and do not overlap. -/
  ordered : binds.Pairwise fun b b' => b.span.stop ≤ b'.span.start

namespace Binds

variable {q : Quoting} {offset : Nat} {text : List Char} {binds : List (Spanned String)}

theorem nil (q : Quoting) (offset : Nat) : Binds q offset [] [] where
  sound := nofun
  complete before after split := by
    cases before <;> cases split
  ordered := .nil

theorem le_start (h : Binds q offset text binds) {b : Spanned String} (mem : b ∈ binds) :
    offset ≤ b.span.start := by
  obtain ⟨before, path, after, -, -, rfl⟩ := h.sound b mem
  exact Nat.le_add_right _ _

/-- What is bound behind the first character stands further on. -/
theorem sound_cons {c : Char} (h : Binds q (offset + c.utf8Size) text binds) :
    ∀ b ∈ binds, ∃ before path after, c :: text = before ++ ':' :: path ++ after ∧ IsPath path ∧
      b = ⟨String.ofList (':' :: path),
        ⟨offset + byteSize before, offset + byteSize before + byteSize (':' :: path)⟩⟩ := by
  intro b mem
  obtain ⟨before, path, after, rfl, isPath, rfl⟩ := h.sound b mem
  refine ⟨c :: before, path, after, rfl, isPath, ?_⟩
  rw [byteSize_cons c, Nat.add_assoc]

/-- A character that binds nothing. -/
theorem cons {c : Char} (h : Binds (q.next c) (offset + c.utf8Size) text binds)
    (free : ¬(q = .outside ∧ c = ':' ∧ StartsWord text)) : Binds q offset (c :: text) binds where
  sound := h.sound_cons
  complete before after split := by
    cases before with
    | nil =>
      obtain ⟨colon, rest⟩ := List.cons.inj split
      subst rest
      refine iff_of_false ?_ fun ⟨outside, word⟩ => free ⟨outside, colon, word⟩
      rintro ⟨b, mem, start⟩
      have behind := h.le_start mem
      have size := c.utf8Size_pos
      rw [start, byteSize_nil] at behind
      omega
    | cons d before =>
      obtain ⟨same, rest⟩ := List.cons.inj split
      subst same
      rw [byteSize_cons, ← Nat.add_assoc]
      exact h.complete before after rest
  ordered := h.ordered

/-- A colon that binds a variable. -/
theorem bind {path rest : List Char} (h : Binds .outside (offset + 1) (path ++ rest) binds)
    (isPath : IsPath path) :
    Binds .outside offset (':' :: path ++ rest)
      (⟨String.ofList (':' :: path), ⟨offset, offset + byteSize (':' :: path)⟩⟩ :: binds) where
  sound := List.forall_mem_cons.mpr ⟨⟨[], path, rest, rfl, isPath, rfl⟩, h.sound_cons⟩
  complete before after split := by
    rw [List.exists_mem_cons_iff]
    cases before with
    | nil =>
      obtain ⟨-, rest⟩ := List.cons.inj split
      subst rest
      exact iff_of_true (.inl rfl) ⟨rfl, isPath.startsWord rest⟩
    | cons d before =>
      obtain ⟨same, rest⟩ := List.cons.inj split
      subst same
      rw [byteSize_cons ':' before, ← Nat.add_assoc]
      refine Iff.trans ⟨?_, .inr⟩ (h.complete before after rest)
      rintro (start | found)
      · have colon : ':'.utf8Size = 1 := rfl
        dsimp only at start
        omega
      · exact found
  ordered := by
    refine List.pairwise_cons.mpr ⟨fun b mem => ?_, h.ordered⟩
    obtain ⟨before, path', after, split, -, rfl⟩ := h.sound b mem
    obtain ⟨between, rfl⟩ : ∃ between, before = path ++ between := by
      rw [List.append_assoc, List.cons_append] at split
      rcases List.append_eq_append_iff.mp split with ⟨between, same, -⟩ | ⟨between, same, tail⟩
      · exact ⟨between, same⟩
      · cases between with
        | nil => exact ⟨[], by rw [same, List.append_nil, List.append_nil]⟩
        | cons d between =>
          refine absurd ?_ isPath.colon_notMem
          rw [same, ← (List.cons.inj tail).1]
          exact List.mem_append_right _ List.mem_cons_self
    have colon : ':'.utf8Size = 1 := rfl
    simp only [byteSize_append, byteSize_cons]
    omega

end Binds

/-- The variables bound in a text are found, all of them and in order. -/
theorem bindsIn_binds (found : List (Spanned String)) (offset : Nat) (inString : Bool)
    (cs : List Char) :
    ∃ binds, bindsIn found offset inString cs = binds.reverse ++ found ∧
      Binds (.ofInString inString) offset cs binds := by
  have backslash : '\\'.utf8Size = 1 := rfl
  fun_induction bindsIn found offset inString cs with
  | case1 found offset inString => exact ⟨[], rfl, .nil _ _⟩
  | case2 found offset =>
    exact ⟨[], rfl, .cons (c := '\\') (.nil _ _) (by simp)⟩
  | case3 found offset d cs ih =>
    obtain ⟨binds, same, h⟩ := ih
    have shielded : Binds .shielded (offset + 1) (d :: cs) binds := .cons h (by simp)
    exact ⟨binds, same, .cons (c := '\\') shielded (by simp)⟩
  | case4 found offset c cs plain ih =>
    obtain ⟨binds, same, h⟩ := ih
    rw [← Quoting.next_inside_of_ne plain] at h
    exact ⟨binds, same, .cons h (by simp [Quoting.ofInString])⟩
  | case5 found offset inString c cs outside ahead bind span ih =>
    obtain ⟨binds, same, h⟩ := ih
    rw [Bool.not_eq_true] at outside
    subst outside
    obtain ⟨rfl, word⟩ := ahead
    obtain ⟨d, ds, rfl, start⟩ := (startsWord_iff cs).mpr word
    obtain ⟨path, rest, split, length, isPath⟩ := exists_path start ds
    have taken : bind = ':' :: path := by
      unfold bind
      rw [length, split, List.take_left]
    rw [split] at h ⊢
    refine ⟨_, ?_, h.bind isPath⟩
    rw [← split, same, List.reverse_cons, List.append_assoc]
    unfold span
    rw [taken]
    rfl
  | case6 found offset inString c cs outside noBind ih =>
    obtain ⟨binds, same, h⟩ := ih
    rw [Bool.not_eq_true] at outside
    subst outside
    rw [← Quoting.next_outside] at h
    refine ⟨binds, same, .cons h ?_⟩
    rw [startsWord_iff]
    exact fun binds => noBind binds.2

/-! ## Captured queries -/

/-- The query is what stands in the source text under the span. -/
structure Query.IsCaptured (source : String) (span : Span) (q : Query) : Prop where
  /-- Its text is what stands between the brackets at the two ends of the span. -/
  text : ∃ before after, source.toList = before ++ ('[' :: q.text.toList ++ [']']) ++ after ∧
    span = ⟨byteSize before, byteSize before + byteSize ('[' :: q.text.toList ++ [']'])⟩
  /-- That is the piece of the source between the first byte of the span and the last. -/
  slice : Span.slice? ⟨span.start + 1, span.stop - 1⟩ source = some q.text
  /-- The bracket at the end is the first one that closes the bracket at the start. -/
  closes : Closes .outside 0 q.text.toList
  /-- Each bound variable is the piece of the source under its span, a colon and a dotted name. -/
  named : ∀ b ∈ q.binds, b.span.slice? source = some b.value ∧
    ∃ path, b.value.toList = ':' :: path ∧ IsPath path
  /-- The bound variables stand between the brackets. -/
  inside : ∀ b ∈ q.binds, span.start + 1 ≤ b.span.start ∧ b.span.stop ≤ span.stop - 1
  /-- They are in the order of the text and do not overlap. -/
  ordered : q.binds.Pairwise fun b b' => b.span.stop ≤ b'.span.start
  /-- A colon between the brackets binds a variable if it is not quoted and a letter or an
  underscore follows, and only then. -/
  bound : ∀ before after, q.text.toList = before ++ ':' :: after →
    ((∃ b ∈ q.binds, b.span.start = span.start + 1 + byteSize before) ↔
      Quoting.outside.after before = .outside ∧ StartsWord after)

/-- Queries are read at an opening bracket only. -/
theorem Lexeme.bracket_of_read_query {start : Nat} {c : Char} {cs : List Char} {kind : TokenKind}
    {q : Query} (found : (read start c cs).content = .token kind)
    (isQuery : kind = .soql q ∨ kind = .sosl q) :
    c = '[' ∧ ∃ language, read start c cs = query language start cs := by
  obtain ⟨lexeme, cut, same⟩ := exists_reads start c cs
  rw [same] at found ⊢
  cases cut with
  | gap isGap => exact nomatch found
  | word noGap letter =>
    unfold word at found
    dsimp only at found
    split at found <;> cases found
    rcases isQuery with isQuery | isQuery <;> cases isQuery
  | numeral noGap noLetter digit =>
    unfold numeral at found
    dsimp only at found
    split at found
    · next number =>
      cases found
      rcases Numeral.kind_cases number with ⟨v, rfl⟩ | ⟨v, rfl⟩ | ⟨v, rfl⟩ <;>
        rcases isQuery with isQuery | isQuery <;> cases isQuery
    · exact nomatch found
  | lineComment cs => exact nomatch found
  | blockComment cs =>
    unfold blockComment at found
    split at found <;> exact nomatch found
  | quoted cs =>
    unfold quoted at found
    dsimp only at found
    split at found
    · split at found
      · cases found
        rcases isQuery with isQuery | isQuery <;> cases isQuery
      · exact nomatch found
    · exact nomatch found
  | sign noGap noLetter noDigit unquoted noLine noBlock =>
    unfold sign at found ⊢
    split at found
    · next language ahead =>
      split at ahead
      · next bracket => exact ⟨bracket, language, rfl⟩
      · exact nomatch ahead
    · split at found
      · next mark =>
        cases found
        rcases markAhead?_cases mark with ⟨v, rfl⟩ | ⟨v, rfl⟩ <;>
          rcases isQuery with isQuery | isQuery <;> cases isQuery
      · exact nomatch found

/-- A query that is read is closed, and made of the text up to its closing bracket. -/
theorem Lexeme.exists_closed_of_query {language : QueryLanguage} {start : Nat} {cs : List Char}
    {kind : TokenKind} {q : Query} (found : (query language start cs).content = .token kind)
    (isQuery : kind = .soql q ∨ kind = .sosl q) :
    ∃ inner rest, cs = inner ++ ']' :: rest ∧ (query language start cs).more = inner.length + 1 ∧
      q = Query.ofText (start + 1) inner ∧ Closes .outside 0 inner := by
  unfold query at found ⊢
  rcases scan : queryLength 0 0 false cs with ⟨n, ending⟩
  rw [scan] at found
  cases ending with
  | closed =>
    obtain ⟨inner, rest, rfl, rfl, closes⟩ := queryLength_closes scan
    refine ⟨inner, rest, rfl, by rw [Nat.zero_add], ?_, closes⟩
    rw [Nat.zero_add] at found
    dsimp only at found
    rw [List.take_left] at found
    cases language <;> cases found <;> rcases isQuery with isQuery | isQuery <;> cases isQuery <;> rfl
  | sourceEnd | sourceEndInString => exact nomatch found

/-- The query of a text has the variables that are bound in the text. -/
theorem Query.binds_ofText (offset : Nat) (text : List Char) :
    Binds .outside offset text (Query.ofText offset text).binds := by
  obtain ⟨binds, same, bound⟩ := bindsIn_binds [] offset false text
  rwa [Query.ofText, same, List.append_nil, List.reverse_reverse]

/-- The query read from a bracket of the source to the one that closes it is captured. -/
theorem Query.isCaptured_ofText {source : String} {before inner rest : List Char}
    (whole : source.toList = before ++ '[' :: (inner ++ ']' :: rest))
    (closes : Closes .outside 0 inner) :
    (Query.ofText (byteSize before + 1) inner).IsCaptured source
      ⟨byteSize before, byteSize before + byteSize ('[' :: inner ++ [']'])⟩ := by
  have bound := Query.binds_ofText (byteSize before + 1) inner
  have text : (Query.ofText (byteSize before + 1) inner).text = String.ofList inner := rfl
  have brackets : byteSize ('[' :: inner ++ [']']) = byteSize inner + 2 := by
    simp only [byteSize_append, byteSize_cons, byteSize_nil]
    have opening : '['.utf8Size = 1 := rfl
    have closing : ']'.utf8Size = 1 := rfl
    omega
  have behind : byteSize (before ++ ['[']) = byteSize before + 1 := by
    rw [byteSize_append]
    rfl
  rw [brackets]
  refine ⟨⟨before, rest, ?_, ?_⟩, ?_, ?_, ?_, ?_, bound.ordered, ?_⟩
  · simp only [whole, text, String.toList_ofList, List.append_assoc, List.cons_append,
      List.nil_append]
  · rw [text, String.toList_ofList, brackets]
  · have cut : source.toList = (before ++ ['[']) ++ inner ++ (']' :: rest) := by
      simp only [whole, List.append_assoc, List.cons_append, List.nil_append]
    have slice := Span.slice?_of_append _ _ _ cut
    rw [behind] at slice
    have stop : byteSize before + (byteSize inner + 2) - 1 = byteSize before + 1 + byteSize inner := by
      omega
    rwa [stop]
  · rwa [text, String.toList_ofList]
  · intro b mem
    obtain ⟨front, path, after, rfl, isPath, rfl⟩ := bound.sound b mem
    refine ⟨?_, path, String.toList_ofList, isPath⟩
    have cut : source.toList =
        (before ++ ['['] ++ front) ++ (':' :: path) ++ (after ++ ']' :: rest) := by
      simp only [whole, List.append_assoc, List.cons_append, List.nil_append]
    have slice := Span.slice?_of_append _ _ _ cut
    rwa [byteSize_append, behind] at slice
  · intro b mem
    obtain ⟨front, path, after, rfl, isPath, rfl⟩ := bound.sound b mem
    simp only [byteSize_append, byteSize_cons]
    omega
  · rw [text, String.toList_ofList]
    exact bound.complete

/-- A query token of an accepted text is the query that stands in the text under its span: from a
bracket to the first one that closes it, with everything in between as its text, and with all the
variables that are bound there, each where it stands. -/
theorem Query.isCaptured_of_lex {source : String} {tokens : List Token}
    (accepted : lex source = .ok tokens) {t : Token} (mem : t ∈ tokens) {q : Query}
    (isQuery : t.kind = .soql q ∨ t.kind = .sosl q) : q.IsCaptured source t.span := by
  rcases eq_end_or_isFrom_of_lex accepted mem with rfl | ⟨start, c, cs, stands, bears⟩
  · rcases isQuery with isQuery | isQuery <;> cases isQuery
  obtain ⟨before, whole, rfl⟩ := stands
  have found : (Lexeme.read (byteSize before) c cs).content = .token t.kind := by
    cases content : (Lexeme.read (byteSize before) c cs).content with
    | token kind =>
      rw [content] at bears
      cases bears
      rfl
    | keyword k written =>
      rw [content] at bears
      cases bears
      rcases isQuery with isQuery | isQuery <;> cases isQuery
    | blank | faulty =>
      rw [content] at bears
      exact nomatch bears
  have span : t.span = Lexeme.spanAt (byteSize before) c cs := LexemeContent.span_of_token? bears
  obtain ⟨rfl, language, read⟩ := Lexeme.bracket_of_read_query found isQuery
  rw [read] at found
  obtain ⟨inner, rest, rfl, more, rfl, closes⟩ := Lexeme.exists_closed_of_query found isQuery
  rw [Lexeme.spanAt, read, more, List.take_length_add_append, List.take_succ_cons, List.take_zero]
    at span
  rw [span]
  exact Query.isCaptured_ofText whole closes

/-- A query behind a comment, with brackets inside, a quoted bracket and colon, an escaped quote and
a dotted name before a point. -/
theorem Query.isCaptured_of_lex_nested :
    ∃ tokens t, lex "/*\u00e9*/[select a.b[0] from c where d = ':x]\\'' and e = :f.g_1.]" = .ok tokens ∧
      t ∈ tokens ∧ t.span = ⟨6, 62⟩ ∧ ∃ q, t.kind = .soql q ∧ q.binds = [⟨":f.g_1", ⟨54, 60⟩⟩] ∧
        q.IsCaptured "/*\u00e9*/[select a.b[0] from c where d = ':x]\\'' and e = :f.g_1.]" t.span := by
  have ahead : queryAhead? "select a.b[0] from c where d = ':x]\\'' and e = :f.g_1.]".toList =
      some .soql := by
    cbv
  have accepted : lex "/*\u00e9*/[select a.b[0] from c where d = ':x]\\'' and e = :f.g_1.]" =
      .ok [.plain (.soql ⟨"select a.b[0] from c where d = ':x]\\'' and e = :f.g_1.",
        [⟨":f.g_1", ⟨54, 60⟩⟩]⟩) ⟨6, 62⟩, .plain .endOfFile ⟨62, 62⟩] := by
    unfold lex
    rw [show "/*\u00e9*/[select a.b[0] from c where d = ':x]\\'' and e = :f.g_1.]".toList =
      '/' :: "*\u00e9*/".toList ++
        '[' :: "select a.b[0] from c where d = ':x]\\'' and e = :f.g_1.]".toList by decide +kernel]
    have comment : lexFrom ⟨[], [], 0⟩ 0 ('/' :: "*\u00e9*/".toList ++
        '[' :: "select a.b[0] from c where d = ':x]\\'' and e = :f.g_1.]".toList) =
        lexFrom ⟨[], [], 6⟩ 0
          ('[' :: "select a.b[0] from c where d = ':x]\\'' and e = :f.g_1.]".toList) := by
      rfl
    rw [comment, lexFrom_cons, Lexeme.read_query ahead]
    decide +kernel
  exact ⟨_, _, accepted, List.mem_cons_self, rfl, _, rfl, rfl,
    Query.isCaptured_of_lex accepted List.mem_cons_self (.inl rfl)⟩

end Apex
