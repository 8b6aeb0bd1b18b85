import Apex.Layout.Statement
import Apex.Proofs.Spans.Expressions
import Apex.Proofs.Writing.Pages
import Apex.Proofs.Writing.Pieces

/-!
# Expressions as text

An expression is written as tokens of its forms, before whatever may follow an operand. Two things
are looked at beside the tokens themselves: a sign in front of an operand must not be joined to the
sign that the operand begins with, and a bracket must not be taken for the start of a query.
-/

namespace Apex

open Form

variable {settings : LayoutSettings}

/-! ## Rows of marks -/

/-- The marks spell the forms, before whatever may follow an operand. -/
def Sets (settings : LayoutSettings) (forms : List Form) (marks : List Mark) : Prop :=
  ∀ ⦃others : List Form⦄ ⦃rest : List Mark⦄, Open settings rest → Spelled settings others rest →
    Spelled settings (forms ++ others) (marks ++ rest)

section

variable {α : Type} {f : α → List Form} {m : α → List Mark} {xs : List α} {forms : List Form}
  {marks : List Mark}

/-- Items behind a comma, each. -/
theorem Sets.behindCommas (h : ∀ x ∈ xs, Sets settings (f x) (m x)) {others : List Form}
    {rest : List Mark} (follows : Open settings rest) (spelled : Spelled settings others rest) :
    Open settings ((xs.flatMap fun x => .text ", " :: m x) ++ rest) ∧
      Spelled settings ((xs.flatMap fun x => mark .comma :: f x) ++ others)
        ((xs.flatMap fun x => .text ", " :: m x) ++ rest) := by
  induction xs with
  | nil => exact ⟨follows, spelled⟩
  | cons x xs ih =>
    obtain ⟨first, more⟩ := List.forall_mem_cons.mp h
    obtain ⟨follows, spelled⟩ := ih more
    rw [List.flatMap_cons, List.flatMap_cons, List.append_assoc, List.append_assoc]
    exact ⟨.plain (by decide), .fixed [.mark .comma, .blank] (by decide) (first follows spelled)⟩

/-- A list with commas between its items. -/
theorem Sets.commas (h : ∀ x ∈ xs, Sets settings (f x) (m x)) :
    Sets settings (commas (xs.map f)) (commaMarks (xs.map m)) := by
  intro others rest follows spelled
  cases xs with
  | nil => exact spelled
  | cons x xs =>
    obtain ⟨first, more⟩ := List.forall_mem_cons.mp h
    obtain ⟨follows, spelled⟩ := Sets.behindCommas more follows spelled
    rw [List.map_cons, List.map_cons, Form.commas, commaMarks, List.flatMap_map, List.flatMap_map,
      List.append_assoc, List.append_assoc]
    exact first follows spelled

/-- Something in parentheses. -/
theorem Sets.parens (h : Sets settings forms marks) {others : List Form} {rest : List Mark}
    (spelled : Spelled settings others rest) :
    Spelled settings (parens forms ++ others) (.text "(" :: marks ++ .text ")" :: rest) := by
  have closing := spelled.fixed [.mark .closeParen] (t := ")") (by decide)
  have inner := h (.plain (by decide)) closing
  have opening := inner.fixed [.mark .openParen] (t := "(") (by decide)
  rw [Form.parens, List.append_assoc]
  exact opening

/-- Something in braces. -/
theorem Sets.braces (h : Sets settings forms marks) {others : List Form} {rest : List Mark}
    (spelled : Spelled settings others rest) :
    Spelled settings (braces forms ++ others) (.text "\x7b" :: marks ++ .text "\x7d" :: rest) := by
  have closing := spelled.fixed [.mark .closeBrace] (t := "\x7d") (by decide)
  have inner := h (.plain (by decide)) closing
  have opening := inner.fixed [.mark .openBrace] (t := "\x7b") (by decide)
  rw [Form.braces, List.append_assoc]
  exact opening

end

/-! ## Pieces -/

/-- The marks of a piece. -/
def Piece.marks : Piece → List Mark
  | .text written => [.text written]
  | .expr e => e.marks

/-- The marks of a key with its value. -/
def Expr.entryMarks (entry : Expr × Expr) : List Mark :=
  entry.1.marks ++ .text " => " :: entry.2.marks

namespace Piece

theorem map_texts (ps : List Piece) :
    (ps.flatMap texts).map Mark.text = ps.flatMap marks := by
  induction ps with
  | nil => rfl
  | cons p ps ih =>
    rw [List.flatMap_cons, List.map_append, ih]
    cases p <;> rfl

theorem marks_list (es : List Expr) : (list es).flatMap marks = commaMarks (es.map Expr.marks) := by
  cases es with
  | nil => rfl
  | cons e es => simp [list, commaMarks, marks, List.flatMap_assoc, List.flatMap_map]

theorem marks_entries (es : List (Expr × Expr)) :
    (entries es).flatMap marks = commaMarks (es.map Expr.entryMarks) := by
  cases es with
  | nil => rfl
  | cons e es =>
    simp [entries, entry, commaMarks, marks, Expr.entryMarks, List.flatMap_assoc, List.flatMap_map]

end Piece

theorem Expr.marks_eq (e : Expr) : e.marks = e.pieces.flatMap Piece.marks := by
  rw [Expr.marks, e.texts_eq, Piece.map_texts]

/-! ## Words that are variables or called -/

theorem fits_wordKind {text : String} (span : Span) :
    (Form.kind (wordKind text)).Fits (wordToken text span) := by
  unfold wordKind wordToken
  cases Keyword.reservedOfWord? text <;> rfl

theorem isWord_of_sayable {text : String} (h : (Form.kind (wordKind text)).Sayable) :
    IsWord text ∧ ¬IsSelect text := by
  unfold wordKind at h
  cases found : Keyword.reservedOfWord? text with
  | none =>
    rw [found] at h
    exact ⟨h.1, h.2.2⟩
  | some k => exact ⟨isWord_of_ofWord? (Option.filter_eq_some_iff.mp found).1, not_isSelect_of_reserved found⟩

theorem Spelled.called {text : String} (h : (Form.kind (wordKind text)).Sayable)
    {others : List Form} {rest : List Mark} (follows : Open settings rest)
    (spelled : Spelled settings others rest) :
    Spelled settings (.kind (wordKind text) :: others) (.text text :: rest) := by
  obtain ⟨word, -⟩ := isWord_of_sayable h
  have writes : Writes [.kind (wordKind text)] text.toList :=
    .token fun loose => Form.tells_of_word word loose.stops fits_wordKind
  obtain ⟨c, cs, letters, -⟩ := word
  exact .writes writes (by simp [letters]) follows spelled

theorem isWord_of_named {text : String} (h : (named text).Sayable) :
    IsWord text ∧ ¬IsSelect text := by
  unfold named at h
  split at h
  · exact h
  · exact ⟨h.1, h.2.2⟩

theorem Spelled.named {text : String} (h : (Form.named text).Sayable) {others : List Form}
    {rest : List Mark} (follows : Open settings rest) (spelled : Spelled settings others rest) :
    Spelled settings (Form.named text :: others) (.text text :: rest) := by
  obtain ⟨word, -⟩ := isWord_of_named h
  have writes : Writes [Form.named text] text.toList := by
    refine .token fun loose => Form.tells_of_word word loose.stops fun span => ?_
    unfold Form.named
    split
    · exact fits_word span
    · next free => exact fits_name (by simpa using free) span
  obtain ⟨c, cs, letters, -⟩ := word
  exact .writes writes (by simp [letters]) follows spelled

/-! ## Brackets that open no query -/

/-- The characters that open what a search looks for. -/
def opensSearch (c : Char) : Bool := c == '\'' || c == '\x7b' || c == ':'

/-- A word before the text is no start of a query, unless it is `select`. -/
structure Idle (behind : List Char) : Prop where
  stops : Stops isWordPart behind
  next : Stops opensSearch (behind.dropWhile isWhiteSpace)

/-- What the marks write is idle. -/
def Harmless (settings : LayoutSettings) (marks : List Mark) : Prop :=
  ∀ level, Idle (put settings level false marks)

/-- Where a word stands, the words behind a bracket are that word and what follows it. -/
theorem queryAhead?_eq_queryNext? {text : String} {behind : List Char} (word : IsWord text)
    (stops : Stops isWordPart behind) :
    queryAhead? (text.toList ++ behind) = queryNext? text behind := by
  obtain ⟨c, cs, spelled, letter, parts⟩ := word
  have all : text.toList.all isWordPart = true := by
    rw [spelled, List.all_cons, isWordPart_of_isWordStart letter, parts]
    rfl
  have white : (text.toList ++ behind).dropWhile isWhiteSpace = text.toList ++ behind := by
    rw [spelled, List.cons_append, List.dropWhile_cons, isWhiteSpace_of_isWordStart letter,
      if_neg (by decide)]
  rw [queryAhead?_eq, white, stops.takeWhile_append all, stops.dropWhile_append all,
    String.ofList_toList]

/-- A word that announces no query. -/
theorem queryAhead?_word {text : String} {b : List Char} (word : IsWord text)
    (stops : Stops isWordPart b) (other : ¬IsQueryWord text) :
    queryAhead? (text.toList ++ b) = none := by
  rw [queryAhead?_eq_queryNext? word stops]
  by_contra some
  exact other (isQueryWord_of_queryNext? some)

/-- A word other than `select`, before idle text. -/
theorem queryAhead?_idle {text : String} {behind : List Char} (word : IsWord text)
    (other : ¬IsSelect text) (idle : Idle behind) : queryAhead? (text.toList ++ behind) = none := by
  have select : sameWord "select" text = false := by simpa [IsSelect] using other
  rw [queryAhead?_eq_queryNext? word idle.stops]
  unfold queryNext?
  split
  · split
    · next c rest next =>
      have noSearch : opensSearch c = false := idle.next c (by rw [next]; rfl)
      simp only [opensSearch, Bool.or_eq_false_iff, beq_eq_false_iff_ne] at noSearch
      simp [select, noSearch]
    · rfl
  · rfl

/-- What does not begin with a letter opens no query. -/
theorem queryAhead?_of_not_letter {c : Char} (visible : isWhiteSpace c = false)
    (letter : isWordStart c = false) (cs : List Char) : queryAhead? (c :: cs) = none := by
  have white : (c :: cs).dropWhile isWhiteSpace = c :: cs := by
    rw [List.dropWhile_cons, visible, if_neg (by decide)]
  rw [queryAhead?_eq, white]
  by_contra some
  have start := (isWord_of_isQueryWord (isQueryWord_of_queryNext? some)).1
  rw [List.takeWhile_cons] at start
  split at start
  · rw [List.head?_cons, Option.map_some, Option.getD_some, letter] at start
    cases start
  · cases start

/-! ## What an expression begins with -/

/-- What the marks of an operand begin with: no sign that a sign before it would join, unless they
are said to begin with one, and no word that would make a query of them behind a bracket. -/
structure Begins (settings : LayoutSettings) (marks : List Mark) (signed : Bool) : Prop where
  head : ∃ text more c cs, marks = .text text :: more ∧ text.toList = c :: cs ∧
    (markJoins c = true → signed = true)
  noQuery : ∀ {rest : List Mark}, Harmless settings rest →
    ∀ level, queryAhead? (put settings level false (marks ++ rest)) = none

section

variable {marks more : List Mark} {signed : Bool} {text : String}

/-- What follows an operand does not change what it begins with. -/
theorem Begins.append (h : Begins settings marks signed)
    (harmless : ∀ {rest : List Mark}, Harmless settings (more ++ rest)) :
    Begins settings (marks ++ more) signed where
  head := by
    obtain ⟨text, others, c, cs, rfl, first⟩ := h.head
    exact ⟨text, others ++ more, c, cs, rfl, first⟩
  noQuery _ level := by
    rw [List.append_assoc]
    exact h.noQuery harmless level

/-- A text that does not begin with a letter. -/
theorem Begins.of_mark {c : Char} {s : List Char} (spelled : text.toList = c :: s)
    (visible : isWhiteSpace c = false) (letter : isWordStart c = false)
    (joins : markJoins c = true → signed = true) : Begins settings (.text text :: marks) signed where
  head := ⟨text, marks, c, s, rfl, spelled, joins⟩
  noQuery _ level := by
    rw [List.cons_append, put_text (by simp [spelled]), spelled]
    exact queryAhead?_of_not_letter visible letter _

/-- A word other than `select`. -/
theorem Begins.of_word (word : IsWord text) (other : ¬IsSelect text)
    (harmless : ∀ {rest : List Mark}, Harmless settings rest → Harmless settings (marks ++ rest)) :
    Begins settings (.text text :: marks) signed where
  head := by
    obtain ⟨c, cs, spelled, letter, -⟩ := word
    refine ⟨text, marks, c, cs, rfl, spelled, fun joins => ?_⟩
    rw [markJoins_of_isWordStart letter] at joins
    cases joins
  noQuery {rest} idle level := by
    have some : text.toList ≠ [] := by
      obtain ⟨c, cs, spelled, -⟩ := word
      simp [spelled]
    rw [List.cons_append, put_text some]
    exact queryAhead?_idle word other (harmless idle level)

/-- A word of the language. -/
theorem Begins.of_reserved {k : Keyword} (found : Keyword.reservedOfWord? text = some k) :
    Begins settings [.text text] signed :=
  .of_word (isWord_of_ofWord? (Option.filter_eq_some_iff.mp found).1)
    (not_isSelect_of_reserved found) id

/-- The word `new` before a type. -/
theorem Begins.of_new : Begins settings (.text "new " :: marks) signed where
  head := ⟨"new ", marks, 'n', ['e', 'w', ' '], rfl, rfl, fun joins => absurd joins (by decide)⟩
  noQuery {rest} _ level := by
    have word : IsWord "new" := isWord_of_ofWord? (k := .kwNew) (by decide +kernel)
    have other : ¬IsQueryWord "new" := by
      unfold IsQueryWord
      decide +kernel
    rw [List.cons_append, put_text (by decide)]
    exact queryAhead?_word (b := ' ' :: _) word (.cons (by decide) _) other

/-- Whether a text is harmless, whatever comes behind it. -/
def isHarmless (text : String) : Bool :=
  !(text.toList.head?.map isWordPart).getD true &&
    !((text.toList.dropWhile isWhiteSpace).head?.map opensSearch).getD true

theorem Harmless.plain (h : isHarmless text = true) : Harmless settings (.text text :: marks) := by
  simp only [isHarmless, Bool.and_eq_true, Bool.not_eq_true'] at h
  obtain ⟨stops, next⟩ := h
  cases spelled : text.toList with
  | nil =>
    rw [spelled] at stops
    cases stops
  | cons c cs =>
    intro level
    rw [put_text (by simp [spelled])]
    constructor
    · rw [spelled] at stops ⊢
      exact .cons stops _
    · cases dropped : text.toList.dropWhile isWhiteSpace with
      | nil =>
        rw [dropped] at next
        cases next
      | cons d ds =>
        rw [dropped] at next
        rw [List.dropWhile_append, dropped]
        exact .cons next _

/-- An operator between operands. -/
theorem Harmless.operator (o : Operator) :
    Harmless settings (.text " " :: .text o.spelling :: marks) := by
  intro level
  have some : o.spelling.toList ≠ [] := by cases o <;> decide
  rw [put_text (by decide), put_text some]
  cases o <;> exact ⟨.cons (by decide) _, .cons (by decide) _⟩

theorem Literal.begins {v : Literal} (say : AllSayable v.forms) :
    Begins settings [.text v.text] signed := by
  have digit {text : String} (h : ∃ c cs, text.toList = c :: cs ∧ c.isDigit = true) :
      Begins settings [.text text] signed := by
    obtain ⟨c, cs, spelled, digit⟩ := h
    refine .of_mark spelled (isWhiteSpace_of_isDigit digit)
      (by simpa using not_isWordStart_of_isDigit digit) fun joins => ?_
    rw [markJoins_of_isDigit digit] at joins
    cases joins
  cases v with
  | integer value =>
    have positive : 0 ≤ value.toInt := say (.kind (.integer value)) (List.mem_singleton_self _)
    have digits := exists_digit positive ""
    rw [String.append_empty] at digits
    exact digit digits
  | long value =>
    have positive : 0 ≤ value.toInt := say (.kind (.long value)) (List.mem_singleton_self _)
    exact digit (exists_digit positive "L")
  | decimal value =>
    obtain ⟨positive, number⟩ := say (.kind (.decimal value)) (List.mem_singleton_self _)
    exact digit (Binary64.exists_digit positive number)
  | string value =>
    exact .of_mark (c := '\'') String.toList_ofList (by decide) (by decide)
      fun joins => absurd joins (by decide)
  | boolean value =>
    cases value with
    | true => exact .of_reserved (k := .kwTrue) (by decide +kernel)
    | false => exact .of_reserved (k := .kwFalse) (by decide +kernel)
  | null => exact .of_reserved (k := .kwNull) (by decide +kernel)
  | soql query | sosl query =>
    refine .of_mark (c := '[') (s := query.text.toList ++ [']']) ?_ (by decide) (by decide)
      fun joins => absurd joins (by decide)
    rw [text, String.toList_append, String.toList_append]
    rfl

end

/-- A prefix operator is said to be a sign if it is one. -/
theorem UnaryOp.begins (op : UnaryOp) (marks : List Mark) :
    Begins settings (.text op.operator.spelling :: marks) (op == .plus || op == .minus) := by
  cases op <;>
    exact .of_mark rfl (by decide) (by decide) (by decide)

theorem StepOp.begins (op : StepOp) (marks : List Mark) :
    Begins settings (.text op.operator.spelling :: marks) true := by
  cases op <;>
    exact .of_mark rfl (by decide) (by decide) fun _ => rfl

/-- An expression begins with a sign only if it is said to, and with no word of queries. -/
theorem Expr.begins : (e : Expr) → AllSayable e.forms →
    Begins settings e.marks e.startsWithSign
  | .literal _ value, say => by
    rw [marks_eq]
    exact Literal.begins say
  | .name _ text, say => by
    obtain ⟨word, other⟩ := isWord_of_named (allSayable_cons.mp say).1
    rw [marks_eq]
    exact .of_word word other id
  | .this _, _ => by
    rw [marks_eq]
    exact .of_reserved (k := .kwThis) (by decide +kernel)
  | .super _, _ => by
    rw [marks_eq]
    exact .of_reserved (k := .kwSuper) (by decide +kernel)
  | .paren .., _ | .cast .., _ => by
    rw [marks_eq]
    exact .of_mark (c := '(') rfl (by decide) (by decide) fun joins => absurd joins (by decide)
  | .call _ callee args, say => by
    obtain ⟨word, other⟩ := isWord_of_sayable (allSayable_cons.mp say).1
    rw [marks_eq]
    exact .of_word word other fun _ => .plain (by decide)
  | .newObject .., _ | .newArray .., _ | .newArrayOf .., _ | .newCollection .., _
  | .newMap .., _ => by
    rw [marks_eq]
    exact .of_new
  | .unary _ op operand, _ => by
    rw [marks_eq]
    exact op.begins _
  | .stepBefore _ op operand, _ => by
    rw [marks_eq]
    exact op.begins _
  | .member _ object part, say => by
    rw [marks_eq]
    exact (object.begins (allSayable_append.mp say).1).append (.plain (by decide))
  | .methodCall _ receiver callee args, say => by
    rw [marks_eq]
    exact (receiver.begins (allSayable_append.mp say).1).append (.plain (by decide))
  | .index _ object position, say => by
    rw [forms, List.append_assoc] at say
    rw [marks_eq]
    exact (object.begins (allSayable_append.mp say).1).append (.plain (by decide))
  | .stepAfter _ op operand, say => by
    rw [marks_eq]
    refine (operand.begins (allSayable_append.mp say).1).append ?_
    cases op <;> exact .plain (by decide)
  | .binary _ left op right, say => by
    rw [marks_eq]
    exact (left.begins (allSayable_append.mp say).1).append (.operator _)
  | .assignment _ target op value, say => by
    rw [marks_eq]
    exact (target.begins (allSayable_append.mp say).1).append (.operator _)
  | .instanceOf _ operand type, say => by
    rw [marks_eq]
    exact (operand.begins (allSayable_append.mp say).1).append (.plain (by decide))
  | .ternary _ condition yes no, say => by
    rw [forms, List.append_assoc] at say
    rw [marks_eq]
    exact (condition.begins (allSayable_append.mp say).1).append (.plain (by decide))

/-! ## Expressions -/

section

variable {others : List Form} {rest : List Mark}

theorem Spelled.type {t : TypeRef} (sound : t.node.IsSound) (say : AllSayable t.forms)
    (follows : Open settings rest) (spelled : Spelled settings others rest) :
    Spelled settings (t.forms ++ others) (.text t.text :: rest) := by
  obtain ⟨c, cs, letters, -⟩ := TypeRef.exists_letter sound say
  exact .writes (t.writes sound say) (by simp [letters]) follows spelled

/-- An operator before its operand. -/
theorem Spelled.before {o : Operator} {e : Expr} (single : o.isComposed = false)
    (noComment : o ≠ .slash) (say : AllSayable e.forms)
    (spelled : Spelled settings others (e.marks ++ rest)) :
    Spelled settings (sign o :: others)
      (.text o.spelling :: ((Piece.operand e).flatMap Piece.marks ++ rest)) := by
  have some : o.spelling.toList ≠ [] := by cases o <;> decide
  refine .write some fun level => ?_
  cases signed : e.startsWithSign with
  | true =>
    have apart : (Piece.operand e).flatMap Piece.marks ++ rest = .text " " :: (e.marks ++ rest) := by
      simp [Piece.operand, signed, Piece.marks]
    have stops : Stops markJoins (put settings level false (.text " " :: (e.marks ++ rest))) := by
      rw [put_text (by decide)]
      exact .cons (by decide) _
    rw [apart]
    exact (tells_sign single noComment stops).spells
      (spelled.blank level false)
  | false =>
    have close : (Piece.operand e).flatMap Piece.marks ++ rest = e.marks ++ rest := by
      simp [Piece.operand, signed, Piece.marks]
    have stops : Stops markJoins (put settings level false (e.marks ++ rest)) := by
      have begins : Begins settings e.marks e.startsWithSign := e.begins say
      obtain ⟨text, more, c, cs, marks, letters, joins⟩ := begins.head
      rw [marks, List.cons_append, put_text (by simp [letters]), letters]
      refine .cons ?_ _
      rw [signed] at joins
      simpa using joins
    rw [close]
    exact (tells_sign single noComment stops).spells (spelled level false)

theorem Spelled.stepBehind (op : StepOp) (spelled : Spelled settings others rest) :
    Spelled settings (sign op.operator :: others) (.text op.operator.spelling :: rest) := by
  cases op with
  | increment =>
    exact .write (by decide) fun level => (tells_increment _).spells (spelled level false)
  | decrement =>
    exact .write (by decide) fun level => (tells_decrement _).spells (spelled level false)

end

theorem Literal.forms_ne_nil (v : Literal) : v.forms ≠ [] := by
  cases v with
  | boolean value => cases value <;> exact List.cons_ne_nil _ _
  | _ => exact List.cons_ne_nil _ _

theorem Node.IsSound.children {n : Node} (h : n.IsSound) : AllSound n.children := by
  cases h
  assumption

section

variable {others : List Form} {rest : List Mark}

theorem Spelled.dotted {text : String} (h : (Form.word text).Sayable) (follows : Open settings rest)
    (spelled : Spelled settings others rest) :
    Spelled settings (mark .dot :: Form.word text :: others) (.text "." :: .text text :: rest) :=
  .fixed [.mark .dot] (by decide) (.word h follows spelled)

/-- What `new` makes, before what follows the type. -/
theorem Spelled.made {t : TypeRef} (sound : t.node.IsSound) (say : AllSayable t.forms)
    (follows : Open settings rest) (spelled : Spelled settings others rest) :
    Spelled settings (keyword .kwNew :: (t.forms ++ others)) (.text "new " :: .text t.text :: rest) :=
  .fixed [.word .kwNew "new", .blank] (by decide +kernel) (.type sound say follows spelled)

theorem Spelled.closeBracket (spelled : Spelled settings others rest) :
    Spelled settings (mark .closeBracket :: others) (.text "]" :: rest) :=
  spelled.fixed [.mark .closeBracket] (by decide)

end

mutual

/-- An expression spells what it stands for. -/
theorem Expr.sets (e : Expr) (sound : e.node.IsSound) (say : AllSayable e.forms) :
    Sets settings e.forms e.marks := by
  intro others rest follows spelled
  have below := sound.children
  rw [marks_eq]
  cases e with
  | literal _ value =>
    have writes : Writes value.forms value.text.toList := Literal.writes say
    exact .writes writes (writes.ne_nil value.forms_ne_nil) follows spelled
  | name _ text => exact .named (allSayable_cons.mp say).1 follows spelled
  | this _ =>
    exact .fixedBefore [.word .kwThis "this"] (by decide +kernel) follows spelled
  | super _ =>
    exact .fixedBefore [.word .kwSuper "super"] (by decide +kernel) follows spelled
  | paren _ inner =>
    simp only [node, Node.children, Node.allSound_cons] at below
    have inner := inner.sets below.1 (allSayable_parens.mp say)
    simpa [pieces, Piece.marks, forms] using Sets.parens inner spelled
  | member _ object part =>
    simp only [node, Node.children, Node.allSound_cons] at below
    simp only [forms, allSayable_append, allSayable_cons] at say
    have behind := Spelled.dotted say.2.2.1 follows spelled
    simpa [pieces, Piece.marks, forms] using object.sets below.1 say.1 (.dot say.2.2.1.1) behind
  | call _ callee args =>
    simp only [node, Node.children, Node.allSound_cons, nodes_eq_map, Node.allSound_map] at below
    simp only [forms, allSayable_cons, allSayable_parens, allSayable_commas, formsOf_eq_map,
      List.forall_mem_map] at say
    have inner := Sets.commas (Expr.setsAll args below.2 say.2)
    have behind := Spelled.called say.1 (.plain (by decide)) (inner.parens spelled)
    simpa [pieces, Piece.marks, Piece.arguments, Piece.marks_list, forms] using behind
  | methodCall _ receiver callee args =>
    simp only [node, Node.children, Node.allSound_cons, nodes_eq_map, Node.allSound_map] at below
    simp only [forms, allSayable_append, allSayable_cons, allSayable_parens, allSayable_commas,
      formsOf_eq_map, List.forall_mem_map] at say
    have inner := Sets.commas (Expr.setsAll args below.2.2 say.2.2.2)
    have behind := Spelled.dotted say.2.2.1 (.plain (by decide)) (inner.parens spelled)
    simpa [pieces, Piece.marks, Piece.arguments, Piece.marks_list, forms] using
      receiver.sets below.1 say.1 (.dot say.2.2.1.1) behind
  | index _ object position =>
    simp only [node, Node.children, Node.allSound_cons] at below
    simp only [forms, allSayable_append, allSayable_cons] at say
    have inner := position.sets below.2.1 say.1.2.2 (.plain (by decide)) spelled.closeBracket
    have opening := inner.bracket ((position.begins say.1.2.2).noQuery (.plain (by decide)))
    simpa [pieces, Piece.marks, forms] using object.sets below.1 say.1.1 (.plain (by decide)) opening
  | newObject _ type args =>
    simp only [node, Node.children, Node.allSound_cons, nodes_eq_map, Node.allSound_map] at below
    simp only [forms, allSayable_append, allSayable_cons, allSayable_parens, allSayable_commas,
      formsOf_eq_map, List.forall_mem_map] at say
    have inner := Sets.commas (Expr.setsAll args below.2 say.2)
    have made := Spelled.made below.1 say.1.2 (.plain (by decide)) (inner.parens spelled)
    simpa [pieces, Piece.marks, Piece.arguments, Piece.marks_list, forms] using made
  | newArray _ type size =>
    simp only [node, Node.children, Node.allSound_cons] at below
    simp only [forms, allSayable_append, allSayable_cons] at say
    have inner := size.sets below.2.1 say.1.2.2 (.plain (by decide)) spelled.closeBracket
    have opening := inner.bracket ((size.begins say.1.2.2).noQuery (.plain (by decide)))
    have made := Spelled.made below.1 say.1.1.2 (.plain (by decide)) opening
    simpa [pieces, Piece.marks, forms] using made
  | newArrayOf _ type es =>
    simp only [node, Node.children, Node.allSound_cons, nodes_eq_map, Node.allSound_map] at below
    simp only [forms, allSayable_append, allSayable_cons, allSayable_braces, allSayable_commas,
      formsOf_eq_map, List.forall_mem_map] at say
    have inner := Sets.commas (Expr.setsAll es below.2 say.2.2.2)
    have opening : Spelled settings (mark .openBracket :: mark .closeBracket :: _) (.text "[]" :: _) :=
      (inner.braces spelled).fixed [.mark .openBracket, .mark .closeBracket] (by decide)
    have made := Spelled.made below.1 say.1.2 (.plain (by decide)) opening
    simpa [pieces, Piece.marks, Piece.elements, Piece.marks_list, forms, Fixed.forms] using made
  | newCollection _ type es =>
    simp only [node, Node.children, Node.allSound_cons, nodes_eq_map, Node.allSound_map] at below
    simp only [forms, allSayable_append, allSayable_cons, allSayable_braces, allSayable_commas,
      formsOf_eq_map, List.forall_mem_map] at say
    have inner := Sets.commas (Expr.setsAll es below.2 say.2)
    have made := Spelled.made below.1 say.1.2 (.plain (by decide)) (inner.braces spelled)
    simpa [pieces, Piece.marks, Piece.elements, Piece.marks_list, forms] using made
  | newMap _ type entries =>
    simp only [node, Node.children, Node.allSound_cons] at below
    simp only [forms, allSayable_append, allSayable_cons, allSayable_braces, allSayable_commas,
      formsOfEntries_eq_map, List.forall_mem_map] at say
    have inner := Sets.commas (Expr.setsEntries entries below.2 say.2)
    have made := Spelled.made below.1 say.1.2 (.plain (by decide)) (inner.braces spelled)
    simpa [pieces, Piece.marks, Piece.marks_entries, forms] using made
  | cast _ type operand =>
    simp only [node, Node.children, Node.allSound_cons] at below
    simp only [forms, allSayable_append, allSayable_parens] at say
    have inner := operand.sets below.2.1 say.2 follows spelled
    have closing : Spelled settings (mark .closeParen :: _) (.text ") " :: _) :=
      inner.fixed [.mark .closeParen, .blank] (by decide)
    have type := Spelled.type below.1 say.1 (.plain (by decide)) closing
    have opening : Spelled settings (mark .openParen :: _) (.text "(" :: _) :=
      type.fixed [.mark .openParen] (by decide)
    simpa [pieces, Piece.marks, forms, parens, Fixed.forms] using opening
  | unary _ op operand =>
    simp only [node, Node.children, Node.allSound_cons] at below
    simp only [forms, allSayable_cons] at say
    have inner := operand.sets below.1 say.2 follows spelled
    have before : Spelled settings (sign op.operator :: _) (.text op.operator.spelling :: _) :=
      inner.before (by cases op <;> rfl) (by cases op <;> decide) say.2
    simpa [pieces, Piece.marks, forms] using before
  | stepBefore _ op operand =>
    simp only [node, Node.children, Node.allSound_cons] at below
    simp only [forms, allSayable_cons] at say
    have inner := operand.sets below.1 say.2 follows spelled
    have before : Spelled settings (sign op.operator :: _) (.text op.operator.spelling :: _) :=
      inner.before (by cases op <;> rfl) (by cases op <;> decide) say.2
    simpa [pieces, Piece.marks, forms] using before
  | stepAfter _ op operand =>
    simp only [node, Node.children, Node.allSound_cons] at below
    simp only [forms, allSayable_append] at say
    have behind := Spelled.stepBehind op spelled
    have open' : Open settings (.text op.operator.spelling :: rest) := by
      cases op <;> exact .plain (by decide)
    simpa [pieces, Piece.marks, forms] using operand.sets below.1 say.1 open' behind
  | binary _ left op right =>
    simp only [node, Node.children, Node.allSound_cons] at below
    simp only [forms, allSayable_append, allSayable_cons] at say
    have behind := Spelled.operator (o := op.operator) (right.sets below.2.1 say.2.2 follows spelled)
    simpa [pieces, Piece.marks, Piece.operation, forms] using
      left.sets below.1 say.1 (.plain (by decide)) behind
  | instanceOf _ operand type =>
    simp only [node, Node.children, Node.allSound_cons] at below
    simp only [forms, allSayable_append, allSayable_cons] at say
    have behind : Spelled settings (keyword .kwInstanceOf :: _) (.text " instanceof " :: _) :=
      (Spelled.type below.2.1 say.2.2 follows spelled).fixed
        [.blank, .word .kwInstanceOf "instanceof", .blank] (by decide +kernel)
    simpa [pieces, Piece.marks, forms, Fixed.forms] using
      operand.sets below.1 say.1 (.plain (by decide)) behind
  | ternary _ condition yes no =>
    simp only [node, Node.children, Node.allSound_cons] at below
    simp only [forms, allSayable_append, allSayable_cons] at say
    have no := no.sets below.2.2.1 say.2.2 follows spelled
    have colon : Spelled settings (mark .colon :: _) (.text " : " :: _) :=
      no.fixed [.blank, .mark .colon, .blank] (by decide)
    have yes := yes.sets below.2.1 say.1.2.2 (.plain (by decide)) colon
    have question : Spelled settings (mark .question :: _) (.text " ? " :: _) :=
      yes.fixed [.blank, .mark .question, .blank] (by decide)
    simpa [pieces, Piece.marks, forms, Fixed.forms] using
      condition.sets below.1 say.1.1 (.plain (by decide)) question
  | assignment _ target op value =>
    simp only [node, Node.children, Node.allSound_cons] at below
    simp only [forms, allSayable_append, allSayable_cons] at say
    have behind := Spelled.operator (o := op.operator) (value.sets below.2.1 say.2.2 follows spelled)
    simpa [pieces, Piece.marks, Piece.operation, forms] using
      target.sets below.1 say.1 (.plain (by decide)) behind

theorem Expr.setsAll : (es : List Expr) → (∀ e ∈ es, e.node.IsSound) →
    (∀ e ∈ es, AllSayable e.forms) → ∀ e ∈ es, Sets settings e.forms e.marks
  | [], _, _ => by simp
  | e :: es, sound, say => by
    rw [List.forall_mem_cons] at sound say ⊢
    exact ⟨e.sets sound.1 say.1, Expr.setsAll es sound.2 say.2⟩

theorem Expr.setsEntries : (es : List (Expr × Expr)) → (∀ n ∈ Expr.entryNodes es, n.IsSound) →
    (∀ e ∈ es, AllSayable (Expr.entryForms e)) →
    ∀ e ∈ es, Sets settings (Expr.entryForms e) (Expr.entryMarks e)
  | [], _, _ => by simp
  | (key, value) :: es, sound, say => by
    rw [List.forall_mem_cons] at say ⊢
    rw [Expr.entryNodes, List.forall_mem_cons] at sound
    refine ⟨?_, Expr.setsEntries es sound.2 say.2⟩
    intro others rest follows spelled
    have below := sound.1.children
    simp only [Node.children, Node.allSound_cons] at below
    simp only [Expr.entryForms, allSayable_append, allSayable_cons] at say
    have behind : Spelled settings (mark .arrow :: _) (.text " => " :: _) :=
      (value.sets below.2.1 say.1.2.2 follows spelled).fixed [.blank, .mark .arrow, .blank] (by decide)
    simpa [Expr.entryForms, Expr.entryMarks, Fixed.forms] using
      key.sets below.1 say.1.1 (.plain (by decide)) behind

end

end Apex
