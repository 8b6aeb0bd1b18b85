import Apex.Proofs.Decimals.Texts
import Apex.Proofs.Tiling.Blanks
import Apex.Proofs.Tiling.QueryWords
import Apex.Proofs.Tiling.Quoted
import Apex.Proofs.Writing.Genuine

/-!
# Single tokens as text

How each form that a text can hold is written, and what must not follow it: a word ends before a
character that would go on with it, a number before a digit, a sign before another that it would
join.
-/

namespace Apex

open Grammar

/-! ## What follows -/

/-- The text does not go on with a character of the sort. -/
def Stops (p : Char → Bool) (behind : List Char) : Prop := ∀ c ∈ behind.head?, p c = false

section

variable {p : Char → Bool} {behind : List Char}

theorem Stops.nil : Stops p [] := by simp [Stops]

theorem Stops.cons {c : Char} (stop : p c = false) (cs : List Char) : Stops p (c :: cs) := by
  simpa [Stops] using stop

theorem Stops.imp {q : Char → Bool} (h : Stops p behind) (wider : ∀ c, q c = true → p c = true) :
    Stops q behind := by
  intro c first
  by_contra other
  have := h c first
  rw [wider c (by simpa using other)] at this
  cases this

theorem Stops.takeWhile_append {c : List Char} (all : c.all p = true) (h : Stops p behind) :
    (c ++ behind).takeWhile p = c := by
  have none : behind.takeWhile p = [] := by
    cases behind with
    | nil => rfl
    | cons d behind => rw [List.takeWhile_cons, h d rfl, if_neg (by decide)]
  rw [List.takeWhile_append_of_pos (List.all_eq_true.mp all), none, List.append_nil]

theorem Stops.dropWhile_append {cs : List Char} (all : cs.all p = true) (h : Stops p behind) :
    (cs ++ behind).dropWhile p = behind := by
  have none : behind.dropWhile p = behind := by
    cases behind with
    | nil => rfl
    | cons c behind => rw [List.dropWhile_cons, h c rfl, if_neg (by decide)]
  rw [List.dropWhile_append_of_pos (List.all_eq_true.mp all), none]

end

/-- The text, before what follows it, is a token of the form. -/
def Form.Tells (form : Form) (text behind : List Char) : Prop :=
  ∃ c cs, text = c :: cs ∧ form.Begins c cs behind

theorem Form.Tells.spells {form : Form} {forms : List Form} {text behind : List Char}
    (h : form.Tells text behind) (rest : Spells forms behind) :
    Spells (form :: forms) (text ++ behind) := by
  obtain ⟨c, cs, rfl, begins⟩ := h
  exact .token begins rest

/-- A lexeme that is a token of a fixed kind. -/
theorem Form.tells_of_read {form : Form} {k : TokenKind} {c : Char} {cs behind : List Char}
    (read : ∀ start, Lexeme.read start c (cs ++ behind) = ⟨cs.length, .token k⟩)
    (fits : ∀ span, form.Fits (.plain k span)) : form.Tells (c :: cs) behind :=
  ⟨c, cs, rfl, fun start => ⟨.token k, read start, fun stop => ⟨_, rfl, fits ⟨start, stop⟩⟩⟩⟩

/-! ## Words -/

/-- The token of a word. -/
def wordToken (text : String) (span : Span) : Token :=
  match Keyword.reservedOfWord? text with
  | some k => .ofKeyword k text span
  | none => .plain (.name text) span

theorem Form.tells_of_word {form : Form} {text : String} {behind : List Char} (word : IsWord text)
    (stops : Stops isWordPart behind) (fits : ∀ span, form.Fits (wordToken text span)) :
    form.Tells text.toList behind := by
  obtain ⟨c, cs, spelled, letter, parts⟩ := word
  refine ⟨c, cs, spelled, fun start => ⟨(Lexeme.word c (cs ++ behind)).content, ?_, fun stop =>
    ⟨wordToken text ⟨start, stop⟩, ?_, fits _⟩⟩⟩
  · rw [(Lexeme.Reads.word (isGap_of_isWordStart letter) letter).eq]
    unfold Lexeme.word
    rw [stops.takeWhile_append parts]
  · unfold Lexeme.word wordToken
    rw [stops.takeWhile_append parts]
    dsimp only
    rw [← spelled, String.ofList_toList]
    cases Keyword.reservedOfWord? text <;> rfl

section

variable {text : String}

theorem fits_keyword {k : Keyword} (found : Keyword.reservedOfWord? text = some k) (span : Span) :
    (Form.keyword k).Fits (wordToken text span) := by
  unfold wordToken
  rw [found]
  rfl

theorem fits_name (free : Keyword.reservedOfWord? text = none) (span : Span) :
    (Form.kind (.name text)).Fits (wordToken text span) := by
  unfold wordToken
  rw [free]
  rfl

theorem fits_word (span : Span) : (Form.word text).Fits (wordToken text span) := by
  unfold wordToken
  cases found : Keyword.reservedOfWord? text with
  | none =>
    refine ⟨rfl, ?_⟩
    unfold wordKind
    rw [found]
    rfl
  | some k =>
    refine ⟨writtenWord?_ofKeyword .., ?_⟩
    unfold wordKind
    rw [found]
    rfl

theorem fits_spelled {k : Keyword} (contextual : k.isReserved = false)
    (spells : k.isSpelledBy text = true) (span : Span) :
    (Form.spelled k).Fits (wordToken text span) := by
  have free : Keyword.reservedOfWord? text = none := by
    unfold Keyword.reservedOfWord?
    rw [Keyword.ofWord?_of_isSpelledBy spells, Option.filter_some, contextual]
    rfl
  unfold wordToken
  rw [free]
  exact spells

end

/-! ## Marks and signs -/

/-- A mark that opens no query. -/
theorem tells_mark {p : Punctuation} (other : p ≠ .openBracket) (behind : List Char) :
    (Form.mark p).Tells p.spelling.toList behind := by
  cases p <;> first
    | exact absurd rfl other
    | exact Form.tells_of_read (fun _ => rfl) fun _ => rfl

/-- Only a word opens a query. -/
theorem queryAhead?_of_stop {c : Char} (visible : isWhiteSpace c = false)
    (stop : isWordPart c = false) (cs : List Char) : queryAhead? (c :: cs) = none := by
  have white : (c :: cs).dropWhile isWhiteSpace = c :: cs := by
    rw [List.dropWhile_cons, visible, if_neg (by decide)]
  have word : (c :: cs).dropWhile isWordPart = c :: cs := by
    rw [List.dropWhile_cons, stop, if_neg (by decide)]
  unfold queryAhead?
  rw [white]
  dsimp only
  rw [word, List.head?_cons, Option.map_some, Option.getD_some, visible, if_neg (by decide)]

theorem tells_bracket {behind : List Char} (noQuery : queryAhead? behind = none) :
    (Form.mark .openBracket).Tells ['['] behind :=
  Form.tells_of_read (Lexeme.read_bracket noQuery) fun _ => rfl

/-- A sign is read as far as it joins the characters behind it. -/
theorem read_sign {c : Char} {cs behind : List Char} {kind : TokenKind}
    (sign : ∀ start, Lexeme.read start c (cs ++ behind) = Lexeme.sign start c (cs ++ behind))
    (noBracket : c ≠ '[') (joins : cs.all markJoins = true) (stops : Stops markJoins behind)
    (found : Lexeme.markAhead? c cs = some (kind, cs.length)) (start : Nat) :
    Lexeme.read start c (cs ++ behind) = ⟨cs.length, .token kind⟩ := by
  rw [sign, Lexeme.sign, if_neg noBracket]
  dsimp only
  rw [← Lexeme.markAhead?_takeWhile, stops.takeWhile_append joins, found]

/-- A sign that is not continued by what follows and opens no comment. -/
theorem tells_sign {o : Operator} (single : o.isComposed = false) (noComment : o ≠ .slash)
    {behind : List Char} (stops : Stops markJoins behind) :
    (Form.sign o).Tells o.spelling.toList behind := by
  cases o <;> first
    | exact Form.tells_of_read (read_sign (fun _ => rfl) (by decide) rfl stops rfl) fun _ => rfl
    | exact absurd rfl noComment
    | cases single

/-- The signs of steps are the longest of their kind. -/
theorem tells_increment (behind : List Char) :
    (Form.sign .increment).Tells ['+', '+'] behind :=
  Form.tells_of_read (fun _ => rfl) fun _ => rfl

theorem tells_decrement (behind : List Char) :
    (Form.sign .decrement).Tells ['-', '-'] behind :=
  Form.tells_of_read (fun _ => rfl) fun _ => rfl

/-- The sign `>` joins nothing but `=`. -/
theorem tells_greater {behind : List Char} (stops : Stops (· == '=') behind) :
    (Form.sign .greater).Tells ['>'] behind := by
  refine Form.tells_of_read (k := .operator .greater) (fun start => ?_) fun _ => rfl
  cases behind with
  | nil => rfl
  | cons c behind =>
    have other : c ≠ '=' := by simpa [Stops] using stops
    have ahead : Lexeme.markAhead? '>' (c :: behind) = some (.operator .greater, 0) := by
      refine Lexeme.markAhead?.eq_33 _ fun rest found => ?_
      exact other (List.cons.inj found).1
    show Lexeme.sign start '>' (c :: behind) = _
    rw [Lexeme.sign, if_neg (by decide)]
    dsimp only
    rw [ahead]
    rfl

/-! ## Numbers -/

namespace Numeral

/-- What may follow a number: neither a part of a word, nor a point with digits behind it. -/
structure Ends (behind : List Char) : Prop where
  stops : Stops isWordPart behind
  point : ∀ cs, behind = '.' :: cs → Stops Char.isDigit cs

theorem isWordPart_of_isDigit (c : Char) (digit : c.isDigit = true) : isWordPart c = true := by
  simp [isWordPart, Char.isAlphanum, digit]

variable {whole fraction behind : List Char}

theorem fractionAhead_ends (h : Ends behind) : fractionAhead behind = [] := by
  unfold fractionAhead
  split
  · next cs => exact (h.point cs rfl).takeWhile_append (c := []) rfl
  · rfl

theorem markAhead_stops (hasFraction : Bool) (h : Stops isWordPart behind) :
    markAhead hasFraction behind = .none := by
  cases behind with
  | nil => rfl
  | cons c behind =>
    have stop : isWordPart c = false := h c rfl
    have other {letter : Char} (part : isWordPart letter = true) : c ≠ letter := by
      rintro rfl
      rw [part] at stop
      cases stop
    have floating : ¬(c = 'd' ∨ c = 'D') := not_or.mpr ⟨other (by decide), other (by decide)⟩
    have long : ¬((c = 'l' ∨ c = 'L') ∧ (!hasFraction) = true) := fun found =>
      found.1.elim (other (by decide)) (other (by decide))
    exact (if_neg long).trans (if_neg floating)

/-- Digits with nothing behind them. -/
theorem read_whole (digits : whole.all Char.isDigit = true) (h : Ends behind) :
    read (whole ++ behind) = ⟨whole, [], .none⟩ := by
  have stops : Stops Char.isDigit behind := h.stops.imp isWordPart_of_isDigit
  unfold read
  rw [stops.takeWhile_append digits, stops.dropWhile_append digits]
  dsimp only
  rw [fractionAhead_ends h]
  exact congrArg (Numeral.mk whole []) (markAhead_stops _ h.stops)

/-- Digits with the letter of a long behind them. -/
theorem read_long (digits : whole.all Char.isDigit = true) :
    read (whole ++ 'L' :: behind) = ⟨whole, [], .long⟩ := by
  have stops : Stops Char.isDigit ('L' :: behind) := .cons (by decide) _
  unfold read
  rw [stops.takeWhile_append digits, stops.dropWhile_append digits]
  rfl

/-- Digits around a point. -/
theorem read_decimal (digits : whole.all Char.isDigit = true)
    (after : fraction.all Char.isDigit = true) (some : fraction ≠ [])
    (h : Stops isWordPart behind) :
    read (whole ++ '.' :: fraction ++ behind) = ⟨whole, fraction, .none⟩ := by
  have stops : Stops Char.isDigit behind := h.imp isWordPart_of_isDigit
  have stops' : Stops Char.isDigit ('.' :: (fraction ++ behind)) := .cons (by decide) _
  have ahead : fractionAhead ('.' :: (fraction ++ behind)) = fraction := stops.takeWhile_append after
  unfold read
  rw [List.append_assoc, List.cons_append, stops'.takeWhile_append digits,
    stops'.dropWhile_append digits]
  dsimp only
  rw [ahead, if_neg (by simpa using some), List.drop_succ_cons, List.drop_left, markAhead_stops _ h]

end Numeral

theorem not_isWordStart_of_isDigit {c : Char} (digit : c.isDigit = true) : ¬isWordStart c := by
  obtain ⟨low, high⟩ := (isDigit_iff c).mp digit
  simp only [isWordStart, Bool.or_eq_true, isAlpha_iff, beq_iff_eq, not_or]
  refine ⟨by omega, ?_⟩
  rintro rfl
  exact absurd digit (by decide)

/-- A row of digits and what belongs to it, as one number. -/
theorem Form.tells_of_numeral {form : Form} {kind : TokenKind} {n : Numeral}
    {text behind : List Char} (digit : ∀ c ∈ text.head?, c.isDigit = true)
    (read : Numeral.read (text ++ behind) = n) (length : n.length = text.length)
    (some : text ≠ []) (means : n.kind = .ok kind) (fits : ∀ span, form.Fits (.plain kind span)) :
    form.Tells text behind := by
  obtain ⟨c, cs, rfl⟩ := List.exists_cons_of_ne_nil some
  have digit : c.isDigit = true := digit c rfl
  refine Form.tells_of_read (fun start => ?_) fits
  rw [(Lexeme.Reads.numeral (isGap_of_isDigit digit) (not_isWordStart_of_isDigit digit) digit).eq]
  unfold Lexeme.numeral
  rw [← List.cons_append, read]
  dsimp only
  rw [means, length]
  rfl

section

variable {value : Int64}

/-- A whole number without a sign is written in digits. -/
theorem toList_toString (positive : 0 ≤ value.toInt) :
    (toString value.toInt).toList = Nat.toDigits 10 value.toInt.toNat := by
  obtain ⟨n, eq⟩ := Int.eq_ofNat_of_zero_le positive
  rw [eq]
  exact Nat.toList_repr

theorem wholeValue?_toDigits (positive : 0 ≤ value.toInt) (mark : NumeralMark) :
    Numeral.wholeValue? ⟨Nat.toDigits 10 value.toInt.toNat, [], mark⟩ = some value := by
  have power : Nat.pow 2 63 = 9223372036854775808 := by decide
  have small := value.toInt_lt
  unfold Numeral.wholeValue?
  dsimp only
  rw [decimalValue_toDigits, if_pos (by omega)]
  refine congrArg some (Int64.toInt_inj.mp ?_)
  rw [Int64.toInt_ofNat_of_lt (by omega), Int.toNat_of_nonneg positive]

theorem isDigit_head_toDigits (n : Nat) (more : List Char) :
    ∀ c ∈ (Nat.toDigits 10 n ++ more).head?, c.isDigit = true := by
  intro c first
  refine Nat.isDigit_of_mem_toDigits (b := 10) (n := n) (by decide) (by decide) ?_
  rw [List.head?_append_of_ne_nil _ Nat.toDigits_ne_nil] at first
  exact List.mem_of_mem_head? first

theorem Form.tells_integer {form : Form} {behind : List Char} (positive : 0 ≤ value.toInt)
    (h : Numeral.Ends behind) (fits : ∀ span, form.Fits (.plain (.integer value) span)) :
    form.Tells (toString value.toInt).toList behind := by
  rw [toList_toString positive]
  have digits := isDigit_head_toDigits value.toInt.toNat []
  rw [List.append_nil] at digits
  refine Form.tells_of_numeral digits (Numeral.read_whole (all_isDigit_toDigits _) h) rfl
    Nat.toDigits_ne_nil ?_ fits
  unfold Numeral.kind
  rw [wholeValue?_toDigits positive]
  rfl

theorem Form.tells_long {form : Form} {behind : List Char} (positive : 0 ≤ value.toInt)
    (fits : ∀ span, form.Fits (.plain (.long value) span)) :
    form.Tells (toString value.toInt ++ "L").toList behind := by
  rw [String.toList_append, toList_toString positive]
  refine Form.tells_of_numeral (n := ⟨Nat.toDigits 10 value.toInt.toNat, [], .long⟩)
    (isDigit_head_toDigits _ _) ?_ ?_ (by simp) ?_ fits
  · rw [List.append_assoc]
    exact Numeral.read_long (all_isDigit_toDigits _)
  · simp [Numeral.length]
  · unfold Numeral.kind
    rw [wholeValue?_toDigits positive]
    rfl

end

/-- A decimal that is not negative. -/
theorem tells_decimal {value : Binary64} {behind : List Char} (positive : value.isNegative = false)
    (number : value.isNaN = false) (h : Stops isWordPart behind) :
    (Form.kind (.decimal value)).Tells value.literalText.toList behind := by
  obtain ⟨whole, fraction, spelled, denoted⟩ := Binary64.isLiteral_literalText positive number
  rw [spelled]
  refine Form.tells_of_numeral ?_
    (Numeral.read_decimal denoted.digits.1 denoted.digits.2 denoted.fraction_ne_nil h) ?_ (by simp)
    ?_ fun _ => rfl
  · intro c first
    rw [List.head?_append_of_ne_nil _ denoted.whole_ne_nil] at first
    exact List.all_eq_true.mp denoted.digits.1 c (List.mem_of_mem_head? first)
  · simp [Numeral.length, denoted.fraction_ne_nil]
  · unfold Numeral.kind
    rw [if_pos (by simp [denoted.fraction_ne_nil])]
    exact congrArg (fun v => Except.ok (TokenKind.decimal v)) denoted.value

theorem Binary64.exists_digit {value : Binary64} (positive : value.isNegative = false)
    (number : value.isNaN = false) :
    ∃ c cs, value.literalText.toList = c :: cs ∧ c.isDigit = true := by
  obtain ⟨whole, fraction, spelled, denoted⟩ := isLiteral_literalText positive number
  obtain ⟨c, cs, rfl⟩ := List.exists_cons_of_ne_nil denoted.whole_ne_nil
  exact ⟨c, _, spelled, List.all_eq_true.mp denoted.digits.1 c (List.mem_cons_self ..)⟩

/-! ## Quoted text and queries -/

theorem tells_string (value : String) (behind : List Char) :
    (Form.kind (.string value)).Tells (quote value).toList behind := by
  have written : (quote value).toList = '\'' :: (value.toList.flatMap escapeChar ++ ['\'']) := by
    rw [quote, String.toList_ofList]
    rfl
  rw [written]
  refine Form.tells_of_read (k := .string value) (fun start => ?_) fun _ => rfl
  rw [List.append_assoc, List.singleton_append, Lexeme.read_quote, Lexeme.quoted_escaped,
    String.ofList_toList, List.length_append]
  rfl

namespace QueryLanguage

/-- The kind of token that a query is. -/
def kind : QueryLanguage → Query → TokenKind
  | soql => .soql
  | sosl => .sosl

variable {language : QueryLanguage} {query : Query}

/-- What a query holds is found in its text, wherever that stands. -/
theorem Holds.ofText (h : language.Holds query) (offset : Nat) :
    (Query.ofText offset query.text.toList).blur .erasing = query.blur .erasing := by
  have moved := Query.ofText_moved offset 0 query.text.toList
  rw [Nat.zero_add] at moved
  rw [h.2, moved]
  simp only [Query.blur, Query.moved, List.map_map]
  rfl

/-- A query in its brackets is one lexeme, whatever follows it. -/
theorem Holds.read (h : language.Holds query) (start : Nat) (behind : List Char) :
    Lexeme.read start '[' (query.text.toList ++ ']' :: behind) =
      ⟨query.text.toList.length + 1,
        .token (language.kind (Query.ofText (start + 1) query.text.toList))⟩ := by
  obtain ⟨⟨opens, closed⟩, -⟩ := h
  obtain ⟨inner, rest, same, length, ends⟩ := queryLength_closed closed
  have text : query.text.toList = inner := (List.append_inj same (by omega)).1
  rw [← queryAhead?_append_bracket _ behind] at opens
  rw [Lexeme.read_query opens, Lexeme.query, text, ends behind, length, Nat.zero_add]
  dsimp only
  rw [List.take_left]
  cases language <;> rfl

end QueryLanguage

theorem toList_brackets (text : String) :
    ("[" ++ text ++ "]").toList = '[' :: (text.toList ++ [']']) := by
  rw [String.toList_append, String.toList_append]
  rfl

theorem tells_query {language : QueryLanguage} {query : Query} (h : language.Holds query)
    (behind : List Char) :
    (Form.kind (language.kind query)).Tells ("[" ++ query.text ++ "]").toList behind := by
  have written : ("[" ++ query.text ++ "]").toList = '[' :: (query.text.toList ++ [']']) := by
    rw [String.toList_append, String.toList_append]
    rfl
  rw [written]
  refine ⟨_, _, rfl, fun start =>
    ⟨.token (language.kind (Query.ofText (start + 1) query.text.toList)), ?_, fun stop => ⟨_, rfl, ?_⟩⟩⟩
  · rw [List.append_assoc, List.singleton_append, h.read, List.length_append]
    rfl
  · cases language
    · exact congrArg TokenKind.soql (h.ofText (start + 1))
    · exact congrArg TokenKind.sosl (h.ofText (start + 1))

end Apex
