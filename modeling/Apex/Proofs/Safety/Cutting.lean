import Apex.Proofs.Tiling.Queries

/-!
# Reading a text by cutting it

The lexer reads the characters of a text one by one. It may as well keep the text and count bytes:
words, numerals, queries and bound variables are then cut out of the text between two counts, and
what lies ahead is looked at by cutting off the rest. A cut fails if it is not between characters,
if it lies behind the end, or if its end lies before its start. No cut ever fails, and what is read
is the same.
-/

namespace Apex

/-- A place in a text: the characters that are left, and the number of bytes before them. -/
structure TextCursor where
  /-- The whole text. -/
  source : String
  /-- The characters from the cursor on. -/
  rest : List Char
  /-- The bytes before the cursor. -/
  offset : Nat

namespace TextCursor

/-! ## Moving and cutting -/

/-- The cursor one character on; at the end it stays. -/
def advance (s : TextCursor) : TextCursor :=
  match s.rest with
  | [] => s
  | c :: cs => ⟨s.source, cs, s.offset + c.utf8Size⟩

theorem length_advance {s : TextCursor} {c : Char} {cs : List Char} (found : s.rest = c :: cs) :
    s.advance.rest.length < s.rest.length := by
  simp [advance, found]

theorem length_advance_le (s : TextCursor) : s.advance.rest.length ≤ s.rest.length := by
  cases found : s.rest with
  | nil => simp [advance, found]
  | cons c cs => exact found ▸ Nat.le_of_lt (length_advance found)

/-- The cursor some characters on. -/
def pass (s : TextCursor) (n : Nat) : TextCursor :=
  ⟨s.source, s.rest.drop n, s.offset + byteSize (s.rest.take n)⟩

/-- The text between two bytes. -/
def cut? (s : TextCursor) (start stop : Nat) : Option String := Span.slice? ⟨start, stop⟩ s.source

/-- The text from the cursor on. -/
def ahead? (s : TextCursor) : Option String := s.cut? s.offset s.source.utf8ByteSize

/-- The character behind the next one, if there is one. -/
def peekNext? (s : TextCursor) : Option (Option Char) := s.ahead?.map fun text => text.toList[1]?

/-- The cursor behind the characters that have a property. -/
def passWhile (p : Char → Bool) (s : TextCursor) : TextCursor :=
  match _found : s.rest with
  | [] => s
  | c :: _ => if p c then passWhile p s.advance else s
termination_by s.rest.length
decreasing_by exact length_advance ‹_›

/-! ## Words and numerals -/

/-- The word that starts at byte `start`, the first character of which has been passed. -/
def word? (s : TextCursor) (start : Nat) : Option (LexemeContent × TextCursor) := do
  let s := s.passWhile isWordPart
  let written ← s.cut? start s.offset
  return (match Keyword.reservedOfWord? written with
    | some k => .keyword k written
    | none => .token (.name written), s)

/-- Passes over a point and the digits behind it, if there are any, and says whether there were. -/
def fraction? (s : TextCursor) : Option (TextCursor × Bool) :=
  if s.rest.head? = some '.' then do
    let next ← s.peekNext?
    if (next.map Char.isDigit).getD false then return (s.advance.passWhile Char.isDigit, true)
    else return (s, false)
  else return (s, false)

/-- The numeral that starts at byte `start`, the first digit of which has been passed. -/
def numeral? (s : TextCursor) (start : Nat) : Option (LexemeContent × TextCursor) := do
  let (s, hasFraction) ← (s.passWhile Char.isDigit).fraction?
  let digits ← s.cut? start s.offset
  let mark := Numeral.markAhead hasFraction s.rest
  let s := if mark = .none then s else s.advance
  return (match ({ Numeral.read digits.toList with mark } : Numeral).kind with
    | .ok kind => .token kind
    | .error fault => .faulty [⟨fault, ⟨start, s.offset⟩⟩], s)

/-! ## Queries -/

/-- The text without the blank space in front. -/
def trimmed (text : String) : String := String.ofList (text.toList.dropWhile isWhiteSpace)

/-- The query language that is announced from the cursor on. -/
def queryAhead? (s : TextCursor) : Option (Option QueryLanguage) := do
  let rest := trimmed (← s.ahead?)
  let length := byteSize (rest.toList.takeWhile isWordPart)
  let word ← Span.slice? ⟨0, length⟩ rest
  let after ← Span.slice? ⟨length, rest.utf8ByteSize⟩ rest
  let next := trimmed after
  if next.utf8ByteSize = after.utf8ByteSize then return none
  match next.toList with
  | [] => return none
  | c :: _ =>
    return if sameWord "select" word && isWordStart c then some .soql
      else if sameWord "find" word && (c = '\'' || c = '\x7b' || c = ':') then some .sosl
      else none

/-- Passes over a dotted name. A point belongs to it only before another name. -/
def path? (s : TextCursor) : Option TextCursor :=
  match _found : s.rest with
  | [] => some s
  | c :: _ =>
    if isWordPart c then s.advance.path?
    else if c = '.' then
      match s.peekNext? with
      | none => none
      | some next => if (next.map isWordStart).getD false then s.advance.path? else some s
    else some s
termination_by s.rest.length
decreasing_by all_goals exact length_advance ‹_›

theorem length_path? {s s' : TextCursor} (run : s.path? = some s') :
    s'.rest.length ≤ s.rest.length := by
  fun_induction path? s with
  | case2 s c cs found part ih => exact (ih run).trans (length_advance_le s)
  | case4 s c cs found part ahead start ih => exact (ih run).trans (length_advance_le s)
  | case3 => cases run
  | case1 | case5 | case6 =>
    cases run
    exact Nat.le_refl _

/-- How the text behind the opening bracket of a query ends. -/
inductive QueryScan where
  /-- With the closing bracket, behind the text and its variables, last first. -/
  | closed (text : String) (binds : List (Spanned String))
  /-- With the end of the source, inside of quoted text or outside. -/
  | ended (inString : Bool)

/-- Reads the rest of a query's text, which starts at byte `start`, up to and with the closing
bracket. A dotted name behind a colon is passed over and cut out at once. -/
def queryBody? (start depth : Nat) (inString : Bool) (binds : List (Spanned String))
    (s : TextCursor) : Option (QueryScan × TextCursor) :=
  match _found : s.rest with
  | [] => return (.ended inString, s)
  | c :: cs =>
    if inString then
      if c = '\\' then queryBody? start depth true binds s.advance.advance
      else queryBody? start depth (c != '\'') binds s.advance
    else if c = '[' then queryBody? start (depth + 1) false binds s.advance
    else if c = ']' then
      match depth with
      | 0 => do
        let s := s.advance
        let text ← s.cut? start (s.offset - 1)
        return (.closed text binds, s)
      | depth + 1 => queryBody? start depth false binds s.advance
    else if c = ':' ∧ (cs.head?.map isWordStart).getD false then
      let bindStart := s.advance.offset - 1
      match _run : s.advance.path? with
      | none => none
      | some s' => do
        let bind ← s'.cut? bindStart s'.offset
        queryBody? start depth false (⟨bind, ⟨bindStart, s'.offset⟩⟩ :: binds) s'
    else queryBody? start depth (c == '\'') binds s.advance
termination_by s.rest.length
decreasing_by
  · exact Nat.lt_of_le_of_lt (length_advance_le _) (length_advance ‹_›)
  all_goals first
    | exact length_advance ‹_›
    | exact Nat.lt_of_le_of_lt (length_path? ‹_›) (length_advance ‹_›)

/-- The query whose opening bracket stands at byte `start` and has been passed. -/
def query? (s : TextCursor) (start : Nat) (language : QueryLanguage) :
    Option (LexemeContent × TextCursor) := do
  let (scan, s) ← s.queryBody? s.offset 0 false []
  return (match scan with
    | .closed text binds =>
      let query : Query := ⟨text, binds.reverse⟩
      .token (match language with | .soql => .soql query | .sosl => .sosl query)
    | .ended inString =>
      .faulty [⟨if inString then .openQueryString else .openQuery, ⟨start, s.offset⟩⟩], s)

/-! ## Lexemes -/

/-- The lexeme that starts with `c` at byte `start`; that character has been passed. Gaps, comments,
quoted literals and marks are read without cutting anything. -/
def read? (s : TextCursor) (start : Nat) (c : Char) : Option (LexemeContent × TextCursor) :=
  let uncut := Lexeme.read start c s.rest
  if isWordStart c then s.word? start
  else if c.isDigit then s.numeral? start
  else if c = '[' then do
    match ← s.queryAhead? with
    | some language => s.query? start language
    | none => return (uncut.content, s.pass uncut.more)
  else return (uncut.content, s.pass uncut.more)

/-- Reads on to the end of the text, at most `limit` lexemes. -/
def lexFrom? (l : Lexing) (s : TextCursor) : (limit : Nat) → Option Lexing
  | 0 => if s.rest.isEmpty then some l else none
  | limit + 1 =>
    match s.rest with
    | [] => some l
    | c :: _ => do
      let (content, s') ← s.advance.read? s.offset c
      lexFrom? (l.add content s'.offset) s' limit

end TextCursor

/-- The tokens of a source text, the end of file included, or all its lexical faults, read by
cutting the text between bytes. -/
def lexByCutting? (source : String) : Option (Except (List LexError) (List Token)) := do
  let l ← TextCursor.lexFrom? ⟨[], [], 0⟩ ⟨source, source.toList, 0⟩ source.length
  return if l.errors.isEmpty then
      .ok ((Token.plain .endOfFile (Span.point l.offset) :: l.tokens).reverse)
    else .error l.errors.reverse

end Apex
