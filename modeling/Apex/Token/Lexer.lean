import Apex.Text.Quoted
import Apex.Token.Numeral
import Apex.Token.QueryText

/-!
# The lexer

A source text is cut into lexemes from left to right: gaps and comments, which vanish, and words,
numerals, quoted literals, embedded queries and marks, which become tokens. All faults of the text
are reported together; a text with a fault has no tokens.

The text is read once, character by character. At the first character of a lexeme its extent is
found, and the rest of its characters are then passed over.
-/

namespace Apex

/-- What a lexeme contributes. -/
inductive LexemeContent where
  /-- Nothing: a gap or a comment. -/
  | blank
  /-- A token. -/
  | token (kind : TokenKind)
  /-- A keyword with the way it was written. -/
  | keyword (k : Keyword) (written : String)
  /-- Faults, in the order of the text. -/
  | faulty (errors : List LexError)
deriving DecidableEq, Repr

/-- A lexeme, apart from its first character. -/
structure Lexeme where
  /-- How many characters belong to it after the first. -/
  more : Nat
  /-- What it contributes. -/
  content : LexemeContent
deriving DecidableEq, Repr

namespace Lexeme

/-- The length of the text after the opening of a block comment, `n` characters of which have been
passed, and whether the comment is closed there. -/
def commentLength (n : Nat) : List Char → Nat × Bool
  | [] => (n, false)
  | '*' :: '/' :: _ => (n + 2, true)
  | _ :: cs => commentLength (n + 1) cs

/-- The mark that starts with `c`, the longest one, and how many characters it has after `c`. The
sign `>` joins nothing but `=`. -/
def markAhead? (c : Char) (cs : List Char) : Option (TokenKind × Nat) :=
  match c, cs with
  | '+', '+' :: _ => some (.operator .increment, 1)
  | '+', '=' :: _ => some (.operator .plusAssign, 1)
  | '+', _ => some (.operator .plus, 0)
  | '-', '-' :: _ => some (.operator .decrement, 1)
  | '-', '=' :: _ => some (.operator .minusAssign, 1)
  | '-', _ => some (.operator .minus, 0)
  | '*', '=' :: _ => some (.operator .starAssign, 1)
  | '*', _ => some (.operator .star, 0)
  | '/', '=' :: _ => some (.operator .slashAssign, 1)
  | '/', _ => some (.operator .slash, 0)
  | '&', '&' :: _ => some (.operator .and, 1)
  | '&', '=' :: _ => some (.operator .ampAssign, 1)
  | '&', _ => some (.operator .amp, 0)
  | '|', '|' :: _ => some (.operator .or, 1)
  | '|', '=' :: _ => some (.operator .pipeAssign, 1)
  | '|', _ => some (.operator .pipe, 0)
  | '^', '=' :: _ => some (.operator .caretAssign, 1)
  | '^', _ => some (.operator .caret, 0)
  | '~', _ => some (.operator .tilde, 0)
  | '!', '=' :: '=' :: _ => some (.operator .notIdentical, 2)
  | '!', '=' :: _ => some (.operator .notEqual, 1)
  | '!', _ => some (.operator .bang, 0)
  | '=', '=' :: '=' :: _ => some (.operator .identical, 2)
  | '=', '=' :: _ => some (.operator .equal, 1)
  | '=', '>' :: _ => some (.punctuation .arrow, 1)
  | '=', _ => some (.operator .assign, 0)
  | '<', '<' :: '=' :: _ => some (.operator .shiftLeftAssign, 2)
  | '<', '<' :: _ => some (.operator .shiftLeft, 1)
  | '<', '=' :: _ => some (.operator .lessEqual, 1)
  | '<', '>' :: _ => some (.operator .lessGreater, 1)
  | '<', _ => some (.operator .less, 0)
  | '>', '=' :: _ => some (.operator .greaterEqual, 1)
  | '>', _ => some (.operator .greater, 0)
  | '?', _ => some (.punctuation .question, 0)
  | ':', _ => some (.punctuation .colon, 0)
  | ';', _ => some (.punctuation .semicolon, 0)
  | ',', _ => some (.punctuation .comma, 0)
  | '.', _ => some (.punctuation .dot, 0)
  | '@', _ => some (.punctuation .at, 0)
  | '(', _ => some (.punctuation .openParen, 0)
  | ')', _ => some (.punctuation .closeParen, 0)
  | '[', _ => some (.punctuation .openBracket, 0)
  | ']', _ => some (.punctuation .closeBracket, 0)
  | '\x7b', _ => some (.punctuation .openBrace, 0)
  | '\x7d', _ => some (.punctuation .closeBrace, 0)
  | _, _ => none

/-- The lexeme that is a fault from its first character, at byte `start`, to its last. -/
def faulty (fault : LexFault) (start : Nat) (c : Char) (cs : List Char) (more : Nat) : Lexeme :=
  ⟨more, .faulty [⟨fault, ⟨start, start + byteSize (c :: cs.take more)⟩⟩]⟩

/-- The comment that opens with a slash and one more character, of which `cs` is what follows. -/
def blockComment (start : Nat) (cs : List Char) : Lexeme :=
  match commentLength 0 cs with
  | (n, true) => ⟨n + 1, .blank⟩
  | (n, false) => faulty .openComment start '/' ('*' :: cs) (n + 1)

/-- The quoted literal whose opening quote stands at byte `start`. Faults inside come before the
one of its end. -/
def quoted (start : Nat) (cs : List Char) : Lexeme :=
  let (n, ending) := quotedLength 0 cs
  let found := decodeQuoted ⟨[], []⟩ (start + 1) 0 (cs.take n)
  let more := if ending = .sourceEnd then n else n + 1
  if ending = .closed then
    if found.errors.isEmpty then ⟨more, .token (.string (String.ofList found.value.reverse))⟩
    else ⟨more, .faulty found.errors.reverse⟩
  else
    let span := ⟨start, start + byteSize ('\'' :: cs.take more)⟩
    ⟨more, .faulty (found.errors.reverse ++ [⟨.openString, span⟩])⟩

/-- The query whose opening bracket stands at byte `start`. -/
def query (language : QueryLanguage) (start : Nat) (cs : List Char) : Lexeme :=
  let (n, ending) := queryLength 0 0 false cs
  match ending with
  | .closed =>
    let query := Query.ofText (start + 1) (cs.take n)
    ⟨n + 1, .token (match language with | .soql => .soql query | .sosl => .sosl query)⟩
  | .sourceEnd => faulty .openQuery start '[' cs n
  | .sourceEndInString => faulty .openQueryString start '[' cs n

/-- The numeral that starts with the digit `c` at byte `start`. -/
def numeral (start : Nat) (c : Char) (cs : List Char) : Lexeme :=
  let n := Numeral.read (c :: cs)
  match n.kind with
  | .ok kind => ⟨n.length - 1, .token kind⟩
  | .error fault => faulty fault start c cs (n.length - 1)

/-- The word that starts with `c`. -/
def word (c : Char) (cs : List Char) : Lexeme :=
  let more := cs.takeWhile isWordPart
  let written := String.ofList (c :: more)
  ⟨more.length,
    match Keyword.reservedOfWord? written with
    | some k => .keyword k written
    | none => .token (.name written)⟩

/-- The lexeme that starts with `c` at byte `start` and is followed by `cs`. -/
def read (start : Nat) (c : Char) (cs : List Char) : Lexeme :=
  if isGap c then ⟨0, .blank⟩
  else if isWordStart c then word c cs
  else if c.isDigit then numeral start c cs
  else
    match c, cs with
    | '/', '/' :: cs => ⟨1 + (cs.takeWhile (· != '\n')).length, .blank⟩
    | '/', '*' :: cs => blockComment start cs
    | '\'', cs => quoted start cs
    | c, cs =>
      match (if c = '[' then queryAhead? cs else none) with
      | some language => query language start cs
      | none =>
        match markAhead? c cs with
        | some (kind, more) => ⟨more, .token kind⟩
        | none => faulty (.unexpectedCharacter c) start c cs 0

end Lexeme

/-- What has been read of a text. -/
structure Lexing where
  /-- The tokens found, last first. -/
  tokens : List Token
  /-- The faults found, last first. -/
  errors : List LexError
  /-- The byte offset where the next lexeme starts. -/
  offset : Nat

/-- Takes in a lexeme that ends before byte `stop`. -/
def Lexing.add (l : Lexing) (content : LexemeContent) (stop : Nat) : Lexing :=
  match content with
  | .blank => { l with offset := stop }
  | .token kind =>
    { l with tokens := .plain kind ⟨l.offset, stop⟩ :: l.tokens, offset := stop }
  | .keyword k written =>
    { l with tokens := .ofKeyword k written ⟨l.offset, stop⟩ :: l.tokens, offset := stop }
  | .faulty errors =>
    { l with errors := errors.foldl (fun found e => e :: found) l.errors, offset := stop }

/-- Reads a text to its end, after passing over the first `skip` characters. -/
def lexFrom (l : Lexing) : (skip : Nat) → List Char → Lexing
  | _, [] => l
  | skip + 1, _ :: cs => lexFrom l skip cs
  | 0, c :: cs =>
    let lexeme := Lexeme.read l.offset c cs
    let stop := l.offset + byteSize (c :: cs.take lexeme.more)
    lexFrom (l.add lexeme.content stop) lexeme.more cs

/-- The tokens of a source text, the end of file included, or all its lexical faults. -/
def lex (source : String) : Except (List LexError) (List Token) :=
  let l := lexFrom ⟨[], [], 0⟩ 0 source.toList
  if l.errors.isEmpty then
    .ok ((Token.plain .endOfFile (Span.point l.offset) :: l.tokens).reverse)
  else .error l.errors.reverse

end Apex
