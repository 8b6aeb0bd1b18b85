import Apex.Token.Fault

/-!
# Quoted text

A string literal stands between single quotes, with backslash escapes for what cannot stand there
as itself. `quote` writes one, `decodeQuoted` undoes it.
-/

namespace Apex

/-- The letter that stands for a character behind a backslash, if the character needs one. -/
def escapeLetter? (c : Char) : Option Char :=
  if c = '\'' then some '\''
  else if c = '\\' then some '\\'
  else if c = '\n' then some 'n'
  else if c = '\t' then some 't'
  else if c = '\r' then some 'r'
  else if c = '\x08' then some 'b'
  else if c = '\x0c' then some 'f'
  else none

/-- A character as it stands between quotes. -/
def escapeChar (c : Char) : List Char :=
  match escapeLetter? c with
  | some letter => ['\\', letter]
  | none => [c]

/-- The literal for a text. -/
def quote (text : String) : String :=
  String.ofList ('\'' :: text.toList.flatMap escapeChar ++ ['\''])

/-- The character that a letter behind a backslash stands for. -/
def unescapeLetter? (letter : Char) : Option Char :=
  if letter = 'n' then some '\n'
  else if letter = 't' then some '\t'
  else if letter = 'r' then some '\r'
  else if letter = 'b' then some '\x08'
  else if letter = 'f' then some '\x0c'
  else if letter = '\'' || letter = '"' || letter = '\\' then some letter
  else none

/-- The value of a hexadecimal digit. -/
def hexDigit? (c : Char) : Option Nat :=
  if '0' ≤ c ∧ c ≤ '9' then some (c.toNat - '0'.toNat)
  else if 'a' ≤ c ∧ c ≤ 'f' then some (c.toNat - 'a'.toNat + 10)
  else if 'A' ≤ c ∧ c ≤ 'F' then some (c.toNat - 'A'.toNat + 10)
  else none

/-- How many of the next `limit` characters are hexadecimal digits before the first that is none,
and the number they write. -/
def hexRun : (limit : Nat) → (value : Nat) → List Char → Nat × Nat
  | 0, value, _ => (0, value)
  | _ + 1, value, [] => (0, value)
  | limit + 1, value, c :: cs =>
    match hexDigit? c with
    | some d => let (n, v) := hexRun limit (value * 16 + d) cs; (n + 1, v)
    | none => (0, value)

/-- The character with a code, if there is one. -/
def charOfCode? (code : Nat) : Option Char :=
  if code.isValidChar then some (Char.ofNat code) else none

/-- How a quoted text ends. -/
inductive QuoteEnd where
  /-- With its closing quote. -/
  | closed
  /-- At the end of the line. -/
  | lineBreak
  /-- At the end of the source. -/
  | sourceEnd
deriving DecidableEq, Repr

/-- The length of the text after an opening quote, `n` characters of which have been passed, and
how it ends. A backslash shields the character after it. -/
def quotedLength (n : Nat) : List Char → Nat × QuoteEnd
  | [] => (n, .sourceEnd)
  | '\'' :: _ => (n, .closed)
  | '\n' :: _ => (n, .lineBreak)
  | ['\\'] => (n + 1, .sourceEnd)
  | '\\' :: _ :: cs => quotedLength (n + 2) cs
  | _ :: cs => quotedLength (n + 1) cs

/-- What has been decoded so far of a quoted text. -/
structure Decoding where
  /-- The characters denoted, last first. -/
  value : List Char
  /-- The faults met, last first. -/
  errors : List LexError

/-- Decodes the text between quotes. `offset` is the byte offset of the next character and `skip`
the number of characters still belonging to an escape that has been dealt with. A letter that
escapes nothing stays, and so does its backslash. -/
def decodeQuoted (found : Decoding) (offset : Nat) : (skip : Nat) → List Char → Decoding
  | _, [] => found
  | skip + 1, c :: cs => decodeQuoted found (offset + c.utf8Size) skip cs
  | 0, '\\' :: 'u' :: cs =>
    let (digits, code) := hexRun 4 0 cs
    let found :=
      match (if digits = 4 then charOfCode? code else none) with
      | some c => { found with value := c :: found.value }
      | none =>
        { found with errors := ⟨.badUnicodeEscape, ⟨offset, offset + 2 + digits⟩⟩ :: found.errors }
    decodeQuoted found (offset + 2) digits cs
  | 0, '\\' :: letter :: cs =>
    let found :=
      match unescapeLetter? letter with
      | some c => { found with value := c :: found.value }
      | none => { found with value := letter :: '\\' :: found.value }
    decodeQuoted found (offset + 1 + letter.utf8Size) 0 cs
  | 0, c :: cs => decodeQuoted { found with value := c :: found.value } (offset + c.utf8Size) 0 cs

end Apex
