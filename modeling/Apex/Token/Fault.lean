import Apex.Source.Span

/-!
# Lexical faults

What can be wrong with a text before any grammar is looked at.
-/

namespace Apex

/-- A lexical fault. -/
inductive LexFault where
  /-- A character that begins no token. -/
  | unexpectedCharacter (c : Char)
  /-- A block comment that is never closed. -/
  | openComment
  /-- A quoted literal without its closing quote on the same line. -/
  | openString
  /-- A `\u` that is not followed by four hexadecimal digits naming a character. -/
  | badUnicodeEscape
  /-- An integer literal above the largest 64-bit integer. -/
  | integerRange (digits : String)
  /-- A long literal above the largest 64-bit integer. -/
  | longRange (digits : String)
  /-- A query without its closing bracket. -/
  | openQuery
  /-- A quoted literal inside a query that is never closed. -/
  | openQueryString
deriving DecidableEq, Repr

/-- What the user is told. -/
def LexFault.message : LexFault → String
  | .unexpectedCharacter c => "Unexpected character '" ++ String.singleton c ++ "'"
  | .openComment => "Unterminated block comment"
  | .openString => "Unterminated string literal"
  | .badUnicodeEscape => "Invalid unicode escape"
  | .integerRange digits => "Integer literal '" ++ digits ++ "' is out of range"
  | .longRange digits => "Long literal '" ++ digits ++ "' is out of range"
  | .openQuery => "Unterminated query literal"
  | .openQueryString => "Unterminated string in query literal"

/-- A lexical fault in its place. -/
structure LexError where
  /-- What is wrong. -/
  fault : LexFault
  /-- Where. -/
  span : Span
deriving DecidableEq, Repr

end Apex
