/-!
# Punctuation

The marks that structure a program without being operators.
-/

namespace Apex

/-- What a punctuation mark is for. -/
inductive PunctuationCategory where
  | delimiter | separator | access | marker
deriving DecidableEq, Repr

/-- Every punctuation mark. -/
inductive Punctuation where
  | comma | semicolon | colon | question | at | dot | arrow
  | openParen | closeParen | openBracket | closeBracket | openBrace | closeBrace
deriving DecidableEq, Repr

namespace Punctuation

/-- All punctuation marks, in the order of the register. -/
def all : List Punctuation :=
  [ .comma, .semicolon, .colon, .question, .at, .dot, .arrow,
    .openParen, .closeParen, .openBracket, .closeBracket, .openBrace, .closeBrace ]

/-- How the mark is written. -/
def spelling : Punctuation → String
  | .comma => ","
  | .semicolon => ";"
  | .colon => ":"
  | .question => "?"
  | .at => "@"
  | .dot => "."
  | .arrow => "=>"
  | .openParen => "("
  | .closeParen => ")"
  | .openBracket => "["
  | .closeBracket => "]"
  | .openBrace => "\x7b"
  | .closeBrace => "\x7d"

/-- What the mark is for. -/
def category : Punctuation → PunctuationCategory
  | .comma | .semicolon | .colon => .separator
  | .question | .at | .arrow => .marker
  | .dot => .access
  | .openParen | .closeParen | .openBracket | .closeBracket | .openBrace | .closeBrace =>
    .delimiter

/-- The mark with a spelling. -/
def ofSpelling? (spelling : String) : Option Punctuation := all.find? (·.spelling == spelling)

end Punctuation

end Apex
