import Apex.Number.Shortest
import Apex.Source.Span
import Apex.Vocabulary.Keyword
import Apex.Vocabulary.Operator
import Apex.Vocabulary.Punctuation

/-!
# Tokens

A program is read as a row of tokens: words, marks and literals, each with its span. Embedded
queries are single tokens that keep their text untouched.
-/

namespace Apex

/-- A query in brackets, kept as text. -/
structure Query where
  /-- Everything between the brackets. -/
  text : String
  /-- The bound variables, such as `:name` or `:account.Id`, colon included. -/
  binds : List (Spanned String)
deriving DecidableEq, Repr

/-- What a token is, and the value it carries. -/
inductive TokenKind where
  /-- A reserved word. -/
  | keyword (k : Keyword)
  /-- An operator. -/
  | operator (o : Operator)
  /-- A punctuation mark. -/
  | punctuation (p : Punctuation)
  /-- Any other word. -/
  | name (text : String)
  /-- `42` -/
  | integer (value : Int64)
  /-- `42L` -/
  | long (value : Int64)
  /-- `4.2` or `42d` -/
  | decimal (value : Binary64)
  /-- The text a quoted literal denotes. -/
  | string (value : String)
  /-- `[SELECT ...]` -/
  | soql (query : Query)
  /-- `[FIND ...]` -/
  | sosl (query : Query)
  /-- The end of the program. -/
  | endOfFile
deriving DecidableEq, Repr

namespace TokenKind

/-- A sign between single quotes. -/
def quoted (sign : String) : String := "'" ++ sign ++ "'"

/-- How error messages call the token. -/
def description : TokenKind → String
  | .keyword k => quoted k.word
  | .operator o => quoted o.spelling
  | .punctuation p => quoted p.spelling
  | .name text => "identifier " ++ quoted text
  | .integer v => "integer " ++ toString v.toInt
  | .long v => "long " ++ toString v.toInt ++ "L"
  | .decimal v => "number " ++ v.text
  | .string _ => "string literal"
  | .soql _ => "SOQL query"
  | .sosl _ => "SOSL search"
  | .endOfFile => "end of file"

/-- The keyword of a keyword token. -/
def keyword? : TokenKind → Option Keyword
  | .keyword k => some k
  | _ => none

/-- The operator of an operator token. -/
def operator? : TokenKind → Option Operator
  | .operator o => some o
  | _ => none

/-- Whether the token is a name. -/
def isName : TokenKind → Bool
  | .name _ => true
  | _ => false

/-- Whether the token is a name that spells a contextual keyword. -/
def spells (kind : TokenKind) (k : Keyword) : Bool :=
  match kind with
  | .name text => k.isSpelledBy text
  | _ => false

/-- The word of a name or a keyword; a keyword's word is in lower case. -/
def word? : TokenKind → Option String
  | .name text => some text
  | .keyword k => some k.word
  | _ => none

/-- Whether the token carries a value that a leaf of the tree has to keep. -/
def bearsLeaf : TokenKind → Bool
  | .name _ | .integer _ | .long _ | .decimal _ | .string _ | .soql _ | .sosl _ => true
  | .keyword _ | .operator _ | .punctuation _ | .endOfFile => false

end TokenKind

/-- A token in its place. -/
structure Token where
  /-- What it is. -/
  kind : TokenKind
  /-- Where it stands. -/
  span : Span
  /-- How a keyword was written, when that is not in lower case. -/
  spelling : Option String
deriving DecidableEq, Repr

namespace Token

/-- A token without a spelling of its own. -/
def plain (kind : TokenKind) (span : Span) : Token := ⟨kind, span, none⟩

/-- A keyword token; the way it was written is kept when it is not the usual one. -/
def ofKeyword (k : Keyword) (written : String) (span : Span) : Token :=
  ⟨.keyword k, span, if written = k.word then none else some written⟩

/-- Whether the token is the end of the program. -/
def isEnd (t : Token) : Bool :=
  match t.kind with
  | .endOfFile => true
  | _ => false

/-- The word of a name or a keyword as it stands in the source. -/
def writtenWord? (t : Token) : Option String :=
  match t.kind, t.spelling with
  | .keyword _, some written => some written
  | kind, _ => kind.word?

end Token

end Apex
