import Apex.Source.Line
import Apex.Text.Blank
import Apex.Text.Word
import Apex.Token.Basic

/-!
# Embedded queries

An opening bracket starts an embedded query when the words behind it say so, and an index or an
array otherwise. A query reaches to its closing bracket; inside, brackets nest, quoted strings
hide what they contain, and a colon before a name binds a variable.
-/

namespace Apex

/-- The two query languages. -/
inductive QueryLanguage where
  | soql | sosl
deriving DecidableEq, Repr

/-- The query language announced by the text behind an opening bracket. The word `select` or
`find` has to be followed by blank space and then by something that continues the query: a name
for the one, a quoted, braced or bound search term for the other. So `items[find]` and
`rows[select + 1]` stay what they look like. -/
def queryAhead? (text : List Char) : Option QueryLanguage :=
  let words := text.dropWhile isWhiteSpace
  let word := String.ofList (words.takeWhile isWordPart)
  let after := words.dropWhile isWordPart
  let next := after.dropWhile isWhiteSpace
  if (after.head?.map isWhiteSpace).getD false then
    match next with
    | c :: _ =>
      if sameWord "select" word && isWordStart c then some .soql
      else if sameWord "find" word && (c = '\'' || c = '\x7b' || c = ':') then some .sosl
      else none
    | [] => none
  else none

/-- How the text of a query ends. -/
inductive QueryEnd where
  /-- With its closing bracket. -/
  | closed
  /-- At the end of the source, outside quoted text. -/
  | sourceEnd
  /-- At the end of the source, inside quoted text. -/
  | sourceEndInString
deriving DecidableEq, Repr

/-- The length of the text after the opening bracket, `n` characters of which have been passed,
and how it ends. `depth` counts open inner brackets, `inString` says whether the next character
stands in quoted text. -/
def queryLength (depth n : Nat) (inString : Bool) : List Char → Nat × QueryEnd
  | [] => (n, if inString then .sourceEndInString else .sourceEnd)
  | c :: cs =>
    if inString then
      if c = '\\' then
        match cs with
        | [] => (n + 1, .sourceEndInString)
        | _ :: cs => queryLength depth (n + 2) true cs
      else queryLength depth (n + 1) (c != '\'') cs
    else if c = '[' then queryLength (depth + 1) (n + 1) false cs
    else if c = ']' then
      match depth with
      | 0 => (n, .closed)
      | depth + 1 => queryLength depth (n + 1) false cs
    else queryLength depth (n + 1) (c == '\'') cs

/-- The number of characters of the dotted name at the start of a text, `n` of which have been
passed. A point belongs to the name only before another name. -/
def pathLength (n : Nat) : List Char → Nat
  | '.' :: c :: cs => if isWordStart c then pathLength (n + 2) cs else n
  | c :: cs => if isWordPart c then pathLength (n + 1) cs else n
  | [] => n

/-- The bound variables of a query's text, last first after those in `found`. `offset` is the byte
offset of the next character. -/
def bindsIn (found : List (Spanned String)) (offset : Nat) (inString : Bool) :
    List Char → List (Spanned String)
  | [] => found
  | c :: cs =>
    if inString then
      if c = '\\' then
        match cs with
        | [] => found
        | d :: cs => bindsIn found (offset + 1 + d.utf8Size) true cs
      else bindsIn found (offset + c.utf8Size) (c != '\'') cs
    else if c = ':' ∧ (cs.head?.map isWordStart).getD false then
      let bind := c :: cs.take (pathLength 0 cs)
      let span := ⟨offset, offset + byteSize bind⟩
      bindsIn (⟨String.ofList bind, span⟩ :: found) (offset + 1) false cs
    else bindsIn found (offset + c.utf8Size) (c == '\'') cs

/-- The query with the given text, which starts at byte `offset`. -/
def Query.ofText (offset : Nat) (text : List Char) : Query :=
  ⟨String.ofList text, (bindsIn [] offset false text).reverse⟩

end Apex
