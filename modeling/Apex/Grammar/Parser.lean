import Apex.Grammar.Error
import Apex.Token.Cursor
import Apex.Tree.TypeRef

/-!
# Parsers

A parser reads tokens from a cursor and either yields a value and the cursor behind what it read,
or stops with an error. Looking ahead is running a parser and keeping the old cursor.

There is one loop, `iterate`. It runs a step again and again until the step is done, at most once
for every token left and once more; every step of the grammar that asks to be run again has read a
token, so the bound is never reached.
-/

namespace Apex

/-- A reader of tokens. -/
abbrev Parser (α : Type) := StateT Cursor (Except ParseError) α

namespace Parser

variable {α σ β : Type}

/-- Stops at the token under the cursor, with what could have stood there. -/
def fail (expected : List String) : Parser α := fun c =>
  .error (.unexpected c.current.span expected c.current.kind)

/-- The token under the cursor. -/
def current : Parser Token := fun c => .ok (c.current, c)

/-- The kind of the token under the cursor. -/
def kind : Parser TokenKind := fun c => .ok (c.current.kind, c)

/-- The span of the token under the cursor. -/
def here : Parser Span := fun c => .ok (c.current.span, c)

/-- The kind of the token `n` places ahead. -/
def kindAt (n : Nat) : Parser TokenKind := fun c => .ok ((c.peek n).kind, c)

/-- Passes over the token under the cursor. -/
def advance : Parser Unit := fun c => .ok ((), c.advance)

/-- Passes over some tokens. -/
def skip : Nat → Parser Unit
  | 0 => pure ()
  | n + 1 => do
    advance
    skip n

/-- The token under the cursor, which is passed over. -/
def next : Parser Token := fun c => .ok (c.current, c.advance)

/-- The span from `start` to the end of the token read last, or `start` alone if that token ends
before it. -/
def spanFrom (start : Span) : Parser Span := fun c =>
  match c.previous? with
  | some last => .ok (if start.start ≤ last.span.stop then start.merge last.span else start, c)
  | none => .ok (start, c)

/-- Whether the token under the cursor is of the given kind. -/
def isAt (kind : TokenKind) : Parser Bool := fun c => .ok (c.current.kind == kind, c)

/-- Passes over a token of the given kind if there is one, and says whether there was. -/
def accept (kind : TokenKind) : Parser Bool := fun c =>
  if c.current.kind = kind then .ok (true, c.advance) else .ok (false, c)

/-- Passes over a token that has to be of the given kind. -/
def expect (kind : TokenKind) : Parser Span := fun c =>
  if c.current.kind = kind then .ok (c.current.span, c.advance) else fail [kind.description] c

/-- Passes over a name that has to spell the given contextual keyword. -/
def expectWord (k : Keyword) : Parser Span := fun c =>
  if c.current.kind.spells k then .ok (c.current.span, c.advance)
  else fail [(TokenKind.keyword k).description] c

/-- Whether a parser would succeed here. Nothing is read, and any error only means no. -/
def matchesAhead (p : Parser Unit) : Parser Bool := fun c =>
  match p c with
  | .ok _ => .ok (true, c)
  | .error _ => .ok (false, c)

/-- How a loop goes on after a step. -/
inductive Turn (σ β : Type) where
  /-- With another step, from a new state. -/
  | again (state : σ)
  /-- Not at all; here is the result. -/
  | done (result : β)

/-- Runs a step until it is done, at most `limit` times. -/
def iterateFor (step : σ → Parser (Turn σ β)) : (limit : Nat) → σ → Parser β
  | 0, _ => fail []
  | limit + 1, state => do
    match ← step state with
    | .again state => iterateFor step limit state
    | .done result => return result

/-- Runs a step until it is done. A step that asks to be run again has to read a token. -/
def iterate (step : σ → Parser (Turn σ β)) (state : σ) : Parser β := fun c =>
  iterateFor step (c.remaining + 1) state c

/-- One more item, unless there is a token of the given kind. -/
def untilStep (stop : TokenKind) (item : Parser α) (items : List α) :
    Parser (Turn (List α) (List α)) := do
  if ← isAt stop then return .done items.reverse
  return .again ((← item) :: items)

/-- Items up to a token of the given kind, which is not read. -/
def itemsUntil (stop : TokenKind) (item : Parser α) : Parser (List α) :=
  iterate (untilStep stop item) []

/-- One more item, if there is one. -/
def whileStep (item? : Parser (Option α)) (items : List α) : Parser (Turn (List α) (List α)) := do
  match ← item? with
  | some item => return .again (item :: items)
  | none => return .done items.reverse

/-- Items for as long as there is another one. -/
def itemsWhile (item? : Parser (Option α)) : Parser (List α) := iterate (whileStep item?) []

/-- One more item, if there is a comma. -/
def commaStep (item : Parser α) (items : List α) : Parser (Turn (List α) (List α)) := do
  if ← accept (.punctuation .comma) then return .again ((← item) :: items)
  return .done items.reverse

/-- The items after a first one, each behind a comma. -/
def commaSeparatedFrom (first : α) (item : Parser α) : Parser (List α) :=
  iterate (commaStep item) [first]

/-- One or more items with commas between them. -/
def commaSeparated (item : Parser α) : Parser (List α) := do
  commaSeparatedFrom (← item) item

/-- Passes over one more semicolon, if there is one. -/
def semicolonStep (count : Nat) : Parser (Turn Nat Nat) := do
  if ← accept (.punctuation .semicolon) then return .again (count + 1)
  return .done count

/-- Passes over a run of semicolons and counts them. -/
def semicolons : Parser Nat := iterate semicolonStep 0

/-- A name. -/
def identifier : Parser Ident := fun c =>
  match c.current.kind with
  | .name text => .ok (⟨text, c.current.span⟩, c.advance)
  | _ => fail ["identifier"] c

/-- A name behind a point. Reserved words may stand there and keep the way they are written. -/
def memberName : Parser Ident := fun c =>
  match c.current.writtenWord? with
  | some text => .ok (⟨text, c.current.span⟩, c.advance)
  | none => fail ["identifier"] c

/-- One more part of a dotted name, if there is one. -/
def partStep (parts : List Ident) : Parser (Turn (List Ident) (List Ident)) := do
  if ← accept (.punctuation .dot) then return .again ((← memberName) :: parts)
  return .done parts.reverse

/-- A dotted name. -/
def qualifiedName : Parser QualifiedName := do
  let start ← here
  let first ← identifier
  let parts ← iterate partStep [first]
  return ⟨← spanFrom start, parts⟩

end Parser

end Apex
