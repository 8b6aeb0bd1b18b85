import Apex.Grammar.Nesting

/-!
# Types and casts

The grammar of type references, and the lookahead that tells a cast from a parenthesised
expression. Type arguments close with single `>` tokens, so nested ones need no special care.
-/

namespace Apex.Grammar

open Apex.Parser

/-- One more part of a dotted type name. A point belongs to it only before another name. -/
def segmentStep (segments : List Ident) : Parser (Turn (List Ident) (List Ident)) := do
  if (← isAt (.punctuation .dot)) && (← kindAt 1).isName then
    advance
    return .again ((← identifier) :: segments)
  return .done segments.reverse

/-- The parts of a dotted type name. -/
def typeSegments : Parser (List Ident) := do
  let first ← identifier
  iterate segmentStep [first]

/-- Type arguments in angle brackets, if there are any. -/
def typeArguments (argument : Parser TypeRef) : Parser (List TypeRef) := do
  if ← accept (.operator .less) then
    let arguments ← commaSeparated argument
    if ← accept (.operator .greater) then return arguments
    fail [(TokenKind.operator .greater).description, (TokenKind.punctuation .comma).description]
  else return []

/-- One more `[]` pair, if there is one. -/
def bracketsStep (count : Nat) : Parser (Turn Nat Nat) := do
  if (← isAt (.punctuation .openBracket)) && (← kindAt 1) = .punctuation .closeBracket then
    advance
    advance
    return .again (count + 1)
  return .done count

/-- The number of `[]` pairs ahead, which are passed over. -/
def arrayBrackets : Parser Nat := iterate bracketsStep 0

/-- A type without array brackets; `new` reads those itself. -/
def elementType (argument : Parser TypeRef) : Parser TypeRef := do
  let start ← here
  let segments ← typeSegments
  let arguments ← typeArguments argument
  return ⟨← spanFrom start, segments, arguments, 0⟩

/-- A type, given how its arguments are read. -/
def typeRef (argument : Parser TypeRef) : Parser TypeRef := do
  let start ← here
  let type ← elementType argument
  let dimensions ← arrayBrackets
  return { type with span := ← spanFrom start, dimensions }

/-! ## Casts -/

/-- The number of tokens behind an opening parenthesis that are looked at to find a cast. -/
def castWindow : Nat := 49

/-- Drops the further parts of a dotted name. -/
def dropSegments : List TokenKind → List TokenKind
  | .punctuation .dot :: .name _ :: kinds => dropSegments kinds
  | kinds => kinds

/-- Drops pairs of array brackets. -/
def dropBrackets : List TokenKind → List TokenKind
  | .punctuation .openBracket :: .punctuation .closeBracket :: kinds => dropBrackets kinds
  | kinds => kinds

mutual

/-- What follows the tokens that look like a type, if the list starts with such. Every call passes
a token or takes one step down in `limit`, so twice the length of the list is limit enough. -/
def dropType : (limit : Nat) → List TokenKind → Option (List TokenKind)
  | limit + 1, .name _ :: kinds =>
    match dropSegments kinds with
    | .operator .less :: kinds => (dropArguments limit kinds).map dropBrackets
    | kinds => some (dropBrackets kinds)
  | _, _ => none

/-- What follows the tokens that look like type arguments and their closing bracket. -/
def dropArguments : (limit : Nat) → List TokenKind → Option (List TokenKind)
  | limit + 1, kinds =>
    match dropType limit kinds with
    | some (.punctuation .comma :: kinds) => dropArguments limit kinds
    | some (.operator .greater :: kinds) => some kinds
    | _ => none
  | 0, _ => none

end

/-- Whether a token can start the operand of a cast. Signs cannot, so that `(a) - b` stays a
subtraction. -/
def startsCastOperand : TokenKind → Bool
  | .name _ | .integer _ | .long _ | .decimal _ | .string _ | .soql _ | .sosl _ => true
  | .keyword k =>
    k == .kwThis || k == .kwSuper || k == .kwNew || k == .kwTrue || k == .kwFalse ||
      k == .kwNull || k == .kwTrigger
  | .punctuation p => p == .openParen
  | .operator o => o == .bang || o == .tilde
  | .endOfFile => false

/-- Whether tokens are a type, a closing parenthesis and the start of an operand. -/
def looksLikeCast (window : List TokenKind) : Bool :=
  match dropType (2 * window.length) window with
  | some (.punctuation .closeParen :: operand :: _) => startsCastOperand operand
  | _ => false

/-- Whether the token under the cursor opens a cast. -/
def castAhead (c : Cursor) : Bool :=
  c.current.kind == .punctuation .openParen &&
    looksLikeCast ((List.range castWindow).map fun i => (c.peek (i + 1)).kind)

end Apex.Grammar
