import Apex.Grammar.Nesting

/-!
# Headers

The grammar of modifiers and annotations. No modifier may be given twice.
-/

namespace Apex.Grammar

open Apex.Parser

/-! ## Modifiers -/

/-- Reads a modifier of two words that ends with `sharing`. -/
def sharingModifier (m : Modifier) : Parser (Option (Spanned Modifier)) := do
  let start ← here
  skip 2
  return some ⟨m, ← spanFrom start⟩

/-- The modifier under the cursor, if there is one. The word `with` has to go on with `sharing`;
`without` and `inherited` are names if they do not. -/
def modifier? : Parser (Option (Spanned Modifier)) := do
  let sharingNext := (← kindAt 1).spells .kwSharing
  match ← kind with
  | .keyword .kwWith =>
    if sharingNext then sharingModifier .withSharing
    else
      advance
      fail [TokenKind.quoted Keyword.kwSharing.word]
  | .keyword k =>
    match Modifier.ofKeyword? k with
    | some m => return some ⟨m, (← next).span⟩
    | none => return none
  | kind =>
    if sharingNext && kind.spells .kwWithout then sharingModifier .withoutSharing
    else if sharingNext && kind.spells .kwInherited then sharingModifier .inheritedSharing
    else return none

/-- Fails if a modifier is already among those read before it. -/
def checkFresh (earlier : List (Spanned Modifier)) (m : Spanned Modifier) : Parser Unit := do
  if earlier.any (·.value == m.value) then throw (.duplicateModifier m.span m.value)

/-- One more modifier, if there is one. -/
def modifierStep (read : List (Spanned Modifier)) :
    Parser (Turn (List (Spanned Modifier)) (List (Spanned Modifier))) := do
  match ← modifier? with
  | some m =>
    checkFresh read m
    return .again (m :: read)
  | none => return .done read.reverse

/-- The modifiers ahead. -/
def modifiers : Parser (List (Spanned Modifier)) := iterate modifierStep []

/-! ## Annotations -/

/-- Fails unless the token behind a value is one of the given marks: anything else means that the
value was only the start of a larger expression. -/
def checkValueEnds (value : Span) (followers : List Punctuation) : Parser Unit := do
  let next ← current
  let follows := followers.any fun p => next.kind == .punctuation p
  if !follows then
    throw (.malformedAnnotationValue (value.merge next.span) (.continued next.kind))

/-- Whether the tokens ahead are a name and an equals sign. -/
def keyAhead : Parser Bool := do
  return (← kind).isName && (← kindAt 1) == .operator .assign

/-- The literal that a token is as an annotation's value. -/
def annotationLiteral? : TokenKind → Option Literal
  | .integer v => some (.integer v)
  | .long v => some (.long v)
  | .decimal v => some (.decimal v)
  | .string v => some (.string v)
  | .keyword .kwTrue => some (.boolean true)
  | .keyword .kwFalse => some (.boolean false)
  | .keyword .kwNull => some .null
  | .keyword _ | .operator _ | .punctuation _ | .name _ | .soql _ | .sosl _ | .endOfFile => none

/-- The literal that a token is behind a minus sign. -/
def negatedLiteral? : TokenKind → Option Literal
  | .integer v => some (.integer (-v))
  | .long v => some (.long (-v))
  | .decimal v => some (.decimal v.neg)
  | .keyword _ | .operator _ | .punctuation _ | .name _ | .string _ | .soql _ | .sosl _
  | .endOfFile => none

/-- A literal as an annotation's value, perhaps with a minus sign. -/
def literalValue : Parser AnnotationValue := do
  let start ← here
  let negative ← isAt (.operator .minus)
  let offset := if negative then 1 else 0
  let value ← kindAt offset
  match if negative then negatedLiteral? value else annotationLiteral? value with
  | some literal =>
    skip (offset + 1)
    return .literal (← spanFrom start) literal
  | none =>
    let found := (← get).peek offset
    throw (.malformedAnnotationValue (found.span.merge start) (.noValue found.kind))

/-- A value of an array. -/
def arrayValue (deeper : Deeper) : Parser AnnotationValue := do
  let value ← deeper.annotationValue
  checkValueEnds value.span [.comma, .closeBrace]
  return value

/-- The values of an array, up to its closing brace, which is not read. -/
def arrayValues (deeper : Deeper) : Parser (List AnnotationValue) := do
  if ← isAt (.punctuation .closeBrace) then return []
  commaSeparated (arrayValue deeper)

/-- The value of an annotation's argument. -/
def annotationValue (deeper : Deeper) : Parser AnnotationValue := do
  let start ← here
  if ← isAt (.punctuation .at) then return .nested (← deeper.annotationMark)
  if ← accept (.punctuation .openBrace) then
    let values ← arrayValues deeper
    let _ ← expect (.punctuation .closeBrace)
    return .array (← spanFrom start) values
  literalValue

/-- An argument with a key. It ends at a comma, at the closing parenthesis, or where the next key
starts. -/
def keyedElement (deeper : Deeper) : Parser AnnotationElement := do
  let key ← identifier
  let _ ← expect (.operator .assign)
  let value ← annotationValue deeper
  if !(← keyAhead) then checkValueEnds value.span [.comma, .closeParen]
  let comma ← accept (.punctuation .comma)
  return .mk (key.span.merge value.span) (some key) value comma

/-- The arguments of an annotation, up to the closing parenthesis: arguments with keys, or a
single value. -/
def annotationElements (deeper : Deeper) : Parser (List AnnotationElement) := do
  if ← keyAhead then itemsUntil (.punctuation .closeParen) (keyedElement deeper)
  else if ← isAt (.punctuation .closeParen) then return []
  else
    let value ← annotationValue deeper
    checkValueEnds value.span [.closeParen]
    return [.mk value.span none value false]

/-- An annotation. -/
def annotationMark (deeper : Deeper) : Parser AnnotationMark := do
  let start ← expect (.punctuation .at)
  let name ← identifier
  if ← accept (.punctuation .openParen) then
    let elements ← annotationElements deeper
    let _ ← expect (.punctuation .closeParen)
    return .mk (← spanFrom start) name elements true
  return .mk (← spanFrom start) name [] false

/-! ## Headers -/

/-- One more annotation or modifier, if there is one. Those read are kept last first. -/
def headerStep (deeper : Deeper) (read : ReadHeader) : Parser (Turn ReadHeader ReadHeader) := do
  let ⟨⟨annotations, modifiers⟩, start⟩ := read
  if ← isAt (.punctuation .at) then
    let a ← annotationMark deeper
    return .again ⟨⟨a :: annotations, modifiers⟩, start.or (some a.span)⟩
  match ← modifier? with
  | some m =>
    checkFresh modifiers m
    return .again ⟨⟨annotations, m :: modifiers⟩, start.or (some m.span)⟩
  | none => return .done ⟨⟨annotations.reverse, modifiers.reverse⟩, start⟩

/-- The annotations and modifiers ahead, in any order. -/
def header (deeper : Deeper) : Parser ReadHeader := iterate (headerStep deeper) ⟨⟨[], []⟩, none⟩

/-- Where a declaration starts: with its header, or at the cursor if that is empty. -/
def declarationStart (read : ReadHeader) : Parser Span := do
  return read.start.getD (← here)

end Apex.Grammar
