import Apex.Grammar.Statement

/-!
# Declarations

The grammar of types, triggers and class members.
-/

namespace Apex.Grammar

open Apex.Parser

/-! ## Members -/

/-- A parameter. -/
def parameter (deeper : Deeper) : Parser Parameter := do
  let start ← here
  let modifiers ← modifiers
  let type ← typeRef deeper.typeRef
  let name ← identifier
  return ⟨← spanFrom start, modifiers, type, name⟩

/-- Parameters up to the closing parenthesis, which is not read. -/
def parameterList (deeper : Deeper) : Parser (List Parameter) := do
  if ← isAt (.punctuation .closeParen) then return []
  commaSeparated (parameter deeper)

/-- Parameters in parentheses. -/
def parameters (deeper : Deeper) : Parser (List Parameter) := do
  let _ ← expect (.punctuation .openParen)
  let params ← parameterList deeper
  let _ ← expect (.punctuation .closeParen)
  return params

/-- The body of a method, or the semicolon in its place. -/
def methodBody (deeper : Deeper) : Parser (Option Block) := do
  if ← isAt (.punctuation .openBrace) then return some (← block deeper)
  if ← accept (.punctuation .semicolon) then return none
  fail [(TokenKind.punctuation .openBrace).description,
    (TokenKind.punctuation .semicolon).description]

/-- The semicolon that ends a method of an interface. -/
def noBody : Parser (Option Block) := do
  let _ ← expect (.punctuation .semicolon)
  return none

/-- What stands behind the type of a method's result. -/
def methodRest (deeper : Deeper) (header : Header) (returnType : Option TypeRef)
    (body : Parser (Option Block)) : Parser Method := do
  let name ← identifier
  let parameters ← parameters deeper
  return ⟨header, returnType, name, parameters, ← body⟩

/-- The type of a method's result; `void` is none. -/
def returnType (deeper : Deeper) : Parser (Option TypeRef) := do
  if ← accept (.keyword .kwVoid) then return none
  return some (← typeRef deeper.typeRef)

/-- A constructor whose header has been read. -/
def constructorRest (deeper : Deeper) (header : Header) : Parser Constructor := do
  let name ← identifier
  let parameters ← parameters deeper
  return ⟨header, name, parameters, ← block deeper⟩

/-- The kind of accessor under the cursor. -/
def accessorKind : Parser AccessorKind := do
  let kind ← kind
  if kind.spells .kwGet then return .get
  if kind.spells .kwSet then return .set
  fail [(TokenKind.keyword .kwGet).description, (TokenKind.keyword .kwSet).description]

/-- The body of an accessor, or the semicolon in its place. -/
def accessorBody (deeper : Deeper) : Parser (Option Block) := do
  if ← accept (.punctuation .semicolon) then return none
  if ← isAt (.punctuation .openBrace) then return some (← block deeper)
  fail [(TokenKind.punctuation .semicolon).description,
    (TokenKind.punctuation .openBrace).description]

/-- An accessor that is not of the kind of an earlier one. -/
def accessor (deeper : Deeper) (earlier : List Accessor) : Parser Accessor := do
  let start ← here
  let modifiers ← modifiers
  let kind ← accessorKind
  if earlier.any (·.kind == kind) then fail [(TokenKind.punctuation .closeBrace).description]
  advance
  let body ← accessorBody deeper
  return ⟨← spanFrom start, kind, modifiers, body⟩

/-- One more accessor, unless there is a closing brace. -/
def accessorStep (deeper : Deeper) (read : List Accessor) :
    Parser (Turn (List Accessor) (List Accessor)) := do
  if ← isAt (.punctuation .closeBrace) then return .done read.reverse
  return .again ((← accessor deeper read) :: read)

/-- The accessors of a property, up to the closing brace, which is not read. -/
def accessors (deeper : Deeper) : Parser (List Accessor) := iterate (accessorStep deeper) []

/-- The braces of a property. -/
def propertyRest (deeper : Deeper) (header : Header) (type : TypeRef) (name : Ident) :
    Parser Property := do
  let _ ← expect (.punctuation .openBrace)
  let accessors ← accessors deeper
  if accessors.isEmpty then
    fail [(TokenKind.keyword .kwGet).description, (TokenKind.keyword .kwSet).description]
  let _ ← expect (.punctuation .closeBrace)
  return ⟨header, type, name, accessors⟩

/-- An initializer block behind its header, which may hold nothing but `static`. -/
def initializerRest (deeper : Deeper) (header : Header) : Parser Initializer := do
  if !(header.annotations.isEmpty && header.modifiers.all (·.value == .isStatic)) then
    fail ["type"]
  return ⟨header.has .isStatic, ← block deeper⟩

/-- A property or a field, whose type and first name have been read. -/
def variableMember (deeper : Deeper) (header : Header) (start : Span) (type : TypeRef)
    (name : Ident) : Parser Member := do
  match ← kind with
  | .punctuation .openBrace =>
    let property ← propertyRest deeper header type name
    return .property (← spanFrom start) property
  | .operator .assign | .punctuation .comma | .punctuation .semicolon =>
    let declarators ← declarators deeper name
    let _ ← expect (.punctuation .semicolon)
    return .field (← spanFrom start) ⟨header, type, declarators⟩
  | _ =>
    fail [(TokenKind.punctuation .openParen).description,
      (TokenKind.punctuation .openBrace).description,
      (TokenKind.operator .assign).description, (TokenKind.punctuation .semicolon).description]

/-- A member that starts with a type. -/
def typedMember (deeper : Deeper) (header : Header) (start : Span) : Parser Member := do
  let type ← typeRef deeper.typeRef
  if (← kindAt 1) = .punctuation .openParen then
    let method ← methodRest deeper header (some type) (methodBody deeper)
    return .method (← spanFrom start) method
  variableMember deeper header start type (← identifier)

/-- A member of the class with the given name. The class's own name before a parenthesis makes a
constructor. -/
def classMember (deeper : Deeper) (className : String) : Parser Member := do
  let read ← header deeper
  let start ← declarationStart read
  match ← kind with
  | .punctuation .openBrace =>
    let initializer ← initializerRest deeper read.header
    return .initializer (← spanFrom start) initializer
  | .keyword .kwClass | .keyword .kwInterface | .keyword .kwEnum =>
    return .type (← deeper.typeDeclaration read)
  | .keyword .kwVoid =>
    advance
    let method ← methodRest deeper read.header none (methodBody deeper)
    return .method (← spanFrom start) method
  | .name text =>
    if sameWord text className && (← kindAt 1) == .punctuation .openParen then
      let constructor ← constructorRest deeper read.header
      return .constructor (← spanFrom start) constructor
    typedMember deeper read.header start
  | _ => typedMember deeper read.header start

/-- A member of a class, or a stray semicolon. -/
def memberOrStray (deeper : Deeper) (className : String) : Parser Member := do
  if ← isAt (.punctuation .semicolon) then return .stray (← next).span
  classMember deeper className

/-- A method of an interface. -/
def interfaceMethod (deeper : Deeper) : Parser (Spanned Method) := do
  let read ← header deeper
  let start ← declarationStart read
  let type ← returnType deeper
  let method ← methodRest deeper read.header type noBody
  return ⟨method, ← spanFrom start⟩

/-! ## Types -/

/-- Items in braces. -/
def braced {α : Type} (item : Parser α) : Parser (List α) := do
  let _ ← expect (.punctuation .openBrace)
  let items ← itemsUntil (.punctuation .closeBrace) item
  let _ ← expect (.punctuation .closeBrace)
  return items

/-- The types behind a keyword, if that keyword is there. -/
def typesBehind (deeper : Deeper) (k : Keyword) : Parser (List TypeRef) := do
  if ← accept (.keyword k) then commaSeparated (typeRef deeper.typeRef) else return []

/-- The class that a class extends, if there is one. -/
def baseType (deeper : Deeper) : Parser (Option TypeRef) := do
  if ← accept (.keyword .kwExtends) then some <$> typeRef deeper.typeRef else return none

/-- What stands before the members of a class, behind `class`. -/
def classHead (deeper : Deeper) (header : Header) : Parser ClassHead := do
  let name ← identifier
  let base ← baseType deeper
  return ⟨header, name, base, ← typesBehind deeper .kwImplements⟩

/-- What stands before the methods of an interface, behind `interface`. -/
def interfaceHead (deeper : Deeper) (header : Header) : Parser InterfaceHead := do
  let name ← identifier
  return ⟨header, name, ← typesBehind deeper .kwExtends⟩

/-- One more constant of an enum, unless there is a closing brace. Two constants without a comma
between them are left to the brace to refuse. -/
def constantStep (read : List Ident × Bool) :
    Parser (Turn (List Ident × Bool) (List Ident × Bool)) := do
  let (constants, comma) := read
  if ← isAt (.punctuation .closeBrace) then return .done (constants.reverse, comma)
  let constant ← identifier
  if ← accept (.punctuation .comma) then return .again (constant :: constants, true)
  return .done ((constant :: constants).reverse, false)

/-- The constants of an enum, up to the closing brace, which is not read, and whether a comma
follows the last one. -/
def enumConstants : Parser (List Ident × Bool) := iterate constantStep ([], false)

/-- An enum behind `enum`. -/
def enumRest (header : Header) : Parser EnumDeclaration := do
  let name ← identifier
  let _ ← expect (.punctuation .openBrace)
  let (constants, trailingComma) ← enumConstants
  let _ ← expect (.punctuation .closeBrace)
  return ⟨header, name, constants, trailingComma⟩

/-- A type declaration whose header has been read. -/
def typeDeclaration (deeper : Deeper) (read : ReadHeader) : Parser TypeDeclaration := do
  let start ← declarationStart read
  match ← kind with
  | .keyword .kwClass =>
    advance
    let head ← classHead deeper read.header
    let members ← braced (memberOrStray deeper head.name.value)
    return .classType (← spanFrom start) head members
  | .keyword .kwInterface =>
    advance
    let head ← interfaceHead deeper read.header
    let methods ← braced (interfaceMethod deeper)
    return .interfaceType (← spanFrom start) head methods
  | .keyword .kwEnum =>
    advance
    let declaration ← enumRest read.header
    return .enumType (← spanFrom start) declaration
  | _ =>
    fail [(TokenKind.keyword .kwClass).description, (TokenKind.keyword .kwInterface).description,
      (TokenKind.keyword .kwEnum).description, (TokenKind.keyword .kwTrigger).description]

/-! ## Triggers -/

/-- A word of any kind, reserved or not, as the grammar knows it. -/
def anyWord (expected : List String) : Parser String := fun c =>
  match c.current.kind.word? with
  | some word => .ok (word, c.advance)
  | none => fail expected c

/-- An event of a trigger. -/
def triggerEvent : Parser (Spanned TriggerEvent) := do
  let start ← here
  let timing ← anyWord [TokenKind.quoted "before", TokenKind.quoted "after"]
  if (TriggerTiming.ofWord? timing).isNone then throw (.unknownTriggerEvent start timing)
  let operation ← anyWord (["insert", "update", "delete", "undelete"].map TokenKind.quoted)
  let span ← spanFrom start
  match TriggerEvent.ofWords? timing operation with
  | some event => return ⟨event, span⟩
  | none => throw (.unknownTriggerEvent span (timing ++ " " ++ operation))

/-- A trigger. -/
def triggerDeclaration (deeper : Deeper) : Parser Declaration := do
  let start ← expect (.keyword .kwTrigger)
  let name ← identifier
  let _ ← expectWord .kwOn
  let object ← identifier
  let _ ← expect (.punctuation .openParen)
  let events ← commaSeparated triggerEvent
  let _ ← expect (.punctuation .closeParen)
  let body ← block deeper
  return .trigger (← spanFrom start) ⟨name, object, events, body⟩

/-- A trigger or a type. -/
def declaration (deeper : Deeper) : Parser Declaration := do
  if ← isAt (.keyword .kwTrigger) then triggerDeclaration deeper
  else return .type (← typeDeclaration deeper (← header deeper))

end Apex.Grammar
