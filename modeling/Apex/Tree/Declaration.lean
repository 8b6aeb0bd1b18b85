import Apex.Tree.Statement
import Apex.Vocabulary.TriggerEvent

/-!
# Declarations

Classes, interfaces, enums and triggers, the members of a class, and the compilation unit that a
source file holds. Triggers stand only at the top of a file, so they are no type declarations.
-/

namespace Apex

/-- A parameter of a method or constructor. -/
structure Parameter where
  /-- Where it stands. -/
  span : Span
  /-- The modifiers. -/
  modifiers : List (Spanned Modifier)
  /-- The type. -/
  type : TypeRef
  /-- The name. -/
  name : Ident

/-- A field declaration of a class. -/
structure Field where
  /-- What stands before it. -/
  header : Header
  /-- The type shared by all its variables. -/
  type : TypeRef
  /-- The variables. -/
  declarators : List Declarator

/-- A method. -/
structure Method where
  /-- What stands before it. -/
  header : Header
  /-- The type of its result; `void` has none. -/
  returnType : Option TypeRef
  /-- The name. -/
  name : Ident
  /-- The parameters. -/
  parameters : List Parameter
  /-- The body, missing for abstract and interface methods. -/
  body : Option Block

/-- A constructor. -/
structure Constructor where
  /-- What stands before it. -/
  header : Header
  /-- The name, which is the name of the class. -/
  name : Ident
  /-- The parameters. -/
  parameters : List Parameter
  /-- The body. -/
  body : Block

/-- The two accessors a property can have. -/
inductive AccessorKind where
  | get | set
deriving DecidableEq, Repr

/-- The accessor's word. -/
def AccessorKind.word : AccessorKind → String
  | .get => "get"
  | .set => "set"

/-- The contextual keyword that the accessor's word spells. -/
def AccessorKind.keyword : AccessorKind → Keyword
  | .get => .kwGet
  | .set => .kwSet

/-- An accessor of a property. -/
structure Accessor where
  /-- Where it stands. -/
  span : Span
  /-- Which one it is. -/
  kind : AccessorKind
  /-- The modifiers. -/
  modifiers : List (Spanned Modifier)
  /-- The body, missing for an automatic accessor. -/
  body : Option Block

/-- A property. -/
structure Property where
  /-- What stands before it. -/
  header : Header
  /-- The type. -/
  type : TypeRef
  /-- The name. -/
  name : Ident
  /-- The accessors, in the order written. -/
  accessors : List Accessor

/-- The first accessor of a kind. -/
def Property.accessor? (p : Property) (kind : AccessorKind) : Option Accessor :=
  p.accessors.find? (·.kind == kind)

/-- A block that runs when a class or an instance is set up. -/
structure Initializer where
  /-- Whether it belongs to the class. -/
  isStatic : Bool
  /-- The body. -/
  body : Block

/-- What stands before the members of a class. -/
structure ClassHead where
  /-- Annotations and modifiers. -/
  header : Header
  /-- The name. -/
  name : Ident
  /-- The class it extends. -/
  base : Option TypeRef
  /-- The interfaces it implements. -/
  interfaces : List TypeRef

/-- What stands before the methods of an interface. -/
structure InterfaceHead where
  /-- Annotations and modifiers. -/
  header : Header
  /-- The name. -/
  name : Ident
  /-- The interfaces it extends. -/
  bases : List TypeRef

/-- An enum. -/
structure EnumDeclaration where
  /-- Annotations and modifiers. -/
  header : Header
  /-- The name. -/
  name : Ident
  /-- The constants. -/
  constants : List Ident
  /-- Whether a comma follows the last constant. -/
  trailingComma : Bool

/-- A trigger. -/
structure Trigger where
  /-- The name. -/
  name : Ident
  /-- The kind of record it is bound to. -/
  object : Ident
  /-- When it runs. -/
  events : List (Spanned TriggerEvent)
  /-- The body. -/
  body : Block

mutual

/-- A declaration of a type. -/
inductive TypeDeclaration where
  /-- A class with its members. -/
  | classType (span : Span) (head : ClassHead) (members : List Member)
  /-- An interface with its methods. -/
  | interfaceType (span : Span) (head : InterfaceHead) (methods : List (Spanned Method))
  /-- An enum. -/
  | enumType (span : Span) (declaration : EnumDeclaration)

/-- A member of a class. -/
inductive Member where
  /-- A field declaration. -/
  | field (span : Span) (field : Field)
  /-- A method. -/
  | method (span : Span) (method : Method)
  /-- A constructor. -/
  | constructor (span : Span) (constructor : Constructor)
  /-- A property. -/
  | property (span : Span) (property : Property)
  /-- An initializer block. -/
  | initializer (span : Span) (initializer : Initializer)
  /-- A nested type. -/
  | type (declaration : TypeDeclaration)
  /-- A stray semicolon. -/
  | stray (span : Span)

end

/-- Where the declaration stands. -/
def TypeDeclaration.span : TypeDeclaration → Span
  | .classType s .. | .interfaceType s .. | .enumType s .. => s

/-- The declared name. -/
def TypeDeclaration.name : TypeDeclaration → Ident
  | .classType _ head _ => head.name
  | .interfaceType _ head _ => head.name
  | .enumType _ declaration => declaration.name

/-- What a source file declares. -/
inductive Declaration where
  /-- A type. -/
  | type (declaration : TypeDeclaration)
  /-- A trigger. -/
  | trigger (span : Span) (trigger : Trigger)
  /-- Nothing; the file holds semicolons at most. -/
  | nothing (span : Span)

/-- The declared name. -/
def Declaration.name? : Declaration → Option Ident
  | .type declaration => some declaration.name
  | .trigger _ t => some t.name
  | .nothing _ => none

/-- The tree of a source file. -/
structure CompilationUnit where
  /-- Where the program stands: from its first token to its last. -/
  span : Span
  /-- What it declares. -/
  declaration : Declaration
  /-- The number of semicolons behind the declaration. -/
  trailingSemicolons : Nat

end Apex
