import Apex.Node.Visit

/-!
# Signatures

A signature says in one line how a member of a class or interface is used. The signatures of a
program are listed with the types their members belong to; bodies, initial values and triggers
hold none and are not visited.
-/

namespace Apex

/-- Modifiers, each with a blank behind it. -/
def modifierText (modifiers : List (Spanned Modifier)) : String :=
  String.join (modifiers.map fun m => m.value.text ++ " ")

/-- The modifiers of a header, each with a blank behind it. -/
def Header.modifierText (h : Header) : String := Apex.modifierText h.modifiers

/-- A parameter as it is declared. -/
def Parameter.text (p : Parameter) : String :=
  modifierText p.modifiers ++ p.type.text ++ " " ++ p.name.value

/-- A name with its parameters in parentheses. -/
def callText (name : Ident) (parameters : List Parameter) : String :=
  name.value ++ "(" ++ String.intercalate ", " (parameters.map Parameter.text) ++ ")"

/-- The signature of a method; the result type comes first. -/
def Method.signature (m : Method) : String :=
  (match m.returnType with | some type => type.text | none => "void") ++ " " ++
    callText m.name m.parameters

/-- The signature of a constructor. -/
def Constructor.signature (c : Constructor) : String := callText c.name c.parameters

/-- An accessor without its body. -/
def Accessor.signature (a : Accessor) : String :=
  modifierText a.modifiers ++ a.kind.word ++ "; "

/-- The signature of a property, with its accessors. -/
def Property.signature (p : Property) : String :=
  p.type.text ++ " " ++ p.name.value ++ " \x7b " ++
    String.join (p.accessors.map Accessor.signature) ++ "\x7d"

/-- The sorts of members that have signatures. -/
inductive SignatureKind where
  | method | constructor | property
deriving DecidableEq, Repr

/-- The word for the sort of member. -/
def SignatureKind.word : SignatureKind → String
  | .method => "method"
  | .constructor => "constructor"
  | .property => "property"

/-- The signature of a member. -/
structure Signature where
  /-- The sort of member. -/
  kind : SignatureKind
  /-- The type that the member belongs to, with the types around it, outermost first, joined by
  dots. -/
  owner : String
  /-- The signature itself. -/
  text : String
  /-- Where the member stands. -/
  span : Span
deriving DecidableEq, Repr

/-- Visits the members of a type, which is added to the types around them meanwhile. -/
def withinType {ρ : Type} (name : Ident) (below : EStateM Empty (List String) ρ) :
    EStateM Empty (List String) ρ := do
  let owners ← get
  set (owners ++ [name.value])
  let result ← below
  set owners
  return result

/-- The one signature of a member. -/
def oneSignature (kind : SignatureKind) (text : String) (span : Span) :
    EStateM Empty (List String) (List Signature) := do
  return [⟨kind, String.intercalate "." (← get), text, span⟩]

/-- The visitor that lists signatures. Its state are the names of the types around the node,
outermost first. -/
def signatureVisitor : Visitor (List String) Empty (List Signature) where
  visit _ n below :=
    match n.element with
    | .typeDeclaration (.classType _ head _) => withinType head.name below
    | .typeDeclaration (.interfaceType _ head _) => withinType head.name below
    | .trigger _ | .field _ | .initializer _ => return []
    | .method m => oneSignature .method m.signature n.span
    | .constructor c => oneSignature .constructor c.signature n.span
    | .property p => oneSignature .property p.signature n.span
    | _ => below
  start := return []
  combine signatures next := return signatures ++ next

/-- The signatures of a program, in source order. -/
def CompilationUnit.signatures (u : CompilationUnit) : List Signature :=
  (u.node.evaluate signatureVisitor []).1

end Apex
