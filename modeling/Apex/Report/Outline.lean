import Apex.Node.Walk
import Apex.Report.Signature

/-!
# Outlines

An outline lists the declarations of a program and their members, a line for each, indented below
the types they belong to.
-/

namespace Apex

/-- An outline that has been written so far. -/
structure Outline where
  /-- Its lines. -/
  lines : Array String := #[]
  /-- How many types the next line belongs to. -/
  depth : Nat := 0
deriving DecidableEq, Repr

namespace Outline

/-- Adds a line at the current depth. -/
def addLine (o : Outline) (text : String) : Outline :=
  { o with lines := o.lines.push (String.join (List.replicate o.depth "  ") ++ text) }

/-- Adds the line of a type, to which the lines that follow belong. -/
def openType (o : Outline) (text : String) : Outline :=
  { o.addLine text with depth := o.depth + 1 }

/-- Ends a type. -/
def closeType (o : Outline) : Outline := { o with depth := o.depth - 1 }

/-- The outline as a text; even an empty one has a line end. -/
def text (o : Outline) : String := String.intercalate "\n" o.lines.toList ++ "\n"

end Outline

/-- The line of a class. -/
def ClassHead.outlineText (c : ClassHead) : String :=
  c.header.modifierText ++ "class " ++ c.name.value ++
    TypeRef.listAfter " extends " c.base.toList ++ TypeRef.listAfter " implements " c.interfaces

/-- The line of an interface. -/
def InterfaceHead.outlineText (i : InterfaceHead) : String :=
  i.header.modifierText ++ "interface " ++ i.name.value ++ TypeRef.listAfter " extends " i.bases

/-- The line of an enum, with its constants. -/
def EnumDeclaration.outlineText (e : EnumDeclaration) : String :=
  e.header.modifierText ++ "enum " ++ e.name.value ++ " \x7b " ++
    String.intercalate ", " (e.constants.map (·.value)) ++ " \x7d"

/-- The line of a trigger, with its events. -/
def Trigger.outlineText (t : Trigger) : String :=
  "trigger " ++ t.name.value ++ " on " ++ t.object.value ++ " (" ++
    String.intercalate ", " (t.events.map (·.value.text)) ++ ")"

/-- The line of a field declaration, with the names it declares. -/
def Field.outlineText (f : Field) : String :=
  f.header.modifierText ++ "field " ++ f.type.text ++ " " ++
    String.intercalate ", " (f.declarators.map (·.name.value))

/-- The line of a member with a signature. -/
def memberOutlineText (header : Header) (kind : SignatureKind) (signature : String) : String :=
  header.modifierText ++ kind.word ++ " " ++ signature

/-- The line of an initializer block. -/
def Initializer.outlineText (i : Initializer) : String :=
  if i.isStatic then "static initializer" else "initializer"

/-- What coming to a piece of syntax adds to an outline. -/
def Outline.enter (o : Outline) : Element → Outline
  | .typeDeclaration (.classType _ head _) => o.openType head.outlineText
  | .typeDeclaration (.interfaceType _ head _) => o.openType head.outlineText
  | .typeDeclaration (.enumType _ e) => o.addLine e.outlineText
  | .trigger t => o.addLine t.outlineText
  | .field f => o.addLine f.outlineText
  | .method m => o.addLine (memberOutlineText m.header .method m.signature)
  | .constructor c => o.addLine (memberOutlineText c.header .constructor c.signature)
  | .property p => o.addLine (memberOutlineText p.header .property p.signature)
  | .initializer i => o.addLine i.outlineText
  | _ => o

/-- What leaving a piece of syntax changes. -/
def Outline.leave (o : Outline) : Element → Outline
  | .typeDeclaration (.classType ..) | .typeDeclaration (.interfaceType ..) => o.closeType
  | _ => o

/-- The listener that writes outlines. -/
def outlineListener : Listener Outline Empty where
  enter _ n := modify (·.enter n.element)
  exit _ n := modify (·.leave n.element)

/-- The outline with the declarations of one more program. -/
def Outline.add (o : Outline) (u : CompilationUnit) : Outline := u.node.observe outlineListener o

end Apex
