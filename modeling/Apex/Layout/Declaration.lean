import Apex.Layout.Statement
import Apex.Tree.Declaration

/-!
# Layout of declarations

Annotations written before the first modifier stand on lines of their own. Members stand a gap
apart, but consecutive fields stay together.
-/

namespace Apex

/-- The items of a header. Annotations behind a modifier stay on its line. -/
def headerMarks : (behindModifier : Bool) → List HeaderItem → List Mark
  | _, [] => []
  | _, .modifier m :: items => .text m.value.text :: .text " " :: headerMarks true items
  | true, .annotated a :: items => .text a.text :: .text " " :: headerMarks true items
  | false, .annotated a :: items => .text a.text :: .newline :: headerMarks false items

/-- What stands before a declaration. -/
def Header.marks (h : Header) : List Mark := headerMarks false h.items

/-- A parameter. -/
def Parameter.marks (p : Parameter) : List Mark :=
  modifierMarks p.modifiers ++ typedName p.type p.name

/-- Parameters in parentheses. -/
def parameterMarks (parameters : List Parameter) : List Mark :=
  .text "(" :: commaMarks (parameters.map Parameter.marks) ++ [.text ")"]

/-- A body, or the semicolon that stands for it. -/
def bodyOrSemicolon : Option Block → List Mark
  | some body => .text " " :: body.marks
  | none => [.text ";"]

/-- A field declaration. -/
def Field.marks (f : Field) : List Mark :=
  f.header.marks ++ .text f.type.text :: .text " " ::
    commaMarks (f.declarators.map Declarator.marks) ++ [.text ";"]

/-- A method. -/
def Method.marks (m : Method) : List Mark :=
  m.header.marks ++
    .text (match m.returnType with | some type => type.text | none => "void") :: .text " " ::
    .text m.name.value :: parameterMarks m.parameters ++ bodyOrSemicolon m.body

/-- A constructor. -/
def Constructor.marks (c : Constructor) : List Mark :=
  c.header.marks ++ .text c.name.value :: parameterMarks c.parameters ++ .text " " :: c.body.marks

/-- An accessor. -/
def Accessor.marks (a : Accessor) : List Mark :=
  modifierMarks a.modifiers ++ .text a.kind.word :: bodyOrSemicolon a.body

/-- A property, with its accessors on lines of their own. -/
def Property.marks (p : Property) : List Mark :=
  p.header.marks ++ typedName p.type p.name ++ .text " \x7b" :: .newline :: .indent ::
    (p.accessors.flatMap fun a => a.marks ++ [.newline]) ++ [.dedent, .text "\x7d"]

/-- An initializer block. -/
def Initializer.marks (i : Initializer) : List Mark :=
  (if i.isStatic then [.text "static "] else []) ++ i.body.marks

/-- What stands before the members of a class. -/
def ClassHead.marks (c : ClassHead) : List Mark :=
  c.header.marks ++
    [ .text "class ", .text c.name.value, .text (TypeRef.listAfter " extends " c.base.toList),
      .text (TypeRef.listAfter " implements " c.interfaces) ]

/-- What stands before the methods of an interface. -/
def InterfaceHead.marks (i : InterfaceHead) : List Mark :=
  i.header.marks ++
    [ .text "interface ", .text i.name.value, .text (TypeRef.listAfter " extends " i.bases) ]

/-- An enum, on one line. -/
def EnumDeclaration.marks (e : EnumDeclaration) : List Mark :=
  e.header.marks ++ [.text "enum ", .text e.name.value] ++
    if e.constants.isEmpty then [.text " \x7b\x7d"]
    else
      [ .text " \x7b ", .text (String.intercalate ", " (e.constants.map (·.value))),
        .text (if e.trailingComma then "," else ""), .text " \x7d" ]

/-- A trigger. -/
def Trigger.marks (t : Trigger) : List Mark :=
  [ .text "trigger ", .text t.name.value, .text " on ", .text t.object.value, .text " (",
    .text (String.intercalate ", " (t.events.map (·.value.text))), .text ") " ] ++ t.body.marks

/-- Members in braces, given the marks of the members with what separates them. -/
def memberBraces (members : List Mark) : List Mark :=
  if members.isEmpty then [.text " \x7b\x7d"]
  else .text " \x7b" :: .newline :: .indent :: members ++ [.newline, .dedent, .text "\x7d"]

/-- What separates a member from the one before it. -/
def Member.separator : (before after : Member) → Mark
  | .field .., .field .. => .newline
  | _, _ => .gap

/-- The methods of an interface. -/
def interfaceMarks : List (Spanned Method) → List Mark
  | [] => []
  | m :: ms => m.value.marks ++ ms.flatMap fun m => .gap :: m.value.marks

mutual

/-- A type declaration. -/
def TypeDeclaration.marks : TypeDeclaration → List Mark
  | .classType _ head members => head.marks ++ memberBraces (Member.marksOf none members)
  | .interfaceType _ head methods => head.marks ++ memberBraces (interfaceMarks methods)
  | .enumType _ declaration => declaration.marks

/-- A member of a class. -/
def Member.marks : Member → List Mark
  | .field _ f => f.marks
  | .method _ m => m.marks
  | .constructor _ c => c.marks
  | .property _ p => p.marks
  | .initializer _ i => i.marks
  | .type declaration => declaration.marks
  | .stray _ => [.text ";"]

/-- The members of a class, the first of which stands behind `previous` if there is one. -/
def Member.marksOf (previous : Option Member) : List Member → List Mark
  | [] => []
  | m :: ms =>
    (previous.map (Member.separator · m)).toList ++ (m.marks ++ Member.marksOf (some m) ms)

end

/-- What a file declares. -/
def Declaration.marks : Declaration → List Mark
  | .type declaration => declaration.marks
  | .trigger _ t => t.marks
  | .nothing _ => []

/-- A whole file. The semicolons behind the declaration are kept. -/
def CompilationUnit.marks (u : CompilationUnit) : List Mark :=
  u.declaration.marks ++ List.replicate u.trailingSemicolons (.text ";")

end Apex
