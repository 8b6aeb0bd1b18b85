import Apex.Source.Span

/-!
# Type references

How a program names a type: a dotted name, type arguments for its last part, and array brackets.
-/

namespace Apex

/-- A reference to a type, such as `Map<Id, List<Account>>` or `String[]`. -/
structure TypeRef where
  /-- Where it stands. -/
  span : Span
  /-- The parts of the dotted name. -/
  segments : List Ident
  /-- The type arguments. -/
  arguments : List TypeRef
  /-- Number of `[]` behind it. -/
  dimensions : Nat

namespace TypeRef

/-- The last part of the dotted name. -/
def simpleName (t : TypeRef) : String := (t.segments.getLast?.map (·.value)).getD ""

mutual

/-- The reference as it is written. -/
def text : TypeRef → String
  | ⟨_, segments, arguments, dimensions⟩ =>
    let name := String.intercalate "." (segments.map (·.value))
    let arguments :=
      if arguments.isEmpty then "" else "<" ++ String.intercalate ", " (texts arguments) ++ ">"
    name ++ arguments ++ String.join (List.replicate dimensions "[]")

/-- The references of a list as they are written. -/
def texts : List TypeRef → List String
  | [] => []
  | t :: ts => t.text :: texts ts

end

/-- A list of types, as it is written between other words. -/
def listText (types : List TypeRef) : String := String.intercalate ", " (texts types)

/-- A word with a list of types behind it, or nothing if the list is empty. -/
def listAfter (word : String) (types : List TypeRef) : String :=
  if types.isEmpty then "" else word ++ listText types

end TypeRef

/-- A dotted name, such as `Account.External_Id__c`. -/
structure QualifiedName where
  /-- Where it stands. -/
  span : Span
  /-- Its parts. -/
  parts : List Ident
deriving DecidableEq, Repr

/-- The name as it is written. -/
def QualifiedName.text (q : QualifiedName) : String :=
  String.intercalate "." (q.parts.map (·.value))

end Apex
