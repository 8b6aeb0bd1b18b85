import Apex.Number.Shortest
import Apex.Text.Quoted
import Apex.Tree.Annotation

/-!
# Literals and annotations as text

How literals and annotations are written so that they are read back as they were.
-/

namespace Apex

/-- A decimal number that reads back to a value. A whole number gets a zero after the point, to
stay a decimal. No literal denotes an infinity by name, so it is written as a number too large to
represent. -/
def Binary64.literalText (v : Binary64) : String :=
  if v.isInfinite then
    (if v.isNegative then "-1" else "1") ++ String.ofList (List.replicate 309 '0') ++ ".0"
  else
    let text := v.text
    if text.toList.contains '.' then text else text ++ ".0"

/-- A literal as it is written. -/
def Literal.text : Literal → String
  | .integer value => toString value.toInt
  | .long value => toString value.toInt ++ "L"
  | .decimal value => value.literalText
  | .string value => quote value
  | .boolean true => "true"
  | .boolean false => "false"
  | .null => "null"
  | .soql query | .sosl query => "[" ++ query.text ++ "]"

mutual

/-- An annotation as it is written. Its arguments stand a blank apart, each with its comma if it
has one. -/
def AnnotationMark.text : AnnotationMark → String
  | .mk _ name _ false => "@" ++ name.value
  | .mk _ name elements true =>
    "@" ++ name.value ++ "(" ++ String.intercalate " " (AnnotationElement.texts elements) ++ ")"

/-- An argument of an annotation as it is written. -/
def AnnotationElement.text : AnnotationElement → String
  | .mk _ key value comma =>
    let key := match key with
      | some key => key.value ++ " = "
      | none => ""
    key ++ value.text ++ (if comma then "," else "")

/-- The arguments of an annotation as they are written. -/
def AnnotationElement.texts : List AnnotationElement → List String
  | [] => []
  | e :: es => e.text :: AnnotationElement.texts es

/-- The value of an argument as it is written. -/
def AnnotationValue.text : AnnotationValue → String
  | .literal _ value => value.text
  | .array _ values => "\x7b" ++ String.intercalate ", " (AnnotationValue.texts values) ++ "\x7d"
  | .nested inner => inner.text

/-- The values of an array as they are written. -/
def AnnotationValue.texts : List AnnotationValue → List String
  | [] => []
  | v :: vs => v.text :: AnnotationValue.texts vs

end

end Apex
