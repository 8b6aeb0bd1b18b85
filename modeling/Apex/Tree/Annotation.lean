import Apex.Token.Basic
import Apex.Vocabulary.Modifier

/-!
# Literals, annotations and declaration headers

An annotation is a name with arguments, which are literals, lists of arguments, or annotations
again. Annotations and modifiers stand before a declaration in any order.
-/

namespace Apex

/-- A literal value. -/
inductive Literal where
  /-- `42` -/
  | integer (value : Int64)
  /-- `42L` -/
  | long (value : Int64)
  /-- `4.2` -/
  | decimal (value : Binary64)
  /-- `'text'` -/
  | string (value : String)
  /-- `true` or `false` -/
  | boolean (value : Bool)
  /-- `null` -/
  | null
  /-- `[SELECT ...]` -/
  | soql (query : Query)
  /-- `[FIND ...]` -/
  | sosl (query : Query)
deriving DecidableEq, Repr

mutual

/-- `@Name` or `@Name(key = value ...)`. -/
inductive AnnotationMark where
  /-- `parenthesized` says whether there are parentheses, even empty ones. -/
  | mk (span : Span) (name : Ident) (elements : List AnnotationElement) (parenthesized : Bool)

/-- One argument of an annotation. -/
inductive AnnotationElement where
  /-- `key` is missing for a single positional value; `comma` says whether a comma follows, since
  blank space alone separates arguments as well. -/
  | mk (span : Span) (key : Option Ident) (value : AnnotationValue) (comma : Bool)

/-- The value of an annotation's argument. -/
inductive AnnotationValue where
  /-- A literal, perhaps with a minus sign taken into it. -/
  | literal (span : Span) (value : Literal)
  /-- `{value, ...}` -/
  | array (span : Span) (values : List AnnotationValue)
  /-- An annotation inside an annotation. -/
  | nested (inner : AnnotationMark)

end

namespace AnnotationMark

/-- Where the annotation stands. -/
def span : AnnotationMark → Span
  | mk span _ _ _ => span

/-- Its name. -/
def name : AnnotationMark → Ident
  | mk _ name _ _ => name

/-- Its arguments. -/
def elements : AnnotationMark → List AnnotationElement
  | mk _ _ elements _ => elements

/-- Whether it has parentheses. -/
def parenthesized : AnnotationMark → Bool
  | mk _ _ _ parenthesized => parenthesized

end AnnotationMark

/-- Where the argument stands. -/
def AnnotationElement.span : AnnotationElement → Span
  | mk span _ _ _ => span

/-- Where the value stands. -/
def AnnotationValue.span : AnnotationValue → Span
  | literal span _ => span
  | array span _ => span
  | nested inner => inner.span

/-- What stands before a declaration. -/
structure Header where
  /-- The annotations, in the order read. -/
  annotations : List AnnotationMark := []
  /-- The modifiers, in the order read. -/
  modifiers : List (Spanned Modifier) := []

/-- A part of a header. -/
inductive HeaderItem where
  | annotated (a : AnnotationMark)
  | modifier (m : Spanned Modifier)

/-- The byte offset where the item starts. -/
def HeaderItem.start : HeaderItem → Nat
  | .annotated a => a.span.start
  | .modifier m => m.span.start

namespace Header

/-- Puts an item before the first one of a sorted list that does not start before it. -/
def insertItem (item : HeaderItem) : List HeaderItem → List HeaderItem
  | [] => [item]
  | other :: later =>
    if item.start ≤ other.start then item :: other :: later
    else other :: insertItem item later

/-- Annotations and modifiers by the place where they start. Of items that start at one place the
annotations come first, and otherwise the order read is kept. -/
def items (h : Header) : List HeaderItem :=
  (h.annotations.map HeaderItem.annotated ++ h.modifiers.map HeaderItem.modifier).foldr
    insertItem []

/-- Whether a modifier is present. -/
def has (h : Header) (m : Modifier) : Bool := h.modifiers.any (·.value == m)

end Header

end Apex
