import Apex.Grammar.Parser
import Apex.Tree.Declaration

/-!
# Nesting

Expressions, statements, types, annotations and member types contain each other. Every construct
of the grammar is defined over the constructs one level further down, so the depth to which a
program may be nested is the number of levels the grammar is built from. Below the last level
nothing can be read.
-/

namespace Apex

/-- A declaration's header while its declaration is being read: the header and the span of its
first item. -/
structure ReadHeader where
  /-- Annotations and modifiers. -/
  header : Header
  /-- Where the first of them stands. -/
  start : Option Span

/-- The constructs that may be read one nesting level further down. -/
structure Deeper where
  /-- A type argument. -/
  typeRef : Parser TypeRef
  /-- An annotation inside an annotation. -/
  annotationMark : Parser AnnotationMark
  /-- A value inside an annotation's array. -/
  annotationValue : Parser AnnotationValue
  /-- A complete expression. -/
  assignment : Parser Expr
  /-- What stands behind the colon of a conditional expression. -/
  ternary : Parser Expr
  /-- The operand of a prefix operator or a cast. -/
  unary : Parser Expr
  /-- A statement. -/
  statement : Parser Statement
  /-- A type declaration whose header has been read. -/
  typeDeclaration : ReadHeader → Parser TypeDeclaration
  /-- Whether something could be read at the cursor, given how its type arguments are read. -/
  ahead : (Parser TypeRef → Parser Unit) → Parser Bool

/-- Fails because the program is nested too deeply. -/
def tooDeep {α : Type} : Parser α := Parser.fail ["less deeply nested code"]

/-- What lies below the last level: nothing. -/
def Deeper.bottom : Deeper where
  typeRef := tooDeep
  annotationMark := tooDeep
  annotationValue := tooDeep
  assignment := tooDeep
  ternary := tooDeep
  unary := tooDeep
  statement := tooDeep
  typeDeclaration _ := tooDeep
  ahead look := Parser.matchesAhead (look tooDeep)

end Apex
