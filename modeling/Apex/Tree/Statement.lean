import Apex.Tree.Expr

/-!
# Statements

The tree of a statement. Spans of statements include the closing semicolon.
-/

namespace Apex

/-- One variable of a declaration, with its initial value. -/
structure Declarator where
  /-- Where it stands. -/
  span : Span
  /-- The variable. -/
  name : Ident
  /-- Its initial value. -/
  value : Option Expr

/-- A declaration of local variables. -/
structure LocalVariables where
  /-- The modifiers. -/
  modifiers : List (Spanned Modifier)
  /-- The type shared by all. -/
  type : TypeRef
  /-- The variables. -/
  declarators : List Declarator

/-- What a `for` loop does first. -/
inductive ForInit where
  /-- Nothing. -/
  | nothing
  /-- It declares variables. -/
  | declaration (span : Span) (locals : LocalVariables)
  /-- It evaluates expressions. -/
  | expressions (values : List Expr)

/-- An operation on records that takes only the records. -/
inductive DmlOp where
  | insert | update | delete | undelete
deriving DecidableEq, Repr

/-- The operation's word. -/
def DmlOp.word : DmlOp → String
  | .insert => "insert"
  | .update => "update"
  | .delete => "delete"
  | .undelete => "undelete"

mutual

/-- Statements in braces. -/
inductive Block where
  | mk (span : Span) (statements : List Statement)

/-- A statement. -/
inductive Statement where
  /-- A block on its own. -/
  | block (body : Block)
  /-- A declaration of local variables. -/
  | locals (span : Span) (locals : LocalVariables)
  /-- `if (condition) yes` -/
  | ifThen (span : Span) (condition : Expr) (yes : Statement)
  /-- `if (condition) yes else no` -/
  | ifElse (span : Span) (condition : Expr) (yes no : Statement)
  /-- `while (condition) body` -/
  | whileLoop (span : Span) (condition : Expr) (body : Statement)
  /-- `do body while (condition);` -/
  | doWhile (span : Span) (body : Block) (condition : Expr)
  /-- `for (init; condition; update) body` -/
  | forLoop (span : Span) (init : ForInit) (condition : Option Expr) (update : List Expr)
      (body : Statement)
  /-- `for (type name : items) body` -/
  | forEach (span : Span) (modifiers : List (Spanned Modifier)) (type : TypeRef) (name : Ident)
      (items : Expr) (body : Statement)
  /-- `try body catch ...` -/
  | tryCatch (span : Span) (body : Block) (catches : List CatchClause)
  /-- `try body catch ... finally last`, perhaps without a catch. -/
  | tryFinally (span : Span) (body : Block) (catches : List CatchClause) (last : Block)
  /-- `return value;` -/
  | returns (span : Span) (value : Option Expr)
  /-- `throw value;` -/
  | throws (span : Span) (value : Expr)
  /-- `break;` -/
  | breaks (span : Span)
  /-- `continue;` -/
  | continues (span : Span)
  /-- A semicolon alone. -/
  | empty (span : Span)
  /-- An expression followed by a semicolon. -/
  | expression (span : Span) (value : Expr)
  /-- `System.runAs(user) body` -/
  | runAs (span : Span) (user : Expr) (body : Block)
  /-- `insert target;` and its like. -/
  | dml (span : Span) (op : DmlOp) (target : Expr)
  /-- `upsert target key;`, where the key may be missing. -/
  | upsert (span : Span) (target : Expr) (key : Option QualifiedName)
  /-- `merge master duplicate;` -/
  | merge (span : Span) (master duplicate : Expr)

/-- `catch (type name) body` -/
inductive CatchClause where
  | mk (span : Span) (modifiers : List (Spanned Modifier)) (type : TypeRef) (name : Ident)
      (body : Block)

end

/-- Where the block stands. -/
def Block.span : Block → Span
  | .mk span _ => span

/-- What the block holds. -/
def Block.statements : Block → List Statement
  | .mk _ statements => statements

/-- Where the clause stands. -/
def CatchClause.span : CatchClause → Span
  | .mk span .. => span

/-- Where the statement stands. -/
def Statement.span : Statement → Span
  | .block body => body.span
  | .locals s .. | .ifThen s .. | .ifElse s .. | .whileLoop s .. | .doWhile s ..
  | .forLoop s .. | .forEach s .. | .tryCatch s .. | .tryFinally s .. | .returns s ..
  | .throws s .. | .breaks s | .continues s | .empty s | .expression s .. | .runAs s ..
  | .dml s .. | .upsert s .. | .merge s .. => s

end Apex
