import Apex.Tree.Annotation
import Apex.Tree.TypeRef

/-!
# Expressions

The tree of an expression. Parentheses are kept as nodes, so the tree says exactly what was
written, and every node has the span it was read from.
-/

namespace Apex

/-- A prefix operator. -/
inductive UnaryOp where
  | plus | minus | complement | not
deriving DecidableEq, Repr

/-- The operator that writes it. -/
def UnaryOp.operator : UnaryOp → Operator
  | .plus => .plus
  | .minus => .minus
  | .complement => .tilde
  | .not => .bang

/-- An operator that steps a variable, before or after it. -/
inductive StepOp where
  | increment | decrement
deriving DecidableEq, Repr

/-- The operator that writes it. -/
def StepOp.operator : StepOp → Operator
  | .increment => .increment
  | .decrement => .decrement

/-- An operator between two operands, assignments aside. -/
inductive BinaryOp where
  | or | and | bitOr | bitXor | bitAnd
  | equal | notEqual | lessGreater | identical | notIdentical
  | less | lessEqual | greater | greaterEqual
  | shiftLeft | shiftRight | shiftRightZero
  | add | subtract | multiply | divide
deriving DecidableEq, Repr

/-- The levels of binary operators, loosest first. -/
inductive BinaryLevel where
  | logicalOr | logicalAnd | bitwiseOr | bitwiseXor | bitwiseAnd | equality | comparison | shift
  | additive | multiplicative
deriving DecidableEq, Repr

namespace BinaryOp

/-- The operator that writes it. -/
def operator : BinaryOp → Operator
  | .or => .or
  | .and => .and
  | .bitOr => .pipe
  | .bitXor => .caret
  | .bitAnd => .amp
  | .equal => .equal
  | .notEqual => .notEqual
  | .lessGreater => .lessGreater
  | .identical => .identical
  | .notIdentical => .notIdentical
  | .less => .less
  | .lessEqual => .lessEqual
  | .greater => .greater
  | .greaterEqual => .greaterEqual
  | .shiftLeft => .shiftLeft
  | .shiftRight => .shiftRight
  | .shiftRightZero => .shiftRightZero
  | .add => .plus
  | .subtract => .minus
  | .multiply => .star
  | .divide => .slash

/-- The level at which the grammar reads it. -/
def level : BinaryOp → BinaryLevel
  | .or => .logicalOr
  | .and => .logicalAnd
  | .bitOr => .bitwiseOr
  | .bitXor => .bitwiseXor
  | .bitAnd => .bitwiseAnd
  | .equal | .notEqual | .lessGreater | .identical | .notIdentical => .equality
  | .less | .lessEqual | .greater | .greaterEqual => .comparison
  | .shiftLeft | .shiftRight | .shiftRightZero => .shift
  | .add | .subtract => .additive
  | .multiply | .divide => .multiplicative

end BinaryOp

/-- An assignment operator. -/
inductive AssignOp where
  | assign | add | subtract | multiply | divide | bitAnd | bitOr | bitXor
  | shiftLeft | shiftRight | shiftRightZero
deriving DecidableEq, Repr

/-- The operator that writes it. -/
def AssignOp.operator : AssignOp → Operator
  | .assign => .assign
  | .add => .plusAssign
  | .subtract => .minusAssign
  | .multiply => .starAssign
  | .divide => .slashAssign
  | .bitAnd => .ampAssign
  | .bitOr => .pipeAssign
  | .bitXor => .caretAssign
  | .shiftLeft => .shiftLeftAssign
  | .shiftRight => .shiftRightAssign
  | .shiftRightZero => .shiftRightZeroAssign

/-- An expression. -/
inductive Expr where
  /-- A literal. -/
  | literal (span : Span) (value : Literal)
  /-- A variable, or the trigger context `Trigger`. -/
  | name (span : Span) (text : String)
  /-- `this` -/
  | this (span : Span)
  /-- `super` -/
  | super (span : Span)
  /-- `(inner)` -/
  | paren (span : Span) (inner : Expr)
  /-- `object.part` -/
  | member (span : Span) (object : Expr) (part : Ident)
  /-- `callee(args)`; a constructor chained to is called `this` or `super`. -/
  | call (span : Span) (callee : Ident) (args : List Expr)
  /-- `receiver.callee(args)` -/
  | methodCall (span : Span) (receiver : Expr) (callee : Ident) (args : List Expr)
  /-- `object[position]` -/
  | index (span : Span) (object position : Expr)
  /-- `new type(args)` -/
  | newObject (span : Span) (type : TypeRef) (args : List Expr)
  /-- `new type[size]` -/
  | newArray (span : Span) (type : TypeRef) (size : Expr)
  /-- `new type[]{elements}` -/
  | newArrayOf (span : Span) (type : TypeRef) (elements : List Expr)
  /-- `new type{elements}` -/
  | newCollection (span : Span) (type : TypeRef) (elements : List Expr)
  /-- `new type{key => value, ...}` -/
  | newMap (span : Span) (type : TypeRef) (entries : List (Expr × Expr))
  /-- `(type) operand` -/
  | cast (span : Span) (type : TypeRef) (operand : Expr)
  /-- A prefix operator with its operand. -/
  | unary (span : Span) (op : UnaryOp) (operand : Expr)
  /-- `++operand` or `--operand` -/
  | stepBefore (span : Span) (op : StepOp) (operand : Expr)
  /-- `operand++` or `operand--` -/
  | stepAfter (span : Span) (op : StepOp) (operand : Expr)
  /-- `left op right` -/
  | binary (span : Span) (left : Expr) (op : BinaryOp) (right : Expr)
  /-- `operand instanceof type` -/
  | instanceOf (span : Span) (operand : Expr) (type : TypeRef)
  /-- `condition ? yes : no` -/
  | ternary (span : Span) (condition yes no : Expr)
  /-- `target op value` -/
  | assignment (span : Span) (target : Expr) (op : AssignOp) (value : Expr)

/-- Where the expression stands. -/
def Expr.span : Expr → Span
  | .literal s .. | .name s .. | .this s | .super s | .paren s .. | .member s .. | .call s ..
  | .methodCall s .. | .index s .. | .newObject s .. | .newArray s .. | .newArrayOf s ..
  | .newCollection s .. | .newMap s .. | .cast s .. | .unary s .. | .stepBefore s ..
  | .stepAfter s .. | .binary s .. | .instanceOf s .. | .ternary s .. | .assignment s .. => s

end Apex
