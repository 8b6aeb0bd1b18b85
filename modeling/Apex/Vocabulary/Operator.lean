/-!
# Operators

Every operator with its spelling, how tightly it binds, and where it stands. The expression
grammar and the printer both take spellings and precedences from here.
-/

namespace Apex

/-- How a chain of one operator groups. -/
inductive Associativity where
  | left | right
deriving DecidableEq, Repr

/-- Where an operator stands: between operands, before one, or on either side of one. -/
inductive Fixity where
  | between | before | either
deriving DecidableEq, Repr

/-- Every operator of the language. -/
inductive Operator where
  | assign | plusAssign | minusAssign | starAssign | slashAssign | ampAssign | pipeAssign
  | caretAssign | shiftLeftAssign | shiftRightAssign | shiftRightZeroAssign
  | or | and | pipe | caret | amp
  | equal | notEqual | lessGreater | identical | notIdentical
  | less | lessEqual | greater | greaterEqual
  | shiftLeft | shiftRight | shiftRightZero
  | plus | minus | star | slash
  | bang | tilde | increment | decrement
deriving DecidableEq, Repr

namespace Operator

/-- All operators, in the order of the register. -/
def all : List Operator :=
  [ .assign, .plusAssign, .minusAssign, .starAssign, .slashAssign, .ampAssign, .pipeAssign,
    .caretAssign, .shiftLeftAssign, .shiftRightAssign, .shiftRightZeroAssign,
    .or, .and, .pipe, .caret, .amp,
    .equal, .notEqual, .lessGreater, .identical, .notIdentical,
    .less, .lessEqual, .greater, .greaterEqual,
    .shiftLeft, .shiftRight, .shiftRightZero,
    .plus, .minus, .star, .slash,
    .bang, .tilde, .increment, .decrement ]

/-- How the operator is written. -/
def spelling : Operator → String
  | .assign => "="
  | .plusAssign => "+="
  | .minusAssign => "-="
  | .starAssign => "*="
  | .slashAssign => "/="
  | .ampAssign => "&="
  | .pipeAssign => "|="
  | .caretAssign => "^="
  | .shiftLeftAssign => "<<="
  | .shiftRightAssign => ">>="
  | .shiftRightZeroAssign => ">>>="
  | .or => "||"
  | .and => "&&"
  | .pipe => "|"
  | .caret => "^"
  | .amp => "&"
  | .equal => "=="
  | .notEqual => "!="
  | .lessGreater => "<>"
  | .identical => "==="
  | .notIdentical => "!=="
  | .less => "<"
  | .lessEqual => "<="
  | .greater => ">"
  | .greaterEqual => ">="
  | .shiftLeft => "<<"
  | .shiftRight => ">>"
  | .shiftRightZero => ">>>"
  | .plus => "+"
  | .minus => "-"
  | .star => "*"
  | .slash => "/"
  | .bang => "!"
  | .tilde => "~"
  | .increment => "++"
  | .decrement => "--"

/-- The precedence shared by the assignment operators, the loosest of all. -/
def assignmentPrecedence : Nat := 10

/-- How tightly the operator binds; a higher number binds tighter. -/
def precedence : Operator → Nat
  | .assign | .plusAssign | .minusAssign | .starAssign | .slashAssign | .ampAssign | .pipeAssign
  | .caretAssign | .shiftLeftAssign | .shiftRightAssign | .shiftRightZeroAssign =>
    assignmentPrecedence
  | .or => 30
  | .and => 40
  | .pipe => 50
  | .caret => 60
  | .amp => 70
  | .equal | .notEqual | .lessGreater | .identical | .notIdentical => 80
  | .less | .lessEqual | .greater | .greaterEqual => 90
  | .shiftLeft | .shiftRight | .shiftRightZero => 100
  | .plus | .minus => 110
  | .star | .slash => 120
  | .bang | .tilde => 130
  | .increment | .decrement => 140

/-- Whether the operator belongs to the assignment family. -/
def isAssignment (o : Operator) : Bool := o.precedence == assignmentPrecedence

/-- Where the operator stands. -/
def fixity : Operator → Fixity
  | .bang | .tilde => .before
  | .increment | .decrement => .either
  | _ => .between

/-- How a chain of the operator groups: assignments and the pure prefix operators from the right,
all others from the left. -/
def associativity (o : Operator) : Associativity :=
  if o.isAssignment || o.fixity == .before then .right else .left

/-- Whether the operator is put together from touching `>` and `>=` tokens. It never is a token of
its own, so that nested type arguments can close with a run of `>`. -/
def isComposed : Operator → Bool
  | .shiftRight | .shiftRightZero | .shiftRightAssign | .shiftRightZeroAssign => true
  | _ => false

/-- The operator with a spelling. -/
def ofSpelling? (spelling : String) : Option Operator := all.find? (·.spelling == spelling)

end Operator

end Apex
