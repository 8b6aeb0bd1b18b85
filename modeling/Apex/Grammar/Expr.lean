import Apex.Grammar.Type

/-!
# Expressions

The grammar of expressions, from the loosest construct to the tightest: assignments, conditional
expressions, ten levels of binary operators, prefix operators and casts, postfix chains, and
primaries. Chains of binary operators and of postfix operations are read in loops, so they may be
of any length.
-/

namespace Apex.Grammar

open Apex.Parser

/-! ## Operators ahead -/

/-- Whether the tokens `i` and `i + 1` places ahead touch. -/
def touching (c : Cursor) (i : Nat) : Bool := (c.peek i).span.stop == (c.peek (i + 1)).span.start

/-- The operator of the shift family that touching `>` and `>=` tokens spell, and the number of
its tokens. -/
def composedAhead? (c : Cursor) : Option (Operator × Nat) :=
  if c.current.kind = .operator .greater && touching c 0 then
    match (c.peek 1).kind with
    | .operator .greaterEqual => some (.shiftRightAssign, 2)
    | .operator .greater =>
      if touching c 1 then
        match (c.peek 2).kind with
        | .operator .greaterEqual => some (.shiftRightZeroAssign, 3)
        | .operator .greater => some (.shiftRightZero, 3)
        | _ => some (.shiftRight, 2)
      else some (.shiftRight, 2)
    | _ => none
  else none

/-- The operator ahead, composed or not, and the number of its tokens. A composed operator in a
single token is none. -/
def operatorAhead? (c : Cursor) : Option (Operator × Nat) :=
  match composedAhead? c with
  | some found => some found
  | none =>
    match c.current.kind with
    | .operator o => if o.isComposed then none else some (o, 1)
    | _ => none

/-- The binary operator that an operator writes. -/
def binaryOp? : Operator → Option BinaryOp
  | .or => some .or
  | .and => some .and
  | .pipe => some .bitOr
  | .caret => some .bitXor
  | .amp => some .bitAnd
  | .equal => some .equal
  | .notEqual => some .notEqual
  | .lessGreater => some .lessGreater
  | .identical => some .identical
  | .notIdentical => some .notIdentical
  | .less => some .less
  | .lessEqual => some .lessEqual
  | .greater => some .greater
  | .greaterEqual => some .greaterEqual
  | .shiftLeft => some .shiftLeft
  | .shiftRight => some .shiftRight
  | .shiftRightZero => some .shiftRightZero
  | .plus => some .add
  | .minus => some .subtract
  | .star => some .multiply
  | .slash => some .divide
  | _ => none

/-- The assignment operator that an operator writes. -/
def assignOp? : Operator → Option AssignOp
  | .assign => some .assign
  | .plusAssign => some .add
  | .minusAssign => some .subtract
  | .starAssign => some .multiply
  | .slashAssign => some .divide
  | .ampAssign => some .bitAnd
  | .pipeAssign => some .bitOr
  | .caretAssign => some .bitXor
  | .shiftLeftAssign => some .shiftLeft
  | .shiftRightAssign => some .shiftRight
  | .shiftRightZeroAssign => some .shiftRightZero
  | _ => none

/-- The prefix operator that an operator writes. -/
def unaryOp? : Operator → Option UnaryOp
  | .plus => some .plus
  | .minus => some .minus
  | .tilde => some .complement
  | .bang => some .not
  | _ => none

/-- The stepping operator that an operator writes. -/
def stepOp? : Operator → Option StepOp
  | .increment => some .increment
  | .decrement => some .decrement
  | _ => none

/-- The binary operator of a level ahead, and the number of its tokens. -/
def binaryAhead? (level : BinaryLevel) (c : Cursor) : Option (BinaryOp × Nat) :=
  match operatorAhead? c with
  | some (o, count) =>
    match binaryOp? o with
    | some op => if op.level = level then some (op, count) else none
    | none => none
  | none => none

/-- The assignment operator ahead, and the number of its tokens. -/
def assignAhead? (c : Cursor) : Option (AssignOp × Nat) :=
  match operatorAhead? c with
  | some (o, count) => (assignOp? o).map fun op => (op, count)
  | none => none

/-! ## Primaries -/

/-- The literal that a token is in an expression. -/
def literalOf? : TokenKind → Option Literal
  | .integer v => some (.integer v)
  | .long v => some (.long v)
  | .decimal v => some (.decimal v)
  | .string v => some (.string v)
  | .soql q => some (.soql q)
  | .sosl q => some (.sosl q)
  | .keyword .kwTrue => some (.boolean true)
  | .keyword .kwFalse => some (.boolean false)
  | .keyword .kwNull => some .null
  | .keyword _ | .operator _ | .punctuation _ | .name _ | .endOfFile => none

/-- A complete expression, one level further down. -/
def expression (deeper : Deeper) : Parser Expr := deeper.assignment

/-- One or more expressions with commas between them. -/
def expressions (deeper : Deeper) : Parser (List Expr) := commaSeparated (expression deeper)

/-- Expressions with commas between them, up to a closing mark, which is not read. -/
def expressionsBefore (deeper : Deeper) (close : Punctuation) : Parser (List Expr) := do
  if ← isAt (.punctuation close) then return []
  expressions deeper

/-- An expression, unless there is a semicolon in its place. -/
def optionalExpression (deeper : Deeper) : Parser (Option Expr) := do
  if ← isAt (.punctuation .semicolon) then return none
  some <$> expression deeper

/-- The arguments of a call, in parentheses. -/
def arguments (deeper : Deeper) : Parser (List Expr) := do
  let _ ← expect (.punctuation .openParen)
  let args ← expressionsBefore deeper .closeParen
  let _ ← expect (.punctuation .closeParen)
  return args

/-- An expression in parentheses. -/
def parenthesized (deeper : Deeper) : Parser Expr := do
  let _ ← expect (.punctuation .openParen)
  let inner ← expression deeper
  let _ ← expect (.punctuation .closeParen)
  return inner

/-- The value of a map entry behind its key. -/
def entryValue (deeper : Deeper) : Parser Expr := do
  let _ ← expect (.punctuation .arrow)
  expression deeper

/-- A map entry. -/
def mapEntry (deeper : Deeper) : Parser (Expr × Expr) := do
  let key ← expression deeper
  return (key, ← entryValue deeper)

/-- What stands in the braces behind `new type`, up to and with the closing brace. An arrow behind
the first expression makes it a map; empty braces are a map if the type is called `Map`. -/
def braceCreator (deeper : Deeper) (start : Span) (type : TypeRef) : Parser Expr := do
  if ← accept (.punctuation .closeBrace) then
    let span ← spanFrom start
    return if sameWord "map" type.simpleName then .newMap span type []
      else .newCollection span type []
  let first ← expression deeper
  if ← isAt (.punctuation .arrow) then
    let value ← entryValue deeper
    let entries ← commaSeparatedFrom (first, value) (mapEntry deeper)
    let _ ← expect (.punctuation .closeBrace)
    return .newMap (← spanFrom start) type entries
  let elements ← commaSeparatedFrom first (expression deeper)
  let _ ← expect (.punctuation .closeBrace)
  return .newCollection (← spanFrom start) type elements

/-- What stands behind `new type[`. -/
def bracketCreator (deeper : Deeper) (start : Span) (type : TypeRef) : Parser Expr := do
  if ← accept (.punctuation .closeBracket) then
    let _ ← expect (.punctuation .openBrace)
    let elements ← expressionsBefore deeper .closeBrace
    let _ ← expect (.punctuation .closeBrace)
    return .newArrayOf (← spanFrom start) type elements
  let size ← expression deeper
  let _ ← expect (.punctuation .closeBracket)
  return .newArray (← spanFrom start) type size

/-- What stands behind the `new` at `start`. -/
def creator (deeper : Deeper) (start : Span) : Parser Expr := do
  let type ← elementType deeper.typeRef
  if ← isAt (.punctuation .openParen) then
    let args ← arguments deeper
    return .newObject (← spanFrom start) type args
  if ← accept (.punctuation .openBracket) then bracketCreator deeper start type
  else if ← accept (.punctuation .openBrace) then braceCreator deeper start type
  else
    fail [(TokenKind.punctuation .openParen).description,
      (TokenKind.punctuation .openBracket).description,
      (TokenKind.punctuation .openBrace).description]

/-- The word under the cursor, or the call of it if arguments follow. -/
def wordOrCall (deeper : Deeper) (word : Ident) (alone : Expr) : Parser Expr := do
  advance
  if ← isAt (.punctuation .openParen) then
    let args ← arguments deeper
    return .call (← spanFrom word.span) word args
  return alone

/-- An expression without operators. The word `trigger` stands for the trigger context. -/
def primary (deeper : Deeper) : Parser Expr := do
  let token ← current
  let start := token.span
  match literalOf? token.kind with
  | some value =>
    advance
    return .literal start value
  | none =>
    match token.kind with
    | .keyword .kwThis => wordOrCall deeper ⟨"this", start⟩ (.this start)
    | .keyword .kwSuper => wordOrCall deeper ⟨"super", start⟩ (.super start)
    | .keyword .kwNew =>
      advance
      creator deeper start
    | .keyword .kwTrigger =>
      advance
      return .name start (token.writtenWord?.getD "trigger")
    | .punctuation .openParen =>
      let inner ← parenthesized deeper
      return .paren (← spanFrom start) inner
    | .name text => wordOrCall deeper ⟨text, start⟩ (.name start text)
    | _ => fail ["expression"]

/-! ## Chains and operators -/

/-- One operation behind an operand, if there is one. A stepping operator ends the chain. -/
def postfixStep (deeper : Deeper) (operand : Expr) : Parser (Turn Expr Expr) := do
  if ← accept (.punctuation .dot) then
    let member ← memberName
    if ← isAt (.punctuation .openParen) then
      let args ← arguments deeper
      return .again (.methodCall (← spanFrom operand.span) operand member args)
    return .again (.member (operand.span.merge member.span) operand member)
  if ← accept (.punctuation .openBracket) then
    let position ← expression deeper
    let _ ← expect (.punctuation .closeBracket)
    return .again (.index (← spanFrom operand.span) operand position)
  match (← kind).operator?.bind stepOp? with
  | some op =>
    advance
    return .done (.stepAfter (← spanFrom operand.span) op operand)
  | none => return .done operand

/-- A primary with the operations behind it. -/
def postfixChain (deeper : Deeper) : Parser Expr := do
  iterate (postfixStep deeper) (← primary deeper)

/-- An operand with the prefix operators and casts before it. -/
def unary (deeper : Deeper) : Parser Expr := do
  let start ← here
  let operator := (← kind).operator?
  match operator.bind unaryOp?, operator.bind stepOp? with
  | some op, _ =>
    advance
    let operand ← deeper.unary
    return .unary (start.merge operand.span) op operand
  | none, some op =>
    advance
    let operand ← deeper.unary
    return .stepBefore (start.merge operand.span) op operand
  | none, none =>
    if castAhead (← get) then
      let _ ← expect (.punctuation .openParen)
      let type ← typeRef deeper.typeRef
      let _ ← expect (.punctuation .closeParen)
      let operand ← deeper.unary
      return .cast (start.merge operand.span) type operand
    postfixChain deeper

/-- One more operator of a level and its right operand, if there is one. A type test belongs to
the comparisons. -/
def binaryStep (deeper : Deeper) (level : BinaryLevel) (operand : Parser Expr) (left : Expr) :
    Parser (Turn Expr Expr) := do
  if level = .comparison && (← kind) = .keyword .kwInstanceOf then
    advance
    let type ← typeRef deeper.typeRef
    return .again (.instanceOf (left.span.merge type.span) left type)
  match binaryAhead? level (← get) with
  | some (op, count) =>
    skip count
    let right ← operand
    return .again (.binary (left.span.merge right.span) left op right)
  | none => return .done left

/-- Operands joined by the operators of the given levels, loosest first. Every level groups from
the left. -/
def binaryChain (deeper : Deeper) : List BinaryLevel → Parser Expr
  | [] => unary deeper
  | level :: tighter => do
    let operand := binaryChain deeper tighter
    iterate (binaryStep deeper level operand) (← operand)

/-- The levels of binary operators, loosest first. -/
def binaryLevels : List BinaryLevel :=
  [ .logicalOr, .logicalAnd, .bitwiseOr, .bitwiseXor, .bitwiseAnd, .equality, .comparison, .shift,
    .additive, .multiplicative ]

/-- A conditional expression, or what may stand for its condition. -/
def ternary (deeper : Deeper) : Parser Expr := do
  let condition ← binaryChain deeper binaryLevels
  if ← accept (.punctuation .question) then
    let yes ← expression deeper
    let _ ← expect (.punctuation .colon)
    let no ← deeper.ternary
    return .ternary (condition.span.merge no.span) condition yes no
  return condition

/-- An assignment, or what may stand for its target. -/
def assignment (deeper : Deeper) : Parser Expr := do
  let target ← ternary deeper
  match assignAhead? (← get) with
  | some (op, count) =>
    skip count
    let value ← deeper.assignment
    return .assignment (target.span.merge value.span) target op value
  | none => return target

end Apex.Grammar
