import Apex.Grammar.Expr
import Apex.Grammar.Header

/-!
# Statements

The grammar of blocks and statements. A declaration of local variables and an expression can begin
alike; whether a type and a name lie ahead decides between them.
-/

namespace Apex.Grammar

open Apex.Parser

/-- A statement of a block that is still open. -/
def blockItem (deeper : Deeper) : Parser Statement := do
  if (← get).atEnd then fail [(TokenKind.punctuation .closeBrace).description]
  deeper.statement

/-- A block. -/
def block (deeper : Deeper) : Parser Block := do
  let start ← expect (.punctuation .openBrace)
  let statements ← itemsUntil (.punctuation .closeBrace) (blockItem deeper)
  let _ ← expect (.punctuation .closeBrace)
  return .mk (← spanFrom start) statements

/-! ## Declarations of variables -/

/-- A variable whose name has been read, with its initial value. -/
def declaratorFrom (deeper : Deeper) (name : Ident) : Parser Declarator := do
  let value ← if ← accept (.operator .assign) then some <$> expression deeper else pure none
  return ⟨← spanFrom name.span, name, value⟩

/-- A variable with its initial value. -/
def declarator (deeper : Deeper) : Parser Declarator := do declaratorFrom deeper (← identifier)

/-- The variables of a declaration, the first of which has had its name read. -/
def declarators (deeper : Deeper) (first : Ident) : Parser (List Declarator) := do
  let first ← declaratorFrom deeper first
  commaSeparatedFrom first (declarator deeper)

/-- A declaration of local variables, without its semicolon. -/
def localVariables (deeper : Deeper) : Parser LocalVariables := do
  let modifiers ← modifiers
  let type ← typeRef deeper.typeRef
  let name ← identifier
  return ⟨modifiers, type, ← declarators deeper name⟩

/-- Whether a declaration of local variables lies ahead: a modifier, or a type and a name. -/
def localVariablesAhead (deeper : Deeper) : Parser Bool := do
  match ← kind with
  | .keyword k => return (Modifier.ofKeyword? k).isSome
  | .name _ =>
    deeper.ahead fun argument => do
      let _ ← typeRef argument
      let _ ← identifier
  | _ => return false

/-! ## Conditions and loops -/

/-- A link of a chain of conditionals: where its `if` stands, the condition, and what is done. -/
structure IfLink where
  start : Span
  condition : Expr
  yes : Statement

/-- Reads `(condition) statement` behind the `if` at `start`. -/
def ifLink (deeper : Deeper) (start : Span) : Parser IfLink := do
  let condition ← parenthesized deeper
  return ⟨start, condition, ← deeper.statement⟩

/-- The conditional of a link and what stands behind its `else`. -/
def IfLink.statement (link : IfLink) (otherwise : Option Statement) : Parser Statement := do
  let span ← spanFrom link.start
  match otherwise with
  | some no => return .ifElse span link.condition link.yes no
  | none => return .ifThen span link.condition link.yes

/-- Puts links, the last one first, around what stands behind the last `else`. -/
def linkUp : List IfLink → Option Statement → Parser (Option Statement)
  | [], otherwise => return otherwise
  | link :: earlier, otherwise => do linkUp earlier (some (← link.statement otherwise))

/-- One more link, or what stands behind the last `else`. -/
def elseStep (deeper : Deeper) (links : List IfLink) :
    Parser (Turn (List IfLink) (List IfLink × Option Statement)) := do
  if ← accept (.keyword .kwElse) then
    if ← isAt (.keyword .kwIf) then
      let start := (← next).span
      return .again ((← ifLink deeper start) :: links)
    return .done (links, some (← deeper.statement))
  return .done (links, none)

/-- The links behind a first one, last first, and what stands behind the last `else`. -/
def elseChain (deeper : Deeper) : Parser (List IfLink × Option Statement) :=
  iterate (elseStep deeper) []

/-- A conditional. A chain of `else if` is read in a loop and linked up at its end, so its length
costs no nesting. -/
def ifStatement (deeper : Deeper) : Parser Statement := do
  let start ← expect (.keyword .kwIf)
  let first ← ifLink deeper start
  let (links, otherwise) ← elseChain deeper
  first.statement (← linkUp links otherwise)

/-- `while (condition) body` -/
def whileStatement (deeper : Deeper) : Parser Statement := do
  let start ← expect (.keyword .kwWhile)
  let condition ← parenthesized deeper
  let body ← deeper.statement
  return .whileLoop (← spanFrom start) condition body

/-- `do body while (condition);` -/
def doStatement (deeper : Deeper) : Parser Statement := do
  let start ← expect (.keyword .kwDo)
  let body ← block deeper
  let _ ← expect (.keyword .kwWhile)
  let condition ← parenthesized deeper
  let _ ← expect (.punctuation .semicolon)
  return .doWhile (← spanFrom start) body condition

/-- Whether the parenthesis of a `for` goes on with a variable and a colon. -/
def forEachAhead (deeper : Deeper) : Parser Bool :=
  deeper.ahead fun argument => do
    let _ ← modifiers
    let _ ← typeRef argument
    let _ ← identifier
    let _ ← expect (.punctuation .colon)

/-- What stands behind `for (` of a loop over items. -/
def forEachRest (deeper : Deeper) (start : Span) : Parser Statement := do
  let modifiers ← modifiers
  let type ← typeRef deeper.typeRef
  let name ← identifier
  let _ ← expect (.punctuation .colon)
  let items ← expression deeper
  let _ ← expect (.punctuation .closeParen)
  let body ← deeper.statement
  return .forEach (← spanFrom start) modifiers type name items body

/-- The first part of a `for` loop. -/
def forInit (deeper : Deeper) : Parser ForInit := do
  if ← isAt (.punctuation .semicolon) then return .nothing
  if ← localVariablesAhead deeper then
    let start ← here
    let locals ← localVariables deeper
    return .declaration (← spanFrom start) locals
  return .expressions (← expressions deeper)

/-- What stands behind `for (` of a loop in three parts. -/
def forLoopRest (deeper : Deeper) (start : Span) : Parser Statement := do
  let init ← forInit deeper
  let _ ← expect (.punctuation .semicolon)
  let condition ← optionalExpression deeper
  let _ ← expect (.punctuation .semicolon)
  let update ← expressionsBefore deeper .closeParen
  let _ ← expect (.punctuation .closeParen)
  let body ← deeper.statement
  return .forLoop (← spanFrom start) init condition update body

/-- A `for` loop of either kind. -/
def forStatement (deeper : Deeper) : Parser Statement := do
  let start ← expect (.keyword .kwFor)
  let _ ← expect (.punctuation .openParen)
  if ← forEachAhead deeper then forEachRest deeper start
  else forLoopRest deeper start

/-! ## Exceptions -/

/-- A `catch` clause, if there is one. -/
def catchClause? (deeper : Deeper) : Parser (Option CatchClause) := do
  let start ← here
  if ← accept (.keyword .kwCatch) then
    let _ ← expect (.punctuation .openParen)
    let modifiers ← modifiers
    let type ← typeRef deeper.typeRef
    let name ← identifier
    let _ ← expect (.punctuation .closeParen)
    let body ← block deeper
    return some (.mk (← spanFrom start) modifiers type name body)
  return none

/-- A `try` statement, which needs a `catch` or a `finally`. -/
def tryStatement (deeper : Deeper) : Parser Statement := do
  let start ← expect (.keyword .kwTry)
  let body ← block deeper
  let catches ← itemsWhile (catchClause? deeper)
  if ← accept (.keyword .kwFinally) then
    let last ← block deeper
    return .tryFinally (← spanFrom start) body catches last
  if catches.isEmpty then
    fail [(TokenKind.keyword .kwCatch).description, (TokenKind.keyword .kwFinally).description]
  return .tryCatch (← spanFrom start) body catches

/-! ## Simple statements -/

/-- What stands behind a `return`. -/
def returnStatement (deeper : Deeper) : Parser Statement := do
  let start ← expect (.keyword .kwReturn)
  let value ← optionalExpression deeper
  let _ ← expect (.punctuation .semicolon)
  return .returns (← spanFrom start) value

/-- A `throw` statement. -/
def throwStatement (deeper : Deeper) : Parser Statement := do
  let start ← expect (.keyword .kwThrow)
  let value ← expression deeper
  let _ ← expect (.punctuation .semicolon)
  return .throws (← spanFrom start) value

/-- A statement that is a keyword and a semicolon. -/
def keywordStatement (k : Keyword) (make : Span → Statement) : Parser Statement := do
  let start ← expect (.keyword k)
  let _ ← expect (.punctuation .semicolon)
  return make (← spanFrom start)

/-- An operation on records under the given keyword. -/
def dmlStatement (deeper : Deeper) (k : Keyword) (op : DmlOp) : Parser Statement := do
  let start ← expect (.keyword k)
  let target ← expression deeper
  let _ ← expect (.punctuation .semicolon)
  return .dml (← spanFrom start) op target

/-- An `upsert`, perhaps with the field that records are matched by. -/
def upsertStatement (deeper : Deeper) : Parser Statement := do
  let start ← expect (.keyword .kwUpsert)
  let target ← expression deeper
  let key ← if ← isAt (.punctuation .semicolon) then pure none else some <$> qualifiedName
  let _ ← expect (.punctuation .semicolon)
  return .upsert (← spanFrom start) target key

/-- A `merge` of two records. -/
def mergeStatement (deeper : Deeper) : Parser Statement := do
  let start ← expect (.keyword .kwMerge)
  let master ← expression deeper
  let duplicate ← expression deeper
  let _ ← expect (.punctuation .semicolon)
  return .merge (← spanFrom start) master duplicate

/-- Whether `System.runAs(` lies ahead, in any letter case. -/
def runAsAhead (c : Cursor) : Bool :=
  c.current.kind.spells .kwSystem && (c.peek 1).kind == .punctuation .dot &&
    (c.peek 2).kind.spells .kwRunAs && (c.peek 3).kind == .punctuation .openParen

/-- A block that runs as another user. -/
def runAsStatement (deeper : Deeper) : Parser Statement := do
  let start ← expectWord .kwSystem
  let _ ← expect (.punctuation .dot)
  let _ ← expectWord .kwRunAs
  let user ← parenthesized deeper
  let body ← block deeper
  return .runAs (← spanFrom start) user body

/-- A declaration of local variables as a statement. -/
def variablesStatement (deeper : Deeper) : Parser Statement := do
  let start ← here
  let locals ← localVariables deeper
  let _ ← expect (.punctuation .semicolon)
  return .locals (← spanFrom start) locals

/-- An expression as a statement. -/
def expressionStatement (deeper : Deeper) : Parser Statement := do
  let start ← here
  let value ← expression deeper
  let _ ← expect (.punctuation .semicolon)
  return .expression (← spanFrom start) value

/-- A statement that no keyword announces. -/
def plainStatement (deeper : Deeper) : Parser Statement := do
  if ← isAt (.punctuation .openBrace) then return .block (← block deeper)
  if ← isAt (.punctuation .semicolon) then return .empty (← next).span
  if runAsAhead (← get) then runAsStatement deeper
  else if ← localVariablesAhead deeper then variablesStatement deeper
  else expressionStatement deeper

/-- A statement. -/
def statement (deeper : Deeper) : Parser Statement := do
  match ← kind with
  | .keyword .kwIf => ifStatement deeper
  | .keyword .kwWhile => whileStatement deeper
  | .keyword .kwDo => doStatement deeper
  | .keyword .kwFor => forStatement deeper
  | .keyword .kwTry => tryStatement deeper
  | .keyword .kwReturn => returnStatement deeper
  | .keyword .kwThrow => throwStatement deeper
  | .keyword .kwBreak => keywordStatement .kwBreak .breaks
  | .keyword .kwContinue => keywordStatement .kwContinue .continues
  | .keyword .kwInsert => dmlStatement deeper .kwInsert .insert
  | .keyword .kwUpdate => dmlStatement deeper .kwUpdate .update
  | .keyword .kwDelete => dmlStatement deeper .kwDelete .delete
  | .keyword .kwUndelete => dmlStatement deeper .kwUndelete .undelete
  | .keyword .kwUpsert => upsertStatement deeper
  | .keyword .kwMerge => mergeStatement deeper
  | _ => plainStatement deeper

end Apex.Grammar
