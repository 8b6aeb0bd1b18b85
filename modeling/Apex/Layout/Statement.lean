import Apex.Layout.Expr
import Apex.Layout.Page
import Apex.Tree.Statement

/-!
# Layout of statements

Each statement stands on lines of its own. A block opens on the line of the statement it belongs
to; any other statement that is a body goes on the next line, one level further in.
-/

namespace Apex

/-- Marks between commas. -/
def commaMarks : List (List Mark) → List Mark
  | [] => []
  | item :: items => item ++ items.flatMap fun item => .text ", " :: item

/-- An expression. -/
def Expr.marks (e : Expr) : List Mark := e.texts.map Mark.text

/-- Modifiers, each with a blank behind it. -/
def modifierMarks (modifiers : List (Spanned Modifier)) : List Mark :=
  modifiers.flatMap fun m => [.text m.value.text, .text " "]

/-- A type with a name behind it. -/
def typedName (type : TypeRef) (name : Ident) : List Mark :=
  [.text type.text, .text " ", .text name.value]

/-- A variable with its initial value. -/
def Declarator.marks (d : Declarator) : List Mark :=
  .text d.name.value ::
    match d.value with
    | some value => .text " = " :: value.marks
    | none => []

/-- A declaration of local variables, without its semicolon. -/
def LocalVariables.marks (v : LocalVariables) : List Mark :=
  modifierMarks v.modifiers ++ .text v.type.text :: .text " " ::
    commaMarks (v.declarators.map Declarator.marks)

/-- What a `for` loop does first. -/
def ForInit.marks : ForInit → List Mark
  | .nothing => []
  | .declaration _ locals => locals.marks
  | .expressions values => commaMarks (values.map Expr.marks)

/-- What a `for` loop does, between its parentheses. -/
def forMarks (init : ForInit) (condition : Option Expr) (update : List Expr) : List Mark :=
  init.marks ++ .text ";" ::
    (match condition with
      | some condition => .text " " :: condition.marks
      | none => []) ++
    .text ";" ::
    (if update.isEmpty then [] else .text " " :: commaMarks (update.map Expr.marks))

/-- Whether the statement is a block. -/
def Statement.isBlock : Statement → Bool
  | .block _ => true
  | _ => false

/-- Whether the statement is an `if`. -/
def Statement.isIf : Statement → Bool
  | .ifThen .. | .ifElse .. => true
  | _ => false

/-- A statement with the given marks as the body of another. -/
def Statement.asBody (s : Statement) (marks : List Mark) : List Mark :=
  if s.isBlock then .text " " :: marks
  else .newline :: .indent :: marks ++ [.dedent]

/-- The word `else` behind the statement that is done if the condition holds. -/
def Statement.elseAfter (yes : Statement) : List Mark :=
  if yes.isBlock then [.text " else"] else [.newline, .text "else"]

/-- A statement with the given marks behind `else`. Chains of `if` stay flat. -/
def Statement.asElse (s : Statement) (marks : List Mark) : List Mark :=
  if s.isIf then .text " " :: marks else s.asBody marks

mutual

/-- A block. -/
def Block.marks : Block → List Mark
  | .mk _ [] => [.text "\x7b\x7d"]
  | .mk _ (s :: ss) =>
    .text "\x7b" :: .newline :: .indent ::
      (s.marks ++ .newline :: Statement.lines ss) ++ [.dedent, .text "\x7d"]

/-- Statements, each on its lines. -/
def Statement.lines : List Statement → List Mark
  | [] => []
  | s :: ss => s.marks ++ .newline :: Statement.lines ss

/-- A statement. -/
def Statement.marks : Statement → List Mark
  | .block body => body.marks
  | .locals _ locals => locals.marks ++ [.text ";"]
  | .ifThen _ condition yes =>
    .text "if (" :: condition.marks ++ .text ")" :: yes.asBody yes.marks
  | .ifElse _ condition yes no =>
    .text "if (" :: condition.marks ++ .text ")" :: yes.asBody yes.marks ++ yes.elseAfter ++
      no.asElse no.marks
  | .whileLoop _ condition body =>
    .text "while (" :: condition.marks ++ .text ")" :: body.asBody body.marks
  | .doWhile _ body condition =>
    .text "do " :: body.marks ++ .text " while (" :: condition.marks ++ [.text ");"]
  | .forLoop _ init condition update body =>
    .text "for (" :: forMarks init condition update ++ .text ")" :: body.asBody body.marks
  | .forEach _ modifiers type name items body =>
    .text "for (" :: modifierMarks modifiers ++ typedName type name ++ .text " : " ::
      items.marks ++ .text ")" :: body.asBody body.marks
  | .tryCatch _ body catches => .text "try " :: body.marks ++ CatchClause.marksOf catches
  | .tryFinally _ body catches last =>
    .text "try " :: body.marks ++ CatchClause.marksOf catches ++ .text " finally " :: last.marks
  | .returns _ none => [.text "return;"]
  | .returns _ (some value) => .text "return " :: value.marks ++ [.text ";"]
  | .throws _ value => .text "throw " :: value.marks ++ [.text ";"]
  | .breaks _ => [.text "break;"]
  | .continues _ => [.text "continue;"]
  | .empty _ => [.text ";"]
  | .expression _ value => value.marks ++ [.text ";"]
  | .runAs _ user body => .text "System.runAs(" :: user.marks ++ .text ") " :: body.marks
  | .dml _ op target => .text op.word :: .text " " :: target.marks ++ [.text ";"]
  | .upsert _ target none => .text "upsert " :: target.marks ++ [.text ";"]
  | .upsert _ target (some key) =>
    .text "upsert " :: target.marks ++ [.text " ", .text key.text, .text ";"]
  | .merge _ master duplicate =>
    .text "merge " :: master.marks ++ .text " " :: duplicate.marks ++ [.text ";"]

/-- The handlers of a `try`. -/
def CatchClause.marksOf : List CatchClause → List Mark
  | [] => []
  | c :: cs => c.marks ++ CatchClause.marksOf cs

/-- A handler of a `try`. -/
def CatchClause.marks : CatchClause → List Mark
  | .mk _ modifiers type name body =>
    .text " catch (" :: modifierMarks modifiers ++ typedName type name ++ .text ") " :: body.marks

end

end Apex
