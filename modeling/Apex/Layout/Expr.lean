import Apex.Layout.Literal
import Apex.Tree.Expr

/-!
# Expressions as text

An expression is written on one line. Chains of operators and calls may be longer than a recursion
could go, so the pieces still to be written are kept on a stack: a text is written, and an
expression is replaced by its own pieces.
-/

namespace Apex

/-- Something still to be written. -/
inductive Piece where
  /-- A text. -/
  | text (text : String)
  /-- An expression. -/
  | expr (expr : Expr)

/-- Whether the text of an expression begins with a plus or minus sign. -/
def Expr.startsWithSign : Expr → Bool
  | .literal _ (.integer value) | .literal _ (.long value) => value.toInt < 0
  | .literal _ (.decimal value) => value.isNegative
  | .unary _ op _ => op == .plus || op == .minus
  | .stepBefore .. => true
  | .stepAfter _ _ operand => operand.startsWithSign
  | .binary _ left _ _ => left.startsWithSign
  | .member _ object _ => object.startsWithSign
  | .methodCall _ receiver _ _ => receiver.startsWithSign
  | .index _ object _ => object.startsWithSign
  | .instanceOf _ operand _ => operand.startsWithSign
  | .ternary _ condition _ _ => condition.startsWithSign
  | .assignment _ target _ _ => target.startsWithSign
  | _ => false

namespace Piece

/-- Expressions between commas. -/
def list : List Expr → List Piece
  | [] => []
  | e :: es => .expr e :: es.flatMap fun e => [.text ", ", .expr e]

/-- Arguments in parentheses. -/
def arguments (es : List Expr) : List Piece := .text "(" :: list es ++ [.text ")"]

/-- Elements in braces. -/
def elements (es : List Expr) : List Piece := .text "\x7b" :: list es ++ [.text "\x7d"]

/-- A key with its value. -/
def entry (keyAndValue : Expr × Expr) : List Piece :=
  [.expr keyAndValue.1, .text " => ", .expr keyAndValue.2]

/-- Keys with their values between commas. -/
def entries : List (Expr × Expr) → List Piece
  | [] => []
  | e :: es => entry e ++ es.flatMap fun e => .text ", " :: entry e

/-- The operand behind a prefix operator. Two signs in a row are set apart, since they would make
a longer operator together. -/
def operand (e : Expr) : List Piece :=
  if e.startsWithSign then [.text " ", .expr e] else [.expr e]

/-- Two operands around an operator. -/
def operation (left : Expr) (op : Operator) (right : Expr) : List Piece :=
  [.expr left, .text " ", .text op.spelling, .text " ", .expr right]

end Piece

open Piece in
/-- What an expression is written as: its own words, and the expressions that are its parts. -/
def Expr.pieces : Expr → List Piece
  | .literal _ value => [.text value.text]
  | .name _ spelling => [.text spelling]
  | .this _ => [.text "this"]
  | .super _ => [.text "super"]
  | .paren _ inner => [.text "(", .expr inner, .text ")"]
  | .member _ object part => [.expr object, .text ".", .text part.value]
  | .call _ callee args => .text callee.value :: arguments args
  | .methodCall _ receiver callee args =>
    .expr receiver :: .text "." :: .text callee.value :: arguments args
  | .index _ object position => [.expr object, .text "[", .expr position, .text "]"]
  | .newObject _ type args => .text "new " :: .text type.text :: arguments args
  | .newArray _ type size =>
    [.text "new ", .text type.text, .text "[", .expr size, .text "]"]
  | .newArrayOf _ type es => .text "new " :: .text type.text :: .text "[]" :: elements es
  | .newCollection _ type es => .text "new " :: .text type.text :: elements es
  | .newMap _ type es =>
    .text "new " :: .text type.text :: .text "\x7b" :: entries es ++ [.text "\x7d"]
  | .cast _ type e => [.text "(", .text type.text, .text ") ", .expr e]
  | .unary _ op e => .text op.operator.spelling :: operand e
  | .stepBefore _ op e => .text op.operator.spelling :: operand e
  | .stepAfter _ op e => [.expr e, .text op.operator.spelling]
  | .binary _ left op right => operation left op.operator right
  | .instanceOf _ e type => [.expr e, .text " instanceof ", .text type.text]
  | .ternary _ condition yes no =>
    [.expr condition, .text " ? ", .expr yes, .text " : ", .expr no]
  | .assignment _ target op value => operation target op.operator value

namespace Piece

/-! ## Termination

An expression weighs more than its pieces together.
-/

/-- A bound on the work that a piece makes. -/
noncomputable def weight : Piece → Nat
  | .text _ => 1
  | .expr e => 8 * sizeOf e

/-- A bound on the work that pieces make. -/
noncomputable def weights : List Piece → Nat
  | [] => 0
  | p :: ps => p.weight + weights ps

theorem weights_append (ps qs : List Piece) : weights (ps ++ qs) = weights ps + weights qs := by
  induction ps with
  | nil => simp [weights]
  | cons p ps ih => simp [weights, ih, Nat.add_assoc]

theorem weights_reverse (ps : List Piece) : weights ps.reverse = weights ps := by
  induction ps with
  | nil => rfl
  | cons p ps ih => simp [weights_append, weights, ih, Nat.add_comm]

theorem weights_list_le : (es : List Expr) → weights (list es) ≤ 8 * sizeOf es
  | [] => by simp [list, weights]
  | e :: es => by
    have tail : ∀ es : List Expr,
        weights (es.flatMap fun e => [.text ", ", .expr e]) + 8 ≤ 8 * sizeOf es := by
      intro es
      induction es with
      | nil => simp [weights]
      | cons e es ih => simp [weights, weight]; omega
    have := tail es
    simp [list, weights, weight]
    omega

theorem weights_entries_le : (es : List (Expr × Expr)) → weights (entries es) ≤ 8 * sizeOf es
  | [] => by simp [entries, weights]
  | e :: es => by
    have tail : ∀ es : List (Expr × Expr),
        weights (es.flatMap fun e => .text ", " :: entry e) + 8 ≤ 8 * sizeOf es := by
      intro es
      induction es with
      | nil => simp [weights]
      | cons e es ih =>
        obtain ⟨k, v⟩ := e
        simp [weights, weight, entry] at ih ⊢
        omega
    have := tail es
    obtain ⟨k, v⟩ := e
    simp [entries, entry, weights, weight] at this ⊢
    omega

theorem weights_operand_le (e : Expr) : weights (operand e) ≤ 1 + 8 * sizeOf e := by
  unfold operand
  split <;> simp [weights, weight]

theorem weights_pieces_lt (e : Expr) : weights e.pieces < (Piece.expr e).weight := by
  cases e with
  | call _ _ es | methodCall _ _ _ es | newObject _ _ es =>
    have := weights_list_le es
    simp [Expr.pieces, arguments, weights, weights_append, weight]
    omega
  | newArrayOf _ _ es | newCollection _ _ es =>
    have := weights_list_le es
    simp [Expr.pieces, elements, weights, weights_append, weight]
    omega
  | newMap _ _ es =>
    have := weights_entries_le es
    simp [Expr.pieces, weights, weights_append, weight]
    omega
  | unary _ _ e | stepBefore _ _ e =>
    have := weights_operand_le e
    simp [Expr.pieces, weights, weight]
    omega
  | _ =>
    simp [Expr.pieces, operation, weights, weight]
    omega

/-- What the top of the stack adds to the work that is left, before it is taken off. -/
theorem weights_stack {stack : Array Piece} {top : Piece} (h : stack.back? = some top) :
    weights stack.toList = weights stack.pop.toList + top.weight := by
  obtain ⟨below, rfl⟩ := Array.back?_eq_some_iff.mp h
  simp [weights, weights_append]

/-- The loop that writes pieces. The piece on top of the stack, the last one, is taken off: a text is
written, and the pieces of an expression are put into the buffer and go onto the stack from there,
from the last one to the first. The texts may be written on anything. -/
def printStack {σ : Type} (write : σ → String → σ) (done : σ) (stack buffer : Array Piece) : σ :=
  match _top : stack.back? with
  | none => done
  | some (.text written) => printStack write (write done written) stack.pop buffer
  | some (.expr e) =>
    let pieces := buffer ++ e.pieces
    printStack write done (stack.pop ++ pieces.reverse) #[]
termination_by weights stack.toList + weights buffer.toList
decreasing_by
  · simp [weights_stack _top, weight]
  · have := weights_pieces_lt e
    simp [weights_stack _top, weights, weights_append, weights_reverse]
    omega

end Piece

/-- Writes an expression. -/
def Expr.print {σ : Type} (write : σ → String → σ) (done : σ) (e : Expr) : σ :=
  Piece.printStack write done #[.expr e] #[]

/-- The texts that an expression is written as, one after another. -/
def Expr.texts (e : Expr) : List String := (e.print Array.push #[]).toList

end Apex
