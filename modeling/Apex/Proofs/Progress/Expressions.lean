import Apex.Proofs.Echo.Expressions
import Apex.Proofs.Progress.Headers

/-!
# Expressions make progress

Expressions are read token by token, given that the constructs one level down are. The chains of
binary operators and of postfix operations are loops that read a token in every step.
-/

namespace Apex.Grammar

open Apex.Parser

variable {D : Deeper} {c : Cursor}

/-! ## Lists of expressions -/

theorem expressions_reads (hD : D.Progresses) : Reads (expressions D) :=
  commaSeparated_reads hD.assignment

theorem expressionsBefore_moves (hD : D.Progresses) (close : Punctuation) :
    Moves (expressionsBefore D close) :=
  (Moves.isAt _).bind fun _ => .ite (Moves.pure _) (expressions_reads hD).moves

theorem optionalExpression_moves (hD : D.Progresses) : Moves (optionalExpression D) :=
  (Moves.isAt _).bind fun _ => .ite (Moves.pure _) (hD.assignment.map fun _ => False.elim)

theorem arguments_reads (hD : D.Progresses) : Reads (arguments D) := by
  refine (Reads.expect _).bind fun _ => (expressionsBefore_moves hD _).bind fun _ => ?_
  exact (Reads.expect _).moves.bind fun _ => Moves.pure _

theorem parenthesized_reads (hD : D.Progresses) : Reads (parenthesized D) := by
  refine (Reads.expect _).bind fun _ => hD.assignment.moves.bind fun _ => ?_
  exact (Reads.expect _).moves.bind fun _ => Moves.pure _

theorem entryValue_reads (hD : D.Progresses) : Reads (entryValue D) :=
  (Reads.expect _).bind fun _ => hD.assignment.moves

theorem mapEntry_reads (hD : D.Progresses) : Reads (mapEntry D) :=
  hD.assignment.bind fun _ => (entryValue_reads hD).moves.bind fun _ => Moves.pure _

/-! ## Primaries -/

theorem braceCreator_reads (hD : D.Progresses) (start : Span) (type : TypeRef) :
    Reads (braceCreator D start type) := by
  refine .acceptBind ((Moves.spanFrom _).bind fun _ => Moves.pure _) ?_
  refine hD.assignment.bind fun first => (Moves.isAt _).bind fun _ => .ite ?_ ?_
  · refine (entryValue_reads hD).moves.bind fun _ => ?_
    refine (commaSeparatedFrom_moves _ (mapEntry_reads hD).moves).bind fun _ => ?_
    exact (Reads.expect _).moves.bind fun _ => (Moves.spanFrom _).bind fun _ => Moves.pure _
  · refine (commaSeparatedFrom_moves _ hD.assignment.moves).bind fun _ => ?_
    exact (Reads.expect _).moves.bind fun _ => (Moves.spanFrom _).bind fun _ => Moves.pure _

theorem bracketCreator_reads (hD : D.Progresses) (start : Span) (type : TypeRef) :
    Reads (bracketCreator D start type) := by
  refine .acceptBind ?_ ?_
  · refine (Reads.expect _).moves.bind fun _ => (expressionsBefore_moves hD _).bind fun _ => ?_
    exact (Reads.expect _).moves.bind fun _ => (Moves.spanFrom _).bind fun _ => Moves.pure _
  · refine hD.assignment.bind fun _ => (Reads.expect _).moves.bind fun _ => ?_
    exact (Moves.spanFrom _).bind fun _ => Moves.pure _

theorem creator_reads (hD : D.Progresses) (start : Span) : Reads (creator D start) := by
  refine (elementType_reads hD.typeRef).bind fun type => (Moves.isAt _).bind fun _ => .ite ?_ ?_
  · refine (arguments_reads hD).moves.bind fun _ => (Moves.spanFrom _).bind fun _ => Moves.pure _
  · refine .acceptBind (bracketCreator_reads hD start type).moves ?_
    exact .acceptBind (braceCreator_reads hD start type).moves (.fail _ rfl)

theorem wordOrCall_readsFrom (hD : D.Progresses) (word : Ident) (alone : Expr)
    (inside : c.current.isEnd = false) : ReadsFrom c (fun _ => True) (wordOrCall D word alone) := by
  refine .advance inside fun _ => (Moves.isAt _).bind fun _ => .ite ?_ (Moves.pure _)
  exact (arguments_reads hD).moves.bind fun _ => (Moves.spanFrom _).bind fun _ => Moves.pure _

theorem primary_reads (hD : D.Progresses) : Reads (primary D) := by
  refine .currentBind fun c => ?_
  dsimp only
  split
  · next value literal =>
    have inside : c.current.isEnd = false :=
      Token.isEnd_of_holds (fun k => (literalOf? k).isSome) (by rw [literal]; rfl) rfl
    exact .advance inside fun _ => Moves.pure _
  · split
    · next h => exact wordOrCall_readsFrom hD _ _ (isEnd_of_kind h nofun)
    · next h => exact wordOrCall_readsFrom hD _ _ (isEnd_of_kind h nofun)
    · next h => exact .advance (isEnd_of_kind h nofun) fun _ => (creator_reads hD _).moves
    · next h => exact .advance (isEnd_of_kind h nofun) fun _ => Moves.pure _
    · exact .of ((parenthesized_reads hD).bind fun _ => (Moves.spanFrom _).bind fun _ => Moves.pure _)
    · next h => exact wordOrCall_readsFrom hD _ _ (isEnd_of_kind h nofun)
    · exact .of (.fail _ rfl)

/-! ## Chains and operators -/

theorem postfixStep_reads (hD : D.Progresses) (operand : Expr) :
    ReadsIf Turn.IsAgain (postfixStep D operand) := by
  refine .acceptBind ?_ (.acceptBind ?_ ?_)
  · refine memberName_reads.moves.bind fun _ => (Moves.isAt _).bind fun _ => .ite ?_ (Moves.pure _)
    exact (arguments_reads hD).moves.bind fun _ => (Moves.spanFrom _).bind fun _ => Moves.pure _
  · refine hD.assignment.moves.bind fun _ => (Reads.expect _).moves.bind fun _ => ?_
    exact (Moves.spanFrom _).bind fun _ => Moves.pure _
  · refine Moves.kind.bind fun _ => ?_
    split
    · exact Moves.advance.bind fun _ => (Moves.spanFrom _).bind fun _ => .done _
    · exact .done _

theorem postfixChain_reads (hD : D.Progresses) : Reads (postfixChain D) :=
  (primary_reads hD).bind fun first => .iterate (postfixStep_reads hD) first

theorem unary_reads (hD : D.Progresses) : Reads (unary D) := by
  refine Moves.here.bind fun _ => Moves.kind.bind fun _ => ?_
  dsimp only
  split
  · exact Moves.advance.bind fun _ => hD.unary.bind fun _ => Moves.pure _
  · exact Moves.advance.bind fun _ => hD.unary.bind fun _ => Moves.pure _
  · refine Moves.get.bind fun _ => .ite ?_ (postfixChain_reads hD)
    refine (Reads.expect _).bind fun _ => (typeRef_reads hD.typeRef).moves.bind fun _ => ?_
    exact (Reads.expect _).moves.bind fun _ => hD.unary.moves.bind fun _ => Moves.pure _

/-- The token that a binary operator starts with is no end, and the operator has tokens. -/
theorem inside_of_binaryAhead? {level : BinaryLevel} {op : BinaryOp} {n : Nat}
    (h : binaryAhead? level c = some (op, n)) : 0 < n ∧ c.current.isEnd = false := by
  obtain ⟨kinds, rfl⟩ := operatorAhead?_kinds (binaryAhead?_some h)
  refine ⟨?_, isEnd_of_kindsAhead kinds⟩
  cases op <;> decide

theorem binaryStep_reads (hD : D.Progresses) (level : BinaryLevel) {operand : Parser Expr}
    (h : Reads operand) (left : Expr) :
    ReadsIf Turn.IsAgain (binaryStep D level operand left) := by
  refine Moves.kind.bind fun _ => .ite ?_ (.getBind fun c => ?_)
  · exact Moves.advance.bind fun _ => (typeRef_reads hD.typeRef).bind fun _ => Moves.pure _
  · split
    · next op count ahead =>
      obtain ⟨some, inside⟩ := inside_of_binaryAhead? ahead
      exact .skip some inside fun _ => h.moves.bind fun _ => Moves.pure _
    · exact .of (.done _)

theorem binaryChain_reads (hD : D.Progresses) (levels : List BinaryLevel) :
    Reads (binaryChain D levels) := by
  induction levels with
  | nil => exact unary_reads hD
  | cons level tighter ih => exact ih.bind fun first => .iterate (binaryStep_reads hD level ih) first

theorem ternary_reads (hD : D.Progresses) : Reads (ternary D) := by
  refine (binaryChain_reads hD _).bind fun _ => .acceptBind ?_ (Moves.pure _)
  refine hD.assignment.moves.bind fun _ => (Reads.expect _).moves.bind fun _ => ?_
  exact hD.ternary.moves.bind fun _ => Moves.pure _

theorem assignment_reads (hD : D.Progresses) : Reads (assignment D) := by
  refine (ternary_reads hD).bind fun _ => Moves.get.bind fun _ => ?_
  split
  · exact (Moves.skip _).bind fun _ => hD.assignment.moves.bind fun _ => Moves.pure _
  · exact Moves.pure _

end Apex.Grammar
