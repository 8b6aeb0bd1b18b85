import Apex.Proofs.Progress.Expressions

/-!
# Statements make progress

Blocks and statements are read token by token, given that the constructs one level down are.
-/

namespace Apex.Grammar

open Apex.Parser

variable {D : Deeper} {c : Cursor}

/-! ## Blocks and variables -/

theorem blockItem_reads (hD : D.Progresses) : Reads (blockItem D) :=
  Moves.get.bind fun _ => Moves.check (.fail _ rfl) hD.statement

theorem block_reads (hD : D.Progresses) : Reads (block D) := by
  refine (Reads.expect _).bind fun _ => (itemsUntil_moves _ (blockItem_reads hD)).bind fun _ => ?_
  exact (Reads.expect _).moves.bind fun _ => (Moves.spanFrom _).bind fun _ => Moves.pure _

theorem declaratorFrom_moves (hD : D.Progresses) (name : Ident) : Moves (declaratorFrom D name) := by
  refine (ReadsIf.accept _).moves.bind fun _ => ?_
  refine Moves.iteBind (hD.assignment.map fun _ => False.elim) (Moves.pure _) fun _ => ?_
  exact (Moves.spanFrom _).bind fun _ => Moves.pure _

theorem declarator_reads (hD : D.Progresses) : Reads (declarator D) :=
  identifier_reads.bind fun name => declaratorFrom_moves hD name

theorem declarators_moves (hD : D.Progresses) (first : Ident) : Moves (declarators D first) :=
  (declaratorFrom_moves hD first).bind fun _ =>
    commaSeparatedFrom_moves _ (declarator_reads hD).moves

theorem localVariables_reads (hD : D.Progresses) : Reads (localVariables D) := by
  refine modifiers_moves.bind fun _ => (typeRef_reads hD.typeRef).bind fun _ => ?_
  exact identifier_reads.moves.bind fun name => (declarators_moves hD name).bind fun _ => Moves.pure _

theorem localVariablesAhead_moves (hD : D.Progresses) : Moves (localVariablesAhead D) := by
  refine Moves.kind.bind fun _ => ?_
  split
  · exact Moves.pure _
  · exact hD.ahead _
  · exact Moves.pure _

/-! ## Conditions and loops -/

theorem ifLink_reads (hD : D.Progresses) (start : Span) : Reads (ifLink D start) :=
  (parenthesized_reads hD).bind fun _ => hD.statement.moves.bind fun _ => Moves.pure _

theorem IfLink.statement_moves (link : IfLink) (otherwise : Option Statement) :
    Moves (link.statement otherwise) := by
  refine (Moves.spanFrom _).bind fun _ => ?_
  split
  · exact Moves.pure _
  · exact Moves.pure _

theorem linkUp_moves (links : List IfLink) (otherwise : Option Statement) :
    Moves (linkUp links otherwise) := by
  induction links generalizing otherwise with
  | nil => exact Moves.pure _
  | cons link earlier ih => exact (IfLink.statement_moves link otherwise).bind fun _ => ih _

theorem elseStep_reads (hD : D.Progresses) (links : List IfLink) :
    ReadsIf Turn.IsAgain (elseStep D links) := by
  refine .acceptBind ((Moves.isAt _).bind fun _ => .ite ?_ ?_) (.done _)
  · exact Moves.next.bind fun _ => (ifLink_reads hD _).moves.bind fun _ => Moves.pure _
  · exact hD.statement.moves.bind fun _ => Moves.pure _

theorem ifStatement_reads (hD : D.Progresses) : Reads (ifStatement D) := by
  refine (Reads.expect _).bind fun _ => (ifLink_reads hD _).moves.bind fun first => ?_
  refine (Moves.iterate (elseStep_reads hD) []).bind fun _ => ?_
  exact (linkUp_moves _ _).bind fun _ => IfLink.statement_moves first _

theorem whileStatement_reads (hD : D.Progresses) : Reads (whileStatement D) := by
  refine (Reads.expect _).bind fun _ => (parenthesized_reads hD).moves.bind fun _ => ?_
  exact hD.statement.moves.bind fun _ => (Moves.spanFrom _).bind fun _ => Moves.pure _

/-- A semicolon and the span up to it close a statement. -/
theorem closed_moves (start : Span) (make : Span → Statement) :
    Moves (do
      let _ ← expect (.punctuation .semicolon)
      return make (← spanFrom start) : Parser Statement) :=
  (Reads.expect _).moves.bind fun _ => (Moves.spanFrom _).bind fun _ => Moves.pure _

theorem doStatement_reads (hD : D.Progresses) : Reads (doStatement D) := by
  refine (Reads.expect _).bind fun _ => (block_reads hD).moves.bind fun _ => ?_
  refine (Reads.expect _).moves.bind fun _ => (parenthesized_reads hD).moves.bind fun _ => ?_
  exact closed_moves _ _

theorem forEachRest_reads (hD : D.Progresses) (start : Span) : Reads (forEachRest D start) := by
  refine modifiers_moves.bind fun _ => (typeRef_reads hD.typeRef).bind fun _ => ?_
  refine identifier_reads.moves.bind fun _ => (Reads.expect _).moves.bind fun _ => ?_
  refine hD.assignment.moves.bind fun _ => (Reads.expect _).moves.bind fun _ => ?_
  exact hD.statement.moves.bind fun _ => (Moves.spanFrom _).bind fun _ => Moves.pure _

theorem forInit_moves (hD : D.Progresses) : Moves (forInit D) := by
  refine (Moves.isAt _).bind fun _ => .ite (Moves.pure _) ?_
  refine (localVariablesAhead_moves hD).bind fun _ => .ite ?_ ?_
  · refine Moves.here.bind fun _ => (localVariables_reads hD).moves.bind fun _ => ?_
    exact (Moves.spanFrom _).bind fun _ => Moves.pure _
  · exact (expressions_reads hD).moves.bind fun _ => Moves.pure _

theorem forLoopRest_reads (hD : D.Progresses) (start : Span) : Reads (forLoopRest D start) := by
  refine (forInit_moves hD).bind fun _ => (Reads.expect _).bind fun _ => ?_
  refine (optionalExpression_moves hD).bind fun _ => (Reads.expect _).moves.bind fun _ => ?_
  refine (expressionsBefore_moves hD _).bind fun _ => (Reads.expect _).moves.bind fun _ => ?_
  exact hD.statement.moves.bind fun _ => (Moves.spanFrom _).bind fun _ => Moves.pure _

theorem forStatement_reads (hD : D.Progresses) : Reads (forStatement D) := by
  refine (Reads.expect _).bind fun _ => (Reads.expect _).moves.bind fun _ => ?_
  refine (hD.ahead _).bind fun _ => ?_
  exact .ite (forEachRest_reads hD _).moves (forLoopRest_reads hD _).moves

/-! ## Exceptions -/

theorem catchClause?_reads (hD : D.Progresses) :
    ReadsIf (fun found => found.isSome = true) (catchClause? D) := by
  refine Moves.here.bind fun _ => .acceptBind ?_ (.pure _ nofun)
  refine (Reads.expect _).moves.bind fun _ => modifiers_moves.bind fun _ => ?_
  refine (typeRef_reads hD.typeRef).moves.bind fun _ => identifier_reads.moves.bind fun _ => ?_
  refine (Reads.expect _).moves.bind fun _ => (block_reads hD).moves.bind fun _ => ?_
  exact (Moves.spanFrom _).bind fun _ => Moves.pure _

theorem tryStatement_reads (hD : D.Progresses) : Reads (tryStatement D) := by
  refine (Reads.expect _).bind fun _ => (block_reads hD).moves.bind fun _ => ?_
  refine (itemsWhile_moves (catchClause?_reads hD)).bind fun _ => .acceptBind ?_ ?_
  · refine (block_reads hD).moves.bind fun _ => (Moves.spanFrom _).bind fun _ => Moves.pure _
  · exact Moves.check (.fail _ rfl) ((Moves.spanFrom _).bind fun _ => Moves.pure _)

/-! ## Simple statements -/

theorem returnStatement_reads (hD : D.Progresses) : Reads (returnStatement D) :=
  (Reads.expect _).bind fun _ => (optionalExpression_moves hD).bind fun _ => closed_moves _ _

theorem throwStatement_reads (hD : D.Progresses) : Reads (throwStatement D) :=
  (Reads.expect _).bind fun _ => hD.assignment.moves.bind fun _ => closed_moves _ _

theorem keywordStatement_reads (k : Keyword) (make : Span → Statement) :
    Reads (keywordStatement k make) :=
  (Reads.expect _).bind fun _ => closed_moves _ make

theorem dmlStatement_reads (hD : D.Progresses) (k : Keyword) (op : DmlOp) :
    Reads (dmlStatement D k op) :=
  (Reads.expect _).bind fun _ => hD.assignment.moves.bind fun _ => closed_moves _ _

theorem upsertStatement_reads (hD : D.Progresses) : Reads (upsertStatement D) := by
  refine (Reads.expect _).bind fun _ => hD.assignment.moves.bind fun _ => ?_
  refine (Moves.isAt _).bind fun _ => ?_
  refine Moves.iteBind (Moves.pure _) (qualifiedName_reads.map fun _ => False.elim) fun _ => ?_
  exact closed_moves _ _

theorem mergeStatement_reads (hD : D.Progresses) : Reads (mergeStatement D) := by
  refine (Reads.expect _).bind fun _ => hD.assignment.moves.bind fun _ => ?_
  exact hD.assignment.moves.bind fun _ => closed_moves _ _

theorem runAsStatement_reads (hD : D.Progresses) : Reads (runAsStatement D) := by
  refine (Reads.expectWord _).bind fun _ => (Reads.expect _).moves.bind fun _ => ?_
  refine (Reads.expectWord _).moves.bind fun _ => (parenthesized_reads hD).moves.bind fun _ => ?_
  exact (block_reads hD).moves.bind fun _ => (Moves.spanFrom _).bind fun _ => Moves.pure _

theorem variablesStatement_reads (hD : D.Progresses) : Reads (variablesStatement D) :=
  Moves.here.bind fun _ => (localVariables_reads hD).bind fun _ => closed_moves _ _

theorem expressionStatement_reads (hD : D.Progresses) : Reads (expressionStatement D) :=
  Moves.here.bind fun _ => hD.assignment.bind fun _ => closed_moves _ _

theorem plainStatement_reads (hD : D.Progresses) : Reads (plainStatement D) := by
  refine (Moves.isAt _).bind fun _ => .ite ?_ (.isAtBind fun c => .ite (fun semicolon => ?_) fun _ => ?_)
  · exact (block_reads hD).bind fun _ => Moves.pure _
  · exact .next (isEnd_of_kind (by simpa using semicolon) (by simp)) fun _ => Moves.pure _
  · refine .of (Moves.get.bind fun _ => .ite (runAsStatement_reads hD) ?_)
    refine (localVariablesAhead_moves hD).bind fun _ => ?_
    exact .ite (variablesStatement_reads hD) (expressionStatement_reads hD)

theorem statement_reads (hD : D.Progresses) : Reads (statement D) := by
  refine Moves.kind.bind fun _ => ?_
  split
  · exact ifStatement_reads hD
  · exact whileStatement_reads hD
  · exact doStatement_reads hD
  · exact forStatement_reads hD
  · exact tryStatement_reads hD
  · exact returnStatement_reads hD
  · exact throwStatement_reads hD
  · exact keywordStatement_reads _ _
  · exact keywordStatement_reads _ _
  · exact dmlStatement_reads hD _ _
  · exact dmlStatement_reads hD _ _
  · exact dmlStatement_reads hD _ _
  · exact dmlStatement_reads hD _ _
  · exact upsertStatement_reads hD
  · exact mergeStatement_reads hD
  · exact plainStatement_reads hD

end Apex.Grammar
