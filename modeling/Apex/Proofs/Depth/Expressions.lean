import Apex.Proofs.Depth.Types
import Apex.Proofs.Spans.Expressions

/-!
# The depth of expressions

A chain of operators or of postfix operations goes on at its own level, however long it is. What
stands in parentheses, brackets or braces, behind a prefix operator, an assignment or a question
mark comes from the level below.
-/

namespace Apex

open Node

variable {limit i : Nat} {parent : Element}

@[simp] theorem isExpression_node (e : Expr) : e.node.element.isExpression = true := by
  cases e <;> rfl

@[simp] theorem deepens_expr (e : Expr) (child : Element) :
    (Element.expr e).deepens i child = (child.isExpression && decide (e.chained ≤ i)) := rfl

@[simp] theorem isExpression_type (t : TypeRef) : (Element.type t).isExpression = false := rfl

@[simp] theorem isExpression_identifier (text : String) :
    (Element.identifier text).isExpression = false := rfl

/-- Expressions from the level below fit wherever they stand. -/
theorem allFit_expressions {es : List Expr} (h : ∀ e ∈ es, e.node.FitsBelow limit) :
    AllFit limit parent i (Expr.nodes es) := by
  rw [Expr.nodes_eq_map]
  exact allFit_map fun e he i => (h e he).fitsBehind _

namespace Grammar

open Apex.Parser

variable {D : Deeper}

/-! ## Primaries -/

theorem expressions_fits (hD : D.Fits limit) :
    (commaSeparated D.assignment).Yields fun es => ∀ e ∈ es, e.node.FitsBelow limit :=
  (commaSeparated_yields hD.assignment).mono fun _ h => h.2

theorem expressionsBefore_fits (hD : D.Fits limit) (close : Punctuation) :
    (expressionsBefore D close).Yields fun es => ∀ e ∈ es, e.node.FitsBelow limit := by
  intro c es c' h
  rcases expressionsBefore_ok.mp h with ⟨_, done⟩ | ⟨_, run⟩
  · cases done
    exact fun _ he => nomatch he
  · exact expressions_fits hD run

theorem optionalExpression_fits (hD : D.Fits limit) :
    (optionalExpression D).Yields fun e => ∀ a ∈ e, a.node.FitsBelow limit := by
  intro c e c' h
  rcases optionalExpression_ok.mp h with ⟨_, done⟩ | ⟨_, value, _, run, done⟩
  · cases done
    exact nofun
  · cases done
    intro a ha
    cases ha
    exact hD.assignment run

theorem arguments_fits (hD : D.Fits limit) :
    (arguments D).Yields fun es => ∀ e ∈ es, e.node.FitsBelow limit := by
  intro c es c' h
  obtain ⟨_, _, _, run, _, done⟩ := arguments_ok.mp h
  cases done
  exact expressionsBefore_fits hD _ run

theorem parenthesized_fits (hD : D.Fits limit) :
    (parenthesized D).Yields (·.node.FitsBelow limit) := by
  intro c e c' h
  obtain ⟨_, _, _, run, _, done⟩ := parenthesized_ok.mp h
  cases done
  exact hD.assignment run

theorem entryValue_fits (hD : D.Fits limit) : (entryValue D).Yields (·.node.FitsBelow limit) :=
  fun _ _ _ h => hD.assignment (entryValue_ok.mp h).2

theorem fits_entry {key value : Expr} (hk : key.node.FitsBelow limit)
    (hv : value.node.FitsBelow limit) : (Expr.entryNode (key, value)).FitsIn limit :=
  fitsIn_mk ⟨hk.fitsBehind _, hv.fitsBehind _, trivial⟩

theorem mapEntry_fits (hD : D.Fits limit) :
    (mapEntry D).Yields fun entry => (Expr.entryNode entry).FitsIn limit := by
  intro c entry c' h
  obtain ⟨key, _, value, _, first, run, done⟩ := mapEntry_ok.mp h
  cases done
  exact fits_entry (hD.assignment first) (entryValue_fits hD run)

/-- What `new` makes fits if its type does and its parts stay below the limit. -/
theorem fits_made {e : Expr} {type : TypeRef} {es : List Expr} {span : Span}
    (ht : type.node.FitsIn limit) (he : ∀ e ∈ es, e.node.FitsBelow limit) :
    (Node.mk (.expr e) span (type.node :: Expr.nodes es)).FitsIn limit :=
  fitsIn_mk ⟨by simpa using ht, allFit_expressions he⟩

theorem fits_newMap {type : TypeRef} {entries : List (Expr × Expr)} {span : Span}
    (ht : type.node.FitsIn limit) (he : ∀ e ∈ entries, (Expr.entryNode e).FitsIn limit) :
    (Expr.newMap span type entries).node.FitsIn limit := by
  refine fitsIn_mk ⟨by simpa using ht, ?_⟩
  rw [Expr.entryNodes_eq_map]
  exact allFit_map fun e mem i => fitsBehind_false.mpr (he e mem)

section Creators

variable {start : Span} {type : TypeRef} (ht : type.node.FitsIn limit)

include ht

theorem braceCreator_fits (hD : D.Fits limit) :
    (braceCreator D start type).Yields (·.node.FitsIn limit) := by
  intro c e c' h
  rcases braceCreator_ok.mp h with ⟨_, done⟩ | ⟨_, head, _, run, rest⟩
  · split at done
    · cases done
      exact fits_newMap ht nofun
    · cases done
      exact fits_made ht nofun
  · have hh := hD.assignment run
    rcases rest with
      ⟨_, value, _, entries, _, arrow, run, _, done⟩ | ⟨_, elements, _, run, _, done⟩
    · cases done
      have first := fits_entry hh (entryValue_fits hD arrow)
      exact fits_newMap ht (commaSeparatedFrom_yields (mapEntry_fits hD) first run).2
    · cases done
      exact fits_made ht (commaSeparatedFrom_yields hD.assignment hh run).2

theorem bracketCreator_fits (hD : D.Fits limit) :
    (bracketCreator D start type).Yields (·.node.FitsIn limit) := by
  intro c e c' h
  rcases bracketCreator_ok.mp h with
    ⟨_, _, elements, _, run, _, done⟩ | ⟨_, size, _, run, _, done⟩
  · cases done
    exact fits_made ht (expressionsBefore_fits hD _ run)
  · cases done
    exact fits_made ht (List.forall_mem_singleton.mpr (hD.assignment run))

end Creators

theorem creator_fits (hD : D.Fits limit) {start : Span} :
    (creator D start).Yields (·.node.FitsIn limit) := by
  intro c e c' h
  obtain ⟨type, _, run, rest⟩ := creator_ok.mp h
  have ht : type.node.FitsIn limit := by
    have arguments := elementType_fits hD.typeRef run
    cases type
    exact fits_type arguments
  rcases rest with ⟨_, args, _, run, done⟩ | ⟨_, run⟩ | ⟨_, run⟩
  · cases done
    exact fits_made ht (arguments_fits hD run)
  · exact bracketCreator_fits ht hD run
  · exact braceCreator_fits ht hD run

theorem wordAlone?_fits {t : Token} {found : String × Expr} (h : wordAlone? t = some found) :
    found.2.node.FitsIn limit := by
  unfold wordAlone? at h
  split at h
  · cases h
    exact fitsIn_leaf
  · cases h
    exact fitsIn_leaf
  · cases h
    exact fitsIn_leaf
  · cases h

theorem primary_fits (hD : D.Fits limit) : (primary D).Yields (·.node.FitsIn limit) := by
  intro c e c' h
  rcases primary_ok.mp h with ⟨value, _, done⟩ | ⟨found, word, run⟩ | ⟨_, run⟩ | ⟨_, done⟩ |
    ⟨_, inner, _, run, done⟩
  · cases done
    exact fitsIn_leaf
  · rcases wordOrCall_ok.mp run with ⟨_, args, _, called, done⟩ | ⟨_, done⟩
    · cases done
      exact fitsIn_mk ⟨by simp, allFit_expressions (arguments_fits hD called)⟩
    · cases done
      exact wordAlone?_fits word
  · exact creator_fits hD run
  · cases done
    exact fitsIn_leaf
  · cases done
    exact fitsIn_mk ⟨(parenthesized_fits hD run).fitsBehind _, trivial⟩

/-! ## Chains and operators -/

/-- What a step of a chain goes on with, or ends with. -/
def TurnFits (limit : Nat) : Turn Expr Expr → Prop
  | .again e => e.node.FitsIn limit
  | .done e => e.node.FitsIn limit

theorem postfixStep_fits (hD : D.Fits limit) {operand : Expr} (ho : operand.node.FitsIn limit) :
    (postfixStep D operand).Yields (TurnFits limit) := by
  intro c turn c' h
  rcases postfixStep_ok.mp h with ⟨_, part, _, _, rest⟩ | ⟨_, position, _, run, _, done⟩ |
    ⟨op, _, done⟩ | ⟨_, _, _, done⟩
  · rcases rest with ⟨_, args, _, run, done⟩ | ⟨_, done⟩
    · cases done
      exact fitsIn_mk ⟨by simpa [Expr.chained] using ho, by simp,
        allFit_expressions (arguments_fits hD run)⟩
    · cases done
      exact fitsIn_mk ⟨by simpa [Expr.chained] using ho, by simp, trivial⟩
  · cases done
    exact fitsIn_mk ⟨by simpa [Expr.chained] using ho, (hD.assignment run).fitsBehind _, trivial⟩
  · cases done
    exact fitsIn_mk ⟨by simpa [Expr.chained] using ho, trivial⟩
  · cases done
    exact ho

theorem postfixChain_fits (hD : D.Fits limit) : (postfixChain D).Yields (·.node.FitsIn limit) := by
  intro c e c' h
  obtain ⟨first, _, run, loop⟩ := postfixChain_ok.mp h
  exact yields_of_iterates (I := fun e : Expr => e.node.FitsIn limit)
    (Q := fun e : Expr => e.node.FitsIn limit) (iterates_of_iterate loop)
    (fun ho run => postfixStep_fits hD ho run) (fun ho run => postfixStep_fits hD ho run)
    (primary_fits hD run)

theorem unary_fits (hD : D.Fits limit) : (unary D).Yields (·.node.FitsIn limit) := by
  intro c e c' h
  rcases unary_ok.mp h with ⟨op, _, operand, _, run, done⟩ | ⟨op, _, operand, _, run, done⟩ |
    ⟨_, type, _, run, _, operand, _, run', done⟩ | ⟨_, _, _, run⟩
  · cases done
    exact fitsIn_mk ⟨(hD.unary run).fitsBehind _, trivial⟩
  · cases done
    exact fitsIn_mk ⟨(hD.unary run).fitsBehind _, trivial⟩
  · cases done
    have ht := typeRef_fits hD.typeRef run
    exact fitsIn_mk ⟨by simpa using ht, (hD.unary run').fitsBehind _, trivial⟩
  · exact postfixChain_fits hD run

/-- A step of a chain of operators keeps its operands at the level of the chain. -/
theorem binaryStep_fits (hD : D.Fits limit) {level : BinaryLevel} {operand : Parser Expr}
    (ho : operand.Yields (·.node.FitsIn limit)) {left : Expr} (hl : left.node.FitsIn limit) :
    (binaryStep D level operand left).Yields (TurnFits limit) := by
  intro c turn c' h
  rcases binaryStep_ok.mp h with ⟨rfl, _, type, _, run, done⟩ | ⟨found, ahead, right, _, run, done⟩ |
    ⟨_, _, done⟩
  · cases done
    have ht := typeRef_fits hD.typeRef run
    exact fitsIn_mk ⟨by simpa [Expr.chained] using hl, by simpa using ht, trivial⟩
  · cases done
    exact fitsIn_mk ⟨by simpa [Expr.chained] using hl, by simpa [Expr.chained] using ho run, trivial⟩
  · cases done
    exact hl

/-- Induction on the levels: the operands of one level are what the next one reads. -/
theorem binaryChain_fits (hD : D.Fits limit) (levels : List BinaryLevel) :
    (binaryChain D levels).Yields (·.node.FitsIn limit) := by
  induction levels with
  | nil => exact unary_fits hD
  | cons level tighter ih =>
    intro c e c' run
    obtain ⟨first, _, run, loop⟩ := binaryChain_ok.mp run
    exact yields_of_iterates (I := fun e : Expr => e.node.FitsIn limit)
      (Q := fun e : Expr => e.node.FitsIn limit) (iterates_of_iterate loop)
      (fun hl run => binaryStep_fits hD ih hl run) (fun hl run => binaryStep_fits hD ih hl run)
      (ih run)

theorem ternary_fits (hD : D.Fits limit) : (ternary D).Yields (·.node.FitsIn limit) := by
  intro c e c' h
  obtain ⟨condition, _, run, rest⟩ := ternary_ok.mp h
  have hc := binaryChain_fits hD _ run
  rcases rest with ⟨_, yes, _, runYes, _, no, _, runNo, done⟩ | ⟨_, done⟩
  · cases done
    exact fitsIn_mk ⟨by simpa [Expr.chained] using hc, (hD.assignment runYes).fitsBehind _,
      (hD.ternary runNo).fitsBehind _, trivial⟩
  · cases done
    exact hc

theorem assignment_fits (hD : D.Fits limit) : (assignment D).Yields (·.node.FitsIn limit) := by
  intro c e c' h
  obtain ⟨target, _, run, rest⟩ := assignment_ok.mp h
  have ht := ternary_fits hD run
  rcases rest with ⟨found, _, value, _, run, done⟩ | ⟨_, done⟩
  · cases done
    exact fitsIn_mk ⟨by simpa [Expr.chained] using ht, (hD.assignment run).fitsBehind _, trivial⟩
  · cases done
    exact ht

end Grammar

end Apex
