import Apex.Proofs.Shape.Types
import Apex.Proofs.Spans.Expressions

/-!
# The shape of expressions

Each level of the grammar reads expressions that bind at least as tightly as the level. A chain of
one level takes its operands from the next level, whose operators bind more tightly, so no operand
binds more loosely than its operator lets it.
-/

namespace Apex

open Node

/-- How tightly the operators of a level bind. -/
def BinaryLevel.binding : BinaryLevel → Nat
  | .logicalOr => 30
  | .logicalAnd => 40
  | .bitwiseOr => 50
  | .bitwiseXor => 60
  | .bitwiseAnd => 70
  | .equality => 80
  | .comparison => 90
  | .shift => 100
  | .additive => 110
  | .multiplicative => 120

/-- The register of operators and the levels of the grammar agree. -/
theorem BinaryOp.precedence_eq (op : BinaryOp) : op.operator.precedence = op.level.binding := by
  cases op <;> rfl

namespace Grammar

open Apex.Parser

variable {D : Deeper}

/-- An expression whose node is sound and that binds at least so tightly. -/
abbrev BindsFrom (floor : Nat) (e : Expr) : Prop := e.node.IsSound ∧ floor ≤ e.binding

/-! ## Primaries -/

theorem expressions_yields (hD : D.Sound) :
    (commaSeparated D.assignment).Yields fun es => ∀ e ∈ es, e.node.IsSound :=
  (commaSeparated_yields hD.assignment).mono fun _ h => h.2

theorem expressionsBefore_yields (hD : D.Sound) (close : Punctuation) :
    (expressionsBefore D close).Yields fun es => ∀ e ∈ es, e.node.IsSound := by
  intro c es c' h
  rcases expressionsBefore_ok.mp h with ⟨_, done⟩ | ⟨_, run⟩
  · cases done
    exact fun _ he => nomatch he
  · exact expressions_yields hD run

theorem optionalExpression_yields (hD : D.Sound) :
    (optionalExpression D).Yields fun e => ∀ a ∈ e, a.node.IsSound := by
  intro c e c' h
  rcases optionalExpression_ok.mp h with ⟨_, done⟩ | ⟨_, value, _, run, done⟩
  · cases done
    exact nofun
  · cases done
    intro a ha
    cases ha
    exact hD.assignment run

theorem arguments_yields (hD : D.Sound) :
    (arguments D).Yields fun es => ∀ e ∈ es, e.node.IsSound := by
  intro c es c' h
  obtain ⟨_, _, _, run, _, done⟩ := arguments_ok.mp h
  cases done
  exact expressionsBefore_yields hD _ run

theorem parenthesized_yields (hD : D.Sound) : (parenthesized D).Yields (·.node.IsSound) := by
  intro c e c' h
  obtain ⟨_, _, _, run, _, done⟩ := parenthesized_ok.mp h
  cases done
  exact hD.assignment run

theorem entryValue_yields (hD : D.Sound) : (entryValue D).Yields (·.node.IsSound) :=
  fun _ _ _ h => hD.assignment (entryValue_ok.mp h).2

theorem isSound_entry {key value : Expr} (hk : key.node.IsSound) (hv : value.node.IsSound) :
    (Expr.entryNode (key, value)).IsSound :=
  .mk trivial (by simpa using ⟨hk, hv⟩)

theorem mapEntry_yields (hD : D.Sound) :
    (mapEntry D).Yields fun entry => (Expr.entryNode entry).IsSound := by
  intro c entry c' h
  obtain ⟨key, _, value, _, first, run, done⟩ := mapEntry_ok.mp h
  cases done
  exact isSound_entry (hD.assignment first) (entryValue_yields hD run)

/-- The node of what `new` makes is sound if its parts are and the type fits. -/
theorem isSound_made {e : Expr} {type : TypeRef} {ns : List Node} {span : Span}
    (grouped : e.IsGrouped) (made : e.IsMade) (ht : type.node.IsSound) (hn : AllSound ns) :
    (Node.mk (.expr e) span (type.node :: ns)).IsSound :=
  .mk ⟨grouped, made⟩ (allSound_cons.mpr ⟨ht, hn⟩)

section Creators

variable {start : Span} {type : TypeRef} (ht : type.node.IsSound) (plain : type.dimensions = 0)

include ht plain

theorem braceCreator_yields (hD : D.Sound) :
    (braceCreator D start type).Yields (BindsFrom Binding.whole) := by
  intro c e c' h
  rcases braceCreator_ok.mp h with ⟨_, done⟩ | ⟨_, head, _, run, rest⟩
  · split at done
    · next map =>
      cases done
      exact ⟨isSound_made trivial ⟨plain, fun _ => map⟩ ht allSound_nil, Nat.le_refl _⟩
    · next other =>
      cases done
      exact ⟨isSound_made trivial ⟨plain, fun _ => by simpa using other⟩ ht allSound_nil,
        Nat.le_refl _⟩
  · have hh := hD.assignment run
    rcases rest with
      ⟨_, value, _, entries, _, arrow, run, _, done⟩ | ⟨_, elements, _, run, _, done⟩
    · cases done
      have first := isSound_entry hh (entryValue_yields hD arrow)
      obtain ⟨some, sound⟩ := commaSeparatedFrom_yields (mapEntry_yields hD) first run
      refine ⟨isSound_made trivial ⟨plain, fun none => absurd none some⟩ ht ?_, Nat.le_refl _⟩
      rw [Expr.entryNodes_eq_map]
      exact allSound_map.mpr sound
    · cases done
      obtain ⟨some, sound⟩ := commaSeparatedFrom_yields hD.assignment hh run
      refine ⟨isSound_made trivial ⟨plain, fun none => absurd none some⟩ ht ?_, Nat.le_refl _⟩
      rw [Expr.nodes_eq_map]
      exact allSound_map.mpr sound

theorem bracketCreator_yields (hD : D.Sound) :
    (bracketCreator D start type).Yields (BindsFrom Binding.whole) := by
  intro c e c' h
  rcases bracketCreator_ok.mp h with
    ⟨_, _, elements, _, run, _, done⟩ | ⟨_, size, _, run, _, done⟩
  · cases done
    refine ⟨isSound_made trivial plain ht ?_, Nat.le_refl _⟩
    rw [Expr.nodes_eq_map]
    exact allSound_map.mpr (expressionsBefore_yields hD _ run)
  · cases done
    have sound : AllSound [size.node] := by simpa using hD.assignment run
    exact ⟨isSound_made trivial plain ht sound, Nat.le_refl _⟩

end Creators

theorem creator_yields (hD : D.Sound) {start : Span} :
    (creator D start).Yields (BindsFrom Binding.whole) := by
  intro c e c' h
  obtain ⟨type, _, run, rest⟩ := creator_ok.mp h
  obtain ⟨plain, named, sound⟩ := elementType_yields hD.typeRef run
  have ht : type.node.IsSound := by
    cases type
    exact isSound_type named sound
  rcases rest with ⟨_, args, _, run, done⟩ | ⟨_, run⟩ | ⟨_, run⟩
  · cases done
    refine ⟨isSound_made trivial plain ht ?_, Nat.le_refl _⟩
    rw [Expr.nodes_eq_map]
    exact allSound_map.mpr (arguments_yields hD run)
  · exact bracketCreator_yields ht plain hD run
  · exact braceCreator_yields ht plain hD run

theorem wordAlone?_yields {t : Token} {found : String × Expr} (h : wordAlone? t = some found) :
    BindsFrom Binding.whole found.2 := by
  have leaf : ∀ {e : Expr} {span : Span}, e.IsGrouped → e.IsMade →
      (Node.leaf (.expr e) span).IsSound := fun grouped made => isSound_leaf ⟨grouped, made⟩
  unfold wordAlone? at h
  split at h
  · cases h
    exact ⟨leaf trivial trivial, Nat.le_refl _⟩
  · cases h
    exact ⟨leaf trivial trivial, Nat.le_refl _⟩
  · cases h
    exact ⟨leaf trivial trivial, Nat.le_refl _⟩
  · cases h

/-- A call of a name is sound if its arguments are. -/
theorem isSound_call {span : Span} {callee : Ident} {args : List Expr}
    (h : ∀ e ∈ args, e.node.IsSound) : (Expr.call span callee args).node.IsSound := by
  refine .mk ⟨trivial, trivial⟩ ?_
  rw [Expr.nodes_eq_map]
  exact allSound_cons.mpr ⟨isSound_leaf trivial, allSound_map.mpr h⟩

theorem primary_yields (hD : D.Sound) : (primary D).Yields (BindsFrom Binding.whole) := by
  intro c e c' h
  rcases primary_ok.mp h with ⟨value, _, done⟩ | ⟨found, word, run⟩ | ⟨_, run⟩ | ⟨_, done⟩ |
    ⟨_, inner, _, run, done⟩
  · cases done
    exact ⟨isSound_leaf trivial, Nat.le_refl _⟩
  · rcases wordOrCall_ok.mp run with ⟨_, args, _, called, done⟩ | ⟨_, done⟩
    · cases done
      exact ⟨isSound_call (arguments_yields hD called), Nat.le_refl _⟩
    · cases done
      exact wordAlone?_yields word
  · exact creator_yields hD run
  · cases done
    exact ⟨isSound_leaf ⟨trivial, trivial⟩, Nat.le_refl _⟩
  · cases done
    exact ⟨.mk ⟨trivial, trivial⟩ (by simpa using parenthesized_yields hD run), Nat.le_refl _⟩

/-! ## Chains and operators -/

/-- What a step of a postfix chain goes on with is whole; what it ends with may be a step of a
variable. -/
theorem postfixStep_yields (hD : D.Sound) {operand : Expr} (ho : BindsFrom Binding.whole operand) :
    (postfixStep D operand).Yields fun
      | .again e => BindsFrom Binding.whole e
      | .done e => BindsFrom Binding.behind e := by
  intro c turn c' h
  rcases postfixStep_ok.mp h with ⟨_, part, _, _, rest⟩ | ⟨_, position, _, run, _, done⟩ |
    ⟨op, _, done⟩ | ⟨_, _, _, done⟩
  · rcases rest with ⟨_, args, _, run, done⟩ | ⟨_, done⟩
    · cases done
      refine ⟨.mk ⟨ho.2, trivial⟩ ?_, Nat.le_refl _⟩
      rw [Expr.nodes_eq_map]
      have sound := arguments_yields hD run
      exact allSound_cons.mpr ⟨ho.1, allSound_cons.mpr ⟨isSound_leaf trivial, allSound_map.mpr sound⟩⟩
    · cases done
      exact ⟨.mk ⟨ho.2, trivial⟩ (by simpa using ho.1), Nat.le_refl _⟩
  · cases done
    exact ⟨.mk ⟨ho.2, trivial⟩ (by simpa using ⟨ho.1, hD.assignment run⟩), Nat.le_refl _⟩
  · cases done
    exact ⟨.mk ⟨ho.2, trivial⟩ (by simpa using ho.1), Nat.le_refl _⟩
  · cases done
    exact ⟨ho.1, Nat.le_trans (by decide) ho.2⟩

theorem postfixChain_yields (hD : D.Sound) :
    (postfixChain D).Yields (BindsFrom Binding.behind) := by
  intro c e c' h
  obtain ⟨first, _, run, loop⟩ := postfixChain_ok.mp h
  exact yields_of_iterates (iterates_of_iterate loop)
    (fun ho run => postfixStep_yields hD ho run) (fun ho run => postfixStep_yields hD ho run)
    (primary_yields hD run)

theorem unary_yields (hD : D.Sound) : (unary D).Yields (BindsFrom Binding.before) := by
  intro c e c' h
  rcases unary_ok.mp h with ⟨op, _, operand, _, run, done⟩ | ⟨op, _, operand, _, run, done⟩ |
    ⟨_, type, _, run, _, operand, _, run', done⟩ | ⟨_, _, _, run⟩
  · cases done
    obtain ⟨sound, tight⟩ := hD.unary run
    exact ⟨.mk ⟨tight, trivial⟩ (by simpa using sound), Nat.le_refl _⟩
  · cases done
    obtain ⟨sound, tight⟩ := hD.unary run
    exact ⟨.mk ⟨tight, trivial⟩ (by simpa using sound), Nat.le_refl _⟩
  · cases done
    obtain ⟨sound, tight⟩ := hD.unary run'
    have ht := typeRef_yields hD.typeRef run
    exact ⟨.mk ⟨tight, trivial⟩ (by simpa using ⟨ht, sound⟩), Nat.le_refl _⟩
  · obtain ⟨sound, tight⟩ := postfixChain_yields hD run
    exact ⟨sound, Nat.le_trans (by decide) tight⟩

/-- How tightly operands of the given levels bind at least. -/
def floor : List BinaryLevel → Nat
  | [] => Binding.before
  | level :: _ => level.binding

/-- Every level binds more loosely than those behind it. -/
def Ascending : List BinaryLevel → Prop
  | [] => True
  | level :: tighter => level.binding < floor tighter ∧ Ascending tighter

theorem ascending_binaryLevels : Ascending binaryLevels := by
  simp only [binaryLevels, Ascending, floor, BinaryLevel.binding]
  decide

/-- The level of the operator that a chain of a level has found. -/
theorem level_of_binaryAhead? {level : BinaryLevel} {c : Cursor} {found : BinaryOp × Nat}
    (h : binaryAhead? level c = some found) : found.1.level = level := by
  unfold binaryAhead? at h
  split at h
  · split at h
    · split at h
      · next same =>
        cases h
        exact same
      · cases h
    · cases h
  · cases h

/-- A step of a chain keeps what binds at least as tightly as its level. -/
theorem binaryStep_yields (hD : D.Sound) {level : BinaryLevel} {tight : Nat}
    {operand : Parser Expr} (ho : operand.Yields (BindsFrom tight)) (htight : level.binding < tight)
    {left : Expr} (hl : BindsFrom level.binding left) :
    (binaryStep D level operand left).Yields fun
      | .again e => BindsFrom level.binding e
      | .done e => BindsFrom level.binding e := by
  intro c turn c' h
  rcases binaryStep_ok.mp h with ⟨rfl, _, type, _, run, done⟩ | ⟨found, ahead, right, _, run, done⟩ |
    ⟨_, _, done⟩
  · cases done
    have ht := typeRef_yields hD.typeRef run
    exact ⟨.mk ⟨hl.2, trivial⟩ (by simpa using ⟨hl.1, ht⟩), Nat.le_refl _⟩
  · cases done
    have precedence : found.1.operator.precedence = level.binding := by
      rw [found.1.precedence_eq, level_of_binaryAhead? ahead]
    obtain ⟨sound, binds⟩ := ho run
    have grouped : found.1.operator.precedence ≤ left.binding ∧
        found.1.operator.precedence < right.binding := by
      rw [precedence]
      exact ⟨hl.2, Nat.lt_of_lt_of_le htight binds⟩
    exact ⟨.mk ⟨grouped, trivial⟩ (by simpa using ⟨hl.1, sound⟩), Nat.le_of_eq precedence.symm⟩
  · cases done
    exact hl

/-- Induction on the levels: the operands of one level are what the next one reads. -/
theorem binaryChain_yields (hD : D.Sound) {levels : List BinaryLevel} (h : Ascending levels) :
    (binaryChain D levels).Yields (BindsFrom (floor levels)) := by
  induction levels with
  | nil => exact unary_yields hD
  | cons level tighter ih =>
    obtain ⟨below, ascending⟩ := h
    have operand := ih ascending
    intro c e c' run
    obtain ⟨first, _, run, loop⟩ := binaryChain_ok.mp run
    obtain ⟨sound, binds⟩ := operand run
    exact yields_of_iterates (iterates_of_iterate loop)
      (fun hl run => binaryStep_yields hD operand below hl run)
      (fun hl run => binaryStep_yields hD operand below hl run)
      ⟨sound, Nat.le_trans (Nat.le_of_lt below) binds⟩

theorem ternary_yields (hD : D.Sound) : (ternary D).Yields (BindsFrom Binding.conditional) := by
  intro c e c' h
  obtain ⟨condition, _, run, rest⟩ := ternary_ok.mp h
  obtain ⟨sound, binds⟩ := binaryChain_yields hD ascending_binaryLevels run
  have tight : Binding.conditional < condition.binding := Nat.lt_of_lt_of_le (by decide) binds
  rcases rest with ⟨_, yes, _, runYes, _, no, _, runNo, done⟩ | ⟨_, done⟩
  · cases done
    have hy := hD.assignment runYes
    obtain ⟨hn, loose⟩ := hD.ternary runNo
    exact ⟨.mk ⟨⟨tight, loose⟩, trivial⟩ (by simpa using ⟨sound, hy, hn⟩), Nat.le_refl _⟩
  · cases done
    exact ⟨sound, Nat.le_of_lt tight⟩

theorem assignment_yields (hD : D.Sound) : (assignment D).Yields (·.node.IsSound) := by
  intro c e c' h
  obtain ⟨target, _, run, rest⟩ := assignment_ok.mp h
  obtain ⟨sound, binds⟩ := ternary_yields hD run
  rcases rest with ⟨found, _, value, _, run, done⟩ | ⟨_, done⟩
  · cases done
    have tight : Operator.assignmentPrecedence < target.binding :=
      Nat.lt_of_lt_of_le (by decide) binds
    exact .mk ⟨tight, trivial⟩ (by simpa using ⟨sound, hD.assignment run⟩)
  · cases done
    exact sound

end Grammar

end Apex
