import Apex.Grammar.Expr
import Apex.Proofs.Safety.Headers

/-!
# Expressions in a family of spans

The span of an expression reaches from its first part to its last, and a query in it is one of the
tokens, so expressions are read without leaving a family of spans.
-/

namespace Apex.Grammar

open Apex.Parser (StaysIn Turn)
open Apex.Parser.StaysIn

variable {S : Span.Family} {D : Deeper}

attribute [local simp] Expr.node

/-! ## Primaries -/

theorem expressions_staysIn (hD : D.StaysIn S) :
    StaysIn S (fun es => ∀ e ∈ es, e.node.LiesIn S) (expressions D) :=
  commaSeparated hD.assignment

theorem expressionsBefore_staysIn (hD : D.StaysIn S) (close : Punctuation) :
    StaysIn S (fun es => ∀ e ∈ es, e.node.LiesIn S) (expressionsBefore D close) :=
  (isAt _).bind fun _ _ => ite (pure (List.forall_mem_nil _)) (expressions_staysIn hD)

theorem optionalExpression_staysIn (hD : D.StaysIn S) :
    StaysIn S (fun e? => ∀ e ∈ e?, e.node.LiesIn S) (optionalExpression D) := by
  refine (isAt _).bind fun _ _ => ite (pure fun _ mem => nomatch mem) ?_
  refine map hD.assignment fun e he => ?_
  simpa using he

theorem arguments_staysIn (hD : D.StaysIn S) :
    StaysIn S (fun es => ∀ e ∈ es, e.node.LiesIn S) (arguments D) := by
  refine (expect _).bind fun _ _ => (expressionsBefore_staysIn hD _).bind fun args all => ?_
  exact (expect _).bind fun _ _ => pure all

theorem parenthesized_staysIn (hD : D.StaysIn S) :
    StaysIn S (·.node.LiesIn S) (parenthesized D) := by
  refine (expect _).bind fun _ _ => hD.assignment.bind fun inner hi => ?_
  exact (expect _).bind fun _ _ => pure hi

theorem entryValue_staysIn (hD : D.StaysIn S) : StaysIn S (·.node.LiesIn S) (entryValue D) :=
  (expect _).bind fun _ _ => hD.assignment

theorem mapEntry_staysIn (hD : D.StaysIn S) :
    StaysIn S (fun entry => entry.1.node.LiesIn S ∧ entry.2.node.LiesIn S) (mapEntry D) :=
  hD.assignment.bind fun _ hk => (entryValue_staysIn hD).bind fun _ hv => pure ⟨hk, hv⟩

/-- The nodes of entries lie where keys and values do. -/
theorem liesIn_entries {entries : List (Expr × Expr)}
    (all : ∀ entry ∈ entries, entry.1.node.LiesIn S ∧ entry.2.node.LiesIn S) :
    ∀ n ∈ Expr.entryNodes entries, n.LiesIn S := by
  rw [Expr.entryNodes_eq_map, List.forall_mem_map]
  intro entry mem
  obtain ⟨hk, hv⟩ := all entry mem
  have own := Span.Family.merge_mem (Expr.span_mem hk) (Expr.span_mem hv)
  simp [Expr.entryNode, own, hk, hv]

theorem braceCreator_staysIn (hD : D.StaysIn S) {start : Span} (hs : start ∈ S) {type : TypeRef}
    (ht : type.node.LiesIn S) : StaysIn S (·.node.LiesIn S) (braceCreator D start type) := by
  have map {span : Span} (own : span ∈ S) {entries : List (Expr × Expr)}
      (all : ∀ entry ∈ entries, entry.1.node.LiesIn S ∧ entry.2.node.LiesIn S) :
      (Expr.newMap span type entries).node.LiesIn S := by
    simpa [own, ht] using liesIn_entries all
  have collection {span : Span} (own : span ∈ S) {elements : List Expr}
      (all : ∀ e ∈ elements, e.node.LiesIn S) :
      (Expr.newCollection span type elements).node.LiesIn S := by
    simpa [Expr.nodes_eq_map, own, ht] using all
  refine (accept _).bind fun _ _ => ite ?_ ?_
  · refine (spanFrom hs).bind fun span own => pure ?_
    split
    · exact map own (List.forall_mem_nil _)
    · exact collection own (List.forall_mem_nil _)
  refine hD.assignment.bind fun first hf => (isAt _).bind fun _ _ => ite ?_ ?_
  · refine (entryValue_staysIn hD).bind fun value hv => ?_
    refine (commaSeparatedFrom (mapEntry_staysIn hD) ⟨hf, hv⟩).bind fun entries all => ?_
    refine (expect _).bind fun _ _ => (spanFrom hs).bind fun span own => ?_
    exact pure (map own all)
  · refine (commaSeparatedFrom hD.assignment hf).bind fun elements all => ?_
    refine (expect _).bind fun _ _ => (spanFrom hs).bind fun span own => ?_
    exact pure (collection own all)

theorem bracketCreator_staysIn (hD : D.StaysIn S) {start : Span} (hs : start ∈ S) {type : TypeRef}
    (ht : type.node.LiesIn S) : StaysIn S (·.node.LiesIn S) (bracketCreator D start type) := by
  refine (accept _).bind fun _ _ => ite ?_ ?_
  · refine (expect _).bind fun _ _ => (expressionsBefore_staysIn hD _).bind fun elements all => ?_
    refine (expect _).bind fun _ _ => (spanFrom hs).bind fun span own => pure ?_
    simpa [Expr.nodes_eq_map, own, ht] using all
  · refine hD.assignment.bind fun size hz => (expect _).bind fun _ _ => ?_
    refine (spanFrom hs).bind fun span own => pure ?_
    simp [own, ht, hz]

theorem creator_staysIn (hD : D.StaysIn S) {start : Span} (hs : start ∈ S) :
    StaysIn S (·.node.LiesIn S) (creator D start) := by
  refine (elementType_staysIn hD.typeRef).bind fun type ht => (isAt _).bind fun _ _ => ite ?_ ?_
  · refine (arguments_staysIn hD).bind fun args all => (spanFrom hs).bind fun span own => pure ?_
    simpa [Expr.nodes_eq_map, own, ht] using all
  refine (accept _).bind fun _ _ => ite (bracketCreator_staysIn hD hs ht) ?_
  exact (accept _).bind fun _ _ => ite (braceCreator_staysIn hD hs ht) (fail _)

theorem wordOrCall_staysIn (hD : D.StaysIn S) {word : Ident} (hw : word.span ∈ S) {alone : Expr}
    (ha : alone.node.LiesIn S) : StaysIn S (·.node.LiesIn S) (wordOrCall D word alone) := by
  refine advance.bind fun _ _ => (isAt _).bind fun _ _ => ite ?_ (pure ha)
  refine (arguments_staysIn hD).bind fun args all => (spanFrom hw).bind fun span own => pure ?_
  simpa [Expr.nodes_eq_map, own, hw] using all

/-- The variables bound in a literal are those of its token. -/
theorem lieIn_of_literalOf? {k : TokenKind} {v : Literal} (found : literalOf? k = some v)
    (lie : LieIn S k.binds) : LieIn S v.binds := by
  unfold literalOf? at found
  split at found <;> cases found
  case h_5 | h_6 => exact lie
  all_goals exact lieIn_nil

theorem primary_staysIn (hD : D.StaysIn S) : StaysIn S (·.node.LiesIn S) (primary D) := by
  refine current.bind fun t ht => ?_
  have own := ht.span
  have word (e : Expr) (leaf : e.node = .leaf (.expr e) t.span) : e.node.LiesIn S := by
    simp [leaf, own]
  split
  · next v found =>
    refine advance.bind fun _ _ => pure ?_
    simpa [own] using lieIn_of_literalOf? found (Token.liesIn_iff.mp ht).2
  · split
    · exact wordOrCall_staysIn hD own (word _ rfl)
    · exact wordOrCall_staysIn hD own (word _ rfl)
    · exact advance.bind fun _ _ => creator_staysIn hD own
    · exact advance.bind fun _ _ => pure (word _ rfl)
    · refine (parenthesized_staysIn hD).bind fun inner hi => ?_
      refine (spanFrom own).bind fun span own => pure ?_
      simp [own, hi]
    · exact wordOrCall_staysIn hD own (word _ rfl)
    · exact fail _

/-! ## Chains and operators -/

theorem postfixStep_staysIn (hD : D.StaysIn S) {operand : Expr} (ho : operand.node.LiesIn S) :
    StaysIn S (Turn.Holds (fun e : Expr => e.node.LiesIn S) fun e : Expr => e.node.LiesIn S)
      (postfixStep D operand) := by
  have hs := Expr.span_mem ho
  refine (accept _).bind fun _ _ => ite ?_ ((accept _).bind fun _ _ => ite ?_ ?_)
  · refine memberName.bind fun member hm => (isAt _).bind fun _ _ => ite ?_ (pure ?_)
    · refine (arguments_staysIn hD).bind fun args all => (spanFrom hs).bind fun span own => pure ?_
      simpa [Turn.Holds, Expr.nodes_eq_map, own, ho, hm] using all
    · simp [Turn.Holds, Span.Family.merge_mem hs hm, ho, hm]
  · refine hD.assignment.bind fun position hp => (expect _).bind fun _ _ => ?_
    refine (spanFrom hs).bind fun span own => pure ?_
    simp [Turn.Holds, own, ho, hp]
  · refine kind.bind fun k _ => ?_
    split
    · refine advance.bind fun _ _ => (spanFrom hs).bind fun span own => pure ?_
      simp [Turn.Holds, own, ho]
    · exact pure ho

theorem postfixChain_staysIn (hD : D.StaysIn S) : StaysIn S (·.node.LiesIn S) (postfixChain D) :=
  (primary_staysIn hD).bind fun _ hp => iterate (fun _ ho => postfixStep_staysIn hD ho) hp

theorem unary_staysIn (hD : D.StaysIn S) : StaysIn S (·.node.LiesIn S) (unary D) := by
  refine here.bind fun start hs => kind.bind fun k _ => ?_
  dsimp only
  split
  · refine advance.bind fun _ _ => hD.unary.bind fun operand ho => pure ?_
    simp [Span.Family.merge_mem hs (Expr.span_mem ho), ho]
  · refine advance.bind fun _ _ => hD.unary.bind fun operand ho => pure ?_
    simp [Span.Family.merge_mem hs (Expr.span_mem ho), ho]
  · refine getBind fun _ _ => ite ?_ (postfixChain_staysIn hD)
    refine (expect _).bind fun _ _ => (typeRef_staysIn hD.typeRef).bind fun type ht => ?_
    refine (expect _).bind fun _ _ => hD.unary.bind fun operand ho => pure ?_
    simp [Span.Family.merge_mem hs (Expr.span_mem ho), ht, ho]

theorem binaryStep_staysIn (hD : D.StaysIn S) (level : BinaryLevel) {operand : Parser Expr}
    (h : StaysIn S (·.node.LiesIn S) operand) {left : Expr} (hl : left.node.LiesIn S) :
    StaysIn S (Turn.Holds (fun e : Expr => e.node.LiesIn S) fun e : Expr => e.node.LiesIn S)
      (binaryStep D level operand left) := by
  have hs := Expr.span_mem hl
  refine kind.bind fun k _ => ite ?_ (getBind fun _ _ => ?_)
  · refine advance.bind fun _ _ => (typeRef_staysIn hD.typeRef).bind fun type ht => pure ?_
    simp [Turn.Holds, Span.Family.merge_mem hs (TypeRef.span_mem ht), hl, ht]
  · split
    · refine (skip _).bind fun _ _ => h.bind fun right hr => pure ?_
      simp [Turn.Holds, Span.Family.merge_mem hs (Expr.span_mem hr), hl, hr]
    · exact pure hl

theorem binaryChain_staysIn (hD : D.StaysIn S) (levels : List BinaryLevel) :
    StaysIn S (·.node.LiesIn S) (binaryChain D levels) := by
  induction levels with
  | nil => exact unary_staysIn hD
  | cons level tighter ih =>
    exact ih.bind fun _ ho => iterate (fun _ hl => binaryStep_staysIn hD level ih hl) ho

theorem ternary_staysIn (hD : D.StaysIn S) : StaysIn S (·.node.LiesIn S) (ternary D) := by
  refine (binaryChain_staysIn hD _).bind fun condition hc => ?_
  refine (accept _).bind fun _ _ => ite ?_ (pure hc)
  refine hD.assignment.bind fun yes hy => (expect _).bind fun _ _ => ?_
  refine hD.ternary.bind fun no hn => pure ?_
  simp [Span.Family.merge_mem (Expr.span_mem hc) (Expr.span_mem hn), hc, hy, hn]

theorem assignment_staysIn (hD : D.StaysIn S) : StaysIn S (·.node.LiesIn S) (assignment D) := by
  refine (ternary_staysIn hD).bind fun target ht => getBind fun _ _ => ?_
  split
  · refine (skip _).bind fun _ _ => hD.assignment.bind fun value hv => pure ?_
    simp [Span.Family.merge_mem (Expr.span_mem ht) (Expr.span_mem hv), ht, hv]
  · exact pure ht

end Apex.Grammar
