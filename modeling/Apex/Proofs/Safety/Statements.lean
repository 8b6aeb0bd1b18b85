import Apex.Grammar.Statement
import Apex.Proofs.Safety.Expressions

/-!
# Statements in a family of spans

Blocks, declarations of variables and statements are read without leaving a family of spans.
-/

namespace Apex

variable {S : Span.Family} {D : Deeper}

/-- Everything in the link lies in the family. -/
structure Grammar.IfLink.LiesIn (S : Span.Family) (link : Grammar.IfLink) : Prop where
  start : link.start ∈ S
  condition : link.condition.node.LiesIn S
  yes : link.yes.node.LiesIn S

namespace Grammar

open Apex.Parser (StaysIn Turn)
open Apex.Parser.StaysIn

attribute [local simp] Statement.node

/-! ## Blocks and variables -/

theorem blockItem_staysIn (hD : D.StaysIn S) : StaysIn S (·.node.LiesIn S) (blockItem D) :=
  getBind fun _ _ => check (fail _) hD.statement

theorem block_staysIn (hD : D.StaysIn S) : StaysIn S (·.node.LiesIn S) (block D) := by
  refine (expect _).bind fun start hs => (itemsUntil (blockItem_staysIn hD) _).bind fun ss all => ?_
  refine (expect _).bind fun _ _ => (spanFrom hs).bind fun span own => pure ?_
  simpa [Block.node, Statement.nodes_eq_map, own] using all

theorem declaratorFrom_staysIn (hD : D.StaysIn S) {name : Ident} (hn : name.span ∈ S) :
    StaysIn S (·.node.LiesIn S) (declaratorFrom D name) := by
  have close (value : Option Expr) (hv : ∀ e ∈ value, e.node.LiesIn S) :
      StaysIn S (fun d : Declarator => d.node.LiesIn S)
        (do return ⟨← Parser.spanFrom name.span, name, value⟩) := by
    refine (spanFrom hn).bind fun span own => pure ?_
    simpa [Declarator.node, own, hn] using hv
  refine (accept _).bind fun _ _ => iteBind ?_ ?_ close
  · refine map hD.assignment fun e he => ?_
    simpa using he
  · exact pure fun _ mem => nomatch mem

theorem declarators_staysIn (hD : D.StaysIn S) {first : Ident} (hf : first.span ∈ S) :
    StaysIn S (fun ds => ∀ d ∈ ds, d.node.LiesIn S) (declarators D first) :=
  (declaratorFrom_staysIn hD hf).bind fun _ holds =>
    commaSeparatedFrom (identifier.bind fun _ hn => declaratorFrom_staysIn hD hn) holds

theorem localVariables_staysIn (hD : D.StaysIn S) :
    StaysIn S (fun v => ∀ n ∈ v.nodes, n.LiesIn S) (localVariables D) := by
  refine modifiers_staysIn.bind fun ms hm => (typeRef_staysIn hD.typeRef).bind fun type ht => ?_
  refine identifier.bind fun name hn => (declarators_staysIn hD hn).bind fun ds hd => pure ?_
  simp only [LocalVariables.nodes, List.forall_mem_append, List.forall_mem_cons,
    List.forall_mem_map, Node.liesIn_modifier]
  exact ⟨hm, ht, hd⟩

theorem localVariablesAhead_staysIn (hD : D.StaysIn S) :
    StaysIn S (fun _ => True) (localVariablesAhead D) := by
  refine kind.bind fun k _ => ?_
  split
  · exact pure trivial
  · exact hD.ahead _
  · exact pure trivial

/-! ## Conditions and loops -/

theorem ifLink_staysIn (hD : D.StaysIn S) {start : Span} (hs : start ∈ S) :
    StaysIn S (IfLink.LiesIn S) (ifLink D start) :=
  (parenthesized_staysIn hD).bind fun _ hc => hD.statement.bind fun _ hy => pure ⟨hs, hc, hy⟩

theorem IfLink.statement_staysIn {link : IfLink} (h : link.LiesIn S) {otherwise : Option Statement}
    (ho : ∀ s ∈ otherwise, s.node.LiesIn S) :
    StaysIn S (·.node.LiesIn S) (link.statement otherwise) := by
  refine (spanFrom h.start).bind fun span own => ?_
  split
  · next no =>
    have hn : no.node.LiesIn S := ho no rfl
    exact pure (by simp [own, h.condition, h.yes, hn])
  · exact pure (by simp [own, h.condition, h.yes])

theorem linkUp_staysIn {links : List IfLink} (all : ∀ link ∈ links, link.LiesIn S)
    {otherwise : Option Statement} (ho : ∀ s ∈ otherwise, s.node.LiesIn S) :
    StaysIn S (fun s? => ∀ s ∈ s?, s.node.LiesIn S) (linkUp links otherwise) := by
  induction links generalizing otherwise with
  | nil => exact pure ho
  | cons link earlier ih =>
    obtain ⟨h, rest⟩ := List.forall_mem_cons.mp all
    refine (IfLink.statement_staysIn h ho).bind fun s hs => ih rest ?_
    simpa using hs

theorem elseChain_staysIn (hD : D.StaysIn S) :
    StaysIn S (fun chain => (∀ link ∈ chain.1, link.LiesIn S) ∧ ∀ s ∈ chain.2, s.node.LiesIn S)
      (elseChain D) := by
  have none : ∀ link ∈ ([] : List IfLink), link.LiesIn S := List.forall_mem_nil _
  refine iterate (I := fun links => ∀ link ∈ links, link.LiesIn S) (fun links all => ?_) none
  refine (accept _).bind fun _ _ => ite ((isAt _).bind fun _ _ => ite ?_ ?_) ?_
  · refine next.bind fun t ht => (ifLink_staysIn hD ht.span).bind fun link hl => pure ?_
    exact List.forall_mem_cons.mpr ⟨hl, all⟩
  · refine hD.statement.bind fun no hn => pure ⟨all, ?_⟩
    simpa using hn
  · exact pure ⟨all, by simp⟩

theorem ifStatement_staysIn (hD : D.StaysIn S) : StaysIn S (·.node.LiesIn S) (ifStatement D) := by
  refine (expect _).bind fun start hs => (ifLink_staysIn hD hs).bind fun first hf => ?_
  refine (elseChain_staysIn hD).bind fun chain hc => ?_
  exact (linkUp_staysIn hc.1 hc.2).bind fun _ ho => IfLink.statement_staysIn hf ho

theorem whileStatement_staysIn (hD : D.StaysIn S) :
    StaysIn S (·.node.LiesIn S) (whileStatement D) := by
  refine (expect _).bind fun start hs => (parenthesized_staysIn hD).bind fun condition hc => ?_
  refine hD.statement.bind fun body hb => (spanFrom hs).bind fun span own => pure ?_
  simp [own, hc, hb]

theorem doStatement_staysIn (hD : D.StaysIn S) : StaysIn S (·.node.LiesIn S) (doStatement D) := by
  refine (expect _).bind fun start hs => (block_staysIn hD).bind fun body hb => ?_
  refine (expect _).bind fun _ _ => (parenthesized_staysIn hD).bind fun condition hc => ?_
  refine (expect _).bind fun _ _ => (spanFrom hs).bind fun span own => pure ?_
  simp [own, hc, hb]

theorem forEachRest_staysIn (hD : D.StaysIn S) {start : Span} (hs : start ∈ S) :
    StaysIn S (·.node.LiesIn S) (forEachRest D start) := by
  refine modifiers_staysIn.bind fun ms hm => (typeRef_staysIn hD.typeRef).bind fun type ht => ?_
  refine identifier.bind fun name hn => (expect _).bind fun _ _ => ?_
  refine hD.assignment.bind fun items hi => (expect _).bind fun _ _ => ?_
  refine hD.statement.bind fun body hb => (spanFrom hs).bind fun span own => pure ?_
  simp only [Statement.node, Node.liesIn_mk, Element.binds, lieIn_nil, List.forall_mem_append,
    List.forall_mem_map, Node.liesIn_modifier]
  exact ⟨own, trivial, hm, by simp [ht, hn, hi, hb]⟩

theorem forInit_staysIn (hD : D.StaysIn S) :
    StaysIn S (fun init => ∀ n ∈ init.nodes, n.LiesIn S) (forInit D) := by
  refine (isAt _).bind fun _ _ => ite (pure (List.forall_mem_nil _)) ?_
  refine (localVariablesAhead_staysIn hD).bind fun _ _ => ite ?_ ?_
  · refine here.bind fun start hs => (localVariables_staysIn hD).bind fun locals hl => ?_
    refine (spanFrom hs).bind fun span own => pure ?_
    simpa [ForInit.nodes, own] using hl
  · refine (expressions_staysIn hD).bind fun values hv => pure ?_
    simpa [ForInit.nodes, Expr.nodes_eq_map] using hv

theorem forLoopRest_staysIn (hD : D.StaysIn S) {start : Span} (hs : start ∈ S) :
    StaysIn S (·.node.LiesIn S) (forLoopRest D start) := by
  refine (forInit_staysIn hD).bind fun init hi => (expect _).bind fun _ _ => ?_
  refine (optionalExpression_staysIn hD).bind fun condition hc => (expect _).bind fun _ _ => ?_
  refine (expressionsBefore_staysIn hD _).bind fun update hu => (expect _).bind fun _ _ => ?_
  refine hD.statement.bind fun body hb => (spanFrom hs).bind fun span own => pure ?_
  simp only [Statement.node, Expr.nodes_eq_map, Node.liesIn_mk, Element.binds, lieIn_nil,
    List.forall_mem_append, List.forall_mem_map, List.forall_mem_singleton]
  exact ⟨own, trivial, ⟨⟨hi, by simpa using hc⟩, hu⟩, hb⟩

theorem forStatement_staysIn (hD : D.StaysIn S) :
    StaysIn S (·.node.LiesIn S) (forStatement D) := by
  refine (expect _).bind fun start hs => (expect _).bind fun _ _ => (hD.ahead _).bind fun _ _ => ?_
  exact ite (forEachRest_staysIn hD hs) (forLoopRest_staysIn hD hs)

/-! ## Exceptions -/

theorem catchClause?_staysIn (hD : D.StaysIn S) :
    StaysIn S (fun found => ∀ clause ∈ found, clause.node.LiesIn S) (catchClause? D) := by
  refine here.bind fun start hs => (accept _).bind fun _ _ => ite ?_ (pure fun _ mem => nomatch mem)
  refine (expect _).bind fun _ _ => modifiers_staysIn.bind fun ms hm => ?_
  refine (typeRef_staysIn hD.typeRef).bind fun type ht => identifier.bind fun name hn => ?_
  refine (expect _).bind fun _ _ => (block_staysIn hD).bind fun body hb => ?_
  refine (spanFrom hs).bind fun span own => pure ?_
  have lies : (CatchClause.mk span ms type name body).node.LiesIn S := by
    simp only [CatchClause.node, Node.liesIn_mk, Element.binds, lieIn_nil, List.forall_mem_append,
      List.forall_mem_map, Node.liesIn_modifier]
    exact ⟨own, trivial, hm, by simp [ht, hn, hb]⟩
  simpa using lies

theorem tryStatement_staysIn (hD : D.StaysIn S) :
    StaysIn S (·.node.LiesIn S) (tryStatement D) := by
  refine (expect _).bind fun start hs => (block_staysIn hD).bind fun body hb => ?_
  refine (itemsWhile (catchClause?_staysIn hD)).bind fun clauses all => ?_
  refine (accept _).bind fun _ _ => ite ?_ (check (fail _) ?_)
  · refine (block_staysIn hD).bind fun last hl => (spanFrom hs).bind fun span own => pure ?_
    simp only [Statement.node, CatchClause.nodes_eq_map, Node.liesIn_mk, Element.binds, lieIn_nil,
      List.forall_mem_append, List.forall_mem_cons, List.forall_mem_map]
    exact ⟨own, trivial, ⟨hb, all⟩, hl, List.forall_mem_nil _⟩
  · refine (spanFrom hs).bind fun span own => pure ?_
    simpa [CatchClause.nodes_eq_map, own, hb] using all

/-! ## Simple statements -/

/-- A semicolon and the span up to it close a statement. -/
theorem closed_staysIn {start : Span} (hs : start ∈ S) {make : Span → Statement}
    (h : ∀ span ∈ S, (make span).node.LiesIn S) :
    StaysIn S (fun s : Statement => s.node.LiesIn S)
      (do let _ ← Parser.expect (.punctuation .semicolon)
          return make (← Parser.spanFrom start)) :=
  (expect _).bind fun _ _ => (spanFrom hs).bind fun span own => pure (h span own)

theorem returnStatement_staysIn (hD : D.StaysIn S) :
    StaysIn S (·.node.LiesIn S) (returnStatement D) := by
  refine (expect _).bind fun start hs => (optionalExpression_staysIn hD).bind fun value hv => ?_
  refine closed_staysIn hs fun span own => ?_
  simpa [own] using hv

theorem throwStatement_staysIn (hD : D.StaysIn S) :
    StaysIn S (·.node.LiesIn S) (throwStatement D) := by
  refine (expect _).bind fun start hs => hD.assignment.bind fun value hv => ?_
  exact closed_staysIn hs fun span own => by simp [own, hv]

theorem keywordStatement_staysIn (k : Keyword) {make : Span → Statement}
    (h : ∀ span ∈ S, (make span).node.LiesIn S) :
    StaysIn S (·.node.LiesIn S) (keywordStatement k make) :=
  (expect _).bind fun _ hs => closed_staysIn hs h

theorem dmlStatement_staysIn (hD : D.StaysIn S) (k : Keyword) (op : DmlOp) :
    StaysIn S (·.node.LiesIn S) (dmlStatement D k op) := by
  refine (expect _).bind fun start hs => hD.assignment.bind fun target ht => ?_
  exact closed_staysIn hs fun span own => by simp [own, ht]

theorem upsertStatement_staysIn (hD : D.StaysIn S) :
    StaysIn S (·.node.LiesIn S) (upsertStatement D) := by
  refine (expect _).bind fun start hs => hD.assignment.bind fun target ht => ?_
  have close (key : Option QualifiedName) (hk : ∀ q ∈ key, q.node.LiesIn S) :
      StaysIn S (fun s : Statement => s.node.LiesIn S)
        (do let _ ← Parser.expect (.punctuation .semicolon)
            return .upsert (← Parser.spanFrom start) target key) := by
    refine closed_staysIn hs fun span own => ?_
    simpa [own, ht] using hk
  refine (isAt _).bind fun _ _ => iteBind (pure fun _ mem => nomatch mem) ?_ close
  refine map qualifiedName fun q hq => ?_
  simpa using hq

theorem mergeStatement_staysIn (hD : D.StaysIn S) :
    StaysIn S (·.node.LiesIn S) (mergeStatement D) := by
  refine (expect _).bind fun start hs => hD.assignment.bind fun master hm => ?_
  refine hD.assignment.bind fun duplicate hd => ?_
  exact closed_staysIn hs fun span own => by simp [own, hm, hd]

theorem runAsStatement_staysIn (hD : D.StaysIn S) :
    StaysIn S (·.node.LiesIn S) (runAsStatement D) := by
  refine (expectWord _).bind fun start hs => (expect _).bind fun _ _ => ?_
  refine (expectWord _).bind fun _ _ => (parenthesized_staysIn hD).bind fun user hu => ?_
  refine (block_staysIn hD).bind fun body hb => (spanFrom hs).bind fun span own => pure ?_
  simp [own, hu, hb]

theorem variablesStatement_staysIn (hD : D.StaysIn S) :
    StaysIn S (·.node.LiesIn S) (variablesStatement D) := by
  refine here.bind fun start hs => (localVariables_staysIn hD).bind fun locals hl => ?_
  refine closed_staysIn hs fun span own => ?_
  simpa [own] using hl

theorem expressionStatement_staysIn (hD : D.StaysIn S) :
    StaysIn S (·.node.LiesIn S) (expressionStatement D) := by
  refine here.bind fun start hs => hD.assignment.bind fun value hv => ?_
  exact closed_staysIn hs fun span own => by simp [own, hv]

theorem plainStatement_staysIn (hD : D.StaysIn S) :
    StaysIn S (·.node.LiesIn S) (plainStatement D) := by
  refine (isAt _).bind fun _ _ => ite ?_ ((isAt _).bind fun _ _ => ite ?_ ?_)
  · exact (block_staysIn hD).bind fun body hb => pure hb
  · exact next.bind fun t ht => pure (by simp [ht.span])
  · refine getBind fun _ _ => ite (runAsStatement_staysIn hD) ?_
    refine (localVariablesAhead_staysIn hD).bind fun _ _ => ?_
    exact ite (variablesStatement_staysIn hD) (expressionStatement_staysIn hD)

theorem statement_staysIn (hD : D.StaysIn S) : StaysIn S (·.node.LiesIn S) (statement D) := by
  refine kind.bind fun k _ => ?_
  split
  · exact ifStatement_staysIn hD
  · exact whileStatement_staysIn hD
  · exact doStatement_staysIn hD
  · exact forStatement_staysIn hD
  · exact tryStatement_staysIn hD
  · exact returnStatement_staysIn hD
  · exact throwStatement_staysIn hD
  · exact keywordStatement_staysIn _ fun span own => by simp [own]
  · exact keywordStatement_staysIn _ fun span own => by simp [own]
  · exact dmlStatement_staysIn hD _ _
  · exact dmlStatement_staysIn hD _ _
  · exact dmlStatement_staysIn hD _ _
  · exact dmlStatement_staysIn hD _ _
  · exact upsertStatement_staysIn hD
  · exact mergeStatement_staysIn hD
  · exact plainStatement_staysIn hD

end Grammar

end Apex
