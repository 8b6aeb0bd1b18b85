import Apex.Proofs.Depth.Expressions
import Apex.Proofs.Spans.Statements

/-!
# The depth of statements

A statement takes its expressions and the statements under it from the level below. The links of a
chain of conditionals stay at the level of the first.
-/

namespace Apex

open Node

variable {limit i : Nat} {parent : Element}

@[simp] theorem element_block (b : Block) : b.node.element = .block b := by
  cases b
  rfl

@[simp] theorem element_catchClause (clause : CatchClause) :
    clause.node.element = .catchClause clause := by
  cases clause
  rfl

@[simp] theorem isStatement_node (s : Statement) : s.node.element.isStatement = true := by
  cases s with
  | block body => simp [Statement.node, Element.isStatement]
  | _ => rfl

@[simp] theorem isExpression_statement (s : Statement) : s.node.element.isExpression = false := by
  cases s with
  | block body => simp [Statement.node, Element.isExpression]
  | _ => rfl

/-- Whether an edge of a statement leads to a nested construct. -/
theorem deepens_statement (s : Statement) (child : Element) :
    (Element.statement s).deepens i child = (child.isExpression || s.nests i child) := rfl

/-- A part of a statement that is neither an expression nor a statement under it. -/
theorem fits_part {s : Statement} {n : Node} (h : n.FitsIn limit)
    (part : n.element.isExpression = false) (own : s.nests i n.element = false) :
    n.FitsBehind limit ((Element.statement s).deepens i n.element) := by
  rw [deepens_statement, part, own]
  exact fitsBehind_false.mpr h

/-- The block of a construct belongs to it. -/
theorem fits_block {s : Statement} {b : Block} (h : b.node.FitsIn limit)
    (own : s.nests i (.block b) = false) :
    b.node.FitsBehind limit ((Element.statement s).deepens i b.node.element) :=
  fits_part h (by simp [Element.isExpression]) (by rw [element_block, own])

namespace Grammar

open Apex.Parser

variable {D : Deeper}

/-! ## Blocks and declarations of variables -/

theorem block_fits (hD : D.Fits limit) : (block D).Yields (·.node.FitsIn limit) := by
  have item : (blockItem D).Yields (·.node.FitsBelow limit) :=
    fun _ _ _ run => hD.statement (blockItem_ok.mp run).2
  intro c b c' h
  obtain ⟨_, statements, _, run, _, done⟩ := block_ok.mp h
  cases done
  refine fitsIn_mk ?_
  rw [Statement.nodes_eq_map]
  exact allFit_map fun s hs i => (itemsUntil_yields item _ run s hs).fitsBehind _

theorem declaratorFrom_fits (hD : D.Fits limit) {name : Ident} :
    (declaratorFrom D name).Yields (·.node.FitsIn limit) := by
  intro c d c' h
  rcases declaratorFrom_ok.mp h with ⟨_, value, _, run, done⟩ | ⟨_, done⟩
  · cases done
    exact fitsIn_mk ⟨fitsBehind_false.mpr (fitsIn_identifier name),
      (hD.assignment run).fitsBehind _, trivial⟩
  · cases done
    exact fitsIn_mk ⟨fitsBehind_false.mpr (fitsIn_identifier name), trivial⟩

theorem declarators_fits (hD : D.Fits limit) {name : Ident} :
    (declarators D name).Yields fun ds => ∀ d ∈ ds, d.node.FitsIn limit := by
  have next : (declarator D).Yields (·.node.FitsIn limit) := by
    intro c d c' h
    obtain ⟨_, _, _, run⟩ := declarator_ok.mp h
    exact declaratorFrom_fits hD run
  intro c ds c' h
  obtain ⟨first, _, run, rest⟩ := declarators_ok.mp h
  exact (commaSeparatedFrom_yields next (declaratorFrom_fits hD run) rest).2

theorem localVariables_fits (hD : D.Fits limit) :
    (localVariables D).Yields fun v => ∀ span, (Node.mk (.locals v) span v.nodes).FitsIn limit := by
  intro c v c' h
  obtain ⟨mods, _, type, _, name, _, declared, _, hm, run, _, rest, done⟩ :=
    localVariables_ok.mp h
  cases done
  have ht := typeRef_fits hD.typeRef run
  have hd := declarators_fits hD rest
  refine fun span => fitsIn_mk (allFit_append.mpr ⟨allFit_modifiers (fun _ _ => rfl) _, ?_⟩)
  exact ⟨fitsBehind_false.mpr ht, allFit_map fun d mem i => fitsBehind_false.mpr (hd d mem)⟩

/-! ## Conditions and loops -/

/-- What a link of a chain of conditionals holds stays below the limit. -/
def IfLink.Fits (limit : Nat) (link : IfLink) : Prop :=
  link.condition.node.FitsBelow limit ∧ link.yes.node.FitsBelow limit

/-- What may stand behind an `else`: a statement from the level below, or another link. -/
def BranchFits (limit : Nat) (s : Statement) : Prop :=
  s.node.FitsBehind limit !s.node.element.isConditional

theorem ifLink_fits (hD : D.Fits limit) {start : Span} :
    (ifLink D start).Yields (IfLink.Fits limit) := by
  intro c link c' h
  obtain ⟨condition, _, yes, _, run, run', done⟩ := ifLink_ok.mp h
  cases done
  exact ⟨parenthesized_fits hD run, hD.statement run'⟩

/-- A link closed around what fits behind its `else` fits. -/
theorem IfLink.Fits.close {link : IfLink} (h : link.Fits limit) {c : Cursor}
    {otherwise : Option Statement} (ho : ∀ s ∈ otherwise, BranchFits limit s) :
    BranchFits limit (link.close c otherwise) := by
  cases otherwise with
  | none => exact fitsBehind_false.mpr (fitsIn_mk ⟨h.1.fitsBehind _, h.2.fitsBehind _, trivial⟩)
  | some no =>
    refine fitsBehind_false.mpr (fitsIn_mk ⟨h.1.fitsBehind _, h.2.fitsBehind _, ?_, trivial⟩)
    have last := ho no rfl
    rw [BranchFits] at last
    rw [deepens_statement, isExpression_statement]
    simpa [Statement.nests] using last

theorem fits_closeLinks {links : List IfLink} (h : ∀ link ∈ links, link.Fits limit) {c : Cursor}
    {otherwise : Option Statement} (ho : ∀ s ∈ otherwise, BranchFits limit s) :
    ∀ s ∈ closeLinks c links otherwise, BranchFits limit s := by
  induction links generalizing otherwise with
  | nil => exact ho
  | cons link earlier ih =>
    obtain ⟨first, rest⟩ := List.forall_mem_cons.mp h
    refine ih rest ?_
    intro s hs
    cases hs
    exact first.close ho

theorem elseChain_fits (hD : D.Fits limit) :
    (elseChain D).Yields fun chain =>
      (∀ link ∈ chain.1, link.Fits limit) ∧ ∀ s ∈ chain.2, BranchFits limit s := by
  intro c chain c' h
  refine yields_of_iterates (I := fun links => ∀ link ∈ links, IfLink.Fits limit link)
    (Q := fun chain => (∀ link ∈ chain.1, link.Fits limit) ∧ ∀ s ∈ chain.2, BranchFits limit s)
    (iterates_of_iterate h) ?_ ?_ (fun _ hl => nomatch hl)
  · intro links c next c₁ fits run
    rcases elseStep_ok.mp run with ⟨_, _, link, _, run, turn⟩ | ⟨_, _, _, _, _, turn⟩ | ⟨_, turn⟩
    · cases turn
      exact List.forall_mem_cons.mpr ⟨ifLink_fits hD run, fits⟩
    · cases turn
    · cases turn
  · intro links c chain c₁ fits run
    rcases elseStep_ok.mp run with ⟨_, _, _, _, _, turn⟩ | ⟨_, _, last, _, run, turn⟩ | ⟨_, turn⟩
    · cases turn
    · cases turn
      refine ⟨fits, ?_⟩
      intro s hs
      cases hs
      exact (hD.statement run).fitsBehind _
    · cases turn
      exact ⟨fits, nofun⟩

theorem ifStatement_fits (hD : D.Fits limit) : (ifStatement D).Yields (·.node.FitsIn limit) := by
  intro c s c' h
  obtain ⟨_, first, _, chain, _, run, rest, done⟩ := ifStatement_ok.mp h
  cases done
  obtain ⟨links, last⟩ := elseChain_fits hD rest
  have fits := (ifLink_fits hD run).close (c := c') (fits_closeLinks links last (c := c'))
  revert fits
  unfold BranchFits IfLink.close
  split
  · exact fitsBehind_false.mp
  · exact fitsBehind_false.mp

theorem whileStatement_fits (hD : D.Fits limit) :
    (whileStatement D).Yields (·.node.FitsIn limit) := by
  intro c s c' h
  obtain ⟨_, condition, _, body, _, run, run', done⟩ := whileStatement_ok.mp h
  cases done
  exact fitsIn_mk ⟨(parenthesized_fits hD run).fitsBehind _, (hD.statement run').fitsBehind _, trivial⟩

theorem doStatement_fits (hD : D.Fits limit) : (doStatement D).Yields (·.node.FitsIn limit) := by
  intro c s c' h
  obtain ⟨_, body, _, run, _, condition, _, run', _, done⟩ := doStatement_ok.mp h
  cases done
  exact fitsIn_mk ⟨fits_block (block_fits hD run) rfl, (parenthesized_fits hD run').fitsBehind _,
    trivial⟩

theorem forEachRest_fits (hD : D.Fits limit) {start : Span} :
    (forEachRest D start).Yields (·.node.FitsIn limit) := by
  intro c s c' h
  obtain ⟨mods, _, type, _, name, _, hm, run, _, _, items, _, run', _, body, _, run'', done⟩ :=
    forEachRest_ok.mp h
  cases done
  have ht := typeRef_fits hD.typeRef run
  refine fitsIn_mk (allFit_append.mpr ⟨allFit_modifiers (fun _ _ => rfl) _, ?_⟩)
  refine ⟨?_, fitsBehind_false.mpr (fitsIn_identifier name), (hD.assignment run').fitsBehind _,
    (hD.statement run'').fitsBehind _, trivial⟩
  rw [element_type]
  exact fitsBehind_false.mpr ht

/-- The declaration a loop begins with is its first child, and not a statement under it. -/
theorem forInit_fits (hD : D.Fits limit) :
    (forInit D).Yields fun init => ∀ span condition update body,
      AllFit limit (.statement (.forLoop span init condition update body)) 0 init.nodes := by
  intro c init c' h
  rcases forInit_ok.mp h with
    ⟨_, done⟩ | ⟨_, _, _, _, ⟨_, locals, _, run, done⟩ | ⟨_, values, _, run, done⟩⟩
  · cases done
    exact fun _ _ _ _ => trivial
  · cases done
    exact fun _ _ _ _ => ⟨fitsBehind_false.mpr (localVariables_fits hD run _), trivial⟩
  · cases done
    exact fun _ _ _ _ => allFit_expressions (expressions_fits hD run)

theorem forLoopRest_fits (hD : D.Fits limit) {start : Span} :
    (forLoopRest D start).Yields (·.node.FitsIn limit) := by
  intro c s c' h
  obtain ⟨init, _, first, _, condition, _, run, _, update, _, run', _, body, _, run'', done⟩ :=
    forLoopRest_ok.mp h
  cases done
  have hi := forInit_fits hD first
  have hc := optionalExpression_fits hD run
  have hu := expressionsBefore_fits hD _ run'
  have hb := hD.statement run''
  refine fitsIn_mk (allFit_append.mpr ⟨allFit_append.mpr ⟨allFit_append.mpr ⟨hi _ _ _ _, ?_⟩, ?_⟩, ?_⟩)
  · exact allFit_option fun e he i => (hc e he).fitsBehind _
  · exact allFit_expressions hu
  · exact ⟨hb.fitsBehind _, trivial⟩

theorem forStatement_fits (hD : D.Fits limit) : (forStatement D).Yields (·.node.FitsIn limit) := by
  intro c s c' h
  obtain ⟨_, _, _, _, _, ⟨_, run⟩ | ⟨_, run⟩⟩ := forStatement_ok.mp h
  · exact forEachRest_fits hD run
  · exact forLoopRest_fits hD run

/-! ## Exceptions -/

theorem catchClause?_fits (hD : D.Fits limit) :
    (catchClause? D).Yields fun clause => ∀ a ∈ clause, a.node.FitsIn limit := by
  intro c clause c' h
  rcases catchClause?_ok.mp h with
    ⟨_, _, mods, _, type, _, name, _, hm, run, _, _, body, _, run', done⟩ | ⟨_, done⟩
  · cases done
    have ht := typeRef_fits hD.typeRef run
    have hb := block_fits hD run'
    intro a ha
    cases ha
    refine fitsIn_mk (allFit_append.mpr ⟨allFit_modifiers (fun _ _ => rfl) _, ?_⟩)
    exact ⟨fitsBehind_false.mpr ht, fitsBehind_false.mpr (fitsIn_identifier name),
      fitsBehind_false.mpr hb, trivial⟩
  · cases done
    exact nofun

theorem catches_fits (hD : D.Fits limit) :
    (itemsWhile (catchClause? D)).Yields fun clauses => ∀ a ∈ clauses, a.node.FitsIn limit := by
  have stays : ∀ {c c'}, catchClause? D c = .ok (none, c') → c' = c := by
    intro c c' h
    rcases catchClause?_ok.mp h with
      ⟨_, _, _, _, _, _, _, _, _, _, _, _, _, _, _, done⟩ | ⟨_, done⟩
    · cases done
    · cases done
      rfl
  intro c clauses c' h
  exact forall_of_items (itemsWhile_items stays h).1 fun run => catchClause?_fits hD run _ rfl

theorem tryStatement_fits (hD : D.Fits limit) : (tryStatement D).Yields (·.node.FitsIn limit) := by
  intro c s c' h
  obtain ⟨_, body, _, catches, _, run, clauses, rest⟩ := tryStatement_ok.mp h
  have hb := block_fits hD run
  have hc := catches_fits hD clauses
  rcases rest with ⟨_, last, _, run, done⟩ | ⟨_, some, done⟩
  · cases done
    refine fitsIn_mk ?_
    rw [CatchClause.nodes_eq_map]
    refine allFit_append.mpr ⟨⟨fits_block hb rfl, ?_⟩, ?_, trivial⟩
    · exact allFit_map fun a ha i => fits_part (hc a ha) (by simp [Element.isExpression]) rfl
    · exact fits_block (block_fits hD run) rfl
  · cases done
    refine fitsIn_mk ?_
    rw [CatchClause.nodes_eq_map]
    refine ⟨fits_block hb rfl, ?_⟩
    exact allFit_map fun a ha i => fits_part (hc a ha) (by simp [Element.isExpression]) rfl

/-! ## Simple statements -/

theorem returnStatement_fits (hD : D.Fits limit) :
    (returnStatement D).Yields (·.node.FitsIn limit) := by
  intro c s c' h
  obtain ⟨_, value, _, run, _, done⟩ := returnStatement_ok.mp h
  cases done
  exact fitsIn_mk (allFit_option fun e he i => (optionalExpression_fits hD run e he).fitsBehind _)

theorem throwStatement_fits (hD : D.Fits limit) :
    (throwStatement D).Yields (·.node.FitsIn limit) := by
  intro c s c' h
  obtain ⟨_, value, _, run, _, done⟩ := throwStatement_ok.mp h
  cases done
  exact fitsIn_mk ⟨(hD.assignment run).fitsBehind _, trivial⟩

theorem keywordStatement_fits {k : Keyword} {make : Span → Statement}
    (fits : ∀ span, (make span).node.FitsIn limit) :
    (keywordStatement k make).Yields (·.node.FitsIn limit) := by
  intro c s c' h
  obtain ⟨_, _, done⟩ := keywordStatement_ok.mp h
  cases done
  exact fits _

theorem dmlStatement_fits (hD : D.Fits limit) {k : Keyword} {op : DmlOp} :
    (dmlStatement D k op).Yields (·.node.FitsIn limit) := by
  intro c s c' h
  obtain ⟨_, target, _, run, _, done⟩ := dmlStatement_ok.mp h
  cases done
  exact fitsIn_mk ⟨(hD.assignment run).fitsBehind _, trivial⟩

theorem upsertStatement_fits (hD : D.Fits limit) :
    (upsertStatement D).Yields (·.node.FitsIn limit) := by
  intro c s c' h
  obtain ⟨_, target, _, run, ⟨_, done⟩ | ⟨_, key, _, named, _, done⟩⟩ := upsertStatement_ok.mp h
  · cases done
    exact fitsIn_mk ⟨(hD.assignment run).fitsBehind _, trivial⟩
  · cases done
    exact fitsIn_mk ⟨(hD.assignment run).fitsBehind _,
      fitsBehind_false.mpr (qualifiedName_fits key), trivial⟩

theorem mergeStatement_fits (hD : D.Fits limit) :
    (mergeStatement D).Yields (·.node.FitsIn limit) := by
  intro c s c' h
  obtain ⟨_, master, _, duplicate, _, run, run', _, done⟩ := mergeStatement_ok.mp h
  cases done
  exact fitsIn_mk ⟨(hD.assignment run).fitsBehind _, (hD.assignment run').fitsBehind _, trivial⟩

theorem runAsStatement_fits (hD : D.Fits limit) :
    (runAsStatement D).Yields (·.node.FitsIn limit) := by
  intro c s c' h
  obtain ⟨_, _, _, user, _, body, _, run, run', done⟩ := runAsStatement_ok.mp h
  cases done
  exact fitsIn_mk ⟨(parenthesized_fits hD run).fitsBehind _,
    fits_block (block_fits hD run') rfl, trivial⟩

theorem variablesStatement_fits (hD : D.Fits limit) :
    (variablesStatement D).Yields (·.node.FitsIn limit) := by
  intro c s c' h
  obtain ⟨locals, _, run, _, done⟩ := variablesStatement_ok.mp h
  cases done
  exact localVariables_fits hD run _

theorem expressionStatement_fits (hD : D.Fits limit) :
    (expressionStatement D).Yields (·.node.FitsIn limit) := by
  intro c s c' h
  obtain ⟨value, _, run, _, done⟩ := expressionStatement_ok.mp h
  cases done
  exact fitsIn_mk ⟨(hD.assignment run).fitsBehind _, trivial⟩

theorem plainStatement_fits (hD : D.Fits limit) :
    (plainStatement D).Yields (·.node.FitsIn limit) := by
  intro c s c' h
  rcases plainStatement_ok.mp h with ⟨_, body, _, run, done⟩ | ⟨_, done⟩ | ⟨_, _, _, run⟩ |
    ⟨_, _, _, _, _, _, ⟨_, run⟩ | ⟨_, run⟩⟩
  · cases done
    exact block_fits hD run
  · cases done
    exact fitsIn_leaf
  · exact runAsStatement_fits hD run
  · exact variablesStatement_fits hD run
  · exact expressionStatement_fits hD run

theorem statement_fits (hD : D.Fits limit) : (statement D).Yields (·.node.FitsIn limit) := by
  refine yields_of_kind fun k => ?_
  split
  · exact ifStatement_fits hD
  · exact whileStatement_fits hD
  · exact doStatement_fits hD
  · exact forStatement_fits hD
  · exact tryStatement_fits hD
  · exact returnStatement_fits hD
  · exact throwStatement_fits hD
  · exact keywordStatement_fits fun _ => fitsIn_leaf
  · exact keywordStatement_fits fun _ => fitsIn_leaf
  · exact dmlStatement_fits hD
  · exact dmlStatement_fits hD
  · exact dmlStatement_fits hD
  · exact dmlStatement_fits hD
  · exact upsertStatement_fits hD
  · exact mergeStatement_fits hD
  · exact plainStatement_fits hD

end Grammar

end Apex
