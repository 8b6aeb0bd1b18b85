import Apex.Proofs.Shape.Expressions
import Apex.Proofs.Spans.Statements

/-!
# The shape of statements

Statements are read sound: declarations declare something, a `try` catches something or has a last
block, and no modifier of a variable comes twice.
-/

namespace Apex

open Node

namespace Grammar

open Apex.Parser

variable {D : Deeper}

/-! ## Blocks and declarations of variables -/

theorem block_yields (hD : D.Sound) : (block D).Yields (·.node.IsSound) := by
  have item : (blockItem D).Yields (·.node.IsSound) :=
    fun _ _ _ run => hD.statement (blockItem_ok.mp run).2
  intro c b c' h
  obtain ⟨_, statements, _, run, _, done⟩ := block_ok.mp h
  cases done
  refine .mk trivial ?_
  rw [Statement.nodes_eq_map]
  exact allSound_map.mpr (itemsUntil_yields item _ run)

theorem declaratorFrom_yields (hD : D.Sound) {name : Ident} :
    (declaratorFrom D name).Yields (·.node.IsSound) := by
  intro c d c' h
  rcases declaratorFrom_ok.mp h with ⟨_, value, _, run, done⟩ | ⟨_, done⟩
  · cases done
    exact .mk trivial (by simpa using hD.assignment run)
  · cases done
    exact .mk trivial (by simp)

theorem declarators_yields (hD : D.Sound) {name : Ident} :
    (declarators D name).Yields fun ds => ds ≠ [] ∧ ∀ d ∈ ds, d.node.IsSound := by
  have next : (declarator D).Yields (·.node.IsSound) := by
    intro c d c' h
    obtain ⟨_, _, _, run⟩ := declarator_ok.mp h
    exact declaratorFrom_yields hD run
  intro c ds c' h
  obtain ⟨first, _, run, rest⟩ := declarators_ok.mp h
  exact commaSeparatedFrom_yields next (declaratorFrom_yields hD run) rest

/-- The modifiers of local variables are distinct, and at least one variable is declared. -/
theorem localVariables_yields (hD : D.Sound) :
    (localVariables D).Yields fun v =>
      (Distinct v.modifiers ∧ v.declarators ≠ []) ∧ AllSound v.nodes := by
  intro c v c' h
  obtain ⟨mods, _, type, _, name, _, declared, _, hm, run, _, rest, done⟩ :=
    localVariables_ok.mp h
  cases done
  have ht := typeRef_yields hD.typeRef run
  obtain ⟨some, sound⟩ := declarators_yields hD rest
  refine ⟨⟨modifiers_distinct hm, some⟩, allSound_append.mpr ⟨isSound_modifiers _, ?_⟩⟩
  exact allSound_cons.mpr ⟨ht, allSound_map.mpr sound⟩

/-! ## Conditions and loops -/

/-- What a link of a chain of conditionals holds is sound. -/
def IfLink.IsSound (link : IfLink) : Prop :=
  link.condition.node.IsSound ∧ link.yes.node.IsSound

theorem ifLink_yields (hD : D.Sound) {start : Span} : (ifLink D start).Yields IfLink.IsSound := by
  intro c link c' h
  obtain ⟨condition, _, yes, _, run, run', done⟩ := ifLink_ok.mp h
  cases done
  exact ⟨parenthesized_yields hD run, hD.statement run'⟩

/-- A link closed around something sound is sound. -/
theorem IfLink.IsSound.close {link : IfLink} (h : link.IsSound) {c : Cursor}
    {otherwise : Option Statement} (ho : ∀ s ∈ otherwise, s.node.IsSound) :
    (link.close c otherwise).node.IsSound := by
  cases otherwise with
  | none => exact .mk trivial (by simpa using ⟨h.1, h.2⟩)
  | some no => exact .mk trivial (by simpa using ⟨h.1, h.2, ho no rfl⟩)

theorem isSound_closeLinks {links : List IfLink} (h : ∀ link ∈ links, link.IsSound) {c : Cursor}
    {otherwise : Option Statement} (ho : ∀ s ∈ otherwise, s.node.IsSound) :
    ∀ s ∈ closeLinks c links otherwise, s.node.IsSound := by
  induction links generalizing otherwise with
  | nil => exact ho
  | cons link earlier ih =>
    obtain ⟨first, rest⟩ := List.forall_mem_cons.mp h
    refine ih rest ?_
    intro s hs
    cases hs
    exact first.close ho

theorem elseChain_yields (hD : D.Sound) :
    (elseChain D).Yields fun chain =>
      (∀ link ∈ chain.1, link.IsSound) ∧ ∀ s ∈ chain.2, s.node.IsSound := by
  intro c chain c' h
  refine yields_of_iterates (I := fun links => ∀ link ∈ links, IfLink.IsSound link)
    (Q := fun chain => (∀ link ∈ chain.1, link.IsSound) ∧ ∀ s ∈ chain.2, s.node.IsSound)
    (iterates_of_iterate h) ?_ ?_ (fun _ hl => nomatch hl)
  · intro links c next c₁ sound run
    rcases elseStep_ok.mp run with ⟨_, _, link, _, run, turn⟩ | ⟨_, _, _, _, _, turn⟩ | ⟨_, turn⟩
    · cases turn
      exact List.forall_mem_cons.mpr ⟨ifLink_yields hD run, sound⟩
    · cases turn
    · cases turn
  · intro links c chain c₁ sound run
    rcases elseStep_ok.mp run with ⟨_, _, _, _, _, turn⟩ | ⟨_, _, last, _, run, turn⟩ | ⟨_, turn⟩
    · cases turn
    · cases turn
      refine ⟨sound, ?_⟩
      intro s hs
      cases hs
      exact hD.statement run
    · cases turn
      exact ⟨sound, nofun⟩

theorem ifStatement_yields (hD : D.Sound) : (ifStatement D).Yields (·.node.IsSound) := by
  intro c s c' h
  obtain ⟨_, first, _, chain, _, run, rest, done⟩ := ifStatement_ok.mp h
  cases done
  obtain ⟨links, last⟩ := elseChain_yields hD rest
  exact (ifLink_yields hD run).close (isSound_closeLinks links last)

theorem whileStatement_yields (hD : D.Sound) : (whileStatement D).Yields (·.node.IsSound) := by
  intro c s c' h
  obtain ⟨_, condition, _, body, _, run, run', done⟩ := whileStatement_ok.mp h
  cases done
  exact .mk trivial (by simpa using ⟨parenthesized_yields hD run, hD.statement run'⟩)

theorem doStatement_yields (hD : D.Sound) : (doStatement D).Yields (·.node.IsSound) := by
  intro c s c' h
  obtain ⟨_, body, _, run, _, condition, _, run', _, done⟩ := doStatement_ok.mp h
  cases done
  exact .mk trivial (by simpa using ⟨block_yields hD run, parenthesized_yields hD run'⟩)

theorem forEachRest_yields (hD : D.Sound) {start : Span} :
    (forEachRest D start).Yields (·.node.IsSound) := by
  intro c s c' h
  obtain ⟨mods, _, type, _, name, _, hm, run, _, _, items, _, run', _, body, _, run'', done⟩ :=
    forEachRest_ok.mp h
  cases done
  have ht := typeRef_yields hD.typeRef run
  refine .mk (modifiers_distinct hm) (allSound_append.mpr ⟨isSound_modifiers _, ?_⟩)
  simpa using ⟨ht, hD.assignment run', hD.statement run''⟩

theorem forInit_yields (hD : D.Sound) : (forInit D).Yields fun init => AllSound init.nodes := by
  intro c init c' h
  rcases forInit_ok.mp h with
    ⟨_, done⟩ | ⟨_, _, _, _, ⟨_, locals, _, run, done⟩ | ⟨_, values, _, run, done⟩⟩
  · cases done
    exact allSound_nil
  · cases done
    obtain ⟨formed, sound⟩ := localVariables_yields hD run
    exact allSound_cons.mpr ⟨.mk formed sound, allSound_nil⟩
  · cases done
    show AllSound (Expr.nodes values)
    rw [Expr.nodes_eq_map]
    exact allSound_map.mpr (expressions_yields hD run)

theorem forLoopRest_yields (hD : D.Sound) {start : Span} :
    (forLoopRest D start).Yields (·.node.IsSound) := by
  intro c s c' h
  obtain ⟨init, _, first, _, condition, _, run, _, update, _, run', _, body, _, run'', done⟩ :=
    forLoopRest_ok.mp h
  cases done
  refine .mk trivial ?_
  rw [Expr.nodes_eq_map]
  have hi := forInit_yields hD first
  have hc := allSound_option.mpr (optionalExpression_yields hD run)
  have hu := allSound_map.mpr (expressionsBefore_yields hD _ run')
  have hb : AllSound [body.node] := by simpa using hD.statement run''
  exact allSound_append.mpr ⟨allSound_append.mpr ⟨allSound_append.mpr ⟨hi, hc⟩, hu⟩, hb⟩

theorem forStatement_yields (hD : D.Sound) : (forStatement D).Yields (·.node.IsSound) := by
  intro c s c' h
  obtain ⟨_, _, _, _, _, ⟨_, run⟩ | ⟨_, run⟩⟩ := forStatement_ok.mp h
  · exact forEachRest_yields hD run
  · exact forLoopRest_yields hD run

/-! ## Exceptions -/

theorem catchClause?_yields (hD : D.Sound) :
    (catchClause? D).Yields fun clause => ∀ a ∈ clause, a.node.IsSound := by
  intro c clause c' h
  rcases catchClause?_ok.mp h with
    ⟨_, _, mods, _, type, _, name, _, hm, run, _, _, body, _, run', done⟩ | ⟨_, done⟩
  · cases done
    have ht := typeRef_yields hD.typeRef run
    have hb := block_yields hD run'
    intro a ha
    cases ha
    exact .mk (modifiers_distinct hm)
      (allSound_append.mpr ⟨isSound_modifiers _, by simpa using ⟨ht, hb⟩⟩)
  · cases done
    exact nofun

theorem catches_yields (hD : D.Sound) :
    (itemsWhile (catchClause? D)).Yields fun clauses => ∀ a ∈ clauses, a.node.IsSound := by
  have stays : ∀ {c c'}, catchClause? D c = .ok (none, c') → c' = c := by
    intro c c' h
    rcases catchClause?_ok.mp h with
      ⟨_, _, _, _, _, _, _, _, _, _, _, _, _, _, _, done⟩ | ⟨_, done⟩
    · cases done
    · cases done
      rfl
  intro c clauses c' h
  exact forall_of_items (itemsWhile_items stays h).1 fun run => catchClause?_yields hD run _ rfl

theorem tryStatement_yields (hD : D.Sound) : (tryStatement D).Yields (·.node.IsSound) := by
  intro c s c' h
  obtain ⟨_, body, _, catches, _, run, clauses, rest⟩ := tryStatement_ok.mp h
  have hb := block_yields hD run
  have hc := allSound_map.mpr (catches_yields hD clauses)
  rcases rest with ⟨_, last, _, run, done⟩ | ⟨_, some, done⟩
  · cases done
    refine .mk trivial ?_
    rw [CatchClause.nodes_eq_map]
    exact allSound_append.mpr ⟨allSound_cons.mpr ⟨hb, hc⟩, by simpa using block_yields hD run⟩
  · cases done
    refine .mk (by simpa [Element.IsSound, Statement.IsFormed] using some) ?_
    rw [CatchClause.nodes_eq_map]
    exact allSound_cons.mpr ⟨hb, hc⟩

/-! ## Simple statements -/

theorem returnStatement_yields (hD : D.Sound) : (returnStatement D).Yields (·.node.IsSound) := by
  intro c s c' h
  obtain ⟨_, value, _, run, _, done⟩ := returnStatement_ok.mp h
  cases done
  exact .mk trivial (allSound_option.mpr (optionalExpression_yields hD run))

theorem throwStatement_yields (hD : D.Sound) : (throwStatement D).Yields (·.node.IsSound) := by
  intro c s c' h
  obtain ⟨_, value, _, run, _, done⟩ := throwStatement_ok.mp h
  cases done
  exact .mk trivial (by simpa using hD.assignment run)

theorem keywordStatement_yields {k : Keyword} {make : Span → Statement}
    (sound : ∀ span, (make span).node.IsSound) :
    (keywordStatement k make).Yields (·.node.IsSound) := by
  intro c s c' h
  obtain ⟨_, _, done⟩ := keywordStatement_ok.mp h
  cases done
  exact sound _

theorem dmlStatement_yields (hD : D.Sound) {k : Keyword} {op : DmlOp} :
    (dmlStatement D k op).Yields (·.node.IsSound) := by
  intro c s c' h
  obtain ⟨_, target, _, run, _, done⟩ := dmlStatement_ok.mp h
  cases done
  exact .mk trivial (by simpa using hD.assignment run)

theorem upsertStatement_yields (hD : D.Sound) : (upsertStatement D).Yields (·.node.IsSound) := by
  intro c s c' h
  obtain ⟨_, target, _, run, ⟨_, done⟩ | ⟨_, key, _, named, _, done⟩⟩ := upsertStatement_ok.mp h
  · cases done
    exact .mk trivial (by simpa using hD.assignment run)
  · cases done
    exact .mk trivial (by simpa using ⟨hD.assignment run, qualifiedName_yields named⟩)

theorem mergeStatement_yields (hD : D.Sound) : (mergeStatement D).Yields (·.node.IsSound) := by
  intro c s c' h
  obtain ⟨_, master, _, duplicate, _, run, run', _, done⟩ := mergeStatement_ok.mp h
  cases done
  exact .mk trivial (by simpa using ⟨hD.assignment run, hD.assignment run'⟩)

theorem runAsStatement_yields (hD : D.Sound) : (runAsStatement D).Yields (·.node.IsSound) := by
  intro c s c' h
  obtain ⟨_, _, _, user, _, body, _, run, run', done⟩ := runAsStatement_ok.mp h
  cases done
  exact .mk trivial (by simpa using ⟨parenthesized_yields hD run, block_yields hD run'⟩)

theorem variablesStatement_yields (hD : D.Sound) :
    (variablesStatement D).Yields (·.node.IsSound) := by
  intro c s c' h
  obtain ⟨locals, _, run, _, done⟩ := variablesStatement_ok.mp h
  cases done
  obtain ⟨formed, sound⟩ := localVariables_yields hD run
  exact .mk formed sound

theorem expressionStatement_yields (hD : D.Sound) :
    (expressionStatement D).Yields (·.node.IsSound) := by
  intro c s c' h
  obtain ⟨value, _, run, _, done⟩ := expressionStatement_ok.mp h
  cases done
  exact .mk trivial (by simpa using hD.assignment run)

theorem plainStatement_yields (hD : D.Sound) : (plainStatement D).Yields (·.node.IsSound) := by
  intro c s c' h
  rcases plainStatement_ok.mp h with ⟨_, body, _, run, done⟩ | ⟨_, done⟩ | ⟨_, _, _, run⟩ |
    ⟨_, _, _, _, _, _, ⟨_, run⟩ | ⟨_, run⟩⟩
  · cases done
    exact block_yields hD run
  · cases done
    exact isSound_leaf trivial
  · exact runAsStatement_yields hD run
  · exact variablesStatement_yields hD run
  · exact expressionStatement_yields hD run

theorem statement_yields (hD : D.Sound) : (statement D).Yields (·.node.IsSound) := by
  refine yields_of_kind fun k => ?_
  split
  · exact ifStatement_yields hD
  · exact whileStatement_yields hD
  · exact doStatement_yields hD
  · exact forStatement_yields hD
  · exact tryStatement_yields hD
  · exact returnStatement_yields hD
  · exact throwStatement_yields hD
  · exact keywordStatement_yields fun _ => isSound_leaf trivial
  · exact keywordStatement_yields fun _ => isSound_leaf trivial
  · exact dmlStatement_yields hD
  · exact dmlStatement_yields hD
  · exact dmlStatement_yields hD
  · exact dmlStatement_yields hD
  · exact upsertStatement_yields hD
  · exact mergeStatement_yields hD
  · exact plainStatement_yields hD

end Grammar

end Apex
