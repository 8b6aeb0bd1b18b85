import Apex.Proofs.Numbers.Expressions
import Apex.Proofs.Spans.Statements

/-!
# Whole numbers of statements

Statements hold the numbers of their parts. In a chain of `else if` each conditional is put around
what stands behind its `else`; the numbers are those of the links, first to last.
-/

namespace Apex

namespace Grammar

open Apex.Parser Node

variable {D : Deeper} {c c₀ c₁ c' d : Cursor}

/-! ## Blocks and variables -/

theorem block_tallies (hD : D.Tallies) : (block D).Tallies fun b => [b.node] := by
  intro c b c' h
  obtain ⟨opened, statements, c₁, run, closed, done⟩ := block_ok.mp h
  cases done
  have item : (blockItem D).Tallies fun s => [s.node] :=
    fun _ _ _ run => hD.statement (blockItem_ok.mp run).2
  have inner : Tally false (Statement.nodes statements) c.advance c₁ := by
    rw [Statement.nodes_eq_map]
    exact itemsUntil_tallies item _ run
  exact ((inner.after (Cursor.silent_advance opened rfl)).before
    (Cursor.silent_advance closed rfl)).around rfl

theorem declaratorFrom_tally (hD : D.Tallies) {name : Ident} {d : Declarator}
    (hn : Tally false [name.identifierNode] c₀ c)
    (h : declaratorFrom D name c = .ok (d, c')) : Tally false [d.node] c₀ c' := by
  rcases declaratorFrom_ok.mp h with ⟨equals, value, c₁, run, done⟩ | ⟨_, done⟩
  · cases done
    exact (hn.cons ((hD.assignment run).after (Cursor.silent_advance equals rfl))).around rfl
  · cases done
    exact hn.around rfl

theorem declarator_tallies (hD : D.Tallies) : (declarator D).Tallies fun d => [d.node] := by
  intro c d c' h
  obtain ⟨name, c₁, first, run⟩ := declarator_ok.mp h
  exact declaratorFrom_tally hD (identifier_tallies first) run

theorem declarators_tally (hD : D.Tallies) {name : Ident} {ds : List Declarator}
    (hn : Tally false [name.identifierNode] c₀ c) (h : declarators D name c = .ok (ds, c')) :
    Tally false (ds.map Declarator.node) c₀ c' := by
  obtain ⟨first, c₁, run, rest⟩ := declarators_ok.mp h
  obtain ⟨more, rfl, items, _⟩ := commaSeparatedFrom_items rest
  exact (declaratorFrom_tally hD hn run).cons (commaItems_tally (declarator_tallies hD) items)

theorem localVariables_tallies (hD : D.Tallies) :
    (localVariables D).Tallies LocalVariables.nodes := by
  intro c v c' h
  obtain ⟨mods, c₁, type, c₂, name, c₃, ds, c₄, hm, ht, hn, run, done⟩ := localVariables_ok.mp h
  cases done
  have declared := declarators_tally hD (identifier_tallies hn) run
  exact (modifiers_tallies hm).append ((typeRef_tallies hD.typeRef ht).cons declared)

/-! ## Conditions and loops -/

/-- The parts of a link of a chain. -/
def IfLink.nodes (link : IfLink) : List Node := [link.condition.node, link.yes.node]

theorem ifLink_tally (hD : D.Tallies) {start : Span} {link : IfLink}
    (h : ifLink D start c = .ok (link, c')) : Tally false link.nodes c c' := by
  obtain ⟨condition, c₁, yes, c₂, hc, hy, done⟩ := ifLink_ok.mp h
  cases done
  exact (parenthesized_tallies hD hc).cons (hD.statement hy)

/-- A conditional holds the numbers of its link and of what stands behind its `else`. -/
theorem numbersOf_close (link : IfLink) (otherwise : Option Statement) :
    numbersOf false [(link.close d otherwise).node] =
      numbersOf false (link.nodes ++ (otherwise.map Statement.node).toList) := by
  cases otherwise with
  | none => exact numbersOf_of_isPlain rfl
  | some no => exact numbersOf_of_isPlain rfl

/-- The conditionals of a chain hold the numbers of its links and of what ends it. -/
theorem numbersOf_closeLinks (links : List IfLink) (otherwise : Option Statement) :
    numbersOf false ((closeLinks d links otherwise).map Statement.node).toList =
      numbersOf false
        (links.reverse.flatMap IfLink.nodes ++ (otherwise.map Statement.node).toList) := by
  induction links generalizing otherwise with
  | nil => rfl
  | cons link earlier ih =>
    rw [closeLinks, ih, numbersOf_append, Option.map_some, Option.toList_some, numbersOf_close,
      ← numbersOf_append, List.reverse_cons, List.flatMap_append, List.flatMap_singleton,
      List.append_assoc]

theorem elseChain_tally (hD : D.Tallies) {chain : List IfLink × Option Statement}
    (h : elseChain D c = .ok (chain, c')) :
    Tally false ((closeLinks d chain.1 chain.2).map Statement.node).toList c c' := by
  have loop : ∀ {links chain} {d d' : Cursor}, Iterates (elseStep D) links d chain d' →
      ∀ {d₀}, Tally false (links.reverse.flatMap IfLink.nodes) d₀ d →
      Tally false (chain.1.reverse.flatMap IfLink.nodes ++
        (chain.2.map Statement.node).toList) d₀ d' := by
    intro links chain d d' run
    induction run with
    | done run =>
      intro d₀ earlier
      rcases elseStep_ok.mp run with ⟨_, _, _, _, _, turn⟩ | ⟨helse, _, last, _, read, turn⟩ |
        ⟨_, turn⟩
      · cases turn
      · cases turn
        exact earlier.append ((hD.statement read).after (Cursor.silent_advance helse rfl))
      · cases turn
        exact earlier.append (.nil (.refl _))
    | again run _ ih =>
      intro d₀ earlier
      rcases elseStep_ok.mp run with ⟨helse, hif, link, _, read, turn⟩ | ⟨_, _, _, _, _, turn⟩ |
        ⟨_, turn⟩
      · cases turn
        have gap := (Cursor.silent_advance helse rfl).trans (Cursor.silent_advance hif rfl)
        refine ih ?_
        rw [List.reverse_cons, List.flatMap_append, List.flatMap_singleton]
        exact earlier.append ((ifLink_tally hD read).after gap)
      · cases turn
      · cases turn
  exact (loop (iterates_of_iterate h) (.nil (.refl _))).congr (numbersOf_closeLinks _ _).symm

theorem ifStatement_tallies (hD : D.Tallies) : (ifStatement D).Tallies fun s => [s.node] := by
  intro c x c' h
  obtain ⟨hif, first, c₁, chain, c₂, run, rest, done⟩ := ifStatement_ok.mp h
  cases done
  have hf := (ifLink_tally hD run).after (Cursor.silent_advance hif rfl)
  exact (hf.append (elseChain_tally hD rest)).congr (numbersOf_close _ _).symm

theorem whileStatement_tallies (hD : D.Tallies) :
    (whileStatement D).Tallies fun s => [s.node] := by
  intro c x c' h
  obtain ⟨hk, condition, c₁, body, c₂, hc, hb, done⟩ := whileStatement_ok.mp h
  cases done
  have hc := (parenthesized_tallies hD hc).after (Cursor.silent_advance hk rfl)
  exact (hc.cons (hD.statement hb)).around rfl

theorem doStatement_tallies (hD : D.Tallies) : (doStatement D).Tallies fun s => [s.node] := by
  intro c x c' h
  obtain ⟨hk, body, c₁, hb, again, condition, c₂, hc, ends, done⟩ := doStatement_ok.mp h
  cases done
  have hb := (block_tallies hD hb).after (Cursor.silent_advance hk rfl)
  have hc := (parenthesized_tallies hD hc).after (Cursor.silent_advance again rfl)
  exact (hb.cons (hc.before (Cursor.silent_advance ends rfl))).around rfl

theorem forEachRest_tally (hD : D.Tallies) {start : Span} {x : Statement}
    (h : forEachRest D start c = .ok (x, c')) : Tally false [x.node] c c' := by
  obtain ⟨mods, c₁, type, c₂, name, c₃, hm, ht, hn, colon, items, c₄, hi, closed, body, c₅, hb,
    done⟩ := forEachRest_ok.mp h
  cases done
  have hi := (hD.assignment hi).after (Cursor.silent_advance colon rfl)
  have hb := (hD.statement hb).after (Cursor.silent_advance closed rfl)
  have named := (identifier_tallies hn).cons (hi.cons hb)
  exact ((modifiers_tallies hm).append ((typeRef_tallies hD.typeRef ht).cons named)).around rfl

theorem forInit_tallies (hD : D.Tallies) : (forInit D).Tallies ForInit.nodes := by
  intro c init c' h
  rcases forInit_ok.mp h with ⟨_, done⟩ | ⟨_, declares, c₁, ahead, rest⟩
  · cases done
    exact .nil (.refl _)
  · cases localVariablesAhead_stays hD.ahead ahead
    rcases rest with ⟨_, v, c₂, run, done⟩ | ⟨_, values, c₂, run, done⟩
    · cases done
      exact (localVariables_tallies hD run).around rfl
    · cases done
      exact expressions_tallies hD run

theorem forLoopRest_tally (hD : D.Tallies) {start : Span} {x : Statement}
    (h : forLoopRest D start c = .ok (x, c')) : Tally false [x.node] c c' := by
  obtain ⟨init, c₁, hi, semi, condition, c₂, hc, semi', update, c₃, hu, closed, body, c₄, hb,
    done⟩ := forLoopRest_ok.mp h
  cases done
  have hc := (optionalExpression_tallies hD hc).after (Cursor.silent_advance semi rfl)
  have hu := (expressionsBefore_tallies hD _ hu).after (Cursor.silent_advance semi' rfl)
  have hb := (hD.statement hb).after (Cursor.silent_advance closed rfl)
  exact ((((forInit_tallies hD hi).append hc).append hu).append hb).around rfl

theorem forStatement_tallies (hD : D.Tallies) : (forStatement D).Tallies fun s => [s.node] := by
  intro c x c' h
  obtain ⟨hk, opened, each, c₁, ahead, rest⟩ := forStatement_ok.mp h
  cases hD.ahead ahead
  have gap := (Cursor.silent_advance hk rfl).trans (Cursor.silent_advance opened rfl)
  rcases rest with ⟨_, run⟩ | ⟨_, run⟩
  · exact (forEachRest_tally hD run).after gap
  · exact (forLoopRest_tally hD run).after gap

/-! ## Exceptions -/

theorem catchClause?_tally (hD : D.Tallies) {clause : CatchClause}
    (h : catchClause? D c = .ok (some clause, c')) : Tally false [clause.node] c c' := by
  rcases catchClause?_ok.mp h with
    ⟨hk, opened, mods, c₁, type, c₂, name, c₃, hm, ht, hn, closed, body, c₄, hb, done⟩ | ⟨_, done⟩
  · cases done
    have gap := (Cursor.silent_advance hk rfl).trans (Cursor.silent_advance opened rfl)
    have hb := (block_tallies hD hb).after (Cursor.silent_advance closed rfl)
    have named := (identifier_tallies hn).cons hb
    have parts := (modifiers_tallies hm).append ((typeRef_tallies hD.typeRef ht).cons named)
    exact (parts.after gap).around rfl
  · cases done

theorem catches_tallies (hD : D.Tallies) :
    (itemsWhile (catchClause? D)).Tallies CatchClause.nodes := by
  intro c cs c' h
  rw [CatchClause.nodes_eq_map]
  exact tally_of_items (itemsWhile_items catchClause?_none h).1 fun run =>
    catchClause?_tally hD run

theorem tryStatement_tallies (hD : D.Tallies) : (tryStatement D).Tallies fun s => [s.node] := by
  intro c x c' h
  obtain ⟨hk, body, c₁, catches, c₂, hb, hc, rest⟩ := tryStatement_ok.mp h
  have hb := (block_tallies hD hb).after (Cursor.silent_advance hk rfl)
  have parts := hb.cons (catches_tallies hD hc)
  rcases rest with ⟨hfinally, last, c₃, hl, done⟩ | ⟨_, _, done⟩
  · cases done
    have hl := (block_tallies hD hl).after (Cursor.silent_advance hfinally rfl)
    exact (parts.append hl).around rfl
  · cases done
    exact parts.around rfl

/-! ## Simple statements -/

theorem returnStatement_tallies (hD : D.Tallies) :
    (returnStatement D).Tallies fun s => [s.node] := by
  intro c x c' h
  obtain ⟨hk, value, c₁, hv, ends, done⟩ := returnStatement_ok.mp h
  cases done
  have hv := (optionalExpression_tallies hD hv).after (Cursor.silent_advance hk rfl)
  exact (hv.before (Cursor.silent_advance ends rfl)).around rfl

theorem throwStatement_tallies (hD : D.Tallies) :
    (throwStatement D).Tallies fun s => [s.node] := by
  intro c x c' h
  obtain ⟨hk, value, c₁, hv, ends, done⟩ := throwStatement_ok.mp h
  cases done
  have hv := (hD.assignment hv).after (Cursor.silent_advance hk rfl)
  exact (hv.before (Cursor.silent_advance ends rfl)).around rfl

theorem keywordStatement_tallies {k : Keyword} {make : Span → Statement} {element : Span → Element}
    (hmake : ∀ span, (make span).node = .leaf (element span) span)
    (plain : ∀ span, (element span).isPlain = true) :
    (keywordStatement k make).Tallies fun s => [s.node] := by
  intro c x c' h
  obtain ⟨hk, ends, done⟩ := keywordStatement_ok.mp h
  cases done
  have gap := (Cursor.silent_advance hk rfl).trans (Cursor.silent_advance ends rfl)
  show Tally false [(make (c.advance.advance.spanFrom c.current.span)).node] c c.advance.advance
  rw [hmake]
  exact .leaf (plain _) gap.numberless

theorem dmlStatement_tallies (hD : D.Tallies) (k : Keyword) (op : DmlOp) :
    (dmlStatement D k op).Tallies fun s => [s.node] := by
  intro c x c' h
  obtain ⟨hk, target, c₁, ht, ends, done⟩ := dmlStatement_ok.mp h
  cases done
  have ht := (hD.assignment ht).after (Cursor.silent_advance hk rfl)
  exact (ht.before (Cursor.silent_advance ends rfl)).around rfl

theorem upsertStatement_tallies (hD : D.Tallies) :
    (upsertStatement D).Tallies fun s => [s.node] := by
  intro c x c' h
  obtain ⟨hk, target, c₁, ht, rest⟩ := upsertStatement_ok.mp h
  have ht := (hD.assignment ht).after (Cursor.silent_advance hk rfl)
  rcases rest with ⟨ends, done⟩ | ⟨_, key, c₂, hq, ends, done⟩
  · cases done
    exact (ht.before (Cursor.silent_advance ends rfl)).around rfl
  · cases done
    have hq := (qualifiedName_tallies hq).before (Cursor.silent_advance ends rfl)
    exact (ht.cons hq).around rfl

theorem mergeStatement_tallies (hD : D.Tallies) :
    (mergeStatement D).Tallies fun s => [s.node] := by
  intro c x c' h
  obtain ⟨hk, master, c₁, duplicate, c₂, hm, hd, ends, done⟩ := mergeStatement_ok.mp h
  cases done
  have hm := (hD.assignment hm).after (Cursor.silent_advance hk rfl)
  have hd := (hD.assignment hd).before (Cursor.silent_advance ends rfl)
  exact (hm.cons hd).around rfl

theorem runAsStatement_tallies (hD : D.Tallies) :
    (runAsStatement D).Tallies fun s => [s.node] := by
  intro c x c' h
  obtain ⟨system, dot, runAs, user, c₁, body, c₂, hu, hb, done⟩ := runAsStatement_ok.mp h
  cases done
  have words := (Cursor.numberless_of_spells system).trans
    ((Cursor.numberless_advance dot rfl).trans (Cursor.numberless_of_spells runAs))
  have parts := (parenthesized_tallies hD hu).cons (block_tallies hD hb)
  exact (parts.mono words (.refl _)).around rfl

theorem variablesStatement_tallies (hD : D.Tallies) :
    (variablesStatement D).Tallies fun s => [s.node] := by
  intro c x c' h
  obtain ⟨v, c₁, run, ends, done⟩ := variablesStatement_ok.mp h
  cases done
  exact ((localVariables_tallies hD run).before (Cursor.silent_advance ends rfl)).around rfl

theorem expressionStatement_tallies (hD : D.Tallies) :
    (expressionStatement D).Tallies fun s => [s.node] := by
  intro c x c' h
  obtain ⟨value, c₁, run, ends, done⟩ := expressionStatement_ok.mp h
  cases done
  exact ((hD.assignment run).before (Cursor.silent_advance ends rfl)).around rfl

theorem plainStatement_tallies (hD : D.Tallies) :
    (plainStatement D).Tallies fun s => [s.node] := by
  intro c x c' h
  rcases plainStatement_ok.mp h with ⟨_, body, c₁, run, done⟩ | ⟨hk, done⟩ | ⟨_, _, _, run⟩ |
    ⟨_, _, _, declares, c₁, ahead, rest⟩
  · cases done
    exact block_tallies hD run
  · cases done
    exact .leaf rfl (Cursor.numberless_advance hk rfl)
  · exact runAsStatement_tallies hD run
  · cases localVariablesAhead_stays hD.ahead ahead
    rcases rest with ⟨_, run⟩ | ⟨_, run⟩
    · exact variablesStatement_tallies hD run
    · exact expressionStatement_tallies hD run

theorem statement_tallies (hD : D.Tallies) : (statement D).Tallies fun s => [s.node] := by
  refine tallies_of_kind fun k => ?_
  split
  · exact ifStatement_tallies hD
  · exact whileStatement_tallies hD
  · exact doStatement_tallies hD
  · exact forStatement_tallies hD
  · exact tryStatement_tallies hD
  · exact returnStatement_tallies hD
  · exact throwStatement_tallies hD
  · exact keywordStatement_tallies (fun _ => rfl) fun _ => rfl
  · exact keywordStatement_tallies (fun _ => rfl) fun _ => rfl
  · exact dmlStatement_tallies hD _ _
  · exact dmlStatement_tallies hD _ _
  · exact dmlStatement_tallies hD _ _
  · exact dmlStatement_tallies hD _ _
  · exact upsertStatement_tallies hD
  · exact mergeStatement_tallies hD
  · exact plainStatement_tallies hD

end Grammar

end Apex
