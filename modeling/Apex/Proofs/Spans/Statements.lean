import Apex.Proofs.Reading.Statements
import Apex.Proofs.Spans.Expressions

/-!
# Where statements sit

The node of a statement sits on the tokens that the statement is read from. The conditionals of a
chain of `else if` all end where the chain ends, each around what stands behind its `else`.
-/

namespace Apex

theorem Statement.nodes_eq_map (ss : List Statement) :
    Statement.nodes ss = ss.map Statement.node := by
  induction ss with
  | nil => rfl
  | cons s ss ih => rw [Statement.nodes, ih, List.map_cons]

theorem CatchClause.nodes_eq_map (cs : List CatchClause) :
    CatchClause.nodes cs = cs.map CatchClause.node := by
  induction cs with
  | nil => rfl
  | cons c cs ih => rw [CatchClause.nodes, ih, List.map_cons]

namespace Grammar

open Apex.Parser Node

variable {D : Deeper} {c c₀ c₁ c' : Cursor}

/-! ## Blocks and variables -/

theorem blockItem_sits (hD : D.Sits) : (blockItem D).Sits Statement.node :=
  fun _ _ _ s run => hD.statement s (blockItem_ok.mp run).2

theorem block_sits (hD : D.Sits) : (block D).Sits Block.node := by
  intro c b c' s h
  obtain ⟨opened, statements, c₁, run, closed, done⟩ := block_ok.mp h
  cases done
  have row : Row (Statement.nodes statements) c.advance c₁ := by
    rw [Statement.nodes_eq_map]
    exact itemsUntil_rows (blockItem_sits hD).rows _ s.advance run
  exact sits_of_first rfl s (lead_of_kind opened rfl nofun)
    (row.mono (.refl _) (Cursor.silent_advance closed rfl))

theorem declaratorFrom_sits (hD : D.Sits) {name : Ident} {d : Declarator} (s₀ : c₀.Sorted)
    (hn : name.identifierNode.Sits c₀ c) (h : declaratorFrom D name c = .ok (d, c')) :
    d.node.Sits c₀ c' := by
  have s := hn.before.sorted s₀
  rcases declaratorFrom_ok.mp h with ⟨equals, value, c₁, run, done⟩ | ⟨_, done⟩
  · cases done
    have hv := (hD.assignment s.advance run).row.mono (Cursor.silent_advance equals rfl) (.refl _)
    exact sits_of_row rfl (hn.before.trans_upto hv.upto) (hn.spanFrom_eq s₀ hv.upto) (hn.cons hv)
  · cases done
    exact sits_of_row rfl hn.before (hn.spanFrom_eq s₀ (.refl _)) hn.row

theorem declarator_sits (hD : D.Sits) : (declarator D).Sits Declarator.node := by
  intro c d c' s h
  obtain ⟨name, c₁, first, run⟩ := declarator_ok.mp h
  exact declaratorFrom_sits hD s (identifier_sits s first) run

theorem declarators_row (hD : D.Sits) {name : Ident} {ds : List Declarator} (s₀ : c₀.Sorted)
    (hn : name.identifierNode.Sits c₀ c) (h : declarators D name c = .ok (ds, c')) :
    Row (ds.map Declarator.node) c₀ c' := by
  obtain ⟨first, c₁, run, rest⟩ := declarators_ok.mp h
  have hf := declaratorFrom_sits hD s₀ hn run
  obtain ⟨more, rfl, items, _⟩ := commaSeparatedFrom_items rest
  exact hf.cons (commaItems_row (declarator_sits hD).rows (hf.before.sorted s₀) items)

theorem localVariables_row (hD : D.Sits) {v : LocalVariables} (s : c.Sorted)
    (h : localVariables D c = .ok (v, c')) : c.Before c' ∧ Row v.nodes c c' := by
  obtain ⟨mods, c₁, type, c₂, name, c₃, ds, c₄, hm, ht, hn, run, done⟩ := localVariables_ok.mp h
  cases done
  have hm := modifiers_rows s hm
  have s₁ := hm.upto.sorted s
  have ht := typeRef_sits hD.typeRef s₁ ht
  have s₂ := ht.before.sorted s₁
  have row := declarators_row hD s₂ (identifier_sits s₂ hn) run
  exact ⟨hm.upto.trans_before (ht.before.trans_upto row.upto), hm.append (ht.cons row)⟩

theorem localVariablesAhead_stays
    (stays : ∀ {look c found c'}, D.ahead look c = .ok (found, c') → c' = c) {found : Bool}
    (h : localVariablesAhead D c = .ok (found, c')) : c' = c := by
  rw [localVariablesAhead, kind_bind_ok] at h
  cases hk : c.current.kind with
  | name text =>
    rw [hk] at h
    exact stays h
  | _ =>
    rw [hk] at h
    cases h
    rfl

/-! ## Conditions and loops -/

/-- The link starts at one place and what it holds reaches to another one. -/
inductive LinkSits (link : IfLink) (c c' : Cursor) : Prop where
  | mk {c₁ : Cursor} (sorted : c.Sorted) (start : link.start = c.current.span) (first : c.Lead c₁)
    (row : Row [link.condition.node, link.yes.node] c₁ c')

theorem LinkSits.sorted {link : IfLink} (h : LinkSits link c c') : c'.Sorted := by
  obtain ⟨s, _, first, row⟩ := h
  exact row.upto.sorted (first.sorted s)

theorem ifLink_sits (hD : D.Sits) {link : IfLink} (s : c₀.Sorted) (first : c₀.Lead c)
    (h : ifLink D c₀.current.span c = .ok (link, c')) : LinkSits link c₀ c' := by
  obtain ⟨condition, c₁, yes, c₂, hc, hy, done⟩ := ifLink_ok.mp h
  cases done
  have hc := parenthesized_rows hD (first.sorted s) hc
  have hy := hD.statement (hc.upto.sorted (first.sorted s)) hy
  exact .mk s rfl first (hc.append hy.row)

/-- The links of a chain, the last one first. -/
inductive ChainSits : List IfLink → Cursor → Cursor → Prop where
  | nil (c : Cursor) : ChainSits [] c c
  | cons {link : IfLink} {earlier : List IfLink} {c₀ c c₁ c' : Cursor}
    (before : ChainSits earlier c₀ c) (gap : c.Silent c₁) (last : LinkSits link c₁ c') :
    ChainSits (link :: earlier) c₀ c'

/-- A conditional reaches around what stands behind its `else`. -/
theorem LinkSits.close_sits {link : IfLink} {otherwise : Option Statement} (h : LinkSits link c₀ c)
    (rest : Row (otherwise.map Statement.node).toList c c') :
    (link.close c' otherwise).node.Sits c₀ c' := by
  obtain ⟨s, start, first, row⟩ := h
  have row := row.append rest
  cases otherwise with
  | none =>
    rw [IfLink.close, start]
    exact sits_of_first rfl s first row
  | some no =>
    rw [IfLink.close, start]
    exact sits_of_first rfl s first row

theorem ChainSits.closeLinks_row {links : List IfLink} {otherwise : Option Statement}
    (h : ChainSits links c₀ c) (rest : Row (otherwise.map Statement.node).toList c c') :
    Row ((closeLinks c' links otherwise).map Statement.node).toList c₀ c' := by
  induction h generalizing otherwise with
  | nil => exact rest
  | cons _ gap last ih => exact ih ((last.close_sits rest).row.mono gap (.refl _))

theorem elseChain_sits (hD : D.Sits) {chain : List IfLink × Option Statement} (s : c.Sorted)
    (h : elseChain D c = .ok (chain, c')) :
    ∃ c₁, ChainSits chain.1 c c₁ ∧ Row (chain.2.map Statement.node).toList c₁ c' := by
  have loop : ∀ {links chain} {d d' : Cursor}, Iterates (elseStep D) links d chain d' → d.Sorted →
      ∀ {d₀}, ChainSits links d₀ d →
      ∃ d₁, ChainSits chain.1 d₀ d₁ ∧ Row (chain.2.map Statement.node).toList d₁ d' := by
    intro links chain d d' run
    induction run with
    | done run =>
      intro s d₀ h
      rcases elseStep_ok.mp run with ⟨_, _, _, _, _, turn⟩ | ⟨helse, _, last, _, read, turn⟩ |
        ⟨_, turn⟩
      · cases turn
      · cases turn
        have hl := hD.statement s.advance read
        exact ⟨_, h, hl.row.mono (Cursor.silent_advance helse rfl) (.refl _)⟩
      · cases turn
        exact ⟨_, h, .nil (.refl _)⟩
    | again run _ ih =>
      intro s d₀ h
      rcases elseStep_ok.mp run with ⟨helse, hif, link, _, read, turn⟩ | ⟨_, _, _, _, _, turn⟩ |
        ⟨_, turn⟩
      · cases turn
        have hl := ifLink_sits hD s.advance (lead_of_kind hif rfl nofun) read
        exact ih hl.sorted (.cons h (Cursor.silent_advance helse rfl) hl)
      · cases turn
      · cases turn
  exact loop (iterates_of_iterate h) s (.nil c)

theorem ifStatement_sits (hD : D.Sits) : (ifStatement D).Sits Statement.node := by
  intro c x c' s h
  obtain ⟨hif, first, c₁, chain, c₂, run, rest, done⟩ := ifStatement_ok.mp h
  cases done
  have hf := ifLink_sits hD s (lead_of_kind hif rfl nofun) run
  obtain ⟨c₃, hc, ho⟩ := elseChain_sits hD hf.sorted rest
  exact hf.close_sits (hc.closeLinks_row ho)

theorem whileStatement_sits (hD : D.Sits) : (whileStatement D).Sits Statement.node := by
  intro c x c' s h
  obtain ⟨hk, condition, c₁, body, c₂, hc, hb, done⟩ := whileStatement_ok.mp h
  cases done
  have hc := parenthesized_rows hD s.advance hc
  have hb := hD.statement (hc.upto.sorted s.advance) hb
  exact sits_of_first rfl s (lead_of_kind hk rfl nofun) (hc.append hb.row)

theorem doStatement_sits (hD : D.Sits) : (doStatement D).Sits Statement.node := by
  intro c x c' s h
  obtain ⟨hk, body, c₁, hb, again, condition, c₂, hc, ends, done⟩ := doStatement_ok.mp h
  cases done
  have hb := block_sits hD s.advance hb
  have s₁ := hb.before.sorted s.advance
  have hc := parenthesized_rows hD s₁.advance hc
  exact sits_of_first rfl s (lead_of_kind hk rfl nofun)
    (hb.cons (hc.mono (Cursor.silent_advance again rfl) (Cursor.silent_advance ends rfl)))

theorem forEachRest_sits (hD : D.Sits) {x : Statement} (s : c₀.Sorted) (first : c₀.Lead c)
    (h : forEachRest D c₀.current.span c = .ok (x, c')) : x.node.Sits c₀ c' := by
  obtain ⟨mods, c₁, type, c₂, name, c₃, hm, ht, hn, colon, items, c₄, hi, closed, body, c₅, hb,
    done⟩ := forEachRest_ok.mp h
  cases done
  have sorted := first.sorted s
  have hm := modifiers_rows sorted hm
  have s₁ := hm.upto.sorted sorted
  have ht := typeRef_sits hD.typeRef s₁ ht
  have s₂ := ht.before.sorted s₁
  have hn := identifier_sits s₂ hn
  have s₃ := (hn.before.sorted s₂).advance
  have hi := hD.assignment s₃ hi
  have s₄ := (hi.before.sorted s₃).advance
  have hb := hD.statement s₄ hb
  have row := hi.cons (hb.row.mono (Cursor.silent_advance closed rfl) (.refl _))
  have row := hn.cons (row.mono (Cursor.silent_advance colon rfl) (.refl _))
  exact sits_of_first rfl s first (hm.append (ht.cons row))

theorem forInit_rows (hD : D.Sits) : (forInit D).Rows ForInit.nodes := by
  intro c init c' s h
  rcases forInit_ok.mp h with ⟨_, done⟩ | ⟨_, declares, c₁, ahead, rest⟩
  · cases done
    exact .nil (.refl _)
  · cases localVariablesAhead_stays hD.ahead ahead
    rcases rest with ⟨_, v, c₂, run, done⟩ | ⟨_, values, c₂, run, done⟩
    · cases done
      obtain ⟨before, row⟩ := localVariables_row hD s run
      exact Sits.row (sits_of_row rfl before (Cursor.spanFrom_current before s) row)
    · cases done
      exact expressions_rows hD s run

theorem forLoopRest_sits (hD : D.Sits) {x : Statement} (s : c₀.Sorted) (first : c₀.Lead c)
    (h : forLoopRest D c₀.current.span c = .ok (x, c')) : x.node.Sits c₀ c' := by
  obtain ⟨init, c₁, hi, semi, condition, c₂, hc, semi', update, c₃, hu, closed, body, c₄, hb,
    done⟩ := forLoopRest_ok.mp h
  cases done
  have sorted := first.sorted s
  have hi := forInit_rows hD sorted hi
  have s₁ := (hi.upto.sorted sorted).advance
  have hc := optionalExpression_rows hD s₁ hc
  have s₂ := (hc.upto.sorted s₁).advance
  have hu := expressionsBefore_rows hD _ s₂ hu
  have s₃ := (hu.upto.sorted s₂).advance
  have hb := hD.statement s₃ hb
  have row := hi.append (hc.mono (Cursor.silent_advance semi rfl) (.refl _))
  have row := row.append (hu.mono (Cursor.silent_advance semi' rfl) (.refl _))
  have row := row.append (hb.row.mono (Cursor.silent_advance closed rfl) (.refl _))
  exact sits_of_first rfl s first row

theorem forStatement_sits (hD : D.Sits) : (forStatement D).Sits Statement.node := by
  intro c x c' s h
  obtain ⟨hk, opened, each, c₁, ahead, rest⟩ := forStatement_ok.mp h
  cases hD.ahead ahead
  have first := (lead_of_kind hk rfl nofun).trans (Cursor.silent_advance opened rfl)
  rcases rest with ⟨_, run⟩ | ⟨_, run⟩
  · exact forEachRest_sits hD s first run
  · exact forLoopRest_sits hD s first run

/-! ## Exceptions -/

theorem catchClause?_sits (hD : D.Sits) {clause : CatchClause} (s : c.Sorted)
    (h : catchClause? D c = .ok (some clause, c')) : clause.node.Sits c c' := by
  rcases catchClause?_ok.mp h with
    ⟨hk, opened, mods, c₁, type, c₂, name, c₃, hm, ht, hn, closed, body, c₄, hb, done⟩ | ⟨_, done⟩
  · cases done
    have sorted := s.advance.advance
    have hm := modifiers_rows sorted hm
    have s₁ := hm.upto.sorted sorted
    have ht := typeRef_sits hD.typeRef s₁ ht
    have s₂ := ht.before.sorted s₁
    have hn := identifier_sits s₂ hn
    have s₃ := (hn.before.sorted s₂).advance
    have hb := block_sits hD s₃ hb
    have row := hn.cons (hb.row.mono (Cursor.silent_advance closed rfl) (.refl _))
    have first := (lead_of_kind hk rfl nofun).trans (Cursor.silent_advance opened rfl)
    exact sits_of_first rfl s first (hm.append (ht.cons row))
  · cases done

theorem catchClause?_none (h : catchClause? D c = .ok (none, c')) : c' = c := by
  rcases catchClause?_ok.mp h with ⟨_, _, _, _, _, _, _, _, _, _, _, _, _, _, _, done⟩ | ⟨_, done⟩
  · cases done
  · cases done
    rfl

theorem catches_rows (hD : D.Sits) :
    (itemsWhile (catchClause? D)).Rows CatchClause.nodes := by
  intro c cs c' s h
  rw [CatchClause.nodes_eq_map]
  exact row_of_items (itemsWhile_items catchClause?_none h).1 s fun s run =>
    (catchClause?_sits hD s run).row

theorem tryStatement_sits (hD : D.Sits) : (tryStatement D).Sits Statement.node := by
  intro c x c' s h
  obtain ⟨hk, body, c₁, catches, c₂, hb, hc, rest⟩ := tryStatement_ok.mp h
  have first := lead_of_kind hk rfl nofun
  have hb := block_sits hD s.advance hb
  have s₁ := hb.before.sorted s.advance
  have hc := catches_rows hD s₁ hc
  have row := hb.cons hc
  rcases rest with ⟨hfinally, last, c₃, hl, done⟩ | ⟨_, _, done⟩
  · cases done
    have hl := block_sits hD (hc.upto.sorted s₁).advance hl
    exact sits_of_first rfl s first
      (row.append (hl.row.mono (Cursor.silent_advance hfinally rfl) (.refl _)))
  · cases done
    exact sits_of_first rfl s first row

/-! ## Simple statements -/

theorem returnStatement_sits (hD : D.Sits) : (returnStatement D).Sits Statement.node := by
  intro c x c' s h
  obtain ⟨hk, value, c₁, hv, ends, done⟩ := returnStatement_ok.mp h
  cases done
  have hv := optionalExpression_rows hD s.advance hv
  exact sits_of_first rfl s (lead_of_kind hk rfl nofun)
    (hv.mono (.refl _) (Cursor.silent_advance ends rfl))

theorem throwStatement_sits (hD : D.Sits) : (throwStatement D).Sits Statement.node := by
  intro c x c' s h
  obtain ⟨hk, value, c₁, hv, ends, done⟩ := throwStatement_ok.mp h
  cases done
  have hv := (hD.assignment s.advance hv).row
  exact sits_of_first rfl s (lead_of_kind hk rfl nofun)
    (hv.mono (.refl _) (Cursor.silent_advance ends rfl))

theorem keywordStatement_sits {k : Keyword} {make : Span → Statement} {element : Span → Element}
    (hmake : ∀ span, (make span).node = .leaf (element span) span)
    (isLeaf : ∀ span, (element span).kind.isLeaf = true) :
    (keywordStatement k make).Sits Statement.node := by
  intro c x c' s h
  obtain ⟨hk, _, done⟩ := keywordStatement_ok.mp h
  cases done
  rw [hmake]
  have before := (before_of_kind hk nofun).trans_upto (Cursor.upto_advance _)
  exact sits_leaf (isLeaf _) before (Cursor.spanFrom_current before s)

theorem dmlStatement_sits (hD : D.Sits) (k : Keyword) (op : DmlOp) :
    (dmlStatement D k op).Sits Statement.node := by
  intro c x c' s h
  obtain ⟨hk, target, c₁, ht, ends, done⟩ := dmlStatement_ok.mp h
  cases done
  have ht := (hD.assignment s.advance ht).row
  exact sits_of_first rfl s (lead_of_kind hk rfl nofun)
    (ht.mono (.refl _) (Cursor.silent_advance ends rfl))

theorem upsertStatement_sits (hD : D.Sits) : (upsertStatement D).Sits Statement.node := by
  intro c x c' s h
  obtain ⟨hk, target, c₁, ht, rest⟩ := upsertStatement_ok.mp h
  have first := lead_of_kind hk rfl nofun
  have ht := hD.assignment s.advance ht
  rcases rest with ⟨ends, done⟩ | ⟨_, key, c₂, hq, ends, done⟩
  · cases done
    exact sits_of_first rfl s first (ht.row.mono (.refl _) (Cursor.silent_advance ends rfl))
  · cases done
    have hq := qualifiedName_sits (ht.before.sorted s.advance) hq
    exact sits_of_first rfl s first
      (ht.cons (hq.row.mono (.refl _) (Cursor.silent_advance ends rfl)))

theorem mergeStatement_sits (hD : D.Sits) : (mergeStatement D).Sits Statement.node := by
  intro c x c' s h
  obtain ⟨hk, master, c₁, duplicate, c₂, hm, hd, ends, done⟩ := mergeStatement_ok.mp h
  cases done
  have hm := hD.assignment s.advance hm
  have hd := hD.assignment (hm.before.sorted s.advance) hd
  exact sits_of_first rfl s (lead_of_kind hk rfl nofun)
    (hm.cons (hd.row.mono (.refl _) (Cursor.silent_advance ends rfl)))

theorem runAsStatement_sits (hD : D.Sits) : (runAsStatement D).Sits Statement.node := by
  intro c x c' s h
  obtain ⟨system, dot, runAs, user, c₁, body, c₂, hu, hb, done⟩ := runAsStatement_ok.mp h
  cases done
  have sorted := s.advance.advance.advance
  have hu := parenthesized_rows hD sorted hu
  have hb := block_sits hD (hu.upto.sorted sorted) hb
  have row := hu.append hb.row
  have first : c.Before c.advance.advance.advance :=
    (Cursor.before_advance (isEnd_of_spells system)).trans_upto
      ((Cursor.upto_advance _).trans (Cursor.upto_advance _))
  have before := first.trans_upto row.upto
  -- `System` and `runAs` belong to the statement itself.
  have words : ∀ {e : Element}, e.words = [.kwSystem, .kwRunAs] →
      c.Gap e.keeps c.advance.advance.advance := by
    intro e he
    have ends : c.advance.advance.Gap e.keeps c.advance.advance.advance :=
      Cursor.gap_advance (Element.keeps_of_spells (by simp [he]) runAs)
    have middle : c.advance.Gap e.keeps c.advance.advance :=
      (Cursor.silent_advance dot rfl).mono fun _ => Element.keeps_of_silent
    have starts : c.Gap e.keeps c.advance :=
      Cursor.gap_advance (Element.keeps_of_spells (by simp [he]) system)
    exact starts.trans (middle.trans ends)
  exact .mk nofun before (Cursor.spanFrom_current before s)
    ((Row.keeps row _).mono (words rfl) (.refl _))

theorem variablesStatement_sits (hD : D.Sits) : (variablesStatement D).Sits Statement.node := by
  intro c x c' s h
  obtain ⟨v, c₁, run, ends, done⟩ := variablesStatement_ok.mp h
  cases done
  obtain ⟨before, row⟩ := localVariables_row hD s run
  have behind := Cursor.silent_advance ends rfl
  have before := before.trans_upto behind.upto
  exact sits_of_row rfl before (Cursor.spanFrom_current before s)
    (row.mono (.refl _) behind)

theorem expressionStatement_sits (hD : D.Sits) : (expressionStatement D).Sits Statement.node := by
  intro c x c' s h
  obtain ⟨value, c₁, run, ends, done⟩ := expressionStatement_ok.mp h
  cases done
  have hv := hD.assignment s run
  have before := hv.before.trans_upto (Cursor.upto_advance c₁)
  exact sits_of_row rfl before (Cursor.spanFrom_current before s)
    (hv.row.mono (.refl _) (Cursor.silent_advance ends rfl))

theorem plainStatement_sits (hD : D.Sits) : (plainStatement D).Sits Statement.node := by
  intro c x c' s h
  rcases plainStatement_ok.mp h with ⟨_, body, c₁, run, done⟩ | ⟨hk, done⟩ | ⟨_, _, _, run⟩ |
    ⟨_, _, _, declares, c₁, ahead, rest⟩
  · cases done
    exact block_sits hD s run
  · cases done
    exact current_sits rfl (isEnd_of_kind hk nofun)
  · exact runAsStatement_sits hD s run
  · cases localVariablesAhead_stays hD.ahead ahead
    rcases rest with ⟨_, run⟩ | ⟨_, run⟩
    · exact variablesStatement_sits hD s run
    · exact expressionStatement_sits hD s run

theorem statement_sits (hD : D.Sits) : (statement D).Sits Statement.node := by
  refine sits_of_kind fun k => ?_
  split
  · exact ifStatement_sits hD
  · exact whileStatement_sits hD
  · exact doStatement_sits hD
  · exact forStatement_sits hD
  · exact tryStatement_sits hD
  · exact returnStatement_sits hD
  · exact throwStatement_sits hD
  · exact keywordStatement_sits (fun _ => rfl) fun _ => rfl
  · exact keywordStatement_sits (fun _ => rfl) fun _ => rfl
  · exact dmlStatement_sits hD _ _
  · exact dmlStatement_sits hD _ _
  · exact dmlStatement_sits hD _ _
  · exact dmlStatement_sits hD _ _
  · exact upsertStatement_sits hD
  · exact mergeStatement_sits hD
  · exact plainStatement_sits hD

end Grammar

end Apex
