import Apex.Grammar.Statement
import Apex.Proofs.Blur.Expressions

/-!
# Statements through a blur

Statements are read without seeing through a blur. Whether a declaration of variables lies ahead
is found by reading one, so that cannot see through the blur either.
-/

namespace Apex

/-- The link blurred. -/
def Grammar.IfLink.blur (b : Blur) (link : Grammar.IfLink) : Grammar.IfLink :=
  ⟨b.span link.start, link.condition.blur b, link.yes.blur b⟩

namespace Grammar

open Apex.Parser Apex.Parser.Like

variable {b : Blur} {D : Deeper}

/-! ## Blocks and variables -/

theorem blockItem_like (h : D.Like b) :
    Like b (Statement.blur b) (blockItem D) (blockItem D) := by
  refine getBind fun c d like => ?_
  rw [like.atEnd]
  exact check (fail _) h.statement

theorem block_like (h : D.Like b) : Like b (Block.blur b) (block D) (block D) := by
  refine bind (expect rfl) fun start start' hs => ?_
  refine bind (itemsUntil rfl (blockItem_like h)) fun statements statements' ht => ?_
  refine bind (expect rfl) fun _ _ _ => bind (spanFrom hs) fun span span' same => pure ?_
  simp only [Block.blur, Statement.blurAll_eq_map, same, ht]

theorem declaratorFrom_like (h : D.Like b) {name name' : Ident}
    (hn : Ident.blur b name = Ident.blur b name') :
    Like b (Declarator.blur b) (declaratorFrom D name) (declaratorFrom D name') := by
  have close (value value' : Option Expr)
      (hv : value.map (Expr.blur b) = value'.map (Expr.blur b)) :
      Like b (Declarator.blur b) (do return ⟨← spanFrom name.span, name, value⟩)
        (do return ⟨← spanFrom name'.span, name', value'⟩) := by
    refine bind (spanFrom (Ident.span_like hn)) fun span span' same => pure ?_
    simp only [Declarator.blur, same, hn, hv]
  refine bindSame (accept rfl) fun initialized => ?_
  exact iteBind (map h.assignment fun _ _ => congrArg some) (pure rfl) close

theorem declarator_like (h : D.Like b) :
    Like b (Declarator.blur b) (declarator D) (declarator D) :=
  bind identifier fun _ _ hn => declaratorFrom_like h hn

theorem declarators_like (h : D.Like b) {first first' : Ident}
    (hf : Ident.blur b first = Ident.blur b first') :
    Like b (List.map (Declarator.blur b)) (declarators D first) (declarators D first') :=
  bind (declaratorFrom_like h hf) fun _ _ same => commaSeparatedFrom same (declarator_like h)

theorem localVariables_like (h : D.Like b) :
    Like b (LocalVariables.blur b) (localVariables D) (localVariables D) := by
  refine bind modifiers_like fun modifiers modifiers' hm => ?_
  refine bind (typeRef_like h.typeRef) fun type type' ht => bind identifier fun name name' hn => ?_
  refine bind (declarators_like h hn) fun declarators declarators' hd => pure ?_
  simp only [LocalVariables.blur, hm, ht, hd]

theorem localVariablesAhead_like (h : D.Like b) :
    Like b id (localVariablesAhead D) (localVariablesAhead D) := by
  have declared : Like b id
      (D.ahead fun argument => do
        let _ ← typeRef argument
        let _ ← Parser.identifier)
      (D.ahead fun argument => do
        let _ ← typeRef argument
        let _ ← Parser.identifier) :=
    h.ahead _ fun argument ha => bind (typeRef_like ha) fun _ _ _ =>
      bind identifier fun _ _ _ => pure rfl
  refine kindBind fun k k' hk => ?_
  cases hk with
  | name => exact declared
  | soql | sosl => exact pure rfl
  | refl =>
    split
    · exact pure rfl
    · exact declared
    · exact pure rfl

/-! ## Conditions and loops -/

theorem ifLink_like (h : D.Like b) {start start' : Span} (hs : b.span start = b.span start') :
    Like b (IfLink.blur b) (ifLink D start) (ifLink D start') := by
  refine bind (parenthesized_like h) fun condition condition' hc => ?_
  refine bind h.statement fun yes yes' hy => pure ?_
  simp only [IfLink.blur, hs, hc, hy]

theorem IfLink.statement_like {link link' : IfLink} {otherwise otherwise' : Option Statement}
    (hl : link.blur b = link'.blur b)
    (ho : otherwise.map (Statement.blur b) = otherwise'.map (Statement.blur b)) :
    Like b (Statement.blur b) (link.statement otherwise) (link'.statement otherwise') := by
  simp only [IfLink.blur, IfLink.mk.injEq] at hl
  obtain ⟨hs, hc, hy⟩ := hl
  refine bind (spanFrom hs) fun span span' same => ?_
  cases otherwise <;> cases otherwise' <;>
    simp only [Option.map, reduceCtorEq, Option.some.injEq] at ho <;> refine pure ?_
  · simp only [Statement.blur, same, hc, hy]
  · simp only [Statement.blur, same, hc, hy, ho]

theorem linkUp_like : ∀ {links links' : List IfLink} {otherwise otherwise' : Option Statement},
    links.map (IfLink.blur b) = links'.map (IfLink.blur b) →
    otherwise.map (Statement.blur b) = otherwise'.map (Statement.blur b) →
    Like b (Option.map (Statement.blur b)) (linkUp links otherwise) (linkUp links' otherwise')
  | [], [], _, _, _, ho => pure ho
  | link :: earlier, link' :: earlier', _, _, hl, ho => by
    simp only [List.map_cons, List.cons.injEq] at hl
    refine bind (IfLink.statement_like hl.1 ho) fun statement statement' hs => ?_
    exact linkUp_like hl.2 (congrArg some hs)

theorem elseChain_like (h : D.Like b) :
    Like b (Prod.map (List.map (IfLink.blur b)) (Option.map (Statement.blur b))) (elseChain D)
      (elseChain D) := by
  refine iterate (List.map (IfLink.blur b)) (fun links links' same => ?_) rfl
  refine bindSame (accept rfl) fun more => ite (bindSame (isAt rfl) fun again => ite ?_ ?_) ?_
  · refine nextBind fun t t' ht => bind (ifLink_like h ht.span) fun link link' hl => pure ?_
    simp only [Turn.map, List.map_cons, hl, same]
  · refine bind h.statement fun no no' hn => pure ?_
    simp only [Turn.map, Prod.map, Option.map, same, hn]
  · refine pure ?_
    simp only [Turn.map, Prod.map, Option.map, same]

theorem ifStatement_like (h : D.Like b) :
    Like b (Statement.blur b) (ifStatement D) (ifStatement D) := by
  refine bind (expect rfl) fun start start' hs => bind (ifLink_like h hs) fun first first' hf => ?_
  refine bind (elseChain_like h) fun chain chain' hc => ?_
  simp only [Prod.map, Prod.mk.injEq] at hc
  exact bind (linkUp_like hc.1 hc.2) fun _ _ ho => IfLink.statement_like hf ho

theorem whileStatement_like (h : D.Like b) :
    Like b (Statement.blur b) (whileStatement D) (whileStatement D) := by
  refine bind (expect rfl) fun start start' hs => ?_
  refine bind (parenthesized_like h) fun condition condition' hc => ?_
  refine bind h.statement fun body body' hb => bind (spanFrom hs) fun span span' same => pure ?_
  simp only [Statement.blur, same, hc, hb]

theorem doStatement_like (h : D.Like b) :
    Like b (Statement.blur b) (doStatement D) (doStatement D) := by
  refine bind (expect rfl) fun start start' hs => bind (block_like h) fun body body' hb => ?_
  refine bind (expect rfl) fun _ _ _ => ?_
  refine bind (parenthesized_like h) fun condition condition' hc => ?_
  refine bind (expect rfl) fun _ _ _ => bind (spanFrom hs) fun span span' same => pure ?_
  simp only [Statement.blur, same, hb, hc]

theorem forEachAhead_like (h : D.Like b) :
    Like b id (forEachAhead D) (forEachAhead D) := by
  refine h.ahead _ fun argument ha => bind modifiers_like fun _ _ _ => ?_
  refine bind (typeRef_like ha) fun _ _ _ => bind identifier fun _ _ _ => ?_
  exact bind (expect rfl) fun _ _ _ => pure rfl

theorem forEachRest_like (h : D.Like b) {start start' : Span} (hs : b.span start = b.span start') :
    Like b (Statement.blur b) (forEachRest D start) (forEachRest D start') := by
  refine bind modifiers_like fun modifiers modifiers' hm => ?_
  refine bind (typeRef_like h.typeRef) fun type type' ht => bind identifier fun name name' hn => ?_
  refine bind (expect rfl) fun _ _ _ => bind h.assignment fun items items' hi => ?_
  refine bind (expect rfl) fun _ _ _ => bind h.statement fun body body' hb => ?_
  refine bind (spanFrom hs) fun span span' same => pure ?_
  simp only [Statement.blur, same, hm, ht, hn, hi, hb]

theorem forInit_like (h : D.Like b) : Like b (ForInit.blur b) (forInit D) (forInit D) := by
  refine bindSame (isAt rfl) fun empty => ite (pure rfl) ?_
  refine bindSame (localVariablesAhead_like h) fun declares => ite ?_ ?_
  · refine bind here fun start start' hs => bind (localVariables_like h) fun locals locals' hl => ?_
    refine bind (spanFrom hs) fun span span' same => pure ?_
    simp only [ForInit.blur, same, hl]
  · refine bind (expressions_like h) fun values values' hv => pure ?_
    simp only [ForInit.blur, hv]

theorem forLoopRest_like (h : D.Like b) {start start' : Span} (hs : b.span start = b.span start') :
    Like b (Statement.blur b) (forLoopRest D start) (forLoopRest D start') := by
  refine bind (forInit_like h) fun init init' hi => bind (expect rfl) fun _ _ _ => ?_
  refine bind (optionalExpression_like h) fun condition condition' hc => ?_
  refine bind (expect rfl) fun _ _ _ => ?_
  refine bind (expressionsBefore_like h _) fun update update' hu => ?_
  refine bind (expect rfl) fun _ _ _ => bind h.statement fun body body' hb => ?_
  refine bind (spanFrom hs) fun span span' same => pure ?_
  simp only [Statement.blur, same, hi, hc, hu, hb]

theorem forStatement_like (h : D.Like b) :
    Like b (Statement.blur b) (forStatement D) (forStatement D) := by
  refine bind (expect rfl) fun start start' hs => bind (expect rfl) fun _ _ _ => ?_
  refine bindSame (forEachAhead_like h) fun each => ?_
  exact ite (forEachRest_like h hs) (forLoopRest_like h hs)

/-! ## Exceptions -/

theorem catchClause?_like (h : D.Like b) :
    Like b (Option.map (CatchClause.blur b)) (catchClause? D) (catchClause? D) := by
  refine bind here fun start start' hs => bindSame (accept rfl) fun caught => ite ?_ (pure rfl)
  refine bind (expect rfl) fun _ _ _ => bind modifiers_like fun modifiers modifiers' hm => ?_
  refine bind (typeRef_like h.typeRef) fun type type' ht => bind identifier fun name name' hn => ?_
  refine bind (expect rfl) fun _ _ _ => bind (block_like h) fun body body' hb => ?_
  refine bind (spanFrom hs) fun span span' same => pure ?_
  simp only [Option.map, CatchClause.blur, same, hm, ht, hn, hb]

theorem tryStatement_like (h : D.Like b) :
    Like b (Statement.blur b) (tryStatement D) (tryStatement D) := by
  refine bind (expect rfl) fun start start' hs => bind (block_like h) fun body body' hb => ?_
  refine bind (itemsWhile (catchClause?_like h)) fun catches catches' hc => ?_
  refine bindSame (accept rfl) fun finally? => ite ?_ ?_
  · refine bind (block_like h) fun last last' hl => ?_
    refine bind (spanFrom hs) fun span span' same => pure ?_
    simp only [Statement.blur, CatchClause.blurAll_eq_map, same, hb, hc, hl]
  · have empty : catches.isEmpty = catches'.isEmpty := by
      rw [← List.isEmpty_map (f := CatchClause.blur b), hc, List.isEmpty_map]
    rw [empty]
    refine check (fail _) (bind (spanFrom hs) fun span span' same => pure ?_)
    simp only [Statement.blur, CatchClause.blurAll_eq_map, same, hb, hc]

/-! ## Simple statements -/

/-- A semicolon and the span up to it close a statement. -/
theorem closed_like {start start' : Span} (hs : b.span start = b.span start')
    {make make' : Span → Statement}
    (same : ∀ span span', b.span span = b.span span' → (make span).blur b = (make' span').blur b) :
    Like b (Statement.blur b)
      (do let _ ← Parser.expect (.punctuation .semicolon)
          return make (← Parser.spanFrom start))
      (do let _ ← Parser.expect (.punctuation .semicolon)
          return make' (← Parser.spanFrom start')) :=
  bind (expect rfl) fun _ _ _ => bind (spanFrom hs) fun _ _ hspan => pure (same _ _ hspan)

theorem returnStatement_like (h : D.Like b) :
    Like b (Statement.blur b) (returnStatement D) (returnStatement D) := by
  refine bind (expect rfl) fun start start' hs => ?_
  refine bind (optionalExpression_like h) fun value value' hv => closed_like hs fun _ _ same => ?_
  simp only [Statement.blur, same, hv]

theorem throwStatement_like (h : D.Like b) :
    Like b (Statement.blur b) (throwStatement D) (throwStatement D) := by
  refine bind (expect rfl) fun start start' hs => bind h.assignment fun value value' hv => ?_
  refine closed_like hs fun _ _ same => ?_
  simp only [Statement.blur, same, hv]

theorem keywordStatement_like (k : Keyword) {make : Span → Statement}
    (hm : ∀ span, (make span).blur b = make (b.span span)) :
    Like b (Statement.blur b) (keywordStatement k make) (keywordStatement k make) := by
  refine bind (expect rfl) fun start start' hs => closed_like hs fun _ _ same => ?_
  rw [hm, hm, same]

theorem dmlStatement_like (h : D.Like b) (k : Keyword) (op : DmlOp) :
    Like b (Statement.blur b) (dmlStatement D k op) (dmlStatement D k op) := by
  refine bind (expect rfl) fun start start' hs => bind h.assignment fun target target' ht => ?_
  refine closed_like hs fun _ _ same => ?_
  simp only [Statement.blur, same, ht]

theorem upsertStatement_like (h : D.Like b) :
    Like b (Statement.blur b) (upsertStatement D) (upsertStatement D) := by
  refine bind (expect rfl) fun start start' hs => bind h.assignment fun target target' ht => ?_
  have close (key key' : Option QualifiedName)
      (hk : key.map (QualifiedName.blur b) = key'.map (QualifiedName.blur b)) :
      Like b (Statement.blur b)
        (do let _ ← Parser.expect (.punctuation .semicolon)
            return .upsert (← Parser.spanFrom start) target key)
        (do let _ ← Parser.expect (.punctuation .semicolon)
            return .upsert (← Parser.spanFrom start') target' key') := by
    refine closed_like hs fun _ _ same => ?_
    simp only [Statement.blur, same, ht, hk]
  refine bindSame (isAt rfl) fun keyless => ?_
  exact iteBind (pure rfl) (map qualifiedName fun _ _ => congrArg some) close

theorem mergeStatement_like (h : D.Like b) :
    Like b (Statement.blur b) (mergeStatement D) (mergeStatement D) := by
  refine bind (expect rfl) fun start start' hs => bind h.assignment fun master master' hm => ?_
  refine bind h.assignment fun duplicate duplicate' hd => closed_like hs fun _ _ same => ?_
  simp only [Statement.blur, same, hm, hd]

theorem runAsAhead_like {c d : Cursor} (like : c.Like b d) : runAsAhead c = runAsAhead d := by
  unfold runAsAhead
  rw [like.current.kind.spells, (like.peek 1).kind.beq_eq rfl, (like.peek 2).kind.spells,
    (like.peek 3).kind.beq_eq rfl]

theorem runAsStatement_like (h : D.Like b) :
    Like b (Statement.blur b) (runAsStatement D) (runAsStatement D) := by
  refine bind (expectWord _) fun start start' hs => bind (expect rfl) fun _ _ _ => ?_
  refine bind (expectWord _) fun _ _ _ => bind (parenthesized_like h) fun user user' hu => ?_
  refine bind (block_like h) fun body body' hb => bind (spanFrom hs) fun span span' same => pure ?_
  simp only [Statement.blur, same, hu, hb]

theorem variablesStatement_like (h : D.Like b) :
    Like b (Statement.blur b) (variablesStatement D) (variablesStatement D) := by
  refine bind here fun start start' hs => bind (localVariables_like h) fun locals locals' hl => ?_
  refine closed_like hs fun _ _ same => ?_
  simp only [Statement.blur, same, hl]

theorem expressionStatement_like (h : D.Like b) :
    Like b (Statement.blur b) (expressionStatement D) (expressionStatement D) := by
  refine bind here fun start start' hs => bind h.assignment fun value value' hv => ?_
  refine closed_like hs fun _ _ same => ?_
  simp only [Statement.blur, same, hv]

theorem plainStatement_like (h : D.Like b) :
    Like b (Statement.blur b) (plainStatement D) (plainStatement D) := by
  refine bindSame (isAt rfl) fun opened => ite ?_ (bindSame (isAt rfl) fun empty => ite ?_ ?_)
  · refine bind (block_like h) fun body body' hb => pure ?_
    simp only [Statement.blur, hb]
  · refine nextBind fun t t' ht => pure ?_
    simp only [Statement.blur, ht.span]
  · refine getBind fun c d like => ?_
    rw [runAsAhead_like like]
    refine ite (runAsStatement_like h) (bindSame (localVariablesAhead_like h) fun declares => ?_)
    exact ite (variablesStatement_like h) (expressionStatement_like h)

theorem statement_like (h : D.Like b) :
    Like b (Statement.blur b) (statement D) (statement D) := by
  refine kindBind fun k k' hk => ?_
  cases hk with
  | name | soql | sosl => exact plainStatement_like h
  | refl =>
    split
    · exact ifStatement_like h
    · exact whileStatement_like h
    · exact doStatement_like h
    · exact forStatement_like h
    · exact tryStatement_like h
    · exact returnStatement_like h
    · exact throwStatement_like h
    · exact keywordStatement_like _ fun _ => rfl
    · exact keywordStatement_like _ fun _ => rfl
    · exact dmlStatement_like h _ _
    · exact dmlStatement_like h _ _
    · exact dmlStatement_like h _ _
    · exact dmlStatement_like h _ _
    · exact upsertStatement_like h
    · exact mergeStatement_like h
    · exact plainStatement_like h

end Grammar

end Apex
