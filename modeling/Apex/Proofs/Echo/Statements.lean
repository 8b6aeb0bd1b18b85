import Apex.Proofs.Echo.Expressions
import Apex.Proofs.Reading.Statements

/-!
# Reading statements again

A statement is read again from any row in which its forms stand. Whether a declaration or an
expression lies ahead is answered from the tokens behind the place as well, which go on alike.
-/

namespace Apex

open Grammar Apex.Parser

namespace Parser.EchoesAt

variable {α γ : Type} {e₀ e₁ : Edge} {read : List Form} {c : Cursor} {forms : α → List Form}
  {view : α → γ}

/-- A parser that only looks ahead, with one answer on both rows. -/
theorem look {look : Parser Bool} {f g : Bool → Parser α}
    (agree : ∀ {d}, e₀.Meets c d → ∃ b, look c = .ok (b, c) ∧ look d = .ok (b, d))
    (h : ∀ b, EchoesAt e₀ e₁ read c (f b) (g b) forms view) :
    EchoesAt e₀ e₁ read c (look >>= f) (look >>= g) forms view := by
  intro sound x c' run
  obtain ⟨_, c₁, ahead, rest⟩ := bind_ok.mp run
  obtain ⟨b, here, _⟩ := agree (.refl e₀ c)
  rw [here] at ahead
  cases ahead
  obtain ⟨F, all, stands, again⟩ := h _ sound rest
  refine ⟨F, all, stands, fun d d' sorted stands' meets => ?_⟩
  obtain ⟨begin, y, run', same⟩ := again sorted stands' meets
  obtain ⟨b', here', ahead'⟩ := agree begin
  rw [here] at here'
  cases here'
  exact ⟨begin, y, bind_ok.mpr ⟨_, d, ahead', run'⟩, same⟩

end Parser.EchoesAt

namespace Grammar

variable {D : Deeper} {c : Cursor}

/-! ## Blocks -/

theorem Statement.forms_ne_nil (s : Statement) : s.forms ≠ [] := by
  cases s with
  | block body =>
    cases body
    simp [Statement.forms, Block.forms, Form.braces]
  | upsert _ _ key => cases key <;> simp [Statement.forms]
  | _ => simp [Statement.forms]

theorem blockItem_echoes (hD : D.Echoes) :
    Echoes .loose .loose (blockItem D) Statement.forms (Statement.blur .erasing) := by
  intro c sound s c' run
  obtain ⟨inside, _⟩ := blockItem_ok.mp run
  refine (hD.statement c).instead (fun {r} run => (blockItem_ok.mp run).2)
    (fun {d r} meets run => blockItem_ok.mpr ⟨?_, run⟩) sound run
  exact (Token.isEnd_eq_of_shape_eq meets.shape).symm.trans inside

theorem block_echoes (hD : D.Echoes) :
    Echoes .tight .loose (block D) Block.forms (Block.blur .erasing) := by
  intro c
  refine .expect rfl (by simp) (by simp) fun {s t} => ?_
  have items := EchoesAt.itemsUntil (c := c.advance) (k := .punctuation .closeBrace) rfl rfl
    (fun {c} => blockItem_echoes hD c)
    (fun sound run => (blockItem_echoes hD _).before run sound (Statement.forms_ne_nil _))
  refine .bind items.atValue fun {ss ss' c₁} same => ?_
  refine .expect rfl (by simp) (by simp) fun {s t} => .spanFrom fun {s t} => .pure ?_ ?_
  · simp [Block.forms, Form.braces, List.flatMap_def]
  · simp only [Block.blur, Statement.blurAll_eq_map, Blur.erasing_span, same]

/-! ## Declarations of variables -/

theorem declaratorFrom_echoes (hD : D.Echoes) {n m : Ident}
    (same : Ident.blur .erasing n = Ident.blur .erasing m) :
    EchoesAt .loose .tight [.ident n] c (declaratorFrom D n) (declaratorFrom D m) Declarator.forms
      (Declarator.blur .erasing) := by
  refine .accept rfl rfl (by simp) (by simp) (fun _ => ?_) (fun _ => ?_)
  · simp only [if_true, bind_map_left]
    refine .bind ((hD.assignment _).begin _) fun {v w c₁} value => .spanFrom fun {s t} => .pure ?_ ?_
    · simp [Declarator.forms]
    · simp only [Declarator.blur, Blur.erasing_span, same, Option.map_some, value]
  · simp only [Bool.false_eq_true, if_false, pure_bind]
    refine EchoesAt.stop (.spanFrom fun {s t} => .pure rfl ?_)
    simp only [Declarator.blur, Blur.erasing_span, same, Option.map_none]

theorem declarator_echoes (hD : D.Echoes) :
    Echoes .tight .tight (declarator D) Declarator.forms (Declarator.blur .erasing) :=
  fun c => .bind (identifier_echoes c) fun same => declaratorFrom_echoes hD same

theorem declarators_echoes (hD : D.Echoes) {n m : Ident}
    (same : Ident.blur .erasing n = Ident.blur .erasing m) :
    EchoesAt .loose .tight [.ident n] c (declarators D n) (declarators D m)
      (fun ds => Form.commas (ds.map Declarator.forms)) (List.map (Declarator.blur .erasing)) := by
  refine .bindOn (declaratorFrom_echoes hD same) fun {d d' c₁} first => ?_
  exact .commaSeparatedFrom (fun {c} => (declarator_echoes hD c).begin _) first

theorem localVariables_echoes (hD : D.Echoes) :
    Echoes .loose .tight (localVariables D) LocalVariables.forms
      (LocalVariables.blur .erasing) := by
  intro c
  refine .bind (modifiers_echoes c) fun {ms ms' c₁} mods => ?_
  refine .bind ((typeRef_echoes hD.typeRef _).begin _) fun {x y c₂} type => ?_
  refine .bind ((identifier_echoes _).begin _) fun {n m c₃} name => ?_
  refine .bindOn (((declarators_echoes hD name).behind (modifierForms ms ++ x.forms)).reread
    (by simp)) fun {ds ds' c₄} vars => .pure ?_ ?_
  · simp [LocalVariables.forms]
  · simp only [LocalVariables.blur, mods, type, vars]

theorem localVariablesAhead_agree (hD : D.Echoes) {e : Edge} {d : Cursor} (meets : e.Meets c d) :
    ∃ b, localVariablesAhead D c = .ok (b, c) ∧ localVariablesAhead D d = .ok (b, d) := by
  -- Only a name needs a look at what stands behind it.
  have plain : ∀ {c : Cursor}, c.current.kind.isName = false → localVariablesAhead D c =
      .ok ((c.current.kind.keyword?.bind Modifier.ofKeyword?).isSome, c) := by
    intro c other
    rw [localVariablesAhead, kind_bind_ok]
    cases hk : c.current.kind with
    | name => simp [hk, TokenKind.isName] at other
    | _ => rfl
  have names := meets.isName_eq
  cases hk : c.current.kind with
  | name v =>
    obtain ⟨w, hd⟩ : ∃ w, d.current.kind = .name w := by
      cases hd : d.current.kind <;> simp_all [TokenKind.isName]
    have mirrors : ∀ {argument : Parser TypeRef}, Mirrors argument argument (fun _ => ()) →
        Mirrors (typeRef argument >>= fun _ => identifier >>= fun _ => pure ())
          (typeRef argument >>= fun _ => identifier >>= fun _ => pure ()) fun _ => () :=
      fun h => .bind (typeRef_mirrors h) fun _ => .bind .identifier fun _ => .pure rfl
    obtain ⟨found, here, there⟩ := hD.ahead mirrors meets.value
    refine ⟨found, ?_, ?_⟩
    · rw [localVariablesAhead, kind_bind_ok, hk]
      exact here
    · rw [localVariablesAhead, kind_bind_ok, hd]
      exact there
  | _ =>
    have other : c.current.kind.isName = false := by rw [hk]; rfl
    refine ⟨_, plain other, ?_⟩
    rw [plain (names ▸ other), meets.keyword?_eq]

/-! ## Conditions and loops -/

/-- What two links have in common. -/
def IfLink.view (link : IfLink) : Expr × Statement :=
  (link.condition.blur .erasing, link.yes.blur .erasing)

/-- What a link behind an `else` stands for. -/
def IfLink.forms (link : IfLink) : List Form :=
  .keyword .kwElse :: .keyword .kwIf :: Form.parens link.condition.forms ++ link.yes.forms

/-- What an `else` with the statement behind it stands for, if there is one. -/
def elseForms : Option Statement → List Form
  | some no => .keyword .kwElse :: no.forms
  | none => []

/-- What a chain of links, the last one first, and what stands behind the last `else` stand for. -/
def chainForms (chain : List IfLink × Option Statement) : List Form :=
  chain.1.reverse.flatMap IfLink.forms ++ elseForms chain.2

theorem ifLink_echoes (hD : D.Echoes) {s t : Span} (read : List Form) :
    EchoesAt .loose .loose read c (ifLink D s) (ifLink D t)
      (fun link => read ++ Form.parens link.condition.forms ++ link.yes.forms) IfLink.view := by
  refine .bind ((parenthesized_echoes hD c).begin _) fun {x y c₁} condition => ?_
  refine .bind (hD.statement c₁) fun {z w c₂} yes => .pure rfl ?_
  simp only [IfLink.view, condition, yes]

theorem elseStep_echoes (hD : D.Echoes) {links links' : List IfLink}
    (same : links.map IfLink.view = links'.map IfLink.view) :
    EchoesAt .loose .loose (links.reverse.flatMap IfLink.forms) c (elseStep D links)
      (elseStep D links')
      (Turn.forms (fun links => links.reverse.flatMap IfLink.forms) chainForms)
      (Turn.map (List.map IfLink.view)
        (Prod.map (List.map IfLink.view) (Option.map (Statement.blur .erasing)))) := by
  refine .accept rfl rfl (by simp) (by simp) (fun _ => ?_) (fun _ => .pure ?_ ?_)
  · refine .isAt rfl rfl (fun if' => .next if' (by simp) (by simp) fun {s t} => ?_) (fun _ => ?_)
    · refine .bindOn (ifLink_echoes hD _) fun {link link' c₁} head => .pure ?_ ?_
      · simp [Turn.forms, IfLink.forms]
      · simp only [Turn.map, List.map_cons, same, head]
    · refine .bind (hD.statement _) fun {x y c₁} last => .pure ?_ ?_
      · simp [Turn.forms, chainForms, elseForms]
      · simp only [Turn.map, Prod.map, same, Option.map_some, last]
  · simp [Turn.forms, chainForms, elseForms]
  · simp only [Turn.map, Prod.map, same, Option.map_none]

theorem elseStep_before (hD : D.Echoes) {links links' : List IfLink} {c₁ : Cursor}
    (sound : c.Sound) (run : elseStep D links c = .ok (.again links', c₁)) : c.Before c₁ := by
  refine (elseStep_echoes hD rfl).before run sound fun same => ?_
  rcases elseStep_ok.mp run with ⟨_, _, _, _, _, turn⟩ | ⟨_, _, _, _, _, turn⟩ | ⟨_, turn⟩
  all_goals
    cases turn
    try simp [Turn.forms, IfLink.forms] at same

theorem elseChain_echoes (hD : D.Echoes) :
    Echoes .loose .loose (elseChain D) chainForms
      (Prod.map (List.map IfLink.view) (Option.map (Statement.blur .erasing))) := by
  intro c
  exact .iterate (fun links => links.reverse.flatMap IfLink.forms) (List.map IfLink.view) (s := [])
    (elseStep_echoes hD) (fun sound run => elseStep_before hD sound run) rfl

theorem IfLink.close_forms (link : IfLink) (c : Cursor) (otherwise : Option Statement) :
    (link.close c otherwise).forms =
      .keyword .kwIf :: Form.parens link.condition.forms ++ link.yes.forms ++ elseForms otherwise := by
  cases otherwise <;> simp [IfLink.close, Statement.forms, elseForms]

theorem closeLinks_forms (c : Cursor) (links : List IfLink) (otherwise : Option Statement) :
    elseForms (closeLinks c links otherwise) = chainForms (links, otherwise) := by
  induction links generalizing otherwise with
  | nil => rfl
  | cons link links ih =>
    rw [closeLinks, ih]
    simp [chainForms, elseForms, IfLink.forms, IfLink.close_forms]

theorem IfLink.close_view {link link' : IfLink} {c d : Cursor} {o o' : Option Statement}
    (same : link.view = link'.view)
    (last : o.map (Statement.blur .erasing) = o'.map (Statement.blur .erasing)) :
    (link.close c o).blur .erasing = (link'.close d o').blur .erasing := by
  obtain ⟨condition, yes⟩ := Prod.mk.inj same
  cases o <;> cases o' <;>
    simp_all [IfLink.close, Statement.blur]

theorem closeLinks_view {c d : Cursor} {links links' : List IfLink} {o o' : Option Statement}
    (same : links.map IfLink.view = links'.map IfLink.view)
    (last : o.map (Statement.blur .erasing) = o'.map (Statement.blur .erasing)) :
    (closeLinks c links o).map (Statement.blur .erasing) =
      (closeLinks d links' o').map (Statement.blur .erasing) := by
  induction links generalizing links' o o' with
  | nil =>
    obtain rfl : links' = [] := by simpa using same.symm
    exact last
  | cons link links ih =>
    cases links' with
    | nil => cases same
    | cons link' links' =>
      obtain ⟨head, tail⟩ := List.cons.inj same
      rw [closeLinks, closeLinks]
      exact ih tail (congrArg some (IfLink.close_view head last))

theorem ifStatement_echoes (hD : D.Echoes) :
    Echoes .loose .loose (ifStatement D) Statement.forms (Statement.blur .erasing) := by
  intro c
  refine .expect rfl (by simp) (by simp) fun {s t} => ?_
  refine .bindOn (ifLink_echoes hD _) fun {first first' c₁} head => ?_
  refine .bind (elseChain_echoes hD c₁) fun {chain chain' c₂} same => ?_
  obtain ⟨links, last⟩ := Prod.mk.inj same
  -- Linking up reads nothing.
  intro sound x c' run
  cases IfLink.statement_ok.mp (linkUp_bind_ok.mp run)
  refine ⟨[], ?_, rfl, ?_⟩
  · simp [IfLink.close_forms, closeLinks_forms]
  · rintro d _ sorted rfl meets
    exact ⟨meets, _, linkUp_bind_ok.mpr (IfLink.statement_ok.mpr rfl),
      IfLink.close_view head (closeLinks_view links last)⟩

theorem whileStatement_echoes (hD : D.Echoes) :
    Echoes .loose .loose (whileStatement D) Statement.forms (Statement.blur .erasing) := by
  intro c
  refine .expect rfl (by simp) (by simp) fun {s t} => ?_
  refine .bind ((parenthesized_echoes hD _).begin _) fun {x y c₁} condition => ?_
  refine .bind (hD.statement c₁) fun {b b' c₂} body => .spanFrom fun {s t} => .pure ?_ ?_
  · simp [Statement.forms]
  · simp only [Statement.blur, Blur.erasing_span, condition, body]

theorem doStatement_echoes (hD : D.Echoes) :
    Echoes .loose .loose (doStatement D) Statement.forms (Statement.blur .erasing) := by
  intro c
  refine .expect rfl (by simp) (by simp) fun {s t} => ?_
  refine .bind ((block_echoes hD _).begin _) fun {b b' c₁} body => ?_
  refine .expect rfl (by simp) (by simp) fun {s t} => ?_
  refine .bind ((parenthesized_echoes hD _).begin _) fun {x y c₂} condition => ?_
  refine .expect rfl (by simp) (by simp) fun {s t} => .spanFrom fun {s t} => .pure ?_ ?_
  · simp [Statement.forms]
  · simp only [Statement.blur, Blur.erasing_span, condition, body]

theorem forEachAhead_agree (hD : D.Echoes) {e : Edge} {d : Cursor} (meets : e.Meets c d) :
    ∃ b, forEachAhead D c = .ok (b, c) ∧ forEachAhead D d = .ok (b, d) := by
  have mirrors : ∀ {argument : Parser TypeRef}, Mirrors argument argument (fun _ => ()) →
      Mirrors (modifiers >>= fun _ => typeRef argument >>= fun _ => identifier >>= fun _ =>
          expect (.punctuation .colon) >>= fun _ => pure ())
        (modifiers >>= fun _ => typeRef argument >>= fun _ => identifier >>= fun _ =>
          expect (.punctuation .colon) >>= fun _ => pure ()) fun _ => () := by
    intro argument h
    refine .bind modifiers_mirrors fun _ => .bind (typeRef_mirrors h) fun _ => ?_
    exact .bind .identifier fun _ => .bind (.expect rfl rfl (by simp)) fun _ => .pure rfl
  exact hD.ahead mirrors meets.value

theorem forEachRest_echoes (hD : D.Echoes) {s t : Span} :
    EchoesAt .loose .loose [.keyword .kwFor, .mark .openParen] c (forEachRest D s)
      (forEachRest D t) Statement.forms (Statement.blur .erasing) := by
  refine .bind (modifiers_echoes c) fun {ms ms' c₁} mods => ?_
  refine .bind ((typeRef_echoes hD.typeRef _).begin _) fun {x y c₂} type => ?_
  refine .bind ((identifier_echoes _).begin _) fun {n m c₃} name => ?_
  refine .expect rfl (by simp) (by simp) fun {s t} => ?_
  refine .bind ((hD.assignment _).begin _) fun {v w c₄} items => ?_
  refine .expect rfl (by simp) (by simp) fun {s t} => ?_
  refine .bind (hD.statement _) fun {b b' c₅} body => .spanFrom fun {s t} => .pure ?_ ?_
  · simp [Statement.forms, Form.parens]
  · simp only [Statement.blur, Blur.erasing_span, mods, type, name, items, body]

theorem forInit_echoes (hD : D.Echoes) :
    Echoes .loose .tight (forInit D) ForInit.forms (ForInit.blur .erasing) := by
  intro c
  refine .isAt rfl rfl (fun _ => EchoesAt.stop (.pure rfl rfl)) (fun _ => ?_)
  refine .look (localVariablesAhead_agree hD) fun declares => ?_
  cases declares with
  | true =>
    refine .here fun {s t} => .bind (localVariables_echoes hD c) fun {v w c₁} same => ?_
    refine .spanFrom fun {s t} => .pure (by simp [ForInit.forms]) ?_
    simp only [ForInit.blur, Blur.erasing_span, same]
  | false =>
    refine .bind ((expressions_echoes hD c).begin _) fun {xs ys c₁} same => .pure rfl ?_
    simp only [ForInit.blur, same]

theorem forLoopRest_echoes (hD : D.Echoes) {s t : Span} :
    EchoesAt .loose .loose [.keyword .kwFor, .mark .openParen] c (forLoopRest D s)
      (forLoopRest D t) Statement.forms (Statement.blur .erasing) := by
  refine .bind (forInit_echoes hD c) fun {i i' c₁} init => ?_
  refine .expect rfl (by simp) (by simp) fun {s t} => ?_
  refine .bind ((optionalExpression_echoes hD _).begin _) fun {v w c₂} condition => ?_
  refine .expect rfl (by simp) (by simp) fun {s t} => ?_
  refine .bind ((expressionsBefore_echoes hD _ _).begin _) fun {xs ys c₃} update => ?_
  refine .expect rfl (by simp) (by simp) fun {s t} => ?_
  refine .bind (hD.statement _) fun {b b' c₄} body => .spanFrom fun {s t} => .pure ?_ ?_
  · simp [Statement.forms, Form.parens]
  · simp only [Statement.blur, Blur.erasing_span, init, condition, update, body]

theorem forStatement_echoes (hD : D.Echoes) :
    Echoes .loose .loose (forStatement D) Statement.forms (Statement.blur .erasing) := by
  intro c
  refine .expect rfl (by simp) (by simp) fun {s t} => .expect rfl (by simp) (by simp) fun {s t} => ?_
  refine .look (forEachAhead_agree hD) fun each => ?_
  cases each with
  | true => exact (forEachRest_echoes hD).atValue
  | false => exact (forLoopRest_echoes hD).atValue

/-! ## Exceptions -/

theorem catchClause?_echoes (hD : D.Echoes) :
    Echoes .loose .loose (catchClause? D) (optionForms CatchClause.forms)
      (Option.map (CatchClause.blur .erasing)) := by
  intro c
  refine .here fun {s t} => .accept rfl rfl (by simp) (by simp) (fun _ => ?_) (fun _ => .pure rfl rfl)
  refine .expect rfl (by simp) (by simp) fun {s t} => ?_
  refine .bind (modifiers_echoes _).atValue fun {ms ms' c₁} mods => ?_
  refine .bind ((typeRef_echoes hD.typeRef _).begin _) fun {x y c₂} type => ?_
  refine .bind ((identifier_echoes _).begin _) fun {n m c₃} name => ?_
  refine .expect rfl (by simp) (by simp) fun {s t} => ?_
  refine .bind ((block_echoes hD _).begin _) fun {b b' c₄} body => .spanFrom fun {s t} => .pure ?_ ?_
  · simp [optionForms, CatchClause.forms, Form.parens]
  · simp only [Option.map_some, CatchClause.blur, Blur.erasing_span, mods, type, name, body]

theorem tryStatement_echoes (hD : D.Echoes) :
    Echoes .loose .loose (tryStatement D) Statement.forms (Statement.blur .erasing) := by
  intro c
  refine .expect rfl (by simp) (by simp) fun {s t} => ?_
  refine .bind ((block_echoes hD _).begin _) fun {b b' c₁} body => ?_
  have catches := EchoesAt.itemsWhile (c := c₁) (fun {c} => catchClause?_echoes hD c) ?_
  · refine .bind catches fun {cs cs' c₂} same => ?_
    refine .accept rfl rfl (by simp) (by simp) (fun _ => ?_) (fun _ => ?_)
    · refine .bind ((block_echoes hD _).begin _) fun {l l' c₃} last => ?_
      refine .spanFrom fun {s t} => .pure ?_ ?_
      · simp [Statement.forms, List.flatMap_def]
      · simp only [Statement.blur, CatchClause.blurAll_eq_map, Blur.erasing_span, body, same, last]
    · have empty : cs.isEmpty = cs'.isEmpty := by
        have := congrArg List.isEmpty same
        simpa using this
      rw [← empty]
      cases cs.isEmpty with
      | true => exact .fail
      | false =>
        refine .spanFrom fun {s t} => .pure ?_ ?_
        · simp [Statement.forms, List.flatMap_def]
        · simp only [Statement.blur, CatchClause.blurAll_eq_map, Blur.erasing_span, body, same]
  · intro c x c' sound run
    refine (catchClause?_echoes hD c).before run sound ?_
    cases x
    simp [optionForms, CatchClause.forms]

/-! ## Simple statements -/

theorem returnStatement_echoes (hD : D.Echoes) :
    Echoes .loose .loose (returnStatement D) Statement.forms (Statement.blur .erasing) := by
  intro c
  refine .expect rfl (by simp) (by simp) fun {s t} => ?_
  refine .bind ((optionalExpression_echoes hD _).begin _) fun {v w c₁} value => ?_
  refine .expect rfl (by simp) (by simp) fun {s t} => .spanFrom fun {s t} => .pure ?_ ?_
  · simp [Statement.forms]
  · simp only [Statement.blur, Blur.erasing_span, value]

theorem throwStatement_echoes (hD : D.Echoes) :
    Echoes .loose .loose (throwStatement D) Statement.forms (Statement.blur .erasing) := by
  intro c
  refine .expect rfl (by simp) (by simp) fun {s t} => ?_
  refine .bind ((hD.assignment _).begin _) fun {v w c₁} value => ?_
  refine .expect rfl (by simp) (by simp) fun {s t} => .spanFrom fun {s t} => .pure ?_ ?_
  · simp [Statement.forms]
  · simp only [Statement.blur, Blur.erasing_span, value]

theorem keywordStatement_echoes (k : Keyword) (make : Span → Statement)
    (forms : ∀ s, (make s).forms = [.keyword k, .mark .semicolon])
    (same : ∀ s t, (make s).blur .erasing = (make t).blur .erasing) :
    Echoes .loose .loose (keywordStatement k make) Statement.forms (Statement.blur .erasing) := by
  intro c
  refine .expect rfl (by simp) (by simp) fun {s t} => .expect rfl (by simp) (by simp) fun {s t} => ?_
  exact .spanFrom fun {s t} => .pure (forms s).symm (same s t)

theorem dmlStatement_echoes (hD : D.Echoes) (op : DmlOp) :
    Echoes .loose .loose (dmlStatement D op.keyword op) Statement.forms
      (Statement.blur .erasing) := by
  intro c
  refine .expect rfl (by simp) (by simp) fun {s t} => ?_
  refine .bind ((hD.assignment _).begin _) fun {v w c₁} value => ?_
  refine .expect rfl (by simp) (by simp) fun {s t} => .spanFrom fun {s t} => .pure ?_ ?_
  · simp [Statement.forms]
  · simp only [Statement.blur, Blur.erasing_span, value]

theorem upsertStatement_echoes (hD : D.Echoes) :
    Echoes .loose .loose (upsertStatement D) Statement.forms (Statement.blur .erasing) := by
  intro c
  refine .expect rfl (by simp) (by simp) fun {s t} => ?_
  refine .bind ((hD.assignment _).begin _) fun {v w c₁} value => ?_
  refine .isAt rfl rfl (fun _ => ?_) (fun _ => ?_)
  · simp only [if_true, pure_bind]
    refine .expect rfl (by simp) (by simp) fun {s t} => .spanFrom fun {s t} => .pure ?_ ?_
    · simp [Statement.forms]
    · simp only [Statement.blur, Blur.erasing_span, value, Option.map_none]
  · simp only [Bool.false_eq_true, if_false, bind_map_left]
    refine .bind (qualifiedName_echoes c₁) fun {k k' c₂} key => ?_
    refine .expect rfl (by simp) (by simp) fun {s t} => .spanFrom fun {s t} => .pure ?_ ?_
    · simp [Statement.forms]
    · simp only [Statement.blur, Blur.erasing_span, value, Option.map_some, key]

theorem mergeStatement_echoes (hD : D.Echoes) :
    Echoes .loose .loose (mergeStatement D) Statement.forms (Statement.blur .erasing) := by
  intro c
  refine .expect rfl (by simp) (by simp) fun {s t} => ?_
  refine .bind ((hD.assignment _).begin _) fun {m m' c₁} master => ?_
  refine .bind (hD.assignment c₁) fun {d d' c₂} duplicate => ?_
  refine .expect rfl (by simp) (by simp) fun {s t} => .spanFrom fun {s t} => .pure ?_ ?_
  · simp [Statement.forms]
  · simp only [Statement.blur, Blur.erasing_span, master, duplicate]

theorem runAsStatement_echoes (hD : D.Echoes) :
    Echoes .loose .loose (runAsStatement D) Statement.forms (Statement.blur .erasing) := by
  intro c
  refine .bind ((expectWord_echoes rfl c).begin _) fun {s t c₁} _ => ?_
  refine .expect rfl (by simp) (by simp) fun {s t} => ?_
  refine .bind ((expectWord_echoes rfl _).begin _) fun {s t c₂} _ => ?_
  refine .bind ((parenthesized_echoes hD _).begin _) fun {x y c₃} user => ?_
  refine .bind ((block_echoes hD _).begin _) fun {b b' c₄} body => .spanFrom fun {s t} => .pure ?_ ?_
  · simp [Statement.forms]
  · simp only [Statement.blur, Blur.erasing_span, user, body]

theorem variablesStatement_echoes (hD : D.Echoes) :
    Echoes .loose .loose (variablesStatement D) Statement.forms (Statement.blur .erasing) := by
  intro c
  refine .here fun {s t} => .bind (localVariables_echoes hD c) fun {v w c₁} same => ?_
  refine .expect rfl (by simp) (by simp) fun {s t} => .spanFrom fun {s t} => .pure ?_ ?_
  · simp [Statement.forms]
  · simp only [Statement.blur, Blur.erasing_span, same]

theorem expressionStatement_echoes (hD : D.Echoes) :
    Echoes .loose .loose (expressionStatement D) Statement.forms (Statement.blur .erasing) := by
  intro c
  refine .here fun {s t} => .bind ((hD.assignment c).begin _) fun {v w c₁} same => ?_
  refine .expect rfl (by simp) (by simp) fun {s t} => .spanFrom fun {s t} => .pure ?_ ?_
  · simp [Statement.forms]
  · simp only [Statement.blur, Blur.erasing_span, same]

theorem plainStatement_echoes (hD : D.Echoes) :
    Echoes .loose .loose (plainStatement D) Statement.forms (Statement.blur .erasing) := by
  intro c
  refine .isAt rfl rfl (fun _ => ?_) (fun _ => ?_)
  · refine .bind ((block_echoes hD c).begin _) fun {b b' c₁} same => .pure rfl ?_
    simp only [Statement.blur, same]
  refine .isAt rfl rfl (fun semi => ?_) (fun _ => ?_)
  · exact .next semi (by simp) (by simp) fun {s t} => .pure rfl rfl
  refine .getIf runAsAhead_eq (fun _ => runAsStatement_echoes hD c) (fun _ => ?_)
  refine .look (localVariablesAhead_agree hD) fun declares => ?_
  cases declares with
  | true => exact variablesStatement_echoes hD c
  | false => exact expressionStatement_echoes hD c

theorem statement_echoes (hD : D.Echoes) :
    Echoes .loose .loose (statement D) Statement.forms (Statement.blur .erasing) := by
  intro c
  cases word : c.current.kind.keyword? with
  | some kw =>
    have here : c.current.kind = .keyword kw := by
      cases hk : c.current.kind <;> simp_all [TokenKind.keyword?]
    refine .kind (by simp) fun {k} shape => ?_
    obtain rfl : k = .keyword kw := TokenKind.eq_of_shape_eq (by rw [← shape, here]) rfl
    rw [here]
    split
    · exact ifStatement_echoes hD c
    · exact whileStatement_echoes hD c
    · exact doStatement_echoes hD c
    · exact forStatement_echoes hD c
    · exact tryStatement_echoes hD c
    · exact returnStatement_echoes hD c
    · exact throwStatement_echoes hD c
    · exact keywordStatement_echoes _ _ (fun _ => rfl) (fun _ _ => rfl) c
    · exact keywordStatement_echoes _ _ (fun _ => rfl) (fun _ _ => rfl) c
    · exact dmlStatement_echoes hD .insert c
    · exact dmlStatement_echoes hD .update c
    · exact dmlStatement_echoes hD .delete c
    · exact dmlStatement_echoes hD .undelete c
    · exact upsertStatement_echoes hD c
    · exact mergeStatement_echoes hD c
    · exact plainStatement_echoes hD c
  | none =>
    have plain : ∀ {d : Cursor} {r}, d.current.kind.keyword? = none →
        (statement D d = .ok r ↔ plainStatement D d = .ok r) := by
      intro d r other
      rw [statement, kind_bind_ok]
      cases hk : d.current.kind with
      | keyword => simp [hk, TokenKind.keyword?] at other
      | _ => exact Iff.rfl
    exact (plainStatement_echoes hD c).instead (plain word).mp
      fun meets run => (plain (meets.keyword?_eq ▸ word)).mpr run

end Grammar

end Apex
