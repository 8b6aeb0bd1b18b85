import Apex.Proofs.Blur.Expressions
import Apex.Proofs.Echo.Headers
import Apex.Proofs.Reading.Expressions

/-!
# Reading expressions again

An expression is read again from any row in which its forms stand. Operators that are put together
from several tokens need more than that: the rows must not go on with another `>` behind them in
one case only, which is why expressions end tightly.
-/

namespace Apex.Grammar

open Apex.Parser

variable {D : Deeper} {c : Cursor}

/-! ## Lists of expressions -/

/-- What expressions with commas between them stand for. -/
abbrev listForms (es : List Expr) : List Form := Form.commas (es.map Expr.forms)

/-- A key and its value without their places. -/
abbrev entryView : Expr × Expr → Expr × Expr :=
  Prod.map (Expr.blur .erasing) (Expr.blur .erasing)

theorem expressions_echoes (hD : D.Echoes) :
    Echoes .tight .tight (expressions D) listForms (List.map (Expr.blur .erasing)) :=
  fun _ => .commaSeparated (hD.assignment _)

theorem expressionsBefore_echoes (hD : D.Echoes) (close : Punctuation) :
    Echoes .tight .tight (expressionsBefore D close) listForms (List.map (Expr.blur .erasing)) :=
  fun c => .isAt rfl rfl (fun _ => .pure rfl rfl) (fun _ => expressions_echoes hD c)

theorem optionalExpression_echoes (hD : D.Echoes) :
    Echoes .tight .tight (optionalExpression D) Expr.formsOption
      (Option.map (Expr.blur .erasing)) := by
  intro c
  refine .isAt rfl rfl (fun _ => .pure rfl rfl) (fun _ => ?_)
  exact .map (hD.assignment c) (fun _ => rfl) fun same => congrArg some same

theorem arguments_echoes (hD : D.Echoes) :
    Echoes .tight .loose (arguments D) (fun args => Form.parens (listForms args))
      (List.map (Expr.blur .erasing)) := by
  intro c
  refine .expect rfl (by simp) (by simp) fun {s t} => ?_
  refine .bind ((expressionsBefore_echoes hD _ _).begin _) fun {xs ys c₁} same => ?_
  exact .expect rfl (by simp) (by simp) fun {s t} => .pure (by simp [Form.parens]) same

theorem parenthesized_echoes (hD : D.Echoes) :
    Echoes .tight .loose (parenthesized D) (fun e => Form.parens e.forms)
      (Expr.blur .erasing) := by
  intro c
  refine .expect rfl (by simp) (by simp) fun {s t} => ?_
  refine .bind ((hD.assignment _).begin _) fun {x y c₁} same => ?_
  exact .expect rfl (by simp) (by simp) fun {s t} => .pure (by simp [Form.parens]) same

/-! ## Creators -/

theorem entryValue_echoes (hD : D.Echoes) :
    Echoes .tight .tight (entryValue D) (fun e => .mark .arrow :: e.forms)
      (Expr.blur .erasing) := by
  intro c
  refine .expect rfl (by simp) (by simp) fun {s t} => ?_
  exact ((hD.assignment _).begin _).behind [.mark .arrow]

theorem mapEntry_echoes (hD : D.Echoes) :
    Echoes .tight .tight (mapEntry D) Expr.entryForms entryView := by
  intro c
  refine .bind (hD.assignment c) fun {k k' c₁} key => ?_
  refine .bind (entryValue_echoes hD c₁) fun {v v' c₂} value => .pure (by simp [Expr.entryForms]) ?_
  simp only [entryView, Prod.map, key, value]

theorem creatorType_echoes (hD : D.Echoes) :
    Echoes .tight .loose (elementType D.typeRef) TypeRef.forms (TypeRef.blur .erasing) :=
  fun c => (elementType_echoes hD.typeRef c).reform elementType_forms

/-- What stands before the part of a creator that says what is created. -/
def creatorForms (type : TypeRef) : List Form := .keyword .kwNew :: type.forms

theorem braceCreator_echoes (hD : D.Echoes) {s t : Span} {x y : TypeRef}
    (same : x.blur .erasing = y.blur .erasing) :
    EchoesAt .value .loose (creatorForms x ++ [.mark .openBrace]) c (braceCreator D s x)
      (braceCreator D t y) Expr.forms (Expr.blur .erasing) := by
  refine .accept rfl rfl (by simp) (by simp) (fun _ => ?_) (fun _ => ?_)
  · have name : sameWord "map" x.simpleName = sameWord "map" y.simpleName := by
      simp only [sameWord, TypeRef.simpleName_like same]
    refine .spanFrom fun {s t} => ?_
    rw [← name]
    refine .pure ?_ ?_
    · cases sameWord "map" x.simpleName <;>
        simp [Expr.forms, creatorForms, Form.commas, Form.braces]
    · cases sameWord "map" x.simpleName <;>
        simp only [Bool.false_eq_true, if_false, if_true, Expr.blur, same, Blur.erasing_span]
  · refine .bind ((hD.assignment c).begin _) fun {k k' c₁} key => ?_
    refine .isAt rfl rfl (fun _ => ?_) (fun _ => ?_)
    · refine .bind (entryValue_echoes hD _) fun {v v' c₂} value => ?_
      have entries := EchoesAt.commaSeparatedFrom (c := c₂) (a := (k, v)) (b := (k', v'))
        (fun {c} => (mapEntry_echoes hD c).begin _) (by simp only [entryView, Prod.map, key, value])
      refine .bindOn ((entries.behind (creatorForms x ++ [.mark .openBrace])).reread
        (by simp [Expr.entryForms])) fun {es es' c₃} list => ?_
      refine .expect rfl (by simp) (by simp) fun {s t} => .spanFrom fun {s t} => .pure ?_ ?_
      · simp [Expr.forms, creatorForms, Form.braces]
      · simp only [Expr.blur, Expr.blurEntries_eq_map, Blur.erasing_span, same]
        rw [list]
    · have elements := EchoesAt.commaSeparatedFrom (c := c₁) (a := k) (b := k')
        (fun {c} => (hD.assignment c).begin _) key
      refine .bindOn (elements.behind _) fun {es es' c₂} list => ?_
      refine .expect rfl (by simp) (by simp) fun {s t} => .spanFrom fun {s t} => .pure ?_ ?_
      · simp [Expr.forms, creatorForms, Form.braces]
      · simp only [Expr.blur, Expr.blurAll_eq_map, Blur.erasing_span, same, list]

theorem bracketCreator_echoes (hD : D.Echoes) {s t : Span} {x y : TypeRef}
    (same : x.blur .erasing = y.blur .erasing) :
    EchoesAt .loose .loose (creatorForms x ++ [.mark .openBracket]) c (bracketCreator D s x)
      (bracketCreator D t y) Expr.forms (Expr.blur .erasing) := by
  refine .accept rfl rfl (by simp) (by simp) (fun _ => ?_) (fun _ => ?_)
  · refine .expect rfl (by simp) (by simp) fun {s t} => ?_
    refine .bind ((expressionsBefore_echoes hD _ _).begin _) fun {es es' c₁} list => ?_
    refine .expect rfl (by simp) (by simp) fun {s t} => .spanFrom fun {s t} => .pure ?_ ?_
    · simp [Expr.forms, creatorForms, Form.braces]
    · simp only [Expr.blur, Expr.blurAll_eq_map, Blur.erasing_span, same, list]
  · refine .bind ((hD.assignment c).begin _) fun {i i' c₁} size => ?_
    refine .expect rfl (by simp) (by simp) fun {s t} => .spanFrom fun {s t} => .pure ?_ ?_
    · simp [Expr.forms, creatorForms]
    · simp only [Expr.blur, Blur.erasing_span, same, size]

theorem creator_echoes (hD : D.Echoes) {s t : Span} :
    EchoesAt .loose .loose [.keyword .kwNew] c (creator D s) (creator D t) Expr.forms
      (Expr.blur .erasing) := by
  refine .bind ((creatorType_echoes hD c).begin _) fun {x y c₁} same => ?_
  refine .isAt rfl rfl (fun _ => ?_) (fun _ => ?_)
  · refine .bind ((arguments_echoes hD _).begin _) fun {xs ys c₂} list => ?_
    refine .spanFrom fun {s t} => .pure ?_ ?_
    · simp [Expr.forms]
    · simp only [Expr.blur, Expr.blurAll_eq_map, Blur.erasing_span, same, list]
  · refine .accept rfl rfl (by simp) (by simp) (fun _ => bracketCreator_echoes hD same) (fun _ => ?_)
    exact .accept rfl rfl (by simp) (by simp) (fun _ => braceCreator_echoes hD same) (fun _ => .fail)

/-! ## Primaries -/

theorem literalOf?_forms {k : TokenKind} {value : Literal} (h : literalOf? k = some value) :
    value.forms = [.kind k] := by
  unfold literalOf? at h
  split at h <;> cases h <;> rfl

theorem edgeBehind_of_literalOf? {k : TokenKind} {value : Literal} (h : literalOf? k = some value) :
    EchoesAt.edgeBehind k = .loose := by
  cases k with
  | operator | punctuation | name | endOfFile => cases h
  | _ => rfl

theorem literal_echoes {value : Literal} (h : literalOf? c.current.kind = some value) :
    EchoesAt .tight .loose [] c (primary D) (primary D) Expr.forms (Expr.blur .erasing) := by
  have other : ∀ k, literalOf? k = none → c.current.kind ≠ k := by
    rintro _ none rfl
    rw [h] at none
    cases none
  have loose := edgeBehind_of_literalOf? h
  refine .leaf (k := c.current.kind)
    (f := fun t => (literalOf? t.kind).elim (fail []) fun v => pure (.literal t.span v))
    (g := fun t => (literalOf? t.kind).elim (fail []) fun v => pure (.literal t.span v)) rfl
    (other _ rfl) (fun _ => other _ rfl) (fun {r} run => ?_) (fun {d r} same run => ?_) fun {t} same => ?_
  · rw [primary, current_bind_ok, h] at run
    rw [h]
    exact run
  · have like := literalOf?_like (TokenKind.like_of_blur same)
    rw [h] at like
    obtain ⟨value', found, _⟩ := Option.map_eq_some_iff.mp like
    rw [found] at run
    exact primary_ok.mpr (.inl ⟨value', found, pure_ok.mp run⟩)
  · have like := literalOf?_like (TokenKind.like_of_blur same)
    rw [h] at like
    obtain ⟨value', found, view⟩ := Option.map_eq_some_iff.mp like
    rw [loose, h, found]
    refine .pure ?_ ?_
    · exact (literalOf?_forms h).symm
    · simp only [Expr.blur, view, Blur.erasing_span]

/-- What stands behind a word that may be called. -/
def wordRest (D : Deeper) (word : Ident) (alone : Expr) : Parser Expr := do
  if ← isAt (.punctuation .openParen) then
    let args ← arguments D
    return .call (← spanFrom word.span) word args
  return alone

/-- A word, alone or called, where the word makes a primary with its token. -/
theorem word_echoes (hD : D.Echoes) {k : TokenKind} (w : String) (alone : Span → Expr)
    (hk : c.current.kind = k) (kinds : wordKind w = k)
    (known : ∀ {t : Token}, t.kind.blur .erasing = k.blur .erasing →
      literalOf? t.kind = none ∧ wordAlone? t = some (w, alone t.span))
    (forms : ∀ s, (alone s).forms = [.kind k])
    (same : ∀ s t, (alone s).blur .erasing = (alone t).blur .erasing) :
    EchoesAt .tight .loose [] c (primary D) (primary D) Expr.forms (Expr.blur .erasing) := by
  have word : k ≠ .endOfFile ∧ k ≠ .operator .greater ∧ EchoesAt.edgeBehind k = .loose := by
    rw [← kinds]
    unfold wordKind
    split <;> exact ⟨by simp, (by simp), rfl⟩
  obtain ⟨inside, other, loose⟩ := word
  refine .leaf (f := fun t => wordRest D ⟨w, t.span⟩ (alone t.span))
    (g := fun t => wordRest D ⟨w, t.span⟩ (alone t.span)) hk inside (fun _ => other)
    (fun {r} run => ?_) (fun {d r} kinds run => ?_) fun {t} _ => ?_
  · obtain ⟨plain, found⟩ := known (t := c.current) (by rw [hk])
    rcases primary_ok.mp run with
      ⟨_, literal, _⟩ | ⟨_, found', run⟩ | ⟨kind, _⟩ | ⟨kind, _⟩ | ⟨kind, _⟩
    · rw [plain] at literal
      cases literal
    · rw [found] at found'
      cases found'
      exact run
    all_goals simp [wordAlone?, kind] at found
  · obtain ⟨_, found⟩ := known kinds
    exact primary_ok.mpr (.inr (.inl ⟨_, found, run⟩))
  · rw [loose]
    refine .isAt rfl rfl (fun _ => ?_) (fun _ => ?_)
    · refine .bind ((arguments_echoes hD _).begin _) fun {xs ys c₁} list => ?_
      refine .spanFrom fun {s t} => .pure ?_ ?_
      · simp [Expr.forms, kinds]
      · simp only [Expr.blur, Expr.blurAll_eq_map, Blur.erasing_span, list]
        rfl
    · exact .pure (forms _).symm (same _ _)

/-- The word that stands for the trigger context, as it is written. -/
theorem trigger_echoes (hk : c.current.kind = .keyword .kwTrigger) :
    EchoesAt .tight .loose [] c (primary D) (primary D) Expr.forms (Expr.blur .erasing) := by
  have name : ∀ {d : Cursor} {r}, d.current.kind = .keyword .kwTrigger → (primary D d = .ok r ↔
      (.name d.current.span (d.current.writtenWord?.getD "trigger"), d.advance) = r) := by
    intro d r kind
    simp [primary_ok, kind, literalOf?, wordAlone?]
  intro sound x c' run
  cases (name hk).mp run
  have genuine := sound.current
  unfold Token.Genuine at genuine
  rw [hk] at genuine
  obtain ⟨written, word, _, reserved⟩ := genuine
  have kind : c.current.kind = wordKind written := by rw [hk, wordKind, reserved]
  have inside := isEnd_of_kind hk (by simp)
  refine ⟨[.word written], ?_, stands_single.mpr ⟨word, kind, rfl⟩, fun d d' sorted stands meets => ?_⟩
  · simp [Expr.forms, Form.named, word, reserved]
  · obtain ⟨word', kind', rfl⟩ := stands_single.mp stands
    have same : d.current.kind = .keyword .kwTrigger := by rw [kind', ← kind, hk]
    refine ⟨Edge.Meets.before meets (by rw [hk, same]) inside (by simp) (fun _ => by simp [hk]), _,
      (name same).mpr rfl, ?_⟩
    simp only [Expr.blur, Blur.erasing_span, word, word']

theorem primary_echoes (hD : D.Echoes) :
    Echoes .tight .loose (primary D) Expr.forms (Expr.blur .erasing) := by
  intro c sound x c' run
  rcases primary_ok.mp run with
    ⟨_, literal, _⟩ | ⟨_, word, _⟩ | ⟨new, _⟩ | ⟨trigger, _⟩ | ⟨paren, _⟩
  · exact literal_echoes literal sound run
  · unfold wordAlone? at word
    split at word
    case h_1 this =>
      refine word_echoes hD "this" .this this (by decide +kernel) (fun {t} same => ?_)
        (fun _ => rfl) (fun _ _ => rfl) sound run
      have kind := TokenKind.eq_of_blur_eq same rfl
      exact ⟨by rw [kind]; rfl, by rw [wordAlone?, kind]⟩
    case h_2 super =>
      refine word_echoes hD "super" .super super (by decide +kernel) (fun {t} same => ?_)
        (fun _ => rfl) (fun _ _ => rfl) sound run
      have kind := TokenKind.eq_of_blur_eq same rfl
      exact ⟨by rw [kind]; rfl, by rw [wordAlone?, kind]⟩
    case h_3 text name =>
      have genuine := sound.current
      unfold Token.Genuine at genuine
      rw [name] at genuine
      have plain := genuine.2
      refine word_echoes hD text (.name · text) name (by rw [wordKind, plain])
        (fun {t} same => ?_) (fun s => ?_) (fun _ _ => rfl) sound run
      · have kind : t.kind = .name text := by
          cases ht : t.kind <;> simp_all [TokenKind.blur, Blur.erasing]
        exact ⟨by rw [kind]; rfl, by rw [wordAlone?, kind]⟩
      · simp [Expr.forms, Form.named, plain]
    case h_4 => cases word
  · have creation : Echoes .tight .loose (expect (.keyword .kwNew) >>= creator D) Expr.forms
        (Expr.blur .erasing) := fun c => .expect rfl (by simp) (by simp) (creator_echoes hD)
    refine (creation c).instead (fun {r} run => ?_) (fun {d r} meets run => ?_) sound run
    · simpa [primary_ok, new, literalOf?, wordAlone?] using run
    · have new' := meets.1.kind new rfl
      simpa [primary_ok, new', literalOf?, wordAlone?] using run
  · exact trigger_echoes trigger sound run
  · have inParens : Echoes .tight .loose
        (do let s ← Parser.here
            let inner ← parenthesized D
            return Expr.paren (← Parser.spanFrom s) inner) Expr.forms (Expr.blur .erasing) := by
      refine fun c => .here fun {s t} => .bind (parenthesized_echoes hD c) fun {x y c₁} same => ?_
      refine .spanFrom fun {s t} => .pure (by simp [Expr.forms]) ?_
      simp only [Expr.blur, Blur.erasing_span, same]
    refine (inParens c).instead (fun {r} run => ?_) (fun {d r} meets run => ?_) sound run
    · simpa [primary_ok, paren, literalOf?, wordAlone?] using run
    · have paren' := meets.1.kind paren rfl
      simpa [primary_ok, paren', literalOf?, wordAlone?] using run

/-! ## Chains -/

theorem operator_of_stepOp? {k : TokenKind} {op : StepOp} (h : k.operator?.bind stepOp? = some op) :
    k = .operator op.operator := by
  cases k with
  | operator o =>
    have h : stepOp? o = some op := h
    unfold stepOp? at h
    split at h <;> cases h <;> rfl
  | _ => cases h

theorem postfixStep_echoes (hD : D.Echoes) {x y : Expr}
    (same : x.blur .erasing = y.blur .erasing) :
    EchoesAt .loose .loose x.forms c (postfixStep D x) (postfixStep D y)
      (Turn.forms Expr.forms Expr.forms) (Turn.map (Expr.blur .erasing) (Expr.blur .erasing)) := by
  refine .accept rfl rfl (by simp) (by simp) (fun _ => ?_) (fun _ => ?_)
  · refine .bind ((memberName_echoes _).begin _) fun {m m' c₁} part => ?_
    refine .isAt rfl rfl (fun _ => ?_) (fun _ => ?_)
    · refine .bind ((arguments_echoes hD _).begin _) fun {xs ys c₂} list => ?_
      refine .spanFrom fun {s t} => .pure ?_ ?_
      · simp [Turn.forms, Expr.forms]
      · simp only [Turn.map, Expr.blur, Expr.blurAll_eq_map, Blur.erasing_span, same, part, list]
    · refine .pure ?_ ?_
      · simp [Turn.forms, Expr.forms]
      · simp only [Turn.map, Expr.blur, Blur.erasing_span, same, part]
  refine .accept rfl rfl (by simp) (by simp) (fun _ => ?_) (fun _ => ?_)
  · refine .bind ((hD.assignment _).begin _) fun {i i' c₁} position => ?_
    refine .expect rfl (by simp) (by simp) fun {s t} => .spanFrom fun {s t} => .pure ?_ ?_
    · simp [Turn.forms, Expr.forms]
    · simp only [Turn.map, Expr.blur, Blur.erasing_span, same, position]
  · refine .kind (by simp) fun {k} shape => ?_
    rw [← TokenKind.operator?_eq_of_shape_eq shape]
    cases step : c.current.kind.operator?.bind stepOp? with
    | none => exact .pure rfl (by simp only [Turn.map, same])
    | some op =>
      refine .token (operator_of_stepOp? step) (by simp) (by simp) ?_
      have loose : EchoesAt.edgeBehind (.operator op.operator) = .loose := by cases op <;> rfl
      rw [loose]
      refine .spanFrom fun {s t} => .pure (by simp [Turn.forms, Expr.forms]) ?_
      simp only [Turn.map, Expr.blur, Blur.erasing_span, same]

theorem postfixStep_before {x y : Expr} {c₁ : Cursor} (hD : D.Echoes) (sound : c.Sound)
    (run : postfixStep D x c = .ok (.again y, c₁)) : c.Before c₁ := by
  refine (postfixStep_echoes hD (rfl : x.blur .erasing = _)).before run sound fun same => ?_
  rcases postfixStep_ok.mp run with
    ⟨_, _, _, _, ⟨_, _, _, _, turn⟩ | ⟨_, turn⟩⟩ | ⟨_, _, _, _, _, turn⟩ | ⟨_, _, turn⟩ | ⟨_, _, _, turn⟩
  all_goals
    cases turn
    try simp [Turn.forms, Expr.forms] at same

theorem postfixChain_echoes (hD : D.Echoes) :
    Echoes .tight .loose (postfixChain D) Expr.forms (Expr.blur .erasing) := by
  intro c
  refine .bind (primary_echoes hD c) fun {x y c₁} same => ?_
  exact .iterate Expr.forms (Expr.blur .erasing) (postfixStep_echoes hD)
    (fun sound run => postfixStep_before hD sound run) same

/-! ## Operators -/

theorem operator_of_unaryOp? {k : TokenKind} {op : UnaryOp}
    (h : k.operator?.bind unaryOp? = some op) : k = .operator op.operator := by
  cases k with
  | operator o =>
    have h : unaryOp? o = some op := h
    unfold unaryOp? at h
    split at h <;> cases h <;> rfl
  | _ => cases h

theorem operator_of_binaryOp? {o : Operator} {op : BinaryOp} (h : binaryOp? o = some op) :
    o = op.operator := by
  unfold binaryOp? at h
  split at h <;> cases h <;> rfl

theorem operator_of_assignOp? {o : Operator} {op : AssignOp} (h : assignOp? o = some op) :
    o = op.operator := by
  unfold assignOp? at h
  split at h <;> cases h <;> rfl

theorem unary_echoes (hD : D.Echoes) :
    Echoes .tight .tight (unary D) Expr.forms (Expr.blur .erasing) := by
  intro c
  refine .here fun {s t} => .kind (by simp) fun {k} shape => ?_
  rw [← TokenKind.operator?_eq_of_shape_eq shape]
  cases sign : c.current.kind.operator?.bind unaryOp? with
  | some op =>
    simp only [sign]
    have loose : EchoesAt.edgeBehind (.operator op.operator) = .loose := by cases op <;> rfl
    have other : TokenKind.operator op.operator ≠ .operator .greater := by cases op <;> decide
    refine .token (operator_of_unaryOp? sign) (by simp) (fun _ => other) ?_
    rw [loose]
    refine .bind ((hD.unary _).begin _) fun {x y c₁} same => .pure (by simp [Expr.forms]) ?_
    simp only [Expr.blur, Blur.erasing_span, same]
  | none =>
    cases step : c.current.kind.operator?.bind stepOp? with
    | some op =>
      simp only [sign, step]
      have loose : EchoesAt.edgeBehind (.operator op.operator) = .loose := by cases op <;> rfl
      have other : TokenKind.operator op.operator ≠ .operator .greater := by cases op <;> decide
      refine .token (operator_of_stepOp? step) (by simp) (fun _ => other) ?_
      rw [loose]
      refine .bind ((hD.unary _).begin _) fun {x y c₁} same => .pure (by simp [Expr.forms]) ?_
      simp only [Expr.blur, Blur.erasing_span, same]
    | none =>
      simp only [sign, step]
      refine .getIf (fun meets => castAhead_eq meets.1) (fun _ => ?_)
        (fun _ => (postfixChain_echoes hD c).stop)
      refine .expect rfl (by simp) (by simp) fun {s t} => ?_
      refine .bind ((typeRef_echoes hD.typeRef _).begin _) fun {x y c₁} type => ?_
      refine .expect rfl (by simp) (by simp) fun {s t} => ?_
      refine .bind ((hD.unary _).begin _) fun {x y c₁} same => ?_
      refine .pure (by simp [Expr.forms, Form.parens]) ?_
      simp only [Expr.blur, Blur.erasing_span, type, same]

/-- An operator between operands, passed over. -/
theorem skipOperator_echoes {α γ : Type} {e₁ : Edge} {read : List Form} {p q : Parser α}
    {forms : α → List Form} {view : α → γ} {o : Operator} {n : Nat}
    (ahead : operatorAhead? c = some (o, n))
    (h : EchoesAt .loose e₁ (read ++ [.operator o]) (c.advances n) p q forms view) :
    EchoesAt .tight e₁ read c (skip n >>= fun _ => p) (skip n >>= fun _ => q) forms view := by
  intro sound x c' run
  have reads : Form.Reads .source (.operator o) c (c.advances n) := ⟨n, ahead, rfl⟩
  obtain ⟨F, all, stands, again⟩ := h (reads.before.upto.sound sound) (skip_bind_ok.mp run)
  have all : read ++ .operator o :: F = forms x := by rw [← all, List.append_assoc]; rfl
  refine ⟨.operator o :: F, all, ⟨_, reads, stands⟩, ?_⟩
  rintro d d' sorted ⟨d₁, reads', stands'⟩ meets
  obtain ⟨alike, y, run', same⟩ := again (reads'.before.sorted sorted) stands' meets
  have start : c.Alike d := reads.alike rfl reads' alike
  obtain ⟨m, ahead', rfl⟩ := reads'
  obtain ⟨_, hn⟩ := operatorAhead?_kinds ahead
  obtain ⟨_, hm⟩ := operatorAhead?_kinds ahead'
  obtain rfl : m = n := hm.trans hn.symm
  exact ⟨⟨start, ahead.trans ahead'.symm⟩, y, skip_bind_ok.mpr run', same⟩

theorem binaryAhead?_some {level : BinaryLevel} {op : BinaryOp} {n : Nat}
    (h : binaryAhead? level c = some (op, n)) : operatorAhead? c = some (op.operator, n) := by
  unfold binaryAhead? at h
  split at h
  · next o count ahead =>
    split at h
    · next op' found =>
      split at h
      · cases h
        rw [ahead, operator_of_binaryOp? found]
      · cases h
    · cases h
  · cases h

theorem assignAhead?_some {op : AssignOp} {n : Nat} (h : assignAhead? c = some (op, n)) :
    operatorAhead? c = some (op.operator, n) := by
  unfold assignAhead? at h
  split at h
  · next o count ahead =>
    obtain ⟨op', found, same⟩ := Option.map_eq_some_iff.mp h
    cases same
    rw [ahead, operator_of_assignOp? found]
  · cases h

theorem operatorAhead?_of_kind {k : Keyword} (h : c.current.kind = .keyword k) :
    operatorAhead? c = none := by
  unfold operatorAhead?
  rw [composedAhead?_of_kind (by simp [h]), h]

theorem binaryStep_echoes (hD : D.Echoes) {level : BinaryLevel} {operand : Parser Expr}
    (h : Echoes .tight .tight operand Expr.forms (Expr.blur .erasing)) {x y : Expr}
    (same : x.blur .erasing = y.blur .erasing) :
    EchoesAt .tight .tight x.forms c (binaryStep D level operand x) (binaryStep D level operand y)
      (Turn.forms Expr.forms Expr.forms) (Turn.map (Expr.blur .erasing) (Expr.blur .erasing)) := by
  intro sound turn c' run
  have agree : ∀ {d : Cursor}, Edge.tight.Meets c d → binaryAhead? level c = binaryAhead? level d := by
    intro d meets
    unfold binaryAhead?
    rw [meets.2]
  rcases binaryStep_ok.mp run with ⟨comparison, test, _⟩ | ⟨⟨op, n⟩, ahead, _⟩ | ⟨test, none, _⟩
  · -- A type test.
    have tests : EchoesAt .tight .tight x.forms c
        (do let _ ← expect (.keyword .kwInstanceOf)
            let type ← typeRef D.typeRef
            return Turn.again (Expr.instanceOf (x.span.merge type.span) x type))
        (do let _ ← expect (.keyword .kwInstanceOf)
            let type ← typeRef D.typeRef
            return Turn.again (Expr.instanceOf (y.span.merge type.span) y type))
        (Turn.forms Expr.forms Expr.forms)
        (Turn.map (Expr.blur .erasing) (Expr.blur .erasing)) := by
      refine .expect rfl (by simp) (by simp) fun {s t} => ?_
      refine .bind (((typeRef_echoes hD.typeRef _).begin _).stop) fun {t t' c₁} type => .pure ?_ ?_
      · simp [Turn.forms, Expr.forms]
      · simp only [Turn.map, Expr.blur, Blur.erasing_span, same, type]
    refine tests.instead (fun {r} run => ?_) (fun {d r} meets run => ?_) sound run
    · simpa [binaryStep, comparison, test, -bind_pure_comp] using run
    · have test' := meets.1.kind test rfl
      simpa [binaryStep, comparison, test', -bind_pure_comp] using run
  · have joined : EchoesAt .tight .tight x.forms c
        (skip n >>= fun _ => operand >>= fun right =>
          pure (Turn.again (Expr.binary (x.span.merge right.span) x op right)))
        (skip n >>= fun _ => operand >>= fun right =>
          pure (Turn.again (Expr.binary (y.span.merge right.span) y op right)))
        (Turn.forms Expr.forms Expr.forms)
        (Turn.map (Expr.blur .erasing) (Expr.blur .erasing)) := by
      refine skipOperator_echoes (binaryAhead?_some ahead) ?_
      refine .bind ((h _).begin _) fun {r r' c₁} right => .pure ?_ ?_
      · simp [Turn.forms, Expr.forms]
      · simp only [Turn.map, Expr.blur, Blur.erasing_span, same, right]
    refine joined.instead (fun {r} run => ?_) (fun {d r} meets run => ?_) sound run
    · rcases binaryStep_ok.mp run with ⟨_, test, _⟩ | ⟨_, ahead', _, _, run, done⟩ | ⟨_, none, _⟩
      · rw [binaryAhead?, operatorAhead?_of_kind test] at ahead
        cases ahead
      · rw [ahead] at ahead'
        cases ahead'
        exact skip_bind_ok.mpr (bind_ok.mpr ⟨_, _, run, pure_ok.mpr done⟩)
      · rw [ahead] at none
        cases none
    · obtain ⟨right, d₁, run, done⟩ := bind_ok.mp (skip_bind_ok.mp run)
      exact binaryStep_ok.mpr (.inr (.inl ⟨(op, n), (agree meets) ▸ ahead, right, d₁, run,
        pure_ok.mp done⟩))
  · have ends : EchoesAt .tight .tight x.forms c (pure (Turn.done x)) (pure (Turn.done y))
        (Turn.forms Expr.forms Expr.forms)
        (Turn.map (Expr.blur .erasing) (Expr.blur .erasing)) :=
      .pure rfl (by simp only [Turn.map, same])
    refine ends.instead (fun {r} run => ?_) (fun {d r} meets run => ?_) sound run
    · rcases binaryStep_ok.mp run with ⟨comparison, kind, _⟩ | ⟨_, ahead, _⟩ | ⟨_, _, done⟩
      · exact absurd ⟨comparison, kind⟩ test
      · rw [none] at ahead
        cases ahead
      · exact pure_ok.mpr done
    · have test' := mt (And.imp_right (meets.kind_iff rfl rfl).mpr) test
      exact binaryStep_ok.mpr (.inr (.inr ⟨test', (agree meets) ▸ none, pure_ok.mp run⟩))

theorem binaryStep_before (hD : D.Echoes) {level : BinaryLevel} {operand : Parser Expr}
    (h : Echoes .tight .tight operand Expr.forms (Expr.blur .erasing)) {x y : Expr} {c₁ : Cursor}
    (sound : c.Sound) (run : binaryStep D level operand x c = .ok (.again y, c₁)) :
    c.Before c₁ := by
  refine (binaryStep_echoes hD h (rfl : x.blur .erasing = _)).before run sound fun same => ?_
  rcases binaryStep_ok.mp run with ⟨_, _, _, _, _, turn⟩ | ⟨_, _, _, _, _, turn⟩ | ⟨_, _, turn⟩
  all_goals
    cases turn
    try simp [Turn.forms, Expr.forms] at same

theorem binaryChain_echoes (hD : D.Echoes) (levels : List BinaryLevel) :
    Echoes .tight .tight (binaryChain D levels) Expr.forms (Expr.blur .erasing) := by
  induction levels with
  | nil => exact unary_echoes hD
  | cons level tighter ih =>
    intro c
    refine .bind (ih c) fun {x y c₁} same => ?_
    exact .iterate Expr.forms (Expr.blur .erasing) (binaryStep_echoes hD ih)
      (fun sound run => binaryStep_before hD ih sound run) same

theorem ternary_echoes (hD : D.Echoes) :
    Echoes .tight .tight (ternary D) Expr.forms (Expr.blur .erasing) := by
  intro c
  refine .bind (binaryChain_echoes hD _ c) fun {x y c₁} same => ?_
  refine .accept rfl rfl (by simp) (by simp) (fun _ => ?_) (fun _ => .pure rfl same)
  refine .bind ((hD.assignment _).begin _) fun {y y' c₂} yes => ?_
  refine .expect rfl (by simp) (by simp) fun {s t} => ?_
  refine .bind ((hD.ternary _).begin _) fun {n n' c₃} no => .pure (by simp [Expr.forms]) ?_
  simp only [Expr.blur, Blur.erasing_span, same, yes, no]

theorem assignment_echoes (hD : D.Echoes) :
    Echoes .tight .tight (assignment D) Expr.forms (Expr.blur .erasing) := by
  intro c
  refine .bind (ternary_echoes hD c) fun {x y c₁} same => ?_
  have agree : ∀ {d : Cursor}, Edge.tight.Meets c₁ d → assignAhead? c₁ = assignAhead? d := by
    intro d meets
    unfold assignAhead?
    rw [meets.2]
  cases ahead : assignAhead? c₁ with
  | none =>
    have ends : EchoesAt .tight .tight x.forms c₁ (pure x) (pure y) Expr.forms
        (Expr.blur .erasing) := .pure rfl same
    refine ends.instead (fun {r} run => ?_) (fun {d r} meets run => ?_)
    · rw [get_bind_ok, ahead] at run
      exact run
    · rw [get_bind_ok, ← agree meets, ahead]
      exact run
  | some found =>
    obtain ⟨op, n⟩ := found
    have assigned : EchoesAt .tight .tight x.forms c₁
        (skip n >>= fun _ => D.assignment >>= fun value =>
          pure (Expr.assignment (x.span.merge value.span) x op value))
        (skip n >>= fun _ => D.assignment >>= fun value =>
          pure (Expr.assignment (y.span.merge value.span) y op value))
        Expr.forms (Expr.blur .erasing) := by
      refine skipOperator_echoes (assignAhead?_some ahead) ?_
      refine .bind ((hD.assignment _).begin _) fun {v v' c₂} value => .pure ?_ ?_
      · simp [Expr.forms]
      · simp only [Expr.blur, Blur.erasing_span, same, value]
    refine assigned.instead (fun {r} run => ?_) (fun {d r} meets run => ?_)
    · rw [get_bind_ok, ahead] at run
      exact run
    · rw [get_bind_ok, ← agree meets, ahead]
      exact run

end Apex.Grammar
