import Apex.Grammar.Expr
import Apex.Proofs.Blur.Trees
import Apex.Proofs.Reading.Steps

/-!
# Parsers that cannot see through a blur

Two rows of tokens look alike when their tokens do, one by one, and the same `>` tokens touch what
stands behind them. A parser cannot see through a blur if it does alike on rows that look alike:
it reads as many tokens and yields values that look alike, or it stops with errors that do. The
ways of putting parsers together keep this.
-/

namespace Apex

variable {b : Blur}

/-! ## Tokens -/

/-- Kinds that look alike are equal, or carry texts that look alike. -/
inductive TokenKind.Like (b : Blur) : TokenKind → TokenKind → Prop
  | refl (k : TokenKind) : Like b k k
  | name {t t' : String} (same : b.text t = b.text t') : Like b (.name t) (.name t')
  | soql {q q' : Query} (same : q.blur b = q'.blur b) : Like b (.soql q) (.soql q')
  | sosl {q q' : Query} (same : q.blur b = q'.blur b) : Like b (.sosl q) (.sosl q')

namespace TokenKind

variable {k k' : TokenKind}

theorem like_of_blur (same : k.blur b = k'.blur b) : k.Like b k' := by
  cases k <;> cases k' <;>
    simp only [blur, reduceCtorEq, name.injEq, soql.injEq, sosl.injEq] at same
  case name.name => exact .name same
  case soql.soql => exact .soql same
  case sosl.sosl => exact .sosl same
  all_goals first
    | exact .refl _
    | (rw [same]; exact .refl _)

theorem Like.blur (like : k.Like b k') : k.blur b = k'.blur b := by
  cases like with
  | refl => rfl
  | name same => exact congrArg TokenKind.name same
  | soql same => exact congrArg TokenKind.soql same
  | sosl same => exact congrArg TokenKind.sosl same

theorem Like.symm (like : k.Like b k') : k'.Like b k := like_of_blur like.blur.symm

/-- A blur hides nothing of a kind without a value. -/
theorem Like.eq_of_left (like : k.Like b k') (fixed : k.bearsLeaf = false) : k' = k := by
  cases like with
  | refl => rfl
  | name | soql | sosl => exact nomatch fixed

theorem Like.eq_iff (like : k.Like b k') {sign : TokenKind} (fixed : sign.bearsLeaf = false) :
    k = sign ↔ k' = sign := by
  constructor
  · rintro rfl
    exact like.eq_of_left fixed
  · rintro rfl
    exact like.symm.eq_of_left fixed

theorem Like.decide_eq (like : k.Like b k') {sign : TokenKind} (fixed : sign.bearsLeaf = false) :
    decide (k = sign) = decide (k' = sign) :=
  decide_eq_decide.mpr (like.eq_iff fixed)

theorem Like.beq_eq (like : k.Like b k') {sign : TokenKind} (fixed : sign.bearsLeaf = false) :
    (k == sign) = (k' == sign) := by
  rw [Bool.eq_iff_iff, beq_iff_eq, beq_iff_eq]
  exact like.eq_iff fixed

theorem Like.isName (like : k.Like b k') : k.isName = k'.isName := by
  cases like <;> rfl

theorem Like.operator? (like : k.Like b k') : k.operator? = k'.operator? := by
  cases like <;> rfl

theorem Like.spells (like : k.Like b k') (word : Keyword) : k.spells word = k'.spells word := by
  cases like with
  | refl | soql | sosl => rfl
  | name same => simp only [TokenKind.spells, Keyword.isSpelledBy, sameWord, b.text_word same]

theorem Like.word? (like : k.Like b k') : k.word?.map b.text = k'.word?.map b.text := by
  cases like with
  | refl | soql | sosl => rfl
  | name same => exact congrArg some same

end TokenKind

/-- Tokens that look alike. -/
structure Token.Like (b : Blur) (t t' : Token) : Prop where
  kind : t.kind.Like b t'.kind
  span : b.span t.span = b.span t'.span
  word : t.writtenWord?.map b.text = t'.writtenWord?.map b.text

theorem Token.isEnd_iff {t : Token} : t.isEnd = true ↔ t.kind = .endOfFile := by
  unfold Token.isEnd
  cases t.kind <;> simp

theorem Token.Like.isEnd {t t' : Token} (like : t.Like b t') : t.isEnd = t'.isEnd := by
  rw [Bool.eq_iff_iff, isEnd_iff, isEnd_iff]
  exact like.kind.eq_iff rfl

/-- Whether a `>` touches a `>` or `>=` behind it. -/
def Token.Joins (t u : Token) : Prop :=
  t.kind = .operator .greater ∧ (u.kind = .operator .greater ∨ u.kind = .operator .greaterEqual) ∧
    t.span.stop = u.span.start

/-! ## Cursors -/

/-- Cursors at the same place of rows that look alike. -/
structure Cursor.Like (b : Blur) (c d : Cursor) : Prop where
  position : c.position = d.position
  size : c.tokens.size = d.tokens.size
  token : ∀ i (h : i < c.tokens.size) (h' : i < d.tokens.size), c.tokens[i].Like b d.tokens[i]
  joined : ∀ i (h : i + 1 < c.tokens.size) (h' : i + 1 < d.tokens.size),
    (c.tokens[i].Joins c.tokens[i + 1] ↔ d.tokens[i].Joins d.tokens[i + 1])

namespace Cursor.Like

variable {c d : Cursor}

theorem peek (like : c.Like b d) (n : Nat) : (c.peek n).Like b (d.peek n) := by
  unfold Cursor.peek
  simp only [like.position, like.size]
  exact like.token _ _ _

theorem current (like : c.Like b d) : c.current.Like b d.current := by
  unfold Cursor.current
  simp only [like.position]
  exact like.token _ _ _

theorem atEnd (like : c.Like b d) : c.atEnd = d.atEnd := like.current.isEnd

theorem remaining (like : c.Like b d) : c.remaining = d.remaining := by
  unfold Cursor.remaining
  rw [like.position, like.size]

theorem advance (like : c.Like b d) : c.advance.Like b d.advance := by
  unfold Cursor.advance
  rw [← like.atEnd]
  have same : c.position + 1 < c.tokens.size ↔ d.position + 1 < d.tokens.size := by
    rw [like.position, like.size]
  by_cases more : c.position + 1 < c.tokens.size
  · rw [dif_pos more, dif_pos (same.mp more)]
    split
    · exact like
    · exact ⟨congrArg (· + 1) like.position, like.size, like.token, like.joined⟩
  · rw [dif_neg more, dif_neg (mt same.mpr more)]
    exact like

theorem previous? (like : c.Like b d) :
    c.previous?.map (fun t => b.span t.span) = d.previous?.map (fun t => b.span t.span) := by
  have hc := c.inBounds
  have hd := d.inBounds
  have size := like.size
  unfold Cursor.previous?
  rw [← like.position]
  split
  · rfl
  · rw [Array.getElem?_eq_getElem (by omega), Array.getElem?_eq_getElem (by omega)]
    exact congrArg some (like.token _ _ _).span

/-- A `>` touches what is behind it in both rows or in neither. -/
theorem joins (like : c.Like b d) (i : Nat) :
    (c.peek i).Joins (c.peek (i + 1)) ↔ (d.peek i).Joins (d.peek (i + 1)) := by
  have hc := c.inBounds
  have hd := d.inBounds
  have position := like.position
  have size := like.size
  rcases Nat.lt_or_ge (c.position + i + 1) c.tokens.size with inner | last
  · have joined := like.joined (c.position + i) inner (by omega)
    simp only [Cursor.peek, ← position, ← size]
    simpa only [Nat.min_eq_left (show c.position + i ≤ c.tokens.size - 1 by omega),
      Nat.min_eq_left (show c.position + (i + 1) ≤ c.tokens.size - 1 by omega),
      Nat.add_assoc] using joined
  · -- behind the last token there is only that token again, and it is no `>`
    have ended : (c.peek i).kind = .endOfFile := by
      simp only [Cursor.peek, Nat.min_eq_right (show c.tokens.size - 1 ≤ c.position + i by omega)]
      exact Token.isEnd_iff.mp c.endsRow
    have ended' := ((like.peek i).kind.eq_iff rfl).mp ended
    simp [Token.Joins, ended, ended']

/-- A `>` and a `>` or `>=` behind it touch in both rows or in neither. -/
theorem touching (like : c.Like b d) {i : Nat} (first : (c.peek i).kind = .operator .greater)
    (second : (c.peek (i + 1)).kind = .operator .greater ∨
      (c.peek (i + 1)).kind = .operator .greaterEqual) :
    Grammar.touching c i = Grammar.touching d i := by
  have first' := ((like.peek i).kind.eq_iff rfl).mp first
  have second' := second.imp ((like.peek (i + 1)).kind.eq_iff rfl).mp
    ((like.peek (i + 1)).kind.eq_iff rfl).mp
  have joins := like.joins i
  simp only [Token.Joins, first, second, first', second', true_and] at joins
  unfold Grammar.touching
  rw [Bool.eq_iff_iff, beq_iff_eq, beq_iff_eq, joins]

end Cursor.Like

namespace Parser

variable {α β γ δ σ τ : Type}

/-! ## Putting parsers together -/

/-- Outcomes that look alike, the values read through a view of them. -/
inductive SameOutcome (b : Blur) (view : α → γ) :
    Except ParseError (α × Cursor) → Except ParseError (α × Cursor) → Prop
  | ok {a a' : α} {c d : Cursor} (same : view a = view a') (like : c.Like b d) :
    SameOutcome b view (.ok (a, c)) (.ok (a', d))
  | error {e e' : ParseError} (same : e.blur b = e'.blur b) :
    SameOutcome b view (.error e) (.error e')

/-- Parsers that do alike on rows that look alike. -/
def Like (b : Blur) (view : α → γ) (p q : Parser α) : Prop :=
  ∀ c d, c.Like b d → SameOutcome b view (p c) (q d)

namespace Like

variable {view : α → γ} {view' : β → δ} {p p' q q' : Parser α} {f g : α → Parser β}

theorem pure {a a' : α} (same : view a = view a') :
    Like b view (Pure.pure a : Parser α) (Pure.pure a') := fun _ _ like => .ok same like

theorem fail (expected : List String) :
    Like b view (Parser.fail expected) (Parser.fail expected) := by
  intro c d like
  refine .error ?_
  simp only [ParseError.blur, like.current.span, like.current.kind.blur]

theorem throw {e e' : ParseError} (same : e.blur b = e'.blur b) :
    Like b view (MonadExcept.throw e : Parser α) (MonadExcept.throw e') := fun _ _ _ => .error same

theorem bind (h : Like b view p q) (hf : ∀ a a', view a = view a' → Like b view' (f a) (g a')) :
    Like b view' (p >>= f) (q >>= g) := by
  intro c d like
  show SameOutcome b view' (p c >>= fun r => f r.1 r.2) (q d >>= fun r => g r.1 r.2)
  have outcome := h c d like
  generalize p c = left at outcome ⊢
  generalize q d = right at outcome ⊢
  cases outcome with
  | ok same like => exact hf _ _ same _ _ like
  | error same => exact .error same

/-- What is read next does not depend on how the value looks. -/
theorem bindSame (h : Like b id p q) (hf : ∀ a, Like b view' (f a) (g a)) :
    Like b view' (p >>= f) (q >>= g) := by
  refine bind h fun a a' same => ?_
  rw [show a' = a from same.symm]
  exact hf a

theorem map {h h' : α → β} (hp : Like b view p q)
    (same : ∀ a a', view a = view a' → view' (h a) = view' (h' a')) :
    Like b view' (h <$> p) (h' <$> q) := by
  rw [← bind_pure_comp, ← bind_pure_comp]
  exact bind hp fun a a' ha => pure (same a a' ha)

theorem ite {t : Bool} (hp : Like b view p p') (hq : Like b view q q') :
    Like b view (if t then p else q) (if t then p' else q') := by
  cases t
  · exact hq
  · exact hp

/-- A choice made by conditions that hold together. -/
theorem iteIff {P Q : Prop} [Decidable P] [Decidable Q] (same : P ↔ Q) (hp : Like b view p p')
    (hq : Like b view q q') : Like b view (if P then p else q) (if Q then p' else q') := by
  by_cases holds : P
  · rw [if_pos holds, if_pos (same.mp holds)]
    exact hp
  · rw [if_neg holds, if_neg (mt same.mpr holds)]
    exact hq

/-- A choice whose result goes on in the same way on both sides. -/
theorem iteBind {t : Bool} (hp : Like b view p p') (hq : Like b view q q')
    (hf : ∀ a a', view a = view a' → Like b view' (f a) (g a')) :
    Like b view' (if t then p >>= f else q >>= f) (if t then p' >>= g else q' >>= g) :=
  ite (bind hp hf) (bind hq hf)

/-- A check that only ever stops, and what follows it. -/
theorem check {t : Bool} {r r' : Parser PUnit} {f g : PUnit → Parser β}
    (hr : Like b (fun u : PUnit => u) r r') (hf : Like b view' (f ⟨⟩) (g ⟨⟩)) :
    Like b view' (if t then r >>= f else f ⟨⟩) (if t then r' >>= g else g ⟨⟩) :=
  ite (bind hr fun _ _ _ => hf) hf

/-! ## Looking at tokens -/

theorem currentBind {f g : Token → Parser β}
    (hf : ∀ t t', t.Like b t' → Like b view' (f t) (g t')) :
    Like b view' (current >>= f) (current >>= g) :=
  fun c d like => hf _ _ like.current c d like

theorem kindBind {f g : TokenKind → Parser β}
    (hf : ∀ k k', k.Like b k' → Like b view' (f k) (g k')) :
    Like b view' (kind >>= f) (kind >>= g) :=
  fun c d like => hf _ _ like.current.kind c d like

theorem kindAtBind {n : Nat} {f g : TokenKind → Parser β}
    (hf : ∀ k k', k.Like b k' → Like b view' (f k) (g k')) :
    Like b view' (kindAt n >>= f) (kindAt n >>= g) :=
  fun c d like => hf _ _ (like.peek n).kind c d like

theorem nextBind {f g : Token → Parser β}
    (hf : ∀ t t', t.Like b t' → Like b view' (f t) (g t')) :
    Like b view' (next >>= f) (next >>= g) :=
  fun _ _ like => hf _ _ like.current _ _ like.advance

theorem getBind {f g : Cursor → Parser β} (hf : ∀ c d, c.Like b d → Like b view' (f c) (g d)) :
    Like b view' (get >>= f) (get >>= g) :=
  fun c d like => hf c d like c d like

theorem here : Like b b.span here here := fun _ _ like => .ok like.current.span like

theorem advance : Like b id advance advance := fun _ _ like => .ok rfl like.advance

theorem skip (n : Nat) : Like b id (skip n) (skip n) := by
  induction n with
  | zero => exact pure rfl
  | succ n ih => exact bindSame advance fun _ => ih

theorem isAt {sign : TokenKind} (fixed : sign.bearsLeaf = false) :
    Like b id (isAt sign) (isAt sign) := by
  intro c d like
  exact .ok (like.current.kind.beq_eq fixed) like

theorem accept {sign : TokenKind} (fixed : sign.bearsLeaf = false) :
    Like b id (accept sign) (accept sign) := by
  intro c d like
  have same := like.current.kind.eq_iff fixed
  unfold Parser.accept
  by_cases found : c.current.kind = sign
  · rw [if_pos found, if_pos (same.mp found)]
    exact .ok rfl like.advance
  · rw [if_neg found, if_neg (mt same.mpr found)]
    exact .ok rfl like

theorem expect {sign : TokenKind} (fixed : sign.bearsLeaf = false) :
    Like b b.span (expect sign) (expect sign) := by
  intro c d like
  have same := like.current.kind.eq_iff fixed
  unfold Parser.expect
  by_cases found : c.current.kind = sign
  · rw [if_pos found, if_pos (same.mp found)]
    exact .ok like.current.span like.advance
  · rw [if_neg found, if_neg (mt same.mpr found)]
    exact fail _ c d like

theorem expectWord (word : Keyword) : Like b b.span (expectWord word) (expectWord word) := by
  intro c d like
  unfold Parser.expectWord
  rw [like.current.kind.spells word]
  split
  · exact .ok like.current.span like.advance
  · exact fail _ c d like

/-- The span to the token read last cannot be told apart if its start cannot. -/
theorem spanFrom {start start' : Span} (same : b.span start = b.span start') :
    Like b b.span (spanFrom start) (spanFrom start') := by
  intro c d like
  have last := like.previous?
  unfold Parser.spanFrom
  cases hc : c.previous? <;> cases hd : d.previous? <;> simp only [hc, hd, Option.map] at last
  · exact .ok same like
  · exact nomatch last
  · exact nomatch last
  · exact .ok (b.span_from same (Option.some.inj last)) like

theorem matchesAhead {view : Unit → γ} {p q : Parser Unit} (h : Like b view p q) :
    Like b id (matchesAhead p) (matchesAhead q) := by
  intro c d like
  have outcome := h c d like
  unfold Parser.matchesAhead
  generalize p c = left at outcome ⊢
  generalize q d = right at outcome ⊢
  cases outcome with
  | ok => exact .ok rfl like
  | error => exact .ok rfl like

/-! ## Loops -/

theorem iterateFor {state : σ → τ} {step step' : σ → Parser (Turn σ β)}
    (h : ∀ s s', state s = state s' → Like b (Turn.map state view') (step s) (step' s'))
    (limit : Nat) : ∀ s s', state s = state s' →
      Like b view' (iterateFor step limit s) (iterateFor step' limit s') := by
  induction limit with
  | zero => exact fun _ _ _ => fail []
  | succ limit ih =>
    intro s s' same
    refine bind (h s s' same) fun turn turn' sameTurn => ?_
    cases turn <;> cases turn' <;> simp only [Turn.map, reduceCtorEq, Turn.again.injEq,
      Turn.done.injEq] at sameTurn
    · exact ih _ _ sameTurn
    · exact pure sameTurn

theorem iterate (state : σ → τ) {step step' : σ → Parser (Turn σ β)}
    (h : ∀ s s', state s = state s' → Like b (Turn.map state view') (step s) (step' s'))
    {s s' : σ} (same : state s = state s') :
    Like b view' (iterate step s) (iterate step' s') := by
  intro c d like
  unfold Parser.iterate
  rw [← like.remaining]
  exact iterateFor h _ s s' same c d like

/-- The state that has read one more item. -/
theorem again_cons {item item' : Parser α} (h : Like b view item item') {items items' : List α}
    (same : items.map view = items'.map view) :
    Like b (Turn.map (List.map view) (List.map view))
      (do return .again ((← item) :: items)) (do return .again ((← item') :: items')) := by
  refine bind h fun a a' ha => pure ?_
  simp only [Turn.map, List.map_cons, ha, same]

/-- The result of a loop that has read its last item. -/
theorem done_reverse {items items' : List α} (same : items.map view = items'.map view) :
    Like b (Turn.map (List.map view) (List.map view))
      (Pure.pure (.done items.reverse) : Parser (Turn (List α) (List α)))
      (Pure.pure (.done items'.reverse)) := by
  refine pure ?_
  simp only [Turn.map, List.map_reverse, same]

theorem itemsUntil {stop : TokenKind} (fixed : stop.bearsLeaf = false) {item item' : Parser α}
    (h : Like b view item item') :
    Like b (List.map view) (itemsUntil stop item) (itemsUntil stop item') := by
  refine iterate (List.map view) (fun items items' same => ?_) rfl
  refine bindSame (isAt fixed) fun stopped => ?_
  exact ite (done_reverse same) (again_cons h same)

theorem itemsWhile {item item' : Parser (Option α)} (h : Like b (Option.map view) item item') :
    Like b (List.map view) (itemsWhile item) (itemsWhile item') := by
  refine iterate (List.map view) (fun items items' same => ?_) rfl
  refine bind h fun found found' ha => ?_
  cases found <;> cases found' <;> simp only [Option.map, reduceCtorEq, Option.some.injEq] at ha
  · exact done_reverse same
  · refine pure ?_
    simp only [Turn.map, List.map_cons, ha, same]

theorem commaSeparatedFrom {item item' : Parser α} {first first' : α}
    (same : view first = view first') (h : Like b view item item') :
    Like b (List.map view) (commaSeparatedFrom first item) (commaSeparatedFrom first' item') := by
  refine iterate (List.map view) (fun items items' same => ?_) (congrArg (fun a => [a]) same)
  refine bindSame (accept rfl) fun comma => ?_
  exact ite (again_cons h same) (done_reverse same)

theorem commaSeparated {item item' : Parser α} (h : Like b view item item') :
    Like b (List.map view) (commaSeparated item) (commaSeparated item') :=
  bind h fun _ _ same => commaSeparatedFrom same h

theorem semicolons : Like b id semicolons semicolons := by
  refine iterate id (fun count count' same => ?_) rfl
  rw [show count' = count from same.symm]
  exact bindSame (accept rfl) fun more => ite (pure rfl) (pure rfl)

/-! ## Names -/

theorem identifier : Like b (Ident.blur b) identifier identifier := by
  intro c d like
  have kind := like.current.kind
  have failed : SameOutcome b (Ident.blur b) _ _ := fail ["identifier"] c d like
  unfold Parser.identifier
  generalize c.current.kind = k at kind ⊢
  generalize d.current.kind = k' at kind ⊢
  cases kind with
  | name same => exact .ok (by simp only [Ident.blur, same, like.current.span]) like.advance
  | soql | sosl => exact failed
  | refl =>
    split
    · exact .ok (by simp only [Ident.blur, like.current.span]) like.advance
    · exact failed

theorem memberName : Like b (Ident.blur b) memberName memberName := by
  intro c d like
  have word := like.current.word
  have failed : SameOutcome b (Ident.blur b) _ _ := fail ["identifier"] c d like
  unfold Parser.memberName
  generalize c.current.writtenWord? = w at word ⊢
  generalize d.current.writtenWord? = w' at word ⊢
  cases w <;> cases w' <;> simp only [Option.map, reduceCtorEq, Option.some.injEq] at word
  · exact failed
  · exact .ok (by simp only [Ident.blur, word, like.current.span]) like.advance

theorem qualifiedName : Like b (QualifiedName.blur b) qualifiedName qualifiedName := by
  have step (parts parts' : List Ident)
      (same : parts.map (Ident.blur b) = parts'.map (Ident.blur b)) :
      Like b (Turn.map (List.map (Ident.blur b)) (List.map (Ident.blur b))) (partStep parts)
        (partStep parts') := by
    refine bindSame (accept rfl) fun dot => ?_
    exact ite (again_cons memberName same) (done_reverse same)
  refine bind here fun start start' hs => bind identifier fun first first' hf => ?_
  refine bind (iterate _ step (congrArg (fun a => [a]) hf)) fun parts parts' hp => ?_
  refine bind (spanFrom hs) fun span span' h => pure ?_
  simp only [QualifiedName.blur, h, hp]

end Like

end Parser

end Apex
