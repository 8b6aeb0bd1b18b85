import Apex.Proofs.Reading.Steps
import Apex.Proofs.Safety.Families

/-!
# Parsers that stay in a family of spans

On a row of tokens whose spans belong to a family a parser yields values that are made of spans of
the family, or it stops with an error that lies in it. The ways of putting parsers together keep
this.
-/

namespace Apex

variable {S : Span.Family}

/-! ## Cursors -/

/-- All tokens of the row lie in the family. -/
def Cursor.LiesIn (S : Span.Family) (c : Cursor) : Prop := ∀ t ∈ c.tokens, t.LiesIn S

namespace Cursor.LiesIn

variable {c : Cursor}

theorem current (h : c.LiesIn S) : c.current.LiesIn S := h _ (Array.getElem_mem _)

theorem peek (h : c.LiesIn S) (n : Nat) : (c.peek n).LiesIn S := h _ (Array.getElem_mem _)

theorem previous? (h : c.LiesIn S) {t : Token} (found : c.previous? = some t) : t.LiesIn S := by
  unfold Cursor.previous? at found
  split at found
  · cases found
  · exact h t (Array.mem_of_getElem? found)

theorem advance (h : c.LiesIn S) : c.advance.LiesIn S := by
  unfold Cursor.LiesIn
  rw [advance_tokens]
  exact h

end Cursor.LiesIn

namespace Parser

variable {α β σ : Type}

/-! ## Putting parsers together -/

/-- An outcome in a family: a value with a property and the row it leaves, or an error. -/
inductive Settles (S : Span.Family) (Q : α → Prop) : Except ParseError (α × Cursor) → Prop
  | ok {x : α} {c : Cursor} (holds : Q x) (row : c.LiesIn S) : Settles S Q (.ok (x, c))
  | error {e : ParseError} (lies : e.span ∈ S) : Settles S Q (.error e)

/-- The parser stays in the family and yields only values with the property. -/
def StaysIn (S : Span.Family) (Q : α → Prop) (p : Parser α) : Prop :=
  ∀ c : Cursor, c.LiesIn S → Settles S Q (p c)

/-- What a turn of a loop has to keep: one property of the state it goes on from, another one of the
result it ends with. -/
def Turn.Holds (I : σ → Prop) (R : β → Prop) : Turn σ β → Prop
  | .again state => I state
  | .done result => R result

namespace StaysIn

variable {Q Q' : α → Prop} {R : β → Prop} {p q : Parser α} {f : α → Parser β}

theorem mono (h : StaysIn S Q p) (imp : ∀ x, Q x → Q' x) : StaysIn S Q' p := by
  intro c row
  have outcome := h c row
  generalize p c = result at outcome ⊢
  cases outcome with
  | ok holds row => exact .ok (imp _ holds) row
  | error lies => exact .error lies

theorem pure {x : α} (holds : Q x) : StaysIn S Q (Pure.pure x : Parser α) :=
  fun _ row => .ok holds row

theorem fail (expected : List String) : StaysIn S Q (Parser.fail expected : Parser α) :=
  fun _ row => .error row.current.span

theorem throw {e : ParseError} (lies : e.span ∈ S) :
    StaysIn S Q (MonadExcept.throw e : Parser α) :=
  fun _ _ => .error lies

theorem bind (h : StaysIn S Q p) (hf : ∀ x, Q x → StaysIn S R (f x)) :
    StaysIn S R (p >>= f) := by
  intro c row
  show Settles S R (p c >>= fun r => f r.1 r.2)
  have outcome := h c row
  generalize p c = first at outcome ⊢
  cases outcome with
  | ok holds row => exact hf _ holds _ row
  | error lies => exact .error lies

theorem map {g : α → β} (h : StaysIn S Q p) (hg : ∀ x, Q x → R (g x)) : StaysIn S R (g <$> p) := by
  rw [← bind_pure_comp]
  exact h.bind fun x holds => .pure (hg x holds)

theorem ite {t : Prop} [Decidable t] (hp : StaysIn S Q p) (hq : StaysIn S Q q) :
    StaysIn S Q (if t then p else q) := by
  split
  · exact hp
  · exact hq

/-- A choice whose result goes on in the same way on both sides. -/
theorem iteBind {t : Prop} [Decidable t] (hp : StaysIn S Q p) (hq : StaysIn S Q q)
    (hf : ∀ x, Q x → StaysIn S R (f x)) : StaysIn S R (if t then p >>= f else q >>= f) :=
  ite (hp.bind hf) (hq.bind hf)

/-- A check that only ever stops, and what follows it. -/
theorem check {t : Prop} [Decidable t] {r : Parser PUnit} {f : PUnit → Parser β}
    (hr : StaysIn S (fun _ => True) r) (hf : StaysIn S R (f ⟨⟩)) :
    StaysIn S R (if t then r >>= f else f ⟨⟩) :=
  ite (hr.bind fun _ _ => hf) hf

/-! ## Looking at tokens -/

theorem current : StaysIn S (Token.LiesIn S) current := fun _ row => .ok row.current row

theorem next : StaysIn S (Token.LiesIn S) next := fun _ row => .ok row.current row.advance

theorem here : StaysIn S (· ∈ S) here := fun _ row => .ok row.current.span row

theorem kind : StaysIn S (fun _ => True) kind := fun _ row => .ok trivial row

theorem kindAt (n : Nat) : StaysIn S (fun _ => True) (kindAt n) := fun _ row => .ok trivial row

theorem isAt (sign : TokenKind) : StaysIn S (fun _ => True) (isAt sign) :=
  fun _ row => .ok trivial row

theorem getBind {f : Cursor → Parser β} (hf : ∀ c, c.LiesIn S → StaysIn S R (f c)) :
    StaysIn S R (get >>= f) :=
  fun c row => hf c row c row

theorem advance : StaysIn S (fun _ => True) advance := fun _ row => .ok trivial row.advance

theorem skip (n : Nat) : StaysIn S (fun _ => True) (skip n) := by
  induction n with
  | zero => exact pure trivial
  | succ n ih => exact advance.bind fun _ _ => ih

theorem accept (sign : TokenKind) : StaysIn S (fun _ => True) (accept sign) := by
  intro c row
  unfold Parser.accept
  split
  · exact .ok trivial row.advance
  · exact .ok trivial row

theorem expect (sign : TokenKind) : StaysIn S (· ∈ S) (expect sign) := by
  intro c row
  unfold Parser.expect
  split
  · exact .ok row.current.span row.advance
  · exact fail _ c row

theorem expectWord (word : Keyword) : StaysIn S (· ∈ S) (expectWord word) := by
  intro c row
  unfold Parser.expectWord
  split
  · exact .ok row.current.span row.advance
  · exact fail _ c row

theorem spanFrom {start : Span} (h : start ∈ S) : StaysIn S (· ∈ S) (spanFrom start) := by
  intro c row
  unfold Parser.spanFrom
  split
  · next last found =>
    refine .ok ?_ row
    split
    · exact Span.Family.merge_mem h (row.previous? found).span
    · exact h
  · exact .ok h row

theorem matchesAhead (p : Parser Unit) : StaysIn S (fun _ => True) (matchesAhead p) := by
  intro c row
  unfold Parser.matchesAhead
  split
  · exact .ok trivial row
  · exact .ok trivial row

/-! ## Loops -/

theorem iterateFor {I : σ → Prop} {step : σ → Parser (Turn σ β)}
    (h : ∀ s, I s → StaysIn S (Turn.Holds I R) (step s)) (limit : Nat) :
    ∀ s, I s → StaysIn S R (iterateFor step limit s) := by
  induction limit with
  | zero => exact fun _ _ => fail []
  | succ limit ih =>
    intro s holds
    refine (h s holds).bind fun turn holds => ?_
    cases turn with
    | again s' => exact ih s' holds
    | done result => exact pure holds

/-- A loop stays in the family if its steps do and keep a property of its state. -/
theorem iterate {I : σ → Prop} {step : σ → Parser (Turn σ β)}
    (h : ∀ s, I s → StaysIn S (Turn.Holds I R) (step s)) {s : σ} (holds : I s) :
    StaysIn S R (iterate step s) :=
  fun c row => iterateFor h _ s holds c row

/-- A loop over items that all have a property. -/
theorem collect {step : List α → Parser (Turn (List α) (List α))}
    (h : ∀ items, (∀ x ∈ items, Q x) → StaysIn S
      (Turn.Holds (fun xs : List α => ∀ x ∈ xs, Q x) fun xs : List α => ∀ x ∈ xs, Q x) (step items))
    {items : List α} (all : ∀ x ∈ items, Q x) :
    StaysIn S (fun xs : List α => ∀ x ∈ xs, Q x) (Parser.iterate step items) :=
  iterate h all

/-- The state that has read one more item. -/
theorem againCons (h : StaysIn S Q p) {items : List α} (all : ∀ x ∈ items, Q x) :
    StaysIn S (Turn.Holds (fun xs : List α => ∀ x ∈ xs, Q x) fun xs : List α => ∀ x ∈ xs, Q x)
      (do return .again ((← p) :: items)) :=
  h.bind fun _ holds => .pure (List.forall_mem_cons.mpr ⟨holds, all⟩)

/-- The result of a loop that has read its last item. -/
theorem doneReverse {items : List α} (all : ∀ x ∈ items, Q x) :
    StaysIn S (Turn.Holds (fun xs : List α => ∀ x ∈ xs, Q x) fun xs : List α => ∀ x ∈ xs, Q x)
      (Pure.pure (.done items.reverse) : Parser (Turn (List α) (List α))) :=
  pure fun x mem => all x (List.mem_reverse.mp mem)

theorem itemsUntil (h : StaysIn S Q p) (stop : TokenKind) :
    StaysIn S (fun xs => ∀ x ∈ xs, Q x) (itemsUntil stop p) := by
  refine collect (fun items all => ?_) (List.forall_mem_nil _)
  exact (isAt stop).bind fun _ _ => ite (doneReverse all) (againCons h all)

theorem itemsWhile {item? : Parser (Option α)} (h : StaysIn S (fun x => ∀ a ∈ x, Q a) item?) :
    StaysIn S (fun xs => ∀ x ∈ xs, Q x) (itemsWhile item?) := by
  refine collect (fun items all => ?_) (List.forall_mem_nil _)
  refine h.bind fun found holds => ?_
  cases found with
  | none => exact doneReverse all
  | some item => exact pure (List.forall_mem_cons.mpr ⟨holds item rfl, all⟩)

theorem commaSeparatedFrom (h : StaysIn S Q p) {first : α} (holds : Q first) :
    StaysIn S (fun xs => ∀ x ∈ xs, Q x) (commaSeparatedFrom first p) := by
  refine collect (fun items all => ?_) (List.forall_mem_singleton.mpr holds)
  exact (accept _).bind fun _ _ => ite (againCons h all) (doneReverse all)

theorem commaSeparated (h : StaysIn S Q p) :
    StaysIn S (fun xs => ∀ x ∈ xs, Q x) (commaSeparated p) :=
  h.bind fun _ holds => commaSeparatedFrom h holds

theorem semicolons : StaysIn S (fun _ => True) semicolons := by
  refine iterate (I := fun _ => True) (fun count _ => ?_) trivial
  exact (accept _).bind fun _ _ => ite (pure trivial) (pure trivial)

/-! ## Names -/

theorem identifier : StaysIn S (fun name : Ident => name.span ∈ S) identifier := by
  intro c row
  unfold Parser.identifier
  split
  · exact .ok row.current.span row.advance
  · exact fail _ c row

theorem memberName : StaysIn S (fun name : Ident => name.span ∈ S) memberName := by
  intro c row
  unfold Parser.memberName
  split
  · exact .ok row.current.span row.advance
  · exact fail _ c row

theorem qualifiedName : StaysIn S (fun q => q.node.LiesIn S) qualifiedName := by
  refine here.bind fun start hs => identifier.bind fun first hf => ?_
  have parts : StaysIn S (fun names : List Ident => ∀ name ∈ names, name.span ∈ S)
      (Parser.iterate partStep [first]) :=
    collect (fun _ all => (accept _).bind fun _ _ => ite (againCons memberName all)
      (doneReverse all)) (List.forall_mem_singleton.mpr hf)
  refine parts.bind fun parts all => (spanFrom hs).bind fun span own => pure ?_
  simpa [QualifiedName.node, own] using all

end StaysIn

end Parser

end Apex
