import Apex.Grammar.Unit

/-!
# Parsers that agree unless they stop

A parser refines another one if, wherever it does not stop for a given reason, both do the same.
With the depth as the reason, a parser that may nest less deeply refines one that may nest more
deeply. Every construct of the grammar keeps this relation, so the whole grammar refines itself
when the constructs one level down do.
-/

namespace Apex

namespace Parser

variable {α β σ : Type} {stop : ParseError → Bool}

/-- Wherever `p` does not stop for the given reason, `q` does the same as `p`. -/
def Refines (stop : ParseError → Bool) (p q : Parser α) : Prop :=
  ∀ c, (∃ e, p c = .error e ∧ stop e = true) ∨ p c = q c

namespace Refines

theorem refl (p : Parser α) : Refines stop p p := fun _ => Or.inr rfl

theorem bind {p q : Parser α} {f g : α → Parser β} (h : Refines stop p q)
    (hf : ∀ a, Refines stop (f a) (g a)) : Refines stop (p >>= f) (q >>= g) := by
  intro c
  show (∃ e, (p c >>= fun r => f r.1 r.2) = .error e ∧ stop e = true) ∨
    (p c >>= fun r => f r.1 r.2) = (q c >>= fun r => g r.1 r.2)
  rcases h c with ⟨e, he, stopped⟩ | heq
  · rw [he]
    exact Or.inl ⟨e, rfl, stopped⟩
  · rw [← heq]
    cases p c with
    | error e => exact Or.inr rfl
    | ok r => exact hf r.1 r.2

theorem map {p q : Parser α} (f : α → β) (h : Refines stop p q) : Refines stop (f <$> p) (f <$> q) := by
  rw [← bind_pure_comp, ← bind_pure_comp]
  exact bind h fun a => refl _

theorem ite {b : Bool} {p p' q q' : Parser α} (hp : Refines stop p p') (hq : Refines stop q q') :
    Refines stop (if b then p else q) (if b then p' else q') := by
  cases b
  · exact hq
  · exact hp

/-- A choice whose result goes on in the same way on both sides. -/
theorem iteBind {b : Bool} {p p' q q' : Parser α} {f g : α → Parser β} (hp : Refines stop p p')
    (hq : Refines stop q q') (hf : ∀ a, Refines stop (f a) (g a)) :
    Refines stop (if b then p >>= f else q >>= f) (if b then p' >>= g else q' >>= g) :=
  ite (bind hp hf) (bind hq hf)

/-- A check that only ever stops, and what follows it. -/
theorem check {b : Bool} {p : Parser PUnit} {f g : PUnit → Parser β}
    (hf : ∀ u, Refines stop (f u) (g u)) :
    Refines stop (if b then p >>= f else f ⟨⟩) (if b then p >>= g else g ⟨⟩) :=
  ite (bind (refl _) hf) (hf _)

theorem trans {p q r : Parser α} (hpq : Refines stop p q) (hqr : Refines stop q r) : Refines stop p r := by
  intro c
  rcases hpq c with stopped | heq
  · exact Or.inl stopped
  · rw [heq]
    exact hqr c

/-! ## Loops -/

theorem iterateFor {step step' : σ → Parser (Turn σ β)} (h : ∀ s, Refines stop (step s) (step' s)) :
    ∀ limit s, Refines stop (iterateFor step limit s) (iterateFor step' limit s) := by
  intro limit
  induction limit with
  | zero => exact fun _ => refl _
  | succ limit ih =>
    intro s
    refine bind (h s) fun turn => ?_
    cases turn with
    | again s => exact ih s
    | done result => exact refl _

theorem iterate {step step' : σ → Parser (Turn σ β)} (h : ∀ s, Refines stop (step s) (step' s)) (s : σ) :
    Refines stop (iterate step s) (iterate step' s) :=
  fun c => iterateFor h (c.remaining + 1) s c

theorem itemsUntil {item item' : Parser α} (close : TokenKind) (h : Refines stop item item') :
    Refines stop (itemsUntil close item) (itemsUntil close item') := by
  refine iterate (fun items => ?_) []
  refine bind (refl _) fun stopped => ?_
  exact ite (refl _) (bind h fun x => refl _)

theorem itemsWhile {item item' : Parser (Option α)} (h : Refines stop item item') :
    Refines stop (itemsWhile item) (itemsWhile item') :=
  iterate (fun _ => bind h fun _ => refl _) []

theorem commaSeparatedFrom {item item' : Parser α} (first : α) (h : Refines stop item item') :
    Refines stop (commaSeparatedFrom first item) (commaSeparatedFrom first item') := by
  refine iterate (fun items => ?_) [first]
  refine bind (refl _) fun comma => ?_
  exact ite (bind h fun x => refl _) (refl _)

theorem commaSeparated {item item' : Parser α} (h : Refines stop item item') :
    Refines stop (commaSeparated item) (commaSeparated item') :=
  bind h fun first => commaSeparatedFrom first h

end Refines

end Parser

open Apex.Parser

/-- Whether a way of looking ahead keeps refinement of how type arguments are read. -/
def Parser.KeepsRefinement (stop : ParseError → Bool) (look : Parser TypeRef → Parser Unit) : Prop :=
  ∀ {p p' : Parser TypeRef}, Refines stop p p' → Refines stop (look p) (look p')

/-- Each construct one level down refines its counterpart, and looking ahead keeps refinement. -/
structure Deeper.Refines (stop : ParseError → Bool) (D D' : Deeper) : Prop where
  typeRef : Parser.Refines stop D.typeRef D'.typeRef
  annotationMark : Parser.Refines stop D.annotationMark D'.annotationMark
  annotationValue : Parser.Refines stop D.annotationValue D'.annotationValue
  assignment : Parser.Refines stop D.assignment D'.assignment
  ternary : Parser.Refines stop D.ternary D'.ternary
  unary : Parser.Refines stop D.unary D'.unary
  statement : Parser.Refines stop D.statement D'.statement
  typeDeclaration : ∀ read, Parser.Refines stop (D.typeDeclaration read) (D'.typeDeclaration read)
  ahead : ∀ look, Parser.KeepsRefinement stop look → Parser.Refines stop (D.ahead look) (D'.ahead look)

namespace Grammar

open Refines

variable {stop : ParseError → Bool} {D D' : Deeper}

/-! ## Types and headers -/

theorem typeArguments_refines {p p' : Parser TypeRef} (h : Refines stop p p') :
    Refines stop (typeArguments p) (typeArguments p') := by
  refine bind (refl _) fun opened => ?_
  exact ite (bind (commaSeparated h) fun arguments => refl _) (refl _)

theorem elementType_refines {p p' : Parser TypeRef} (h : Refines stop p p') :
    Refines stop (elementType p) (elementType p') := by
  refine bind (refl _) fun start => bind (refl _) fun segments => ?_
  exact bind (typeArguments_refines h) fun arguments => refl _

theorem typeRef_refines {p p' : Parser TypeRef} (h : Refines stop p p') :
    Refines stop (typeRef p) (typeRef p') := by
  refine bind (refl _) fun start => ?_
  exact bind (elementType_refines h) fun type => refl _

theorem arrayValue_refines (h : D.Refines stop D') :
    Refines stop (arrayValue D) (arrayValue D') :=
  bind h.annotationValue fun _ => refl _

theorem arrayValues_refines (h : D.Refines stop D') :
    Refines stop (arrayValues D) (arrayValues D') := by
  refine bind (refl _) fun empty => ?_
  exact ite (refl _) (commaSeparated (arrayValue_refines h))

theorem annotationValue_refines (h : D.Refines stop D') :
    Refines stop (annotationValue D) (annotationValue D') := by
  refine bind (refl _) fun start => bind (refl _) fun nested => ?_
  refine ite (bind h.annotationMark fun a => refl _) ?_
  refine bind (refl _) fun array => ?_
  exact ite (bind (arrayValues_refines h) fun values => refl _) (refl _)

theorem keyedElement_refines (h : D.Refines stop D') :
    Refines stop (keyedElement D) (keyedElement D') := by
  refine bind (refl _) fun key => bind (refl _) fun eq => ?_
  exact bind (annotationValue_refines h) fun value => refl _

theorem annotationElements_refines (h : D.Refines stop D') :
    Refines stop (annotationElements D) (annotationElements D') := by
  refine bind (refl _) fun keyed => ?_
  refine ite (itemsUntil _ (keyedElement_refines h)) ?_
  refine bind (refl _) fun empty => ?_
  exact ite (refl _) (bind (annotationValue_refines h) fun value => refl _)

theorem annotation_refines (h : D.Refines stop D') :
    Refines stop (annotationMark D) (annotationMark D') := by
  refine bind (refl _) fun start => bind (refl _) fun name => bind (refl _) fun parenthesized => ?_
  exact ite (bind (annotationElements_refines h) fun elements => refl _) (refl _)

theorem header_refines (h : D.Refines stop D') : Refines stop (header D) (header D') := by
  refine iterate (fun read => ?_) _
  refine bind (refl _) fun annotated => ?_
  exact ite (bind (annotation_refines h) fun a => refl _) (refl _)

/-! ## Expressions -/

theorem expressions_refines (h : D.Refines stop D') :
    Refines stop (expressions D) (expressions D') :=
  commaSeparated h.assignment

theorem expressionsBefore_refines (h : D.Refines stop D') (close : Punctuation) :
    Refines stop (expressionsBefore D close) (expressionsBefore D' close) := by
  refine bind (refl _) fun empty => ?_
  exact ite (refl _) (expressions_refines h)

theorem optionalExpression_refines (h : D.Refines stop D') :
    Refines stop (optionalExpression D) (optionalExpression D') :=
  bind (refl _) fun _ => ite (refl _) (map _ h.assignment)

theorem arguments_refines (h : D.Refines stop D') : Refines stop (arguments D) (arguments D') := by
  refine bind (refl _) fun start => ?_
  exact bind (expressionsBefore_refines h _) fun args => refl _

theorem parenthesized_refines (h : D.Refines stop D') :
    Refines stop (parenthesized D) (parenthesized D') := by
  refine bind (refl _) fun start => ?_
  exact bind h.assignment fun inner => refl _

theorem entryValue_refines (h : D.Refines stop D') : Refines stop (entryValue D) (entryValue D') :=
  bind (refl _) fun _ => h.assignment

theorem mapEntry_refines (h : D.Refines stop D') : Refines stop (mapEntry D) (mapEntry D') := by
  refine bind h.assignment fun key => ?_
  exact bind (entryValue_refines h) fun value => refl _

theorem braceCreator_refines (h : D.Refines stop D') (start : Span) (type : TypeRef) :
    Refines stop (braceCreator D start type) (braceCreator D' start type) := by
  refine bind (refl _) fun empty => ite (refl _) ?_
  refine bind h.assignment fun first => bind (refl _) fun isMap => ?_
  refine ite ?_ (bind (commaSeparatedFrom _ h.assignment) fun elements => refl _)
  refine bind (entryValue_refines h) fun value => ?_
  exact bind (commaSeparatedFrom _ (mapEntry_refines h)) fun entries => refl _

theorem bracketCreator_refines (h : D.Refines stop D') (start : Span) (type : TypeRef) :
    Refines stop (bracketCreator D start type) (bracketCreator D' start type) := by
  refine bind (refl _) fun empty => ?_
  refine ite ?_ (bind h.assignment fun size => refl _)
  refine bind (refl _) fun brace => ?_
  exact bind (expressionsBefore_refines h _) fun elements => refl _

theorem creator_refines (h : D.Refines stop D') (start : Span) :
    Refines stop (creator D start) (creator D' start) := by
  refine bind (elementType_refines h.typeRef) fun type => bind (refl _) fun object => ?_
  refine ite (bind (arguments_refines h) fun args => refl _) ?_
  refine bind (refl _) fun bracket => ite (bracketCreator_refines h start type) ?_
  refine bind (refl _) fun brace => ?_
  exact ite (braceCreator_refines h start type) (refl _)

theorem wordOrCall_refines (h : D.Refines stop D') (word : Ident) (alone : Expr) :
    Refines stop (wordOrCall D word alone) (wordOrCall D' word alone) := by
  refine bind (refl _) fun _ => bind (refl _) fun call => ?_
  exact ite (bind (arguments_refines h) fun args => refl _) (refl _)

theorem primary_refines (h : D.Refines stop D') : Refines stop (primary D) (primary D') := by
  refine bind (refl _) fun token => ?_
  dsimp only
  split
  · exact refl _
  · split
    · exact wordOrCall_refines h _ _
    · exact wordOrCall_refines h _ _
    · exact bind (refl _) fun _ => creator_refines h _
    · exact refl _
    · exact bind (parenthesized_refines h) fun inner => refl _
    · exact wordOrCall_refines h _ _
    · exact refl _

theorem postfixStep_refines (h : D.Refines stop D') (operand : Expr) :
    Refines stop (postfixStep D operand) (postfixStep D' operand) := by
  refine bind (refl _) fun dot => ite ?_ ?_
  · refine bind (refl _) fun member => bind (refl _) fun call => ?_
    exact ite (bind (arguments_refines h) fun args => refl _) (refl _)
  · refine bind (refl _) fun bracket => ?_
    exact ite (bind h.assignment fun position => refl _) (refl _)

theorem postfixChain_refines (h : D.Refines stop D') :
    Refines stop (postfixChain D) (postfixChain D') := by
  refine bind (primary_refines h) fun first => ?_
  exact iterate (postfixStep_refines h) first

theorem unary_refines (h : D.Refines stop D') : Refines stop (unary D) (unary D') := by
  refine bind (refl _) fun start => bind (refl _) fun kind => ?_
  dsimp only
  split
  · exact bind (refl _) fun _ => bind h.unary fun operand => refl _
  · exact bind (refl _) fun _ => bind h.unary fun operand => refl _
  · refine bind (refl _) fun c => ?_
    refine ite ?_ (postfixChain_refines h)
    refine bind (refl _) fun _ => bind (typeRef_refines h.typeRef) fun type => ?_
    exact bind (refl _) fun _ => bind h.unary fun operand => refl _

theorem binaryStep_refines (h : D.Refines stop D') (level : BinaryLevel) {operand operand' : Parser Expr}
    (ho : Refines stop operand operand') (left : Expr) :
    Refines stop (binaryStep D level operand left) (binaryStep D' level operand' left) := by
  refine bind (refl _) fun next => ite ?_ ?_
  · refine bind (refl _) fun _ => ?_
    exact bind (typeRef_refines h.typeRef) fun type => refl _
  · refine bind (refl _) fun c => ?_
    split
    · exact bind (refl _) fun _ => bind ho fun right => refl _
    · exact refl _

theorem binaryChain_refines (h : D.Refines stop D') :
    ∀ levels, Refines stop (binaryChain D levels) (binaryChain D' levels)
  | [] => unary_refines h
  | level :: tighter => by
    refine bind (binaryChain_refines h tighter) fun first => ?_
    exact iterate (binaryStep_refines h level (binaryChain_refines h tighter)) first

theorem ternary_refines (h : D.Refines stop D') : Refines stop (ternary D) (ternary D') := by
  refine bind (binaryChain_refines h _) fun condition => bind (refl _) fun question => ?_
  refine ite ?_ (refl _)
  refine bind h.assignment fun yes => bind (refl _) fun _ => ?_
  exact bind h.ternary fun no => refl _

theorem assignment_refines (h : D.Refines stop D') :
    Refines stop (assignment D) (assignment D') := by
  refine bind (ternary_refines h) fun target => bind (refl _) fun c => ?_
  split
  · exact bind (refl _) fun _ => bind h.assignment fun value => refl _
  · exact refl _

end Grammar

end Apex
