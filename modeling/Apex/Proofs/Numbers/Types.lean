import Apex.Proofs.Numbers.Rows
import Apex.Proofs.Spans.Types

/-!
# Whole numbers of types and headers

Types hold no numbers. Annotations do: a value takes a sign before it into its number. Whether there
is one is seen from the token before the cursor as well, which is never a sign where the grammar
asks for a value. The items of a header come out in the order in which they start, but they are
the items read.
-/

namespace Apex

/-! ## Values -/

/-- What the parser reads where no sign stands before the cursor tallies, as values of an
annotation, with the tokens it reads. -/
def Parser.TalliesValues {α : Type} (p : Parser α) (nodes : α → List Node) : Prop :=
  ∀ ⦃c x c'⦄, c.sign? = none → p c = .ok (x, c') → Node.Tally true (nodes x) c c'

theorem Cursor.sign?_advance {c : Cursor} (h : c.current.isEnd = false) :
    c.advance.sign? = c.current.sign? := by
  unfold sign?
  rw [previous?_advance h]
  rfl

/-- A token that stands for something the end does not stand for is not the end. -/
theorem Cursor.isEnd_of_some {α : Type} {c : Cursor} {f : TokenKind → Option α} {x : α}
    (h : f c.current.kind = some x) (atEnd : f .endOfFile = none) : c.current.isEnd = false := by
  refine Parser.isEnd_of_kind rfl fun ends => ?_
  rw [ends, atEnd] at h
  cases h

/-- Behind a token of a known kind that is no minus sign. -/
theorem Cursor.sign?_advance_of_kind {c : Cursor} {k : TokenKind} (h : c.current.kind = k)
    (inside : k ≠ .endOfFile) (other : k ≠ .operator .minus) : c.advance.sign? = none := by
  rw [sign?_advance (Parser.isEnd_of_kind h inside), Token.sign?, h, if_neg other]

namespace Node

variable {isValue : Bool} {n : Node} {ns : List Node} {element : Element} {span : Span}
  {value : Literal} {c c' : Cursor}

/-- The numbers of a tree whose root is plain do not depend on what it stands for. -/
theorem Tally.of_isPlain (h : Tally false [n] c c') (plain : n.element.isPlain = true) :
    Tally isValue [n] c c' := by
  obtain ⟨element, span, ns⟩ := n
  have plain : element.isPlain = true := plain
  exact h.congr ((numbersOf_of_isPlain plain).trans (numbersOf_of_isPlain plain).symm)

/-- A node that holds values of an annotation tallies where they do. -/
theorem Tally.values (h : Tally true ns c c') (none : element.whole? = none)
    (holds : element.holdsValues = true) : Tally isValue [.mk element span ns] c c' := by
  refine h.congr ?_
  rw [numbersOf, numbers, none, holds, numbersOf, List.append_nil]
  rfl

theorem numbersOf_literal :
    numbersOf isValue [.leaf (.literal value) span] =
      (value.whole?.map fun n => ⟨n, span, isValue⟩).toList := by
  unfold leaf
  simp only [numbersOf, numbers, List.append_nil]
  rfl

/-- A literal that carries the number under the cursor. Only a value of an annotation would take
the sign before it. -/
theorem tally_literal (inside : c.current.isEnd = false)
    (same : value.whole? = c.current.kind.whole?) (unsigned : isValue = true → c.sign? = none) :
    Tally isValue [.leaf (.literal value) c.current.span] c c.advance := by
  refine ⟨Cursor.upto_advance c, ?_⟩
  rw [numbersOf_literal, Cursor.numbersTo_advance inside, same]
  cases c.current.kind.whole? with
  | none => exact .zero
  | some n =>
    refine .cons ?_ .zero
    cases isValue with
    | false => exact ⟨rfl, rfl⟩
    | true =>
      rw [unsigned rfl]
      exact ⟨rfl, rfl⟩

end Node

namespace Grammar

variable {D : Deeper} {k : TokenKind} {value : Literal}

theorem whole?_of_annotationLiteral? (h : annotationLiteral? k = some value) :
    value.whole? = k.whole? := by
  unfold annotationLiteral? at h
  split at h <;> cases h <;> rfl

theorem whole?_of_negatedLiteral? (h : negatedLiteral? k = some value) :
    value.whole? = k.whole?.map WholeNumber.negated := by
  unfold negatedLiteral? at h
  split at h <;> cases h <;> rfl

end Grammar

/-! ## What may be nested -/

/-- The constructs one level down tally with the tokens they are read from. -/
structure Deeper.Tallies (D : Deeper) : Prop where
  typeRef : D.typeRef.Tallies fun t => [t.node]
  annotationMark : D.annotationMark.Tallies fun a => [a.node]
  annotationValue : D.annotationValue.TalliesValues fun v => [v.node]
  assignment : D.assignment.Tallies fun e => [e.node]
  ternary : D.ternary.Tallies fun e => [e.node]
  unary : D.unary.Tallies fun e => [e.node]
  statement : D.statement.Tallies fun s => [s.node]
  typeDeclaration : ∀ {read : ReadHeader} {c₀ c type c'}, Node.Tally false read.header.nodes c₀ c →
    D.typeDeclaration read c = .ok (type, c') → Node.Tally false [type.node] c₀ c'
  ahead : ∀ {look c found c'}, D.ahead look c = .ok (found, c') → c' = c

namespace Grammar

open Apex.Parser Node

variable {D : Deeper} {c c' : Cursor}

/-! ## Types -/

theorem typeSegments_tallies :
    typeSegments.Tallies fun segments => segments.map Spanned.identifierNode := by
  intro c segments c' h
  obtain ⟨first, c₁, more, rfl, name, items, _⟩ := typeSegments_ok.mp h
  have tail : Tally false (more.map Spanned.identifierNode) c₁ c' :=
    tally_of_items items fun run =>
      (identifier_tallies run.2.2).after (Cursor.silent_advance run.1 rfl)
  exact (identifier_tallies name).cons tail

theorem typeArguments_tallies {argument : Parser TypeRef}
    (ha : argument.Tallies fun t => [t.node]) :
    (typeArguments argument).Tallies TypeRef.nodes := by
  intro c types c' h
  rcases typeArguments_ok.mp h with ⟨less, types, c₁, run, greater, done⟩ | ⟨_, done⟩
  · cases done
    rw [TypeRef.nodes_eq_map]
    have inner := commaSeparated_tallies ha run
    exact (inner.after (Cursor.silent_advance less rfl)).before (Cursor.silent_advance greater rfl)
  · cases done
    exact .nil (.refl _)

theorem elementType_tally {argument : Parser TypeRef} (ha : argument.Tallies fun t => [t.node])
    {type : TypeRef} (h : elementType argument c = .ok (type, c')) :
    Tally false (type.segments.map Spanned.identifierNode ++ TypeRef.nodes type.arguments)
      c c' := by
  obtain ⟨segments, c₁, types, c₂, names, args, done⟩ := elementType_ok.mp h
  cases done
  exact (typeSegments_tallies names).append (typeArguments_tallies ha args)

theorem elementType_tallies {argument : Parser TypeRef} (ha : argument.Tallies fun t => [t.node]) :
    (elementType argument).Tallies fun t => [t.node] := by
  intro c type c' h
  have row := elementType_tally ha h
  obtain ⟨span, segments, arguments, dimensions⟩ := type
  exact row.around rfl

theorem typeRef_tallies {argument : Parser TypeRef} (ha : argument.Tallies fun t => [t.node]) :
    (typeRef argument).Tallies fun t => [t.node] := by
  intro c type c' h
  obtain ⟨element, c₁, dimensions, c₂, run, brackets, done⟩ := typeRef_ok.mp h
  cases done
  exact ((elementType_tally ha run).before (arrayBrackets_silent brackets)).around rfl

/-! ## Modifiers -/

theorem modifierAhead?_numberless {m : Modifier} {n : Nat}
    (h : modifierAhead? c = some (m, n)) : c.Numberless (c.advances n) := by
  have inside := (modifierAhead?_inside h).1
  have second : (c.peek 1).kind.spells .kwSharing = true →
      c.advance.Numberless (c.advances 2) := by
    intro sharing
    rw [Cursor.peek_one inside] at sharing
    exact Cursor.numberless_of_spells sharing
  unfold modifierAhead? at h
  split at h
  · next found =>
    cases h
    obtain ⟨sharing, first⟩ := Bool.and_eq_true_iff.mp found
    have keyword : c.current.kind = .keyword .kwWith := by simpa using first
    exact (Cursor.numberless_advance keyword rfl).trans (second sharing)
  split at h
  · next found =>
    cases h
    obtain ⟨sharing, first⟩ := Bool.and_eq_true_iff.mp found
    exact (Cursor.numberless_of_spells first).trans (second sharing)
  split at h
  · next found =>
    cases h
    obtain ⟨sharing, first⟩ := Bool.and_eq_true_iff.mp found
    exact (Cursor.numberless_of_spells first).trans (second sharing)
  split at h
  · next keyword =>
    obtain ⟨_, _, done⟩ := Option.map_eq_some_iff.mp h
    cases done
    exact Cursor.numberless_advance keyword rfl
  · cases h

theorem modifier?_tally {m : Spanned Modifier} (h : modifier? c = .ok (some m, c')) :
    Tally false [m.modifierNode] c c' := by
  rcases modifier?_ok.mp h with ⟨⟨value, n⟩, found, done⟩ | ⟨_, _, done⟩
  · cases done
    exact .leaf rfl (modifierAhead?_numberless found)
  · cases done

theorem modifiers_tallies : modifiers.Tallies (·.map Spanned.modifierNode) := by
  have loop : ∀ {read mods : List (Spanned Modifier)} {c c' : Cursor},
      Iterates modifierStep read c mods c' →
      ∃ more, mods = read.reverse ++ more ∧ Tally false (more.map Spanned.modifierNode) c c' := by
    intro read mods c c' run
    induction run with
    | done run =>
      rcases modifierStep_ok.mp run with ⟨_, _, _, _, turn⟩ | ⟨_, none, turn⟩
      · cases turn
      · cases turn
        cases modifier?_none none
        exact ⟨[], by simp, .nil (.refl _)⟩
    | again run _ ih =>
      rcases modifierStep_ok.mp run with ⟨m, _, some, _, turn⟩ | ⟨_, _, turn⟩
      · cases turn
        obtain ⟨more, rfl, tally⟩ := ih
        exact ⟨m :: more, by simp, (modifier?_tally some).cons tally⟩
      · cases turn
  intro c mods c' h
  obtain ⟨more, rfl, tally⟩ := loop (iterates_of_iterate h)
  simpa using tally

/-! ## Annotations -/

/-- A sign and the number behind it make one value. -/
theorem tally_negated {value : Literal} (minus : c.current.kind = .operator .minus)
    (h : negatedLiteral? c.advance.current.kind = some value) :
    Tally true [.leaf (.literal value) (c.advance.advance.spanFrom c.current.span)] c
      c.advance.advance := by
  have inside := isEnd_of_kind minus nofun
  have number := Cursor.isEnd_of_some h rfl
  have sign : c.advance.sign? = some c.current.span := by
    rw [Cursor.sign?_advance inside, Token.sign?, if_pos minus]
  have span : c.advance.advance.spanFrom c.current.span =
      c.current.span.signed c.advance.current.span := by
    unfold Cursor.spanFrom
    rw [Cursor.previous?_advance number]
    rfl
  have upto := Cursor.upto_advance c
  have upto' := Cursor.upto_advance c.advance
  have before := (Cursor.numberless_advance minus rfl).numbersTo_eq_nil
  refine ⟨upto.trans upto', ?_⟩
  rw [numbersOf_literal, Cursor.numbersTo_append upto upto', before, List.nil_append,
    Cursor.numbersTo_advance number, whole?_of_negatedLiteral? h, sign, span]
  cases c.advance.current.kind.whole? with
  | none => exact .zero
  | some n => exact .cons ⟨rfl, rfl⟩ .zero

theorem literalValue_tallies : literalValue.TalliesValues fun v => [v.node] := by
  intro c v c' unsigned h
  rcases literalValue_ok.mp h with ⟨minus, value, negated, done⟩ | ⟨_, value, literal, done⟩
  · cases done
    rw [Cursor.peek_one (isEnd_of_kind minus nofun)] at negated
    exact tally_negated minus negated
  · cases done
    have inside := Cursor.isEnd_of_some literal rfl
    show Tally true [.leaf (.literal value) (c.advance.spanFrom c.current.span)] c c.advance
    rw [Cursor.spanFrom_advance inside]
    exact tally_literal inside (whole?_of_annotationLiteral? literal) fun _ => unsigned

theorem arrayValues_tallies (hD : D.Tallies) :
    (arrayValues D).TalliesValues AnnotationValue.nodes := by
  have value : (arrayValue D).TalliesValues fun v => [v.node] := by
    intro c v c' unsigned h
    obtain ⟨v, c₁, run, _, done⟩ := arrayValue_ok.mp h
    cases done
    exact hD.annotationValue unsigned run
  intro c vs c' unsigned h
  rcases arrayValues_ok.mp h with ⟨_, done⟩ | ⟨_, run⟩
  · cases done
    exact .nil (.refl _)
  · obtain ⟨first, c₁, more, rfl, run, items, _⟩ := commaSeparated_items run
    rw [AnnotationValue.nodes_eq_map]
    have tail : Tally true (more.map AnnotationValue.node) c₁ c' :=
      tally_of_items items fun run =>
        (value (Cursor.sign?_advance_of_kind run.1 nofun nofun) run.2).after
          (Cursor.silent_advance run.1 rfl)
    exact (value unsigned run).cons tail

theorem annotationValue_tallies (hD : D.Tallies) :
    (annotationValue D).TalliesValues fun v => [v.node] := by
  intro c v c' unsigned h
  rcases annotationValue_ok.mp h with
    ⟨_, inner, c₁, run, done⟩ | ⟨opened, values, c₁, run, closed, done⟩ | ⟨_, _, run⟩
  · cases done
    have tally := hD.annotationMark run
    obtain ⟨span, name, elements, parenthesized⟩ := inner
    exact tally.of_isPlain rfl
  · cases done
    have inner := arrayValues_tallies hD (Cursor.sign?_advance_of_kind opened nofun nofun) run
    have inner := inner.after (Cursor.silent_advance opened rfl)
    exact (inner.before (Cursor.silent_advance closed rfl)).values rfl rfl
  · exact literalValue_tallies unsigned run

theorem keyedElement_tallies (hD : D.Tallies) :
    (keyedElement D).Tallies fun e => [e.node] := by
  intro c e c' h
  obtain ⟨key, c₁, value, c₂, name, equals, run, _, ends⟩ := keyedElement_ok.mp h
  have key : Tally true [key.identifierNode] c c₁ := (identifier_tallies name).of_isPlain rfl
  have value := (annotationValue_tallies hD
    (Cursor.sign?_advance_of_kind equals nofun nofun) run).after (Cursor.silent_advance equals rfl)
  have tally := key.cons value
  rcases ends with ⟨comma, done⟩ | ⟨_, done⟩
  · cases done
    exact (tally.before (Cursor.silent_advance comma rfl)).values rfl rfl
  · cases done
    exact tally.values rfl rfl

theorem annotationElements_tally (hD : D.Tallies) {es : List AnnotationElement}
    (unsigned : c.sign? = none) (h : annotationElements D c = .ok (es, c')) :
    Tally false (AnnotationElement.nodes es) c c' := by
  rcases annotationElements_ok.mp h with
    ⟨_, run⟩ | ⟨_, _, done⟩ | ⟨_, _, value, c₁, run, _, done⟩
  · rw [AnnotationElement.nodes_eq_map]
    exact itemsUntil_tallies (keyedElement_tallies hD) _ run
  · cases done
    exact .nil (.refl _)
  · cases done
    exact (annotationValue_tallies hD unsigned run).values rfl rfl

theorem annotation_tallies (hD : D.Tallies) : (annotationMark D).Tallies fun a => [a.node] := by
  intro c a c' h
  obtain ⟨mark, name, c₁, run, rest⟩ := annotation_ok.mp h
  have name := (identifier_tallies run).after (Cursor.silent_advance mark rfl)
  rcases rest with ⟨opened, elements, c₂, args, closed, done⟩ | ⟨_, done⟩
  · cases done
    have args := annotationElements_tally hD (Cursor.sign?_advance_of_kind opened nofun nofun) args
    exact (name.cons ((args.after (Cursor.silent_advance opened rfl)).before
      (Cursor.silent_advance closed rfl))).around rfl
  · cases done
    exact name.around rfl

/-! ## Headers -/

theorem insertItem_perm (i : HeaderItem) (items : List HeaderItem) :
    (Header.insertItem i items).Perm (i :: items) := by
  induction items with
  | nil => exact .refl _
  | cons j items ih =>
    unfold Header.insertItem
    split
    · exact .refl _
    · exact (ih.cons j).trans (.swap i j items)

/-- The items of a header are those read, perhaps in another order. -/
theorem items_headerOf_perm (items : List HeaderItem) :
    (headerOf items).header.items.Perm items := by
  have sorted : ∀ items : List HeaderItem, (items.foldr Header.insertItem []).Perm items := by
    intro items
    induction items with
    | nil => exact .nil
    | cons i items ih => exact (insertItem_perm i _).trans (ih.cons i)
  refine (sorted _).trans ?_
  induction items with
  | nil => exact .nil
  | cons i items ih =>
    cases i with
    | annotated a => exact ih.cons _
    | modifier m => exact List.perm_middle.trans (ih.cons _)

theorem ItemRead.tally (hD : D.Tallies) {i : HeaderItem} (h : ItemRead D c i c') :
    Tally false [i.node] c c' := by
  cases i with
  | annotated a => exact annotation_tallies hD h.2
  | modifier m => exact modifier?_tally h.2

theorem header_tallies (hD : D.Tallies) : (header D).Tallies (·.header.nodes) := by
  intro c read c' h
  obtain ⟨items, rfl, found⟩ := header_items h
  have tally : Tally false (items.map HeaderItem.node) c c' :=
    tally_of_items found fun read => read.tally hD
  exact tally.perm ((items_headerOf_perm items).symm.map HeaderItem.node)

end Grammar

end Apex
