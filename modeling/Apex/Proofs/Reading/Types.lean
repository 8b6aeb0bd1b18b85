import Apex.Grammar.Header
import Apex.Grammar.Type
import Apex.Proofs.Reading.Steps

/-!
# When types and headers are read

The parsers of types, modifiers and annotations, each with an equivalence that says what a
successful run consists of.
-/

namespace Apex

/-! ## The items of a header -/

/-- Where the item stands. -/
def HeaderItem.span : HeaderItem → Span
  | .annotated a => a.span
  | .modifier m => m.span

/-- The annotation that an item is. -/
def HeaderItem.annotationMark? : HeaderItem → Option AnnotationMark
  | .annotated a => some a
  | .modifier _ => none

/-- The modifier that an item is. -/
def HeaderItem.modifier? : HeaderItem → Option (Spanned Modifier)
  | .annotated _ => none
  | .modifier m => some m

/-- The header with the given items. -/
def headerOf (items : List HeaderItem) : ReadHeader :=
  ⟨⟨items.filterMap HeaderItem.annotationMark?, items.filterMap HeaderItem.modifier?⟩,
    items.head?.map HeaderItem.span⟩

/-- Whether the item is an annotation, or a modifier that is not among the items. -/
def HeaderItem.freshAmong (items : List HeaderItem) : HeaderItem → Bool
  | .annotated _ => true
  | .modifier m => !(items.filterMap HeaderItem.modifier?).any (·.value == m.value)

namespace Grammar

open Apex.Parser

variable {D : Deeper} {c c' : Cursor}

/-! ## Types -/

/-- A part of a dotted type name behind its point. -/
abbrev SegmentItem (c : Cursor) (x : Ident) (c₁ : Cursor) : Prop :=
  c.current.kind = .punctuation .dot ∧ (c.peek 1).kind.isName = true ∧
    identifier c.advance = .ok (x, c₁)

/-- Whether the dotted type name goes on. -/
abbrev SegmentAhead (c : Cursor) : Prop :=
  c.current.kind = .punctuation .dot ∧ (c.peek 1).kind.isName = true

theorem segmentStep_ok {segments : List Ident} {r : Turn (List Ident) (List Ident) × Cursor} :
    segmentStep segments c = .ok r ↔
      (SegmentAhead c ∧
        ∃ x c₁, identifier c.advance = .ok (x, c₁) ∧ (.again (x :: segments), c₁) = r) ∨
      (¬SegmentAhead c ∧ (.done segments.reverse, c) = r) := by
  simp [segmentStep]

theorem typeSegments_ok {segments : List Ident} :
    typeSegments c = .ok (segments, c') ↔
      ∃ first c₁ more, segments = first :: more ∧ identifier c = .ok (first, c₁) ∧
        Items SegmentItem c₁ more c' ∧ ¬SegmentAhead c' := by
  rw [typeSegments, bind_ok]
  constructor
  · rintro ⟨first, c₁, name, loop⟩
    have collected := items_of_iterates SegmentItem
      (fun c => ¬SegmentAhead c) List.reverse ?_ (iterates_of_iterate loop)
    · obtain ⟨more, row, ends, rfl⟩ := collected
      exact ⟨first, c₁, more, by simp, name, row, ends⟩
    · intro segments c turn c₁ run
      rcases segmentStep_ok.mp run with ⟨⟨dot, ahead⟩, x, _, run, turn⟩ | ⟨other, run⟩
      · cases turn
        exact .inl ⟨x, rfl, dot, ahead, run⟩
      · cases run
        exact .inr ⟨rfl, rfl, other⟩
  · rintro ⟨first, c₁, more, rfl, name, row, ends⟩
    refine ⟨first, c₁, name, ?_⟩
    have collected := iterates_of_items segmentStep List.reverse
      (fun next => segmentStep_ok.mpr (.inl ⟨⟨next.1, next.2.1⟩, _, _, next.2.2, rfl⟩))
      (segmentStep_ok.mpr (.inr ⟨ends, rfl⟩)) row [first]
    refine iterate_of_iterates (by simpa using collected) ?_
    intro segments d segments' d₁ _ run
    rcases segmentStep_ok.mp run with ⟨⟨dot, _⟩, x, _, run, turn⟩ | ⟨_, run⟩
    · cases turn
      have moved : d.Before d.advance := Cursor.before_advance (by simp [Token.isEnd, dot])
      exact moved.trans (identifier_before run)
    · cases run

theorem typeArguments_ok {argument : Parser TypeRef} {r : List TypeRef × Cursor} :
    typeArguments argument c = .ok r ↔
      (c.current.kind = .operator .less ∧
        ∃ types c₁, commaSeparated argument c.advance = .ok (types, c₁) ∧
          c₁.current.kind = .operator .greater ∧ (types, c₁.advance) = r) ∨
      (c.current.kind ≠ .operator .less ∧ ([], c) = r) := by
  simp [typeArguments]

/-- Whether a pair of array brackets is ahead. -/
abbrev BracketsAhead (c : Cursor) : Prop :=
  c.current.kind = .punctuation .openBracket ∧ (c.peek 1).kind = .punctuation .closeBracket

/-- A pair of array brackets. -/
abbrev BracketsItem (c : Cursor) (_ : Unit) (c₁ : Cursor) : Prop :=
  BracketsAhead c ∧ c.advance.advance = c₁

theorem bracketsStep_ok {count : Nat} {r : Turn Nat Nat × Cursor} :
    bracketsStep count c = .ok r ↔
      (BracketsAhead c ∧ (.again (count + 1), c.advance.advance) = r) ∨
      (¬BracketsAhead c ∧ (.done count, c) = r) := by
  simp [bracketsStep]

theorem arrayBrackets_ok {n : Nat} :
    arrayBrackets c = .ok (n, c') ↔
      Items BracketsItem c (List.replicate n ()) c' ∧ ¬BracketsAhead c' := by
  constructor
  · intro h
    have counted : ∀ {count n : Nat} {c c'}, Iterates bracketsStep count c n c' →
        ∃ more, n = count + more ∧ Items BracketsItem c (List.replicate more ()) c' ∧
          ¬BracketsAhead c' := by
      intro count n c c' loop
      induction loop with
      | done run =>
        rcases bracketsStep_ok.mp run with ⟨_, turn⟩ | ⟨other, turn⟩
        · cases turn
        · cases turn
          exact ⟨0, rfl, .nil _, other⟩
      | again run _ ih =>
        rcases bracketsStep_ok.mp run with ⟨ahead, turn⟩ | ⟨_, turn⟩
        · cases turn
          obtain ⟨more, rfl, row, ends⟩ := ih
          exact ⟨more + 1, by omega, .cons ⟨ahead, rfl⟩ row, ends⟩
        · cases turn
    obtain ⟨more, rfl, row, ends⟩ := counted (iterates_of_iterate h)
    exact ⟨by simpa using row, ends⟩
  · rintro ⟨row, ends⟩
    have loop : ∀ {n : Nat} {c}, Items BracketsItem c (List.replicate n ()) c' →
        ∀ count, Iterates bracketsStep count c (count + n) c' := by
      intro n
      induction n with
      | zero =>
        rintro c ⟨⟩ count
        exact .done (bracketsStep_ok.mpr (.inr ⟨ends, rfl⟩))
      | succ n ih =>
        rintro c (_ | ⟨⟨ahead, rfl⟩, row⟩) count
        refine .again (bracketsStep_ok.mpr (.inl ⟨ahead, rfl⟩)) ?_
        rw [Nat.add_comm n 1, ← Nat.add_assoc]
        exact ih row (count + 1)
    refine iterate_of_iterates (by simpa using loop row 0) ?_
    intro count d count' d₁ _ run
    rcases bracketsStep_ok.mp run with ⟨⟨bracket, _⟩, turn⟩ | ⟨_, turn⟩
    · cases turn
      have moved : d.Before d.advance := Cursor.before_advance (by simp [Token.isEnd, bracket])
      exact moved.trans_upto (Cursor.upto_advance _)
    · cases turn

theorem elementType_ok {argument : Parser TypeRef} {r : TypeRef × Cursor} :
    elementType argument c = .ok r ↔
      ∃ segments c₁ types c₂, typeSegments c = .ok (segments, c₁) ∧
        typeArguments argument c₁ = .ok (types, c₂) ∧
        (⟨c₂.spanFrom c.current.span, segments, types, 0⟩, c₂) = r := by
  simp [elementType]

theorem typeRef_ok {argument : Parser TypeRef} {r : TypeRef × Cursor} :
    typeRef argument c = .ok r ↔
      ∃ type c₁ dimensions c₂, elementType argument c = .ok (type, c₁) ∧
        arrayBrackets c₁ = .ok (dimensions, c₂) ∧
        ({ type with span := c₂.spanFrom c.current.span, dimensions }, c₂) = r := by
  simp [typeRef]

/-! ## Modifiers -/

/-- The modifier under the cursor, and the number of its tokens. -/
def modifierAhead? (c : Cursor) : Option (Modifier × Nat) :=
  if (c.peek 1).kind.spells .kwSharing && c.current.kind == .keyword .kwWith then
    some (.withSharing, 2)
  else if (c.peek 1).kind.spells .kwSharing && c.current.kind.spells .kwWithout then
    some (.withoutSharing, 2)
  else if (c.peek 1).kind.spells .kwSharing && c.current.kind.spells .kwInherited then
    some (.inheritedSharing, 2)
  else
    match c.current.kind with
    | .keyword k => (Modifier.ofKeyword? k).map fun m => (m, 1)
    | _ => none

theorem modifier?_ok {r : Option (Spanned Modifier) × Cursor} :
    modifier? c = .ok r ↔
      (∃ found, modifierAhead? c = some found ∧
        (some ⟨found.1, (c.advances found.2).spanFrom c.current.span⟩, c.advances found.2) = r) ∨
      (modifierAhead? c = none ∧ c.current.kind ≠ .keyword .kwWith ∧ (none, c) = r) := by
  rw [modifier?, kindAt_bind_ok, kind_bind_ok]
  unfold modifierAhead?
  generalize (c.peek 1).kind.spells .kwSharing = sharing
  cases hk : c.current.kind with
  | keyword k =>
    have single : c.advance.spanFrom c.current.span = c.current.span :=
      Cursor.spanFrom_advance (by simp [Token.isEnd, hk])
    by_cases hw : k = .kwWith
    · subst hw
      have none : Modifier.ofKeyword? .kwWith = none := rfl
      cases sharing
      · simp [TokenKind.spells, none]
      · simp [sharingModifier]
    · cases hm : Modifier.ofKeyword? k with
      | none => simp [TokenKind.spells, hw, hm]
      | some m => simp [TokenKind.spells, hw, hm, single, Cursor.advances]
  | name text =>
    cases sharing
    · simp
    · cases without : (TokenKind.name text).spells .kwWithout <;>
        cases inherited : (TokenKind.name text).spells .kwInherited <;>
        simp [sharingModifier, without, inherited]
  | _ => simp [TokenKind.spells]

@[simp] theorem checkFresh_bind_ok {earlier : List (Spanned Modifier)} {m : Spanned Modifier}
    {β : Type} {f : PUnit → Parser β} {r : β × Cursor} :
    (checkFresh earlier m >>= f) c = .ok r ↔
      earlier.any (·.value == m.value) = false ∧ f ⟨⟩ c = .ok r := by
  cases h : earlier.any (·.value == m.value)
  · exact (bind_of_ok (by simp only [checkFresh, h]; rfl)).trans (by simp)
  · rw [bind_ok]
    simp [checkFresh, h]

theorem modifierStep_ok {read : List (Spanned Modifier)}
    {r : Turn (List (Spanned Modifier)) (List (Spanned Modifier)) × Cursor} :
    modifierStep read c = .ok r ↔
      (∃ m c₁, modifier? c = .ok (some m, c₁) ∧ read.any (·.value == m.value) = false ∧
        (.again (m :: read), c₁) = r) ∨
      (∃ c₁, modifier? c = .ok (none, c₁) ∧ (.done read.reverse, c₁) = r) := by
  rw [modifierStep, bind_ok]
  constructor
  · rintro ⟨m?, c₁, run, turn⟩
    cases m? with
    | some m =>
      obtain ⟨fresh, turn⟩ := checkFresh_bind_ok.mp turn
      exact .inl ⟨m, c₁, run, fresh, pure_ok.mp turn⟩
    | none => exact .inr ⟨c₁, run, pure_ok.mp turn⟩
  · rintro (⟨m, c₁, run, fresh, turn⟩ | ⟨c₁, run, turn⟩)
    · exact ⟨some m, c₁, run, checkFresh_bind_ok.mpr ⟨fresh, pure_ok.mpr turn⟩⟩
    · exact ⟨none, c₁, run, pure_ok.mpr turn⟩

/-! ## Annotations -/

/-- Whether the token is one of the given marks. -/
def isOneOf (marks : List Punctuation) (t : Token) : Bool :=
  marks.any (t.kind == .punctuation ·)

@[simp] theorem checkValueEnds_bind_ok {value : Span} {followers : List Punctuation} {β : Type}
    {f : PUnit → Parser β} {r : β × Cursor} :
    (checkValueEnds value followers >>= f) c = .ok r ↔
      isOneOf followers c.current = true ∧ f ⟨⟩ c = .ok r := by
  have run : checkValueEnds value followers c =
      if isOneOf followers c.current then .ok ((), c)
      else .error (.malformedAnnotationValue (value.merge c.current.span)
        (.continued c.current.kind)) := by
    unfold isOneOf
    cases h : followers.any (c.current.kind == .punctuation ·) <;>
      simp only [checkValueEnds, current, bind, StateT.bind, Except.bind, h] <;> rfl
  cases h : isOneOf followers c.current
  · rw [bind_ok]
    simp [run, h]
  · rw [bind_of_ok (run.trans (if_pos h))]
    simp

/-- Whether a name and an equals sign are ahead. -/
def keyIsAhead (c : Cursor) : Bool :=
  c.current.kind.isName && (c.peek 1).kind == .operator .assign

@[simp] theorem keyAhead_bind_ok {β : Type} {f : Bool → Parser β} {r : β × Cursor} :
    (keyAhead >>= f) c = .ok r ↔ f (keyIsAhead c) c = .ok r :=
  bind_of_ok rfl

theorem literalValue_ok {r : AnnotationValue × Cursor} :
    literalValue c = .ok r ↔
      (c.current.kind = .operator .minus ∧
        ∃ value, negatedLiteral? (c.peek 1).kind = some value ∧
          (.literal ((c.advances 2).spanFrom c.current.span) value, c.advances 2) = r) ∨
      (c.current.kind ≠ .operator .minus ∧
        ∃ value, annotationLiteral? c.current.kind = some value ∧
          (.literal (c.advance.spanFrom c.current.span) value, c.advance) = r) := by
  rw [literalValue, here_bind_ok, isAt_bind_ok, kindAt_bind_ok]
  by_cases negative : c.current.kind = .operator .minus
  · simp only [negative, beq_self_eq_true, if_true]
    cases negatedLiteral? (c.peek 1).kind <;> simp
  · simp only [beq_eq_false_iff_ne.mpr negative, Bool.false_eq_true, if_false, c.peek_zero]
    cases annotationLiteral? c.current.kind <;> simp [negative, Cursor.advances]

theorem arrayValue_ok {r : AnnotationValue × Cursor} :
    arrayValue D c = .ok r ↔
      ∃ value c₁, D.annotationValue c = .ok (value, c₁) ∧
        isOneOf [.comma, .closeBrace] c₁.current = true ∧ (value, c₁) = r := by
  simp [arrayValue, -bind_pure_comp]

theorem arrayValues_ok {r : List AnnotationValue × Cursor} :
    arrayValues D c = .ok r ↔
      (c.current.kind = .punctuation .closeBrace ∧ ([], c) = r) ∨
      (c.current.kind ≠ .punctuation .closeBrace ∧
        commaSeparated (arrayValue D) c = .ok r) := by
  simp [arrayValues]

theorem annotationValue_ok {r : AnnotationValue × Cursor} :
    annotationValue D c = .ok r ↔
      (c.current.kind = .punctuation .at ∧
        ∃ inner c₁, D.annotationMark c = .ok (inner, c₁) ∧ (.nested inner, c₁) = r) ∨
      (c.current.kind = .punctuation .openBrace ∧
        ∃ values c₁, arrayValues D c.advance = .ok (values, c₁) ∧
          c₁.current.kind = .punctuation .closeBrace ∧
          (.array (c₁.advance.spanFrom c.current.span) values, c₁.advance) = r) ∨
      (c.current.kind ≠ .punctuation .at ∧ c.current.kind ≠ .punctuation .openBrace ∧
        literalValue c = .ok r) := by
  simp [annotationValue]
  grind

theorem keyedElement_ok {r : AnnotationElement × Cursor} :
    keyedElement D c = .ok r ↔
      ∃ key c₁ value c₂, identifier c = .ok (key, c₁) ∧ c₁.current.kind = .operator .assign ∧
        annotationValue D c₁.advance = .ok (value, c₂) ∧
        (keyIsAhead c₂ = true ∨ isOneOf [.comma, .closeParen] c₂.current = true) ∧
        ((c₂.current.kind = .punctuation .comma ∧
          (.mk (key.span.merge value.span) (some key) value true, c₂.advance) = r) ∨
        (c₂.current.kind ≠ .punctuation .comma ∧
          (.mk (key.span.merge value.span) (some key) value false, c₂) = r)) := by
  simp [keyedElement]
  grind

theorem annotationElements_ok {r : List AnnotationElement × Cursor} :
    annotationElements D c = .ok r ↔
      (keyIsAhead c = true ∧ itemsUntil (.punctuation .closeParen) (keyedElement D) c = .ok r) ∨
      (keyIsAhead c = false ∧ c.current.kind = .punctuation .closeParen ∧ ([], c) = r) ∨
      (keyIsAhead c = false ∧ c.current.kind ≠ .punctuation .closeParen ∧
        ∃ value c₁, annotationValue D c = .ok (value, c₁) ∧
          isOneOf [.closeParen] c₁.current = true ∧
          ([.mk value.span none value false], c₁) = r) := by
  simp [annotationElements, -bind_pure_comp]
  grind

theorem annotation_ok {r : AnnotationMark × Cursor} :
    annotationMark D c = .ok r ↔
      c.current.kind = .punctuation .at ∧ ∃ name c₁, identifier c.advance = .ok (name, c₁) ∧
        ((c₁.current.kind = .punctuation .openParen ∧
          ∃ elements c₂, annotationElements D c₁.advance = .ok (elements, c₂) ∧
            c₂.current.kind = .punctuation .closeParen ∧
            (.mk (c₂.advance.spanFrom c.current.span) name elements true, c₂.advance) = r) ∨
        (c₁.current.kind ≠ .punctuation .openParen ∧
          (.mk (c₁.spanFrom c.current.span) name [] false, c₁) = r)) := by
  simp [annotationMark]

/-! ## Headers -/

/-- An annotation or a modifier as an item of a header. -/
def ItemRead (D : Deeper) (c : Cursor) (i : HeaderItem) (c₁ : Cursor) : Prop :=
  match i with
  | .annotated a => c.current.kind = .punctuation .at ∧ annotationMark D c = .ok (a, c₁)
  | .modifier m => c.current.kind ≠ .punctuation .at ∧ modifier? c = .ok (some m, c₁)

/-- One more item of a header, if there is one. Those read are kept together, last first. -/
def itemStep (D : Deeper) (items : List HeaderItem) :
    Parser (Turn (List HeaderItem) (List HeaderItem)) := do
  if ← isAt (.punctuation .at) then
    let a ← annotationMark D
    return .again (.annotated a :: items)
  match ← modifier? with
  | some m =>
    checkFresh (items.filterMap HeaderItem.modifier?) m
    return .again (.modifier m :: items)
  | none => return .done items.reverse

theorem headerStep_eq (items : List HeaderItem) :
    headerStep D ⟨(headerOf items).header, items.getLast?.map HeaderItem.span⟩ =
      Turn.map (fun items => ⟨(headerOf items).header, items.getLast?.map HeaderItem.span⟩) headerOf <$>
        itemStep D items := by
  have start : ∀ (i : HeaderItem), (i :: items).getLast?.map HeaderItem.span =
      (items.getLast?.map HeaderItem.span).or (some i.span) := by
    intro i
    rw [List.getLast?_cons]
    cases items.getLast? <;> rfl
  unfold headerStep itemStep
  simp only [map_bind, headerOf]
  congr 1
  funext opens
  cases opens with
  | true => simp [Turn.map, start, HeaderItem.annotationMark?, HeaderItem.modifier?,
      HeaderItem.span, List.filterMap_cons]
  | false =>
    simp only [Bool.false_eq_true, if_false, map_bind]
    congr 1
    funext m?
    cases m? with
    | some m => simp [Turn.map, start, HeaderItem.annotationMark?, HeaderItem.modifier?,
        HeaderItem.span, List.filterMap_cons]
    | none => simp [Turn.map, headerOf]

theorem header_eq : header D = headerOf <$> iterate (itemStep D) [] :=
  iterate_eq_map _ headerOf headerStep_eq []

theorem itemStep_ok {items : List HeaderItem} {r : Turn (List HeaderItem) (List HeaderItem) × Cursor} :
    itemStep D items c = .ok r ↔
      (∃ i c₁, ItemRead D c i c₁ ∧ i.freshAmong items = true ∧ (.again (i :: items), c₁) = r) ∨
      (c.current.kind ≠ .punctuation .at ∧ modifier? c = .ok (none, c) ∧
        (.done items.reverse, c) = r) := by
  have stays : ∀ {c₁}, modifier? c = .ok (none, c₁) → c₁ = c := by
    intro c₁ run
    rcases modifier?_ok.mp run with ⟨_, _, done⟩ | ⟨_, _, done⟩ <;> cases done
    rfl
  rw [itemStep, isAt_bind_ok, ite_ok]
  simp only [beq_iff_eq]
  constructor
  · rintro (⟨at', run⟩ | ⟨other, run⟩)
    · obtain ⟨a, c₁, run, turn⟩ := bind_ok.mp run
      exact .inl ⟨.annotated a, c₁, ⟨at', run⟩, rfl, pure_ok.mp turn⟩
    · obtain ⟨m?, c₁, run, turn⟩ := bind_ok.mp run
      cases m? with
      | some m =>
        obtain ⟨fresh, turn⟩ := checkFresh_bind_ok.mp turn
        exact .inl ⟨.modifier m, c₁, ⟨other, run⟩, by simp [HeaderItem.freshAmong, fresh],
          pure_ok.mp turn⟩
      | none =>
        obtain rfl := stays run
        exact .inr ⟨other, run, pure_ok.mp turn⟩
  · rintro (⟨i, c₁, read, fresh, turn⟩ | ⟨other, run, turn⟩)
    · cases i with
      | annotated a => exact .inl ⟨read.1, bind_ok.mpr ⟨a, c₁, read.2, pure_ok.mpr turn⟩⟩
      | modifier m =>
        refine .inr ⟨read.1, bind_ok.mpr ⟨some m, c₁, read.2, ?_⟩⟩
        exact checkFresh_bind_ok.mpr ⟨by simpa [HeaderItem.freshAmong] using fresh, pure_ok.mpr turn⟩
    · exact .inr ⟨other, bind_ok.mpr ⟨none, c, run, pure_ok.mpr turn⟩⟩

/-- A header holds the items that stand one behind the other. -/
theorem headerItems_items {items : List HeaderItem}
    (h : iterate (itemStep D) [] c = .ok (items, c')) : Items (ItemRead D) c items c' := by
  have collected := items_of_iterates (ItemRead D) (fun _ => True) List.reverse ?_
    (iterates_of_iterate h)
  · obtain ⟨items, row, _, rfl⟩ := collected
    simpa using row
  · intro items c turn c₁ run
    rcases itemStep_ok.mp run with ⟨i, _, read, _, turn⟩ | ⟨_, _, turn⟩
    · cases turn
      exact .inl ⟨i, rfl, read⟩
    · cases turn
      exact .inr ⟨rfl, rfl, trivial⟩

theorem header_items {read : ReadHeader} (h : header D c = .ok (read, c')) :
    ∃ items, read = headerOf items ∧ Items (ItemRead D) c items c' := by
  rw [header_eq] at h
  obtain ⟨items, _, run, done⟩ := map_ok.mp h
  cases done
  exact ⟨items, rfl, headerItems_items run⟩

@[simp] theorem declarationStart_bind_ok {read : ReadHeader} {β : Type} {f : Span → Parser β}
    {r : β × Cursor} :
    (declarationStart read >>= f) c = .ok r ↔ f (read.start.getD c.current.span) c = .ok r :=
  bind_of_ok rfl

end Grammar

end Apex
