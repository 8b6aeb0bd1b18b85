import Apex.Layout.Declaration
import Apex.Proofs.Blur.Trees
import Apex.Proofs.Writing.Pieces

/-!
# What is written says nothing of places

A tree is written from what it says. Where it stood in its source is not looked at, except for the
order of the items of a header.
-/

namespace Apex

/-- What does not change when places are erased is the same for values that differ in places
only. -/
theorem eq_of_erased {α β : Type} {e : α → α} {f : α → β} (steady : ∀ x, f (e x) = f x)
    {x y : α} (same : e x = e y) : f x = f y := by
  rw [← steady x, same, steady y]

theorem map_eq_of_erased {α β : Type} {e : α → α} {f : α → β} (steady : ∀ x, f (e x) = f x)
    {xs ys : List α} (same : xs.map e = ys.map e) : xs.map f = ys.map f :=
  eq_of_erased (e := List.map e) (f := List.map f)
    (fun xs => by rw [List.map_map]; exact List.map_congr_left fun x _ => steady x) same

/-! ## Types, literals and annotations -/

theorem Ident.value_erasing (i : Ident) : (Ident.blur .erasing i).value = i.value := rfl

theorem Ident.values_erasing (is : List Ident) :
    (is.map (Ident.blur .erasing)).map (·.value) = is.map (·.value) := by
  rw [List.map_map]
  rfl

mutual

theorem TypeRef.text_erasing : (t : TypeRef) → (t.blur .erasing).text = t.text
  | ⟨_, segments, arguments, dimensions⟩ => by
    have empty : (TypeRef.blurAll .erasing arguments).isEmpty = arguments.isEmpty := by
      cases arguments <;> rfl
    simp only [TypeRef.blur, TypeRef.text, Ident.values_erasing, empty,
      TypeRef.texts_erasing arguments]

theorem TypeRef.texts_erasing : (ts : List TypeRef) →
    TypeRef.texts (TypeRef.blurAll .erasing ts) = TypeRef.texts ts
  | [] => rfl
  | t :: ts => by
    rw [TypeRef.blurAll, TypeRef.texts, TypeRef.texts, t.text_erasing, TypeRef.texts_erasing ts]

end

theorem TypeRef.listAfter_erasing (word : String) (ts : List TypeRef) :
    TypeRef.listAfter word (ts.map (TypeRef.blur .erasing)) = TypeRef.listAfter word ts := by
  rw [← TypeRef.blurAll_eq_map]
  unfold TypeRef.listAfter TypeRef.listText
  rw [TypeRef.texts_erasing]
  cases ts <;> rfl

theorem QualifiedName.text_erasing (q : QualifiedName) : (q.blur .erasing).text = q.text := by
  simp only [QualifiedName.text, QualifiedName.blur, Ident.values_erasing]

theorem Literal.text_erasing (v : Literal) : (v.blur .erasing).text = v.text := by
  cases v <;> rfl

mutual

theorem AnnotationMark.text_erasing : (a : AnnotationMark) → (a.blur .erasing).text = a.text
  | .mk _ name elements false => rfl
  | .mk _ name elements true => by
    simp only [AnnotationMark.blur, AnnotationMark.text, AnnotationElement.texts_erasing elements,
      Ident.value_erasing]

theorem AnnotationElement.text_erasing : (e : AnnotationElement) → (e.blur .erasing).text = e.text
  | .mk _ none value comma => by
    simp only [AnnotationElement.blur, AnnotationElement.text, Option.map_none, value.text_erasing]
  | .mk _ (some key) value comma => by
    simp only [AnnotationElement.blur, AnnotationElement.text, Option.map_some, value.text_erasing,
      Ident.value_erasing]

theorem AnnotationElement.texts_erasing : (es : List AnnotationElement) →
    AnnotationElement.texts (AnnotationElement.blurAll .erasing es) = AnnotationElement.texts es
  | [] => rfl
  | e :: es => by
    rw [AnnotationElement.blurAll, AnnotationElement.texts, AnnotationElement.texts,
      e.text_erasing, AnnotationElement.texts_erasing es]

theorem AnnotationValue.text_erasing : (v : AnnotationValue) → (v.blur .erasing).text = v.text
  | .literal _ value => by
    simp only [AnnotationValue.blur, AnnotationValue.text, value.text_erasing]
  | .array _ values => by
    simp only [AnnotationValue.blur, AnnotationValue.text, AnnotationValue.texts_erasing values]
  | .nested inner => by simp only [AnnotationValue.blur, AnnotationValue.text, inner.text_erasing]

theorem AnnotationValue.texts_erasing : (vs : List AnnotationValue) →
    AnnotationValue.texts (AnnotationValue.blurAll .erasing vs) = AnnotationValue.texts vs
  | [] => rfl
  | v :: vs => by
    rw [AnnotationValue.blurAll, AnnotationValue.texts, AnnotationValue.texts, v.text_erasing,
      AnnotationValue.texts_erasing vs]

end

theorem modifierMarks_erasing (ms : List (Spanned Modifier)) :
    modifierMarks (ms.map (Spanned.blur .erasing)) = modifierMarks ms := by
  unfold modifierMarks
  rw [List.flatMap_map]
  rfl

theorem typedName_erasing (t : TypeRef) (n : Ident) :
    typedName (t.blur .erasing) (Ident.blur .erasing n) = typedName t n := by
  rw [typedName, typedName, t.text_erasing]
  rfl

/-! ## Expressions -/

theorem Expr.startsWithSign_erasing : (e : Expr) →
    (e.blur .erasing).startsWithSign = e.startsWithSign
  | .literal _ value => by cases value <;> rfl
  | .stepAfter _ _ operand => operand.startsWithSign_erasing
  | .binary _ left _ _ => left.startsWithSign_erasing
  | .member _ object _ => object.startsWithSign_erasing
  | .methodCall _ receiver _ _ => receiver.startsWithSign_erasing
  | .index _ object _ => object.startsWithSign_erasing
  | .instanceOf _ operand _ => operand.startsWithSign_erasing
  | .ternary _ condition _ _ => condition.startsWithSign_erasing
  | .assignment _ target _ _ => target.startsWithSign_erasing
  | .name .. | .this .. | .super .. | .paren .. | .call .. | .newObject .. | .newArray ..
  | .newArrayOf .. | .newCollection .. | .newMap .. | .cast .. | .unary .. | .stepBefore .. => rfl

theorem Piece.texts_operand_erasing {e : Expr} (h : (e.blur .erasing).texts = e.texts) :
    (Piece.operand (e.blur .erasing)).flatMap Piece.texts =
      (Piece.operand e).flatMap Piece.texts := by
  unfold Piece.operand
  rw [e.startsWithSign_erasing]
  split <;> simp [Piece.texts, h]

mutual

theorem Expr.texts_erasing (e : Expr) : (e.blur .erasing).texts = e.texts := by
  rw [Expr.texts_eq, Expr.texts_eq]
  cases e with
  | literal _ value => simp [Expr.blur, Expr.pieces, Piece.texts, value.text_erasing]
  | name | this | super => rfl
  | paren _ inner => simp [Expr.blur, Expr.pieces, Piece.texts, inner.texts_erasing]
  | member _ object part =>
    simp [Expr.blur, Expr.pieces, Piece.texts, object.texts_erasing, Ident.value_erasing]
  | call _ callee args =>
    simp [Expr.blur, Expr.pieces, Piece.arguments, Piece.texts_list, Piece.texts,
      Expr.textsOf_erasing args, Ident.value_erasing]
  | methodCall _ receiver callee args =>
    simp [Expr.blur, Expr.pieces, Piece.arguments, Piece.texts_list, Piece.texts,
      receiver.texts_erasing, Expr.textsOf_erasing args, Ident.value_erasing]
  | index _ object position =>
    simp [Expr.blur, Expr.pieces, Piece.texts, object.texts_erasing, position.texts_erasing]
  | newObject _ type args =>
    simp [Expr.blur, Expr.pieces, Piece.arguments, Piece.texts_list, Piece.texts,
      type.text_erasing, Expr.textsOf_erasing args]
  | newArray _ type size =>
    simp [Expr.blur, Expr.pieces, Piece.texts, type.text_erasing, size.texts_erasing]
  | newArrayOf _ type es =>
    simp [Expr.blur, Expr.pieces, Piece.elements, Piece.texts_list, Piece.texts,
      type.text_erasing, Expr.textsOf_erasing es]
  | newCollection _ type es =>
    simp [Expr.blur, Expr.pieces, Piece.elements, Piece.texts_list, Piece.texts,
      type.text_erasing, Expr.textsOf_erasing es]
  | newMap _ type es =>
    simp [Expr.blur, Expr.pieces, Piece.texts_entries, Piece.texts, type.text_erasing,
      Expr.entryTexts_erasing es]
  | cast _ type operand =>
    simp [Expr.blur, Expr.pieces, Piece.texts, type.text_erasing, operand.texts_erasing]
  | unary _ op operand =>
    simp [Expr.blur, Expr.pieces, Piece.texts,
      Piece.texts_operand_erasing operand.texts_erasing]
  | stepBefore _ op operand =>
    simp [Expr.blur, Expr.pieces, Piece.texts,
      Piece.texts_operand_erasing operand.texts_erasing]
  | stepAfter _ op operand =>
    simp [Expr.blur, Expr.pieces, Piece.texts, operand.texts_erasing]
  | binary _ left op right =>
    simp [Expr.blur, Expr.pieces, Piece.operation, Piece.texts, left.texts_erasing,
      right.texts_erasing]
  | instanceOf _ operand type =>
    simp [Expr.blur, Expr.pieces, Piece.texts, operand.texts_erasing, type.text_erasing]
  | ternary _ condition yes no =>
    simp [Expr.blur, Expr.pieces, Piece.texts, condition.texts_erasing, yes.texts_erasing,
      no.texts_erasing]
  | assignment _ target op value =>
    simp [Expr.blur, Expr.pieces, Piece.operation, Piece.texts, target.texts_erasing,
      value.texts_erasing]

theorem Expr.textsOf_erasing : (es : List Expr) →
    (Expr.blurAll .erasing es).map Expr.texts = es.map Expr.texts
  | [] => rfl
  | e :: es => by
    rw [Expr.blurAll, List.map_cons, List.map_cons, e.texts_erasing, Expr.textsOf_erasing es]

theorem Expr.entryTexts_erasing : (es : List (Expr × Expr)) →
    (Expr.blurEntries .erasing es).map Piece.entryTexts = es.map Piece.entryTexts
  | [] => rfl
  | (key, value) :: es => by
    rw [Expr.blurEntries, List.map_cons, List.map_cons, Expr.entryTexts_erasing es]
    simp only [Piece.entryTexts, key.texts_erasing, value.texts_erasing]

end

theorem Expr.marks_erasing (e : Expr) : (e.blur .erasing).marks = e.marks := by
  rw [Expr.marks, e.texts_erasing, Expr.marks]

theorem Expr.marksOf_erasing (es : List Expr) :
    (es.map (Expr.blur .erasing)).map Expr.marks = es.map Expr.marks := by
  rw [List.map_map]
  exact List.map_congr_left fun e _ => e.marks_erasing

/-! ## Statements -/

theorem Declarator.marks_erasing (d : Declarator) : (d.blur .erasing).marks = d.marks := by
  obtain ⟨_, name, value⟩ := d
  cases value with
  | none => rfl
  | some value =>
    simp only [Declarator.blur, Declarator.marks, Option.map_some, value.marks_erasing,
      Ident.value_erasing]

theorem Declarator.marksOf_erasing (ds : List Declarator) :
    (ds.map (Declarator.blur .erasing)).map Declarator.marks = ds.map Declarator.marks := by
  rw [List.map_map]
  exact List.map_congr_left fun d _ => d.marks_erasing

theorem LocalVariables.marks_erasing (v : LocalVariables) :
    (v.blur .erasing).marks = v.marks := by
  simp only [LocalVariables.blur, LocalVariables.marks, modifierMarks_erasing,
    TypeRef.text_erasing, Declarator.marksOf_erasing]

theorem forMarks_erasing (init : ForInit) (condition : Option Expr) (update : List Expr) :
    forMarks (init.blur .erasing) (condition.map (Expr.blur .erasing))
      (update.map (Expr.blur .erasing)) = forMarks init condition update := by
  have first : (init.blur .erasing).marks = init.marks := by
    cases init with
    | nothing => rfl
    | declaration _ locals => exact locals.marks_erasing
    | expressions values => simp only [ForInit.blur, ForInit.marks, Expr.marksOf_erasing]
  unfold forMarks
  rw [first, Expr.marksOf_erasing, List.isEmpty_map]
  cases condition with
  | none => rfl
  | some condition => simp only [Option.map_some, condition.marks_erasing]

theorem Statement.isBlock_erasing (s : Statement) : (s.blur .erasing).isBlock = s.isBlock := by
  cases s <;> rfl

theorem Statement.isIf_erasing (s : Statement) : (s.blur .erasing).isIf = s.isIf := by
  cases s <;> rfl

theorem Statement.asBody_erasing (s : Statement) (marks : List Mark) :
    (s.blur .erasing).asBody marks = s.asBody marks := by
  rw [asBody, s.isBlock_erasing, asBody]

theorem Statement.elseAfter_erasing (s : Statement) :
    (s.blur .erasing).elseAfter = s.elseAfter := by
  rw [elseAfter, s.isBlock_erasing, elseAfter]

theorem Statement.asElse_erasing (s : Statement) (marks : List Mark) :
    (s.blur .erasing).asElse marks = s.asElse marks := by
  rw [asElse, s.isIf_erasing, s.asBody_erasing, asElse]

mutual

theorem Block.marks_erasing : (b : Block) → (b.blur .erasing).marks = b.marks
  | .mk _ [] => rfl
  | .mk _ (s :: ss) => by
    rw [Block.blur, Statement.blurAll, Block.marks, Block.marks, s.marks_erasing,
      Statement.lines_erasing ss]

theorem Statement.lines_erasing : (ss : List Statement) →
    Statement.lines (Statement.blurAll .erasing ss) = Statement.lines ss
  | [] => rfl
  | s :: ss => by
    rw [Statement.blurAll, Statement.lines, Statement.lines, s.marks_erasing,
      Statement.lines_erasing ss]

theorem Statement.marks_erasing (s : Statement) : (s.blur .erasing).marks = s.marks := by
  cases s with
  | block body => exact body.marks_erasing
  | locals _ locals => simp only [Statement.blur, Statement.marks, locals.marks_erasing]
  | ifThen _ condition yes =>
    simp only [Statement.blur, Statement.marks, condition.marks_erasing, yes.marks_erasing,
      yes.asBody_erasing]
  | ifElse _ condition yes no =>
    simp only [Statement.blur, Statement.marks, condition.marks_erasing, yes.marks_erasing,
      no.marks_erasing, yes.asBody_erasing, yes.elseAfter_erasing, no.asElse_erasing]
  | whileLoop _ condition body =>
    simp only [Statement.blur, Statement.marks, condition.marks_erasing, body.marks_erasing,
      body.asBody_erasing]
  | doWhile _ body condition =>
    simp only [Statement.blur, Statement.marks, condition.marks_erasing, body.marks_erasing]
  | forLoop _ init condition update body =>
    simp only [Statement.blur, Statement.marks, forMarks_erasing, body.marks_erasing,
      body.asBody_erasing]
  | forEach _ modifiers type name items body =>
    simp only [Statement.blur, Statement.marks, modifierMarks_erasing, typedName_erasing,
      items.marks_erasing, body.marks_erasing, body.asBody_erasing]
  | tryCatch _ body catches =>
    simp only [Statement.blur, Statement.marks, body.marks_erasing,
      CatchClause.marksOf_erasing catches]
  | tryFinally _ body catches last =>
    simp only [Statement.blur, Statement.marks, body.marks_erasing, last.marks_erasing,
      CatchClause.marksOf_erasing catches]
  | returns _ value =>
    cases value with
    | none => rfl
    | some value =>
      simp only [Statement.blur, Statement.marks, Option.map_some, value.marks_erasing]
  | throws _ value => simp only [Statement.blur, Statement.marks, value.marks_erasing]
  | breaks | continues | empty => rfl
  | expression _ value => simp only [Statement.blur, Statement.marks, value.marks_erasing]
  | runAs _ user body =>
    simp only [Statement.blur, Statement.marks, user.marks_erasing, body.marks_erasing]
  | dml _ op target => simp only [Statement.blur, Statement.marks, target.marks_erasing]
  | upsert _ target key =>
    cases key with
    | none => simp only [Statement.blur, Statement.marks, Option.map_none, target.marks_erasing]
    | some key =>
      simp only [Statement.blur, Statement.marks, Option.map_some, target.marks_erasing,
        key.text_erasing]
  | merge _ master duplicate =>
    simp only [Statement.blur, Statement.marks, master.marks_erasing, duplicate.marks_erasing]

theorem CatchClause.marksOf_erasing : (cs : List CatchClause) →
    CatchClause.marksOf (CatchClause.blurAll .erasing cs) = CatchClause.marksOf cs
  | [] => rfl
  | c :: cs => by
    rw [CatchClause.blurAll, CatchClause.marksOf, CatchClause.marksOf, c.marks_erasing,
      CatchClause.marksOf_erasing cs]

theorem CatchClause.marks_erasing : (c : CatchClause) → (c.blur .erasing).marks = c.marks
  | .mk _ modifiers type name body => by
    simp only [CatchClause.blur, CatchClause.marks, modifierMarks_erasing, typedName_erasing,
      body.marks_erasing]

end

/-! ## Declarations -/

theorem bodyOrSemicolon_erasing (body : Option Block) :
    bodyOrSemicolon (body.map (Block.blur .erasing)) = bodyOrSemicolon body := by
  cases body with
  | none => rfl
  | some body => simp only [Option.map_some, bodyOrSemicolon, body.marks_erasing]

theorem parameterMarks_erasing (ps : List Parameter) :
    parameterMarks (ps.map (Parameter.blur .erasing)) = parameterMarks ps := by
  have each : ∀ p : Parameter, (p.blur .erasing).marks = p.marks := fun p => by
    simp only [Parameter.blur, Parameter.marks, modifierMarks_erasing, typedName_erasing]
  unfold parameterMarks
  rw [List.map_map]
  exact congrArg (fun ms => .text "(" :: commaMarks ms ++ [.text ")"])
    (List.map_congr_left fun p _ => each p)

theorem Accessor.marks_erasing (a : Accessor) : (a.blur .erasing).marks = a.marks := by
  simp only [Accessor.blur, Accessor.marks, modifierMarks_erasing, bodyOrSemicolon_erasing]

/-- Headers that say the same in the same order are written alike. -/
theorem Header.marks_eq {h h' : Header}
    (same : h.items.map (HeaderItem.blur .erasing) = h'.items.map (HeaderItem.blur .erasing)) :
    h.marks = h'.marks := by
  have steady : ∀ (is : List HeaderItem) (behind : Bool),
      headerMarks behind (is.map (HeaderItem.blur .erasing)) = headerMarks behind is := by
    intro is
    induction is with
    | nil => intro behind; rfl
    | cons i is ih =>
      intro behind
      cases i with
      | modifier m => simp only [List.map_cons, HeaderItem.blur, headerMarks, ih]; rfl
      | annotated a =>
        cases behind <;>
          simp only [List.map_cons, HeaderItem.blur, headerMarks, ih, a.text_erasing]
  rw [Header.marks, ← steady, same, steady, Header.marks]

theorem Field.marks_eq {f f' : Field}
    (order : f.header.items.map (HeaderItem.blur .erasing) =
      f'.header.items.map (HeaderItem.blur .erasing))
    (same : f.blur .erasing = f'.blur .erasing) : f.marks = f'.marks := by
  obtain ⟨header, type, declarators⟩ := f
  obtain ⟨header', type', declarators'⟩ := f'
  simp only [Field.blur, Field.mk.injEq] at same
  obtain ⟨_, type, declarators⟩ := same
  simp only [Field.marks, Header.marks_eq order, eq_of_erased TypeRef.text_erasing type,
    map_eq_of_erased Declarator.marks_erasing declarators]

theorem Method.marks_eq {m m' : Method}
    (order : m.header.items.map (HeaderItem.blur .erasing) =
      m'.header.items.map (HeaderItem.blur .erasing))
    (same : m.blur .erasing = m'.blur .erasing) : m.marks = m'.marks := by
  obtain ⟨header, type, name, parameters, body⟩ := m
  obtain ⟨header', type', name', parameters', body'⟩ := m'
  simp only [Method.blur, Method.mk.injEq] at same
  obtain ⟨_, result, name, parameters, body⟩ := same
  simp only [Method.marks, Header.marks_eq order, eq_of_erased Ident.value_erasing name,
    eq_of_erased parameterMarks_erasing parameters, eq_of_erased bodyOrSemicolon_erasing body]
  cases type with
  | none =>
    cases type' with
    | none => rfl
    | some => cases result
  | some type =>
    cases type' with
    | none => cases result
    | some type' => simp only [eq_of_erased TypeRef.text_erasing (Option.some.inj result)]

theorem Constructor.marks_eq {c c' : Constructor}
    (order : c.header.items.map (HeaderItem.blur .erasing) =
      c'.header.items.map (HeaderItem.blur .erasing))
    (same : c.blur .erasing = c'.blur .erasing) : c.marks = c'.marks := by
  obtain ⟨header, name, parameters, body⟩ := c
  obtain ⟨header', name', parameters', body'⟩ := c'
  simp only [Constructor.blur, Constructor.mk.injEq] at same
  obtain ⟨_, name, parameters, body⟩ := same
  simp only [Constructor.marks, Header.marks_eq order, eq_of_erased Ident.value_erasing name,
    eq_of_erased parameterMarks_erasing parameters, eq_of_erased Block.marks_erasing body]

theorem Property.marks_eq {p p' : Property}
    (order : p.header.items.map (HeaderItem.blur .erasing) =
      p'.header.items.map (HeaderItem.blur .erasing))
    (same : p.blur .erasing = p'.blur .erasing) : p.marks = p'.marks := by
  obtain ⟨header, type, name, accessors⟩ := p
  obtain ⟨header', type', name', accessors'⟩ := p'
  simp only [Property.blur, Property.mk.injEq] at same
  obtain ⟨_, type, name, accessors⟩ := same
  have line : ∀ a : Accessor, (a.blur .erasing).marks ++ [.newline] = a.marks ++ [.newline] :=
    fun a => by rw [a.marks_erasing]
  simp only [Property.marks, typedName, Header.marks_eq order,
    eq_of_erased TypeRef.text_erasing type, eq_of_erased Ident.value_erasing name,
    List.flatMap_def, map_eq_of_erased (f := fun a => a.marks ++ [Mark.newline]) line accessors]

theorem Initializer.marks_erasing (i : Initializer) : (i.blur .erasing).marks = i.marks := by
  simp only [Initializer.blur, Initializer.marks, Block.marks_erasing]
  rfl

theorem ClassHead.marks_eq {c c' : ClassHead}
    (order : c.header.items.map (HeaderItem.blur .erasing) =
      c'.header.items.map (HeaderItem.blur .erasing))
    (same : c.blur .erasing = c'.blur .erasing) : c.marks = c'.marks := by
  obtain ⟨header, name, base, interfaces⟩ := c
  obtain ⟨header', name', base', interfaces'⟩ := c'
  simp only [ClassHead.blur, ClassHead.mk.injEq] at same
  obtain ⟨_, name, sameBase, interfaces⟩ := same
  have bases : base.toList.map (TypeRef.blur .erasing) =
      base'.toList.map (TypeRef.blur .erasing) := by
    rw [← Option.toList_map, sameBase, Option.toList_map]
  simp only [ClassHead.marks, Header.marks_eq order, eq_of_erased Ident.value_erasing name,
    eq_of_erased (TypeRef.listAfter_erasing _) bases,
    eq_of_erased (TypeRef.listAfter_erasing _) interfaces]

theorem InterfaceHead.marks_eq {i i' : InterfaceHead}
    (order : i.header.items.map (HeaderItem.blur .erasing) =
      i'.header.items.map (HeaderItem.blur .erasing))
    (same : i.blur .erasing = i'.blur .erasing) : i.marks = i'.marks := by
  obtain ⟨header, name, bases⟩ := i
  obtain ⟨header', name', bases'⟩ := i'
  simp only [InterfaceHead.blur, InterfaceHead.mk.injEq] at same
  obtain ⟨_, name, bases⟩ := same
  simp only [InterfaceHead.marks, Header.marks_eq order, eq_of_erased Ident.value_erasing name,
    eq_of_erased (TypeRef.listAfter_erasing _) bases]

theorem EnumDeclaration.marks_eq {e e' : EnumDeclaration}
    (order : e.header.items.map (HeaderItem.blur .erasing) =
      e'.header.items.map (HeaderItem.blur .erasing))
    (same : e.blur .erasing = e'.blur .erasing) : e.marks = e'.marks := by
  obtain ⟨header, name, constants, comma⟩ := e
  obtain ⟨header', name', constants', comma'⟩ := e'
  simp only [EnumDeclaration.blur, EnumDeclaration.mk.injEq] at same
  obtain ⟨_, name, each, same⟩ := same
  have empty : constants.isEmpty = constants'.isEmpty := by
    rw [← List.isEmpty_map (f := Ident.blur .erasing), each, List.isEmpty_map]
  simp only [EnumDeclaration.marks, Header.marks_eq order, eq_of_erased Ident.value_erasing name,
    map_eq_of_erased Ident.value_erasing each, same, empty]

theorem Trigger.marks_erasing (t : Trigger) : (t.blur .erasing).marks = t.marks := by
  have events : (t.events.map (Spanned.blur .erasing)).map (·.value.text) =
      t.events.map (·.value.text) := by
    rw [List.map_map]
    rfl
  simp only [Trigger.blur, Trigger.marks, Block.marks_erasing, Ident.value_erasing, events]

/-- Whether the member is a field declaration. -/
def Member.isField : Member → Bool
  | .field .. => true
  | _ => false

theorem Member.isField_erasing (m : Member) : (m.blur .erasing).isField = m.isField := by
  cases m <;> rfl

theorem Member.separator_eq (before after : Member) :
    Member.separator before after =
      if before.isField && after.isField then .newline else .gap := by
  cases before <;> cases after <;> rfl

/-- Members that are written alike are written alike in a row. -/
theorem Member.marksOf_eq {ms ms' : List Member} {previous previous' : Option Member}
    (marks : ms.map Member.marks = ms'.map Member.marks)
    (same : ms.map (Member.blur .erasing) = ms'.map (Member.blur .erasing))
    (before : previous.map (Member.blur .erasing) = previous'.map (Member.blur .erasing)) :
    Member.marksOf previous ms = Member.marksOf previous' ms' := by
  induction ms generalizing ms' previous previous' with
  | nil =>
    obtain rfl : ms' = [] := by simpa using marks.symm
    rfl
  | cons m ms ih =>
    cases ms' with
    | nil => cases marks
    | cons m' ms' =>
      obtain ⟨head, tail⟩ := List.cons.inj same
      obtain ⟨first, rest⟩ := List.cons.inj marks
      have behind : (some m).map (Member.blur .erasing) = (some m').map (Member.blur .erasing) :=
        congrArg some head
      rw [Member.marksOf, Member.marksOf, ih rest tail behind, first]
      have field := eq_of_erased Member.isField_erasing head
      congr 1
      cases previous with
      | none =>
        cases previous' with
        | none => rfl
        | some => cases before
      | some p =>
        cases previous' with
        | none => cases before
        | some p' =>
          have other := eq_of_erased Member.isField_erasing (Option.some.inj before)
          simp only [Option.map_some, Member.separator_eq, field, other]

end Apex
