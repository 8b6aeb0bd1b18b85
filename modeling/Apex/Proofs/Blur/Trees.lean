import Apex.Grammar.Error
import Apex.Grammar.Nesting

/-!
# Trees through a blur

Two programs can be compared through a blur, which hides where things stand, or in which letter
case names are written, and leaves everything else. A blurred tree is the tree with its spans and
names blurred. Erasing is the blur that hides all places and nothing else: what is left is what the
program says. Folding hides the case of letters and nothing else.
-/

namespace Apex

/-- What is left of a program's spans and names. Spans put together from spans that look alike look
alike, and names that look alike differ at most in letter case. -/
structure Blur where
  /-- What is left of a span. -/
  span : Span → Span
  /-- What is left of a name. -/
  text : String → String
  /-- The span that covers two others. -/
  span_merge : ∀ {s s' t t' : Span}, span s = span s' → span t = span t' →
    span (s.merge t) = span (s'.merge t')
  /-- The span from the start of one to the end of another, if that lies behind. -/
  span_from : ∀ {s s' t t' : Span}, span s = span s' → span t = span t' →
    span (if s.start ≤ t.stop then s.merge t else s) =
      span (if s'.start ≤ t'.stop then s'.merge t' else s')
  /-- The empty span at the end of another. -/
  span_end : ∀ {s s' : Span}, span s = span s' → span (.point s.stop) = span (.point s'.stop)
  /-- Names put together. -/
  text_append : ∀ {v v' w w' : String}, text v = text v' → text w = text w' →
    text (v ++ w) = text (v' ++ w')
  /-- The words of the language are told apart without regard to letter case. -/
  text_word : ∀ {v w : String}, text v = text w → lowerWord v = lowerWord w

namespace Blur

theorem lowerWord_append (v w : String) : lowerWord (v ++ w) = lowerWord v ++ lowerWord w :=
  String.ext (by simp [lowerWord])

/-- Hides all places. -/
def erasing : Blur where
  span _ := .point 0
  text t := t
  span_merge _ _ := rfl
  span_from _ _ := rfl
  span_end _ := rfl
  text_append h h' := congr (congrArg String.append h) h'
  text_word h := congrArg lowerWord h

@[simp] theorem erasing_span (s : Span) : erasing.span s = .point 0 := rfl

@[simp] theorem erasing_text (t : String) : erasing.text t = t := rfl

/-- Hides the case of letters in names. -/
def folding : Blur where
  span s := s
  text := lowerWord
  span_merge h h' := by rw [h, h']
  span_from h h' := by rw [h, h']
  span_end h := by rw [h]
  text_append h h' := by rw [lowerWord_append, lowerWord_append, h, h']
  text_word h := h

end Blur

/-! ## Literals and types -/

/-- The value with its place blurred. -/
def Spanned.blur {α : Type} (b : Blur) (s : Spanned α) : Spanned α := ⟨s.value, b.span s.span⟩

/-- The name with its text and its place blurred. -/
def Ident.blur (b : Blur) (i : Ident) : Ident := ⟨b.text i.value, b.span i.span⟩

/-- The query with its text and its bound variables blurred. -/
def Query.blur (b : Blur) (q : Query) : Query := ⟨b.text q.text, q.binds.map (Ident.blur b)⟩

/-- The kind with names and places in it blurred. -/
def TokenKind.blur (b : Blur) : TokenKind → TokenKind
  | .name text => .name (b.text text)
  | .soql q => .soql (q.blur b)
  | .sosl q => .sosl (q.blur b)
  | kind => kind

/-- The literal with queries in it blurred. -/
def Literal.blur (b : Blur) : Literal → Literal
  | .soql q => .soql (q.blur b)
  | .sosl q => .sosl (q.blur b)
  | literal => literal

mutual

/-- The reference blurred. -/
def TypeRef.blur (b : Blur) : TypeRef → TypeRef
  | ⟨span, segments, arguments, dimensions⟩ =>
    ⟨b.span span, segments.map (Ident.blur b), TypeRef.blurAll b arguments, dimensions⟩

/-- The references blurred. -/
def TypeRef.blurAll (b : Blur) : List TypeRef → List TypeRef
  | [] => []
  | t :: ts => t.blur b :: TypeRef.blurAll b ts

end

/-- The name blurred. -/
def QualifiedName.blur (b : Blur) (q : QualifiedName) : QualifiedName :=
  ⟨b.span q.span, q.parts.map (Ident.blur b)⟩

mutual

/-- The annotation blurred. -/
def AnnotationMark.blur (b : Blur) : AnnotationMark → AnnotationMark
  | .mk span name elements parenthesized =>
    .mk (b.span span) (Ident.blur b name) (AnnotationElement.blurAll b elements) parenthesized

/-- The argument blurred. -/
def AnnotationElement.blur (b : Blur) : AnnotationElement → AnnotationElement
  | .mk span key value comma => .mk (b.span span) (key.map (Ident.blur b)) (value.blur b) comma

/-- The arguments blurred. -/
def AnnotationElement.blurAll (b : Blur) : List AnnotationElement → List AnnotationElement
  | [] => []
  | e :: es => e.blur b :: AnnotationElement.blurAll b es

/-- The value blurred. -/
def AnnotationValue.blur (b : Blur) : AnnotationValue → AnnotationValue
  | .literal span value => .literal (b.span span) (value.blur b)
  | .array span values => .array (b.span span) (AnnotationValue.blurAll b values)
  | .nested inner => .nested (inner.blur b)

/-- The values blurred. -/
def AnnotationValue.blurAll (b : Blur) : List AnnotationValue → List AnnotationValue
  | [] => []
  | v :: vs => v.blur b :: AnnotationValue.blurAll b vs

end

/-- The item blurred. -/
def HeaderItem.blur (b : Blur) : HeaderItem → HeaderItem
  | .annotated a => .annotated (a.blur b)
  | .modifier m => .modifier (m.blur b)

/-- The header blurred. -/
def Header.blur (b : Blur) (h : Header) : Header :=
  ⟨h.annotations.map (AnnotationMark.blur b), h.modifiers.map (Spanned.blur b)⟩

/-! ## Expressions and statements -/

mutual

/-- The expression blurred. -/
def Expr.blur (b : Blur) : Expr → Expr
  | .literal span value => .literal (b.span span) (value.blur b)
  | .name span text => .name (b.span span) (b.text text)
  | .this span => .this (b.span span)
  | .super span => .super (b.span span)
  | .paren span inner => .paren (b.span span) (inner.blur b)
  | .member span object part => .member (b.span span) (object.blur b) (Ident.blur b part)
  | .call span callee args => .call (b.span span) (Ident.blur b callee) (Expr.blurAll b args)
  | .methodCall span receiver callee args =>
    .methodCall (b.span span) (receiver.blur b) (Ident.blur b callee) (Expr.blurAll b args)
  | .index span object position => .index (b.span span) (object.blur b) (position.blur b)
  | .newObject span type args => .newObject (b.span span) (type.blur b) (Expr.blurAll b args)
  | .newArray span type size => .newArray (b.span span) (type.blur b) (size.blur b)
  | .newArrayOf span type elements =>
    .newArrayOf (b.span span) (type.blur b) (Expr.blurAll b elements)
  | .newCollection span type elements =>
    .newCollection (b.span span) (type.blur b) (Expr.blurAll b elements)
  | .newMap span type entries => .newMap (b.span span) (type.blur b) (Expr.blurEntries b entries)
  | .cast span type operand => .cast (b.span span) (type.blur b) (operand.blur b)
  | .unary span op operand => .unary (b.span span) op (operand.blur b)
  | .stepBefore span op operand => .stepBefore (b.span span) op (operand.blur b)
  | .stepAfter span op operand => .stepAfter (b.span span) op (operand.blur b)
  | .binary span left op right => .binary (b.span span) (left.blur b) op (right.blur b)
  | .instanceOf span operand type => .instanceOf (b.span span) (operand.blur b) (type.blur b)
  | .ternary span condition yes no =>
    .ternary (b.span span) (condition.blur b) (yes.blur b) (no.blur b)
  | .assignment span target op value => .assignment (b.span span) (target.blur b) op (value.blur b)

/-- The expressions blurred. -/
def Expr.blurAll (b : Blur) : List Expr → List Expr
  | [] => []
  | e :: es => e.blur b :: Expr.blurAll b es

/-- The keys and values blurred. -/
def Expr.blurEntries (b : Blur) : List (Expr × Expr) → List (Expr × Expr)
  | [] => []
  | (key, value) :: entries => (key.blur b, value.blur b) :: Expr.blurEntries b entries

end

/-- The variable blurred. -/
def Declarator.blur (b : Blur) (d : Declarator) : Declarator :=
  ⟨b.span d.span, Ident.blur b d.name, d.value.map (Expr.blur b)⟩

/-- The declaration blurred. -/
def LocalVariables.blur (b : Blur) (v : LocalVariables) : LocalVariables :=
  ⟨v.modifiers.map (Spanned.blur b), v.type.blur b, v.declarators.map (Declarator.blur b)⟩

/-- The start of a loop blurred. -/
def ForInit.blur (b : Blur) : ForInit → ForInit
  | .nothing => .nothing
  | .declaration span locals => .declaration (b.span span) (locals.blur b)
  | .expressions values => .expressions (values.map (Expr.blur b))

mutual

/-- The block blurred. -/
def Block.blur (b : Blur) : Block → Block
  | .mk span statements => .mk (b.span span) (Statement.blurAll b statements)

/-- The statement blurred. -/
def Statement.blur (b : Blur) : Statement → Statement
  | .block body => .block (body.blur b)
  | .locals span locals => .locals (b.span span) (locals.blur b)
  | .ifThen span condition yes => .ifThen (b.span span) (condition.blur b) (yes.blur b)
  | .ifElse span condition yes no =>
    .ifElse (b.span span) (condition.blur b) (yes.blur b) (no.blur b)
  | .whileLoop span condition body => .whileLoop (b.span span) (condition.blur b) (body.blur b)
  | .doWhile span body condition => .doWhile (b.span span) (body.blur b) (condition.blur b)
  | .forLoop span init condition update body =>
    .forLoop (b.span span) (init.blur b) (condition.map (Expr.blur b))
      (update.map (Expr.blur b)) (body.blur b)
  | .forEach span modifiers type name items body =>
    .forEach (b.span span) (modifiers.map (Spanned.blur b)) (type.blur b) (Ident.blur b name)
      (items.blur b) (body.blur b)
  | .tryCatch span body catches =>
    .tryCatch (b.span span) (body.blur b) (CatchClause.blurAll b catches)
  | .tryFinally span body catches last =>
    .tryFinally (b.span span) (body.blur b) (CatchClause.blurAll b catches) (last.blur b)
  | .returns span value => .returns (b.span span) (value.map (Expr.blur b))
  | .throws span value => .throws (b.span span) (value.blur b)
  | .breaks span => .breaks (b.span span)
  | .continues span => .continues (b.span span)
  | .empty span => .empty (b.span span)
  | .expression span value => .expression (b.span span) (value.blur b)
  | .runAs span user body => .runAs (b.span span) (user.blur b) (body.blur b)
  | .dml span op target => .dml (b.span span) op (target.blur b)
  | .upsert span target key =>
    .upsert (b.span span) (target.blur b) (key.map (QualifiedName.blur b))
  | .merge span master duplicate => .merge (b.span span) (master.blur b) (duplicate.blur b)

/-- The statements blurred. -/
def Statement.blurAll (b : Blur) : List Statement → List Statement
  | [] => []
  | s :: ss => s.blur b :: Statement.blurAll b ss

/-- The handler blurred. -/
def CatchClause.blur (b : Blur) : CatchClause → CatchClause
  | .mk span modifiers type name body =>
    .mk (b.span span) (modifiers.map (Spanned.blur b)) (type.blur b) (Ident.blur b name)
      (body.blur b)

/-- The handlers blurred. -/
def CatchClause.blurAll (b : Blur) : List CatchClause → List CatchClause
  | [] => []
  | c :: cs => c.blur b :: CatchClause.blurAll b cs

end

/-! ## Declarations -/

/-- The parameter blurred. -/
def Parameter.blur (b : Blur) (p : Parameter) : Parameter :=
  ⟨b.span p.span, p.modifiers.map (Spanned.blur b), p.type.blur b, Ident.blur b p.name⟩

/-- The field declaration blurred. -/
def Field.blur (b : Blur) (f : Field) : Field :=
  ⟨f.header.blur b, f.type.blur b, f.declarators.map (Declarator.blur b)⟩

/-- The method blurred. -/
def Method.blur (b : Blur) (m : Method) : Method :=
  ⟨m.header.blur b, m.returnType.map (TypeRef.blur b), Ident.blur b m.name,
    m.parameters.map (Parameter.blur b), m.body.map (Block.blur b)⟩

/-- The method and its place blurred. -/
def Method.blurSpanned (b : Blur) (m : Spanned Method) : Spanned Method :=
  ⟨m.value.blur b, b.span m.span⟩

/-- The constructor blurred. -/
def Constructor.blur (b : Blur) (c : Constructor) : Constructor :=
  ⟨c.header.blur b, Ident.blur b c.name, c.parameters.map (Parameter.blur b), c.body.blur b⟩

/-- The accessor blurred. -/
def Accessor.blur (b : Blur) (a : Accessor) : Accessor :=
  ⟨b.span a.span, a.kind, a.modifiers.map (Spanned.blur b), a.body.map (Block.blur b)⟩

/-- The property blurred. -/
def Property.blur (b : Blur) (p : Property) : Property :=
  ⟨p.header.blur b, p.type.blur b, Ident.blur b p.name, p.accessors.map (Accessor.blur b)⟩

/-- The initializer blurred. -/
def Initializer.blur (b : Blur) (i : Initializer) : Initializer := ⟨i.isStatic, i.body.blur b⟩

/-- The head blurred. -/
def ClassHead.blur (b : Blur) (c : ClassHead) : ClassHead :=
  ⟨c.header.blur b, Ident.blur b c.name, c.base.map (TypeRef.blur b),
    c.interfaces.map (TypeRef.blur b)⟩

/-- The head blurred. -/
def InterfaceHead.blur (b : Blur) (i : InterfaceHead) : InterfaceHead :=
  ⟨i.header.blur b, Ident.blur b i.name, i.bases.map (TypeRef.blur b)⟩

/-- The enum blurred. -/
def EnumDeclaration.blur (b : Blur) (e : EnumDeclaration) : EnumDeclaration :=
  ⟨e.header.blur b, Ident.blur b e.name, e.constants.map (Ident.blur b), e.trailingComma⟩

/-- The trigger blurred. -/
def Trigger.blur (b : Blur) (t : Trigger) : Trigger :=
  ⟨Ident.blur b t.name, Ident.blur b t.object, t.events.map (Spanned.blur b), t.body.blur b⟩

mutual

/-- The declaration blurred. -/
def TypeDeclaration.blur (b : Blur) : TypeDeclaration → TypeDeclaration
  | .classType span head members =>
    .classType (b.span span) (head.blur b) (Member.blurAll b members)
  | .interfaceType span head methods =>
    .interfaceType (b.span span) (head.blur b) (methods.map (Method.blurSpanned b))
  | .enumType span declaration => .enumType (b.span span) (declaration.blur b)

/-- The member blurred. -/
def Member.blur (b : Blur) : Member → Member
  | .field span f => .field (b.span span) (f.blur b)
  | .method span m => .method (b.span span) (m.blur b)
  | .constructor span c => .constructor (b.span span) (c.blur b)
  | .property span p => .property (b.span span) (p.blur b)
  | .initializer span i => .initializer (b.span span) (i.blur b)
  | .type declaration => .type (declaration.blur b)
  | .stray span => .stray (b.span span)

/-- The members blurred. -/
def Member.blurAll (b : Blur) : List Member → List Member
  | [] => []
  | m :: ms => m.blur b :: Member.blurAll b ms

end

/-- The declaration blurred. -/
def Declaration.blur (b : Blur) : Declaration → Declaration
  | .type declaration => .type (declaration.blur b)
  | .trigger span t => .trigger (b.span span) (t.blur b)
  | .nothing span => .nothing (b.span span)

/-- The tree blurred. -/
def CompilationUnit.blur (b : Blur) (u : CompilationUnit) : CompilationUnit :=
  ⟨b.span u.span, u.declaration.blur b, u.trailingSemicolons⟩

/-! ## Lists -/

theorem TypeRef.blurAll_eq_map (b : Blur) (ts : List TypeRef) :
    TypeRef.blurAll b ts = ts.map (TypeRef.blur b) := by
  induction ts with
  | nil => rfl
  | cons t ts ih => rw [TypeRef.blurAll, ih, List.map_cons]

theorem AnnotationElement.blurAll_eq_map (b : Blur) (es : List AnnotationElement) :
    AnnotationElement.blurAll b es = es.map (AnnotationElement.blur b) := by
  induction es with
  | nil => rfl
  | cons e es ih => rw [AnnotationElement.blurAll, ih, List.map_cons]

theorem AnnotationValue.blurAll_eq_map (b : Blur) (vs : List AnnotationValue) :
    AnnotationValue.blurAll b vs = vs.map (AnnotationValue.blur b) := by
  induction vs with
  | nil => rfl
  | cons v vs ih => rw [AnnotationValue.blurAll, ih, List.map_cons]

theorem Expr.blurAll_eq_map (b : Blur) (es : List Expr) :
    Expr.blurAll b es = es.map (Expr.blur b) := by
  induction es with
  | nil => rfl
  | cons e es ih => rw [Expr.blurAll, ih, List.map_cons]

theorem Expr.blurEntries_eq_map (b : Blur) (entries : List (Expr × Expr)) :
    Expr.blurEntries b entries = entries.map (Prod.map (Expr.blur b) (Expr.blur b)) := by
  induction entries with
  | nil => rfl
  | cons e entries ih => rw [Expr.blurEntries, ih, List.map_cons, Prod.map]

theorem Statement.blurAll_eq_map (b : Blur) (ss : List Statement) :
    Statement.blurAll b ss = ss.map (Statement.blur b) := by
  induction ss with
  | nil => rfl
  | cons s ss ih => rw [Statement.blurAll, ih, List.map_cons]

example : Statement.blurAll .erasing [.empty ⟨3, 4⟩] = [.empty (.point 0)] := by cbv

theorem CatchClause.blurAll_eq_map (b : Blur) (cs : List CatchClause) :
    CatchClause.blurAll b cs = cs.map (CatchClause.blur b) := by
  induction cs with
  | nil => rfl
  | cons c cs ih => rw [CatchClause.blurAll, ih, List.map_cons]

theorem Member.blurAll_eq_map (b : Blur) (ms : List Member) :
    Member.blurAll b ms = ms.map (Member.blur b) := by
  induction ms with
  | nil => rfl
  | cons m ms ih => rw [Member.blurAll, ih, List.map_cons]

/-! ## Places -/

section

variable {b : Blur}

theorem TypeRef.span_like {t t' : TypeRef} (same : t.blur b = t'.blur b) :
    b.span t.span = b.span t'.span := by
  cases t
  cases t'
  exact congrArg TypeRef.span same

/-- The simple name of a type is known up to letter case. -/
theorem TypeRef.simpleName_like {t t' : TypeRef} (same : t.blur b = t'.blur b) :
    lowerWord t.simpleName = lowerWord t'.simpleName := by
  obtain ⟨_, segments, _, _⟩ := t
  obtain ⟨_, segments', _, _⟩ := t'
  simp only [TypeRef.blur, TypeRef.mk.injEq] at same
  have last := congrArg List.getLast? same.2.1
  simp only [List.getLast?_map] at last
  simp only [simpleName]
  cases hs : segments.getLast? <;> cases hs' : segments'.getLast? <;>
    simp only [hs, hs', Option.map, reduceCtorEq, Option.some.injEq] at last
  · rfl
  · exact b.text_word (congrArg Spanned.value last)

theorem AnnotationMark.span_blur (a : AnnotationMark) : (a.blur b).span = b.span a.span := by
  cases a
  rfl

theorem AnnotationMark.span_like {a a' : AnnotationMark} (same : a.blur b = a'.blur b) :
    b.span a.span = b.span a'.span := by
  rw [← span_blur, same, span_blur]

theorem AnnotationValue.span_blur (v : AnnotationValue) : (v.blur b).span = b.span v.span := by
  cases v with
  | nested inner => exact inner.span_blur
  | literal | array => rfl

theorem AnnotationValue.span_like {v v' : AnnotationValue} (same : v.blur b = v'.blur b) :
    b.span v.span = b.span v'.span := by
  rw [← span_blur, same, span_blur]

theorem Expr.span_blur (e : Expr) : (e.blur b).span = b.span e.span := by
  cases e <;> rfl

example : ((Expr.this ⟨3, 7⟩).blur .erasing).span = .point 0 := by cbv

theorem Expr.span_like {e e' : Expr} (same : e.blur b = e'.blur b) :
    b.span e.span = b.span e'.span := by
  rw [← span_blur, same, span_blur]

theorem Spanned.value_like {α : Type} {s s' : Spanned α} (same : s.blur b = s'.blur b) :
    s.value = s'.value := by
  have value := congrArg Spanned.value same
  exact value

theorem Spanned.span_like {α : Type} {s s' : Spanned α} (same : s.blur b = s'.blur b) :
    b.span s.span = b.span s'.span := congrArg Spanned.span same

theorem Ident.span_like {i i' : Ident} (same : Ident.blur b i = Ident.blur b i') :
    b.span i.span = b.span i'.span := congrArg Spanned.span same

theorem Ident.text_like {i i' : Ident} (same : Ident.blur b i = Ident.blur b i') :
    b.text i.value = b.text i'.value := congrArg Spanned.value same

end

/-! ## Headers being read and errors -/

/-- The header with its places blurred, the place where it starts included. -/
def ReadHeader.blur (b : Blur) (read : ReadHeader) : ReadHeader :=
  ⟨read.header.blur b, read.start.map b.span⟩

/-- The fault of an annotation's value with the token that it names blurred. -/
def AnnotationFault.blur (b : Blur) : AnnotationFault → AnnotationFault
  | .noValue found => .noValue (found.blur b)
  | .continued found => .continued (found.blur b)

/-- The error with its place and the token that it names blurred. -/
def ParseError.blur (b : Blur) : ParseError → ParseError
  | .unexpected span expected found => .unexpected (b.span span) expected (found.blur b)
  | .unknownTriggerEvent span found => .unknownTriggerEvent (b.span span) (b.text found)
  | .malformedAnnotationValue span fault => .malformedAnnotationValue (b.span span) (fault.blur b)
  | .duplicateModifier span modifier => .duplicateModifier (b.span span) modifier
  | .lexical e => .lexical ⟨e.fault, b.span e.span⟩

theorem ParseError.span_blur (b : Blur) (e : ParseError) : (e.blur b).span = b.span e.span := by
  cases e <;> rfl

/-- What is left of the outcome of parsing. -/
def Blur.outcome (b : Blur) : Except ParseError CompilationUnit → Except ParseError CompilationUnit
  | .ok unit => .ok (unit.blur b)
  | .error e => .error (e.blur b)

end Apex
