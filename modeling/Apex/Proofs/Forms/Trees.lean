import Apex.Layout.Declaration
import Apex.Token.QueryText

/-!
# What a tree stands for in the tokens

A tree stands for a row of forms: each form is one token of the program, or the tokens of one
operator. A form says as much about its tokens as the tree does. The reader of the source found
tokens of these forms, and the text of the tree is to be read as tokens of these forms.
-/

namespace Apex

/-- The kind of token that a word is. -/
def wordKind (word : String) : TokenKind :=
  match Keyword.reservedOfWord? word with
  | some k => .keyword k
  | none => .name word

/-- What a token, or the tokens of an operator, have to be. -/
inductive Form where
  /-- A token of a kind, wherever the variables of a query may stand. -/
  | kind (kind : TokenKind)
  /-- A word as it is written, reserved or not. -/
  | word (text : String)
  /-- A name that spells a contextual keyword, in any letter case. -/
  | spelled (k : Keyword)
  /-- An operator between operands, which may be put together from several tokens. -/
  | operator (o : Operator)
  /-- The number zero as the value of an annotation's argument. A minus sign may stand before
  it. -/
  | zero (kind : TokenKind)
deriving DecidableEq

namespace Form

/-- A punctuation mark. -/
abbrev mark (p : Punctuation) : Form := .kind (.punctuation p)

/-- A reserved word. -/
abbrev keyword (k : Keyword) : Form := .kind (.keyword k)

/-- A name. -/
abbrev ident (i : Ident) : Form := .kind (.name i.value)

/-- A variable: a name, or the reserved word that stands for one, as it is written. -/
def named (text : String) : Form :=
  if (Keyword.reservedOfWord? text).isSome then word text else kind (.name text)

/-- An operator that is a single token. -/
abbrev sign (o : Operator) : Form := .kind (.operator o)

/-- Forms with commas between them. -/
def commas : List (List Form) → List Form
  | [] => []
  | item :: items => item ++ items.flatMap fun item => mark .comma :: item

/-- A dotted name, whose further parts have the given form. -/
def dotted (form : Ident → Form) : List Ident → List Form
  | [] => []
  | first :: others => ident first :: others.flatMap fun i => [mark .dot, form i]

/-- Type arguments in angle brackets, if there are any. -/
def angled : List (List Form) → List Form
  | [] => []
  | arguments => sign .less :: commas arguments ++ [sign .greater]

/-- Pairs of array brackets. -/
def brackets (n : Nat) : List Form :=
  (List.replicate n [mark .openBracket, mark .closeBracket]).flatten

/-- Forms in parentheses. -/
def parens (forms : List Form) : List Form := mark .openParen :: forms ++ [mark .closeParen]

/-- Forms in braces. -/
def braces (forms : List Form) : List Form := mark .openBrace :: forms ++ [mark .closeBrace]

end Form

open Form

/-! ## Types -/

mutual

/-- What a type stands for. -/
def TypeRef.forms : TypeRef → List Form
  | ⟨_, segments, arguments, dimensions⟩ =>
    dotted ident segments ++ angled (TypeRef.formsOf arguments) ++ brackets dimensions

/-- What the types of a list stand for. -/
def TypeRef.formsOf : List TypeRef → List (List Form)
  | [] => []
  | t :: ts => t.forms :: TypeRef.formsOf ts

end

/-- What a dotted name stands for. -/
def QualifiedName.forms (q : QualifiedName) : List Form := dotted (fun i => word i.value) q.parts

/-- What types behind a keyword stand for. -/
def TypeRef.formsBehind (k : Keyword) (types : List TypeRef) : List Form :=
  if types.isEmpty then [] else keyword k :: commas (types.map TypeRef.forms)

/-! ## Literals, annotations and modifiers -/

/-- What a literal of an expression stands for. -/
def Literal.forms : Literal → List Form
  | .integer value => [.kind (.integer value)]
  | .long value => [.kind (.long value)]
  | .decimal value => [.kind (.decimal value)]
  | .string value => [.kind (.string value)]
  | .boolean true => [keyword .kwTrue]
  | .boolean false => [keyword .kwFalse]
  | .null => [keyword .kwNull]
  | .soql query => [.kind (.soql query)]
  | .sosl query => [.kind (.sosl query)]

/-- What the literal of an annotation's argument stands for. The sign of a negative number is a
token of its own. -/
def Literal.signedForms : Literal → List Form
  | .integer value =>
    if value.toInt < 0 then [sign .minus, .kind (.integer (-value))]
    else if value = 0 then [zero (.integer 0)] else [.kind (.integer value)]
  | .long value =>
    if value.toInt < 0 then [sign .minus, .kind (.long (-value))]
    else if value = 0 then [zero (.long 0)] else [.kind (.long value)]
  | .decimal value =>
    if value.isNegative then [sign .minus, .kind (.decimal value.neg)] else [.kind (.decimal value)]
  | literal => literal.forms

mutual

/-- What an annotation stands for. -/
def AnnotationMark.forms : AnnotationMark → List Form
  | .mk _ n elements parenthesized =>
    mark .at :: ident n ::
      if parenthesized then parens (AnnotationElement.formsOf elements).flatten else []

/-- What an argument stands for. -/
def AnnotationElement.forms : AnnotationElement → List Form
  | .mk _ key value comma =>
    (match key with
      | some key => [ident key, sign .assign]
      | none => []) ++ value.forms ++ if comma then [mark .comma] else []

/-- What the arguments of a list stand for. -/
def AnnotationElement.formsOf : List AnnotationElement → List (List Form)
  | [] => []
  | e :: es => e.forms :: AnnotationElement.formsOf es

/-- What the value of an argument stands for. -/
def AnnotationValue.forms : AnnotationValue → List Form
  | .literal _ value => value.signedForms
  | .array _ values => braces (commas (AnnotationValue.formsOf values))
  | .nested inner => inner.forms

/-- What the values of a list stand for. -/
def AnnotationValue.formsOf : List AnnotationValue → List (List Form)
  | [] => []
  | v :: vs => v.forms :: AnnotationValue.formsOf vs

end

/-- What a modifier stands for. -/
def Modifier.forms (m : Modifier) : List Form :=
  match m.keyword? with
  | some k => [keyword k]
  | none =>
    [match m with
      | .withoutSharing => spelled .kwWithout
      | .inheritedSharing => spelled .kwInherited
      | _ => keyword .kwWith,
     spelled .kwSharing]

/-- What modifiers stand for. -/
def modifierForms (modifiers : List (Spanned Modifier)) : List Form :=
  modifiers.flatMap fun m => m.value.forms

/-- What an item of a header stands for. -/
def HeaderItem.forms : HeaderItem → List Form
  | .annotated a => a.forms
  | .modifier m => m.value.forms

/-- What a header stands for. -/
def Header.forms (h : Header) : List Form := h.items.flatMap HeaderItem.forms

/-! ## Expressions -/

mutual

/-- What an expression stands for. -/
def Expr.forms : Expr → List Form
  | .literal _ value => value.forms
  | .name _ text => [named text]
  | .this _ => [keyword .kwThis]
  | .super _ => [keyword .kwSuper]
  | .paren _ inner => parens inner.forms
  | .member _ object part => object.forms ++ [mark .dot, word part.value]
  | .call _ callee args => .kind (wordKind callee.value) :: parens (commas (Expr.formsOf args))
  | .methodCall _ receiver callee args =>
    receiver.forms ++ mark .dot :: word callee.value :: parens (commas (Expr.formsOf args))
  | .index _ object position =>
    object.forms ++ mark .openBracket :: position.forms ++ [mark .closeBracket]
  | .newObject _ type args => keyword .kwNew :: type.forms ++ parens (commas (Expr.formsOf args))
  | .newArray _ type size =>
    keyword .kwNew :: type.forms ++
      mark .openBracket :: size.forms ++ [mark .closeBracket]
  | .newArrayOf _ type elements =>
    keyword .kwNew :: type.forms ++
      mark .openBracket :: mark .closeBracket :: braces (commas (Expr.formsOf elements))
  | .newCollection _ type elements =>
    keyword .kwNew :: type.forms ++ braces (commas (Expr.formsOf elements))
  | .newMap _ type entries =>
    keyword .kwNew :: type.forms ++ braces (commas (Expr.formsOfEntries entries))
  | .cast _ type operand => parens type.forms ++ operand.forms
  | .unary _ op operand => sign op.operator :: operand.forms
  | .stepBefore _ op operand => sign op.operator :: operand.forms
  | .stepAfter _ op operand => operand.forms ++ [sign op.operator]
  | .binary _ left op right => left.forms ++ operator op.operator :: right.forms
  | .instanceOf _ operand type => operand.forms ++ keyword .kwInstanceOf :: type.forms
  | .ternary _ condition yes no =>
    condition.forms ++ mark .question :: yes.forms ++ mark .colon :: no.forms
  | .assignment _ target op value => target.forms ++ operator op.operator :: value.forms

/-- What the expressions of a list stand for. -/
def Expr.formsOf : List Expr → List (List Form)
  | [] => []
  | e :: es => e.forms :: Expr.formsOf es

/-- What keys with their values stand for. -/
def Expr.formsOfEntries : List (Expr × Expr) → List (List Form)
  | [] => []
  | (key, value) :: entries =>
    (key.forms ++ mark .arrow :: value.forms) :: Expr.formsOfEntries entries

end

/-! ## Statements -/

/-- What a variable with its initial value stands for. -/
def Declarator.forms (d : Declarator) : List Form :=
  ident d.name ::
    match d.value with
    | some value => sign .assign :: value.forms
    | none => []

/-- What a declaration of local variables stands for, without its semicolon. -/
def LocalVariables.forms (v : LocalVariables) : List Form :=
  modifierForms v.modifiers ++ v.type.forms ++ commas (v.declarators.map Declarator.forms)

/-- What the first part of a `for` loop stands for. -/
def ForInit.forms : ForInit → List Form
  | .nothing => []
  | .declaration _ locals => locals.forms
  | .expressions values => commas (values.map Expr.forms)

/-- What an expression that may be missing stands for. -/
def Expr.formsOption : Option Expr → List Form
  | some e => e.forms
  | none => []

/-- The word of an operation on records. -/
def DmlOp.keyword : DmlOp → Keyword
  | .insert => .kwInsert
  | .update => .kwUpdate
  | .delete => .kwDelete
  | .undelete => .kwUndelete

mutual

/-- What a block stands for. -/
def Block.forms : Block → List Form
  | .mk _ statements => braces (Statement.formsOf statements).flatten

/-- What a statement stands for. -/
def Statement.forms : Statement → List Form
  | .block body => body.forms
  | .locals _ locals => locals.forms ++ [mark .semicolon]
  | .ifThen _ condition yes => keyword .kwIf :: parens condition.forms ++ yes.forms
  | .ifElse _ condition yes no =>
    keyword .kwIf :: parens condition.forms ++ yes.forms ++ keyword .kwElse :: no.forms
  | .whileLoop _ condition body => keyword .kwWhile :: parens condition.forms ++ body.forms
  | .doWhile _ body condition =>
    keyword .kwDo :: body.forms ++ keyword .kwWhile :: parens condition.forms ++ [mark .semicolon]
  | .forLoop _ init condition update body =>
    keyword .kwFor ::
      parens (init.forms ++ mark .semicolon :: Expr.formsOption condition ++
        mark .semicolon :: commas (update.map Expr.forms)) ++ body.forms
  | .forEach _ modifiers type n items body =>
    keyword .kwFor ::
      parens (modifierForms modifiers ++ type.forms ++ ident n :: mark .colon :: items.forms) ++
      body.forms
  | .tryCatch _ body catches =>
    keyword .kwTry :: body.forms ++ (CatchClause.formsOf catches).flatten
  | .tryFinally _ body catches last =>
    keyword .kwTry :: body.forms ++ (CatchClause.formsOf catches).flatten ++
      keyword .kwFinally :: last.forms
  | .returns _ value => keyword .kwReturn :: Expr.formsOption value ++ [mark .semicolon]
  | .throws _ value => keyword .kwThrow :: value.forms ++ [mark .semicolon]
  | .breaks _ => [keyword .kwBreak, mark .semicolon]
  | .continues _ => [keyword .kwContinue, mark .semicolon]
  | .empty _ => [mark .semicolon]
  | .expression _ value => value.forms ++ [mark .semicolon]
  | .runAs _ user body =>
    spelled .kwSystem :: mark .dot :: spelled .kwRunAs :: parens user.forms ++ body.forms
  | .dml _ op target => keyword op.keyword :: target.forms ++ [mark .semicolon]
  | .upsert _ target none => keyword .kwUpsert :: target.forms ++ [mark .semicolon]
  | .upsert _ target (some key) =>
    keyword .kwUpsert :: target.forms ++ key.forms ++ [mark .semicolon]
  | .merge _ master duplicate =>
    keyword .kwMerge :: master.forms ++ duplicate.forms ++ [mark .semicolon]

/-- What the statements of a list stand for. -/
def Statement.formsOf : List Statement → List (List Form)
  | [] => []
  | s :: ss => s.forms :: Statement.formsOf ss

/-- What the handler of a `try` stands for. -/
def CatchClause.forms : CatchClause → List Form
  | .mk _ modifiers type n body =>
    keyword .kwCatch :: parens (modifierForms modifiers ++ type.forms ++ [ident n]) ++ body.forms

/-- What the handlers of a list stand for. -/
def CatchClause.formsOf : List CatchClause → List (List Form)
  | [] => []
  | c :: cs => c.forms :: CatchClause.formsOf cs

end

/-! ## Declarations -/

/-- What a parameter stands for. -/
def Parameter.forms (p : Parameter) : List Form :=
  modifierForms p.modifiers ++ p.type.forms ++ [ident p.name]

/-- What parameters in parentheses stand for. -/
def Parameter.formsOf (parameters : List Parameter) : List Form :=
  parens (commas (parameters.map Parameter.forms))

/-- What a body stands for, or the semicolon in its place. -/
def Block.formsOption : Option Block → List Form
  | some body => body.forms
  | none => [mark .semicolon]

/-- What the type of a method's result stands for. -/
def returnForms : Option TypeRef → List Form
  | some type => type.forms
  | none => [keyword .kwVoid]

/-- What a field declaration stands for. -/
def Field.forms (f : Field) : List Form :=
  f.header.forms ++ f.type.forms ++ commas (f.declarators.map Declarator.forms) ++
    [mark .semicolon]

/-- What a method stands for. -/
def Method.forms (m : Method) : List Form :=
  m.header.forms ++ returnForms m.returnType ++ ident m.name ::
    Parameter.formsOf m.parameters ++ Block.formsOption m.body

/-- What a constructor stands for. -/
def Constructor.forms (c : Constructor) : List Form :=
  c.header.forms ++ ident c.name :: Parameter.formsOf c.parameters ++ c.body.forms

/-- What an accessor stands for. -/
def Accessor.forms (a : Accessor) : List Form :=
  modifierForms a.modifiers ++ spelled a.kind.keyword :: Block.formsOption a.body

/-- What a property stands for. -/
def Property.forms (p : Property) : List Form :=
  p.header.forms ++ p.type.forms ++ ident p.name :: braces (p.accessors.flatMap Accessor.forms)

/-- What an initializer stands for. -/
def Initializer.forms (i : Initializer) : List Form :=
  (if i.isStatic then [keyword .kwStatic] else []) ++ i.body.forms

/-- What stands before the members of a class. -/
def ClassHead.forms (c : ClassHead) : List Form :=
  c.header.forms ++ keyword .kwClass :: ident c.name ::
    TypeRef.formsBehind .kwExtends c.base.toList ++ TypeRef.formsBehind .kwImplements c.interfaces

/-- What stands before the methods of an interface. -/
def InterfaceHead.forms (i : InterfaceHead) : List Form :=
  i.header.forms ++ keyword .kwInterface :: ident i.name ::
    TypeRef.formsBehind .kwExtends i.bases

/-- What an enum stands for. -/
def EnumDeclaration.forms (e : EnumDeclaration) : List Form :=
  e.header.forms ++ keyword .kwEnum :: ident e.name ::
    braces (commas (e.constants.map fun i => [ident i]) ++
      if e.trailingComma then [mark .comma] else [])

/-- The contextual keyword that a timing's word spells. -/
def TriggerTiming.keyword : TriggerTiming → Keyword
  | .before => .kwBefore
  | .after => .kwAfter

/-- The keyword of the operation of a trigger's event. -/
def TriggerEvent.keyword : TriggerEvent → Keyword
  | .beforeInsert | .afterInsert => .kwInsert
  | .beforeUpdate | .afterUpdate => .kwUpdate
  | .beforeDelete | .afterDelete => .kwDelete
  | .afterUndelete => .kwUndelete

/-- What an event of a trigger stands for. -/
def TriggerEvent.forms (e : TriggerEvent) : List Form :=
  [spelled e.timing.keyword, .kind (.keyword e.keyword)]

/-- What a trigger stands for. -/
def Trigger.forms (t : Trigger) : List Form :=
  keyword .kwTrigger :: ident t.name :: spelled .kwOn :: ident t.object ::
    parens (commas (t.events.map fun e => e.value.forms)) ++ t.body.forms

mutual

/-- What a type declaration stands for. -/
def TypeDeclaration.forms : TypeDeclaration → List Form
  | .classType _ head members => head.forms ++ braces (Member.formsOf members).flatten
  | .interfaceType _ head methods =>
    head.forms ++ braces (methods.flatMap fun m => m.value.forms)
  | .enumType _ declaration => declaration.forms

/-- What a member of a class stands for. -/
def Member.forms : Member → List Form
  | .field _ f => f.forms
  | .method _ m => m.forms
  | .constructor _ c => c.forms
  | .property _ p => p.forms
  | .initializer _ i => i.forms
  | .type declaration => declaration.forms
  | .stray _ => [mark .semicolon]

/-- What the members of a list stand for. -/
def Member.formsOf : List Member → List (List Form)
  | [] => []
  | m :: ms => m.forms :: Member.formsOf ms

end

/-- What the declaration of a file stands for. -/
def Declaration.forms : Declaration → List Form
  | .type declaration => declaration.forms
  | .trigger _ t => t.forms
  | .nothing _ => []

/-- What a file stands for. -/
def CompilationUnit.forms (u : CompilationUnit) : List Form :=
  u.declaration.forms ++ List.replicate u.trailingSemicolons (mark .semicolon)

/-! ## Lists -/

@[simp] theorem TypeRef.formsOf_eq_map (ts : List TypeRef) :
    TypeRef.formsOf ts = ts.map TypeRef.forms := by
  induction ts with
  | nil => rfl
  | cons t ts ih => rw [TypeRef.formsOf, ih, List.map_cons]

@[simp] theorem AnnotationElement.formsOf_eq_map (es : List AnnotationElement) :
    AnnotationElement.formsOf es = es.map AnnotationElement.forms := by
  induction es with
  | nil => rfl
  | cons e es ih => rw [AnnotationElement.formsOf, ih, List.map_cons]

@[simp] theorem AnnotationValue.formsOf_eq_map (vs : List AnnotationValue) :
    AnnotationValue.formsOf vs = vs.map AnnotationValue.forms := by
  induction vs with
  | nil => rfl
  | cons v vs ih => rw [AnnotationValue.formsOf, ih, List.map_cons]

@[simp] theorem Expr.formsOf_eq_map (es : List Expr) : Expr.formsOf es = es.map Expr.forms := by
  induction es with
  | nil => rfl
  | cons e es ih => rw [Expr.formsOf, ih, List.map_cons]

/-- What a key with its value stands for. -/
def Expr.entryForms (entry : Expr × Expr) : List Form :=
  entry.1.forms ++ mark .arrow :: entry.2.forms

@[simp] theorem Expr.formsOfEntries_eq_map (entries : List (Expr × Expr)) :
    Expr.formsOfEntries entries = entries.map Expr.entryForms := by
  induction entries with
  | nil => rfl
  | cons e entries ih => rw [Expr.formsOfEntries, ih, List.map_cons, Expr.entryForms]

@[simp] theorem Statement.formsOf_eq_map (ss : List Statement) :
    Statement.formsOf ss = ss.map Statement.forms := by
  induction ss with
  | nil => rfl
  | cons s ss ih => rw [Statement.formsOf, ih, List.map_cons]

@[simp] theorem CatchClause.formsOf_eq_map (cs : List CatchClause) :
    CatchClause.formsOf cs = cs.map CatchClause.forms := by
  induction cs with
  | nil => rfl
  | cons c cs ih => rw [CatchClause.formsOf, ih, List.map_cons]

@[simp] theorem Member.formsOf_eq_map (ms : List Member) :
    Member.formsOf ms = ms.map Member.forms := by
  induction ms with
  | nil => rfl
  | cons m ms ih => rw [Member.formsOf, ih, List.map_cons]

end Apex
