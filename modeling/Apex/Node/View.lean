import Apex.Node.Basic

/-!
# The nodes of a tree

How every piece of syntax is made of others. Children are listed in source order; annotations and
modifiers, which may be mixed, by where they start.
-/

namespace Apex

/-- The node of a name. -/
def Spanned.identifierNode (name : Ident) : Node := .leaf (.identifier name.value) name.span

/-- The node of a modifier. -/
def Spanned.modifierNode (m : Spanned Modifier) : Node := .leaf (.modifier m.value) m.span

/-- The node of a trigger's event. -/
def Spanned.eventNode (e : Spanned TriggerEvent) : Node := .leaf (.event e.value) e.span

mutual

/-- The node of a type. -/
def TypeRef.node : TypeRef → Node
  | ⟨span, segments, arguments, dimensions⟩ =>
    .mk (.type ⟨span, segments, arguments, dimensions⟩) span
      (segments.map Spanned.identifierNode ++ TypeRef.nodes arguments)

/-- The nodes of types. -/
def TypeRef.nodes : List TypeRef → List Node
  | [] => []
  | t :: ts => t.node :: TypeRef.nodes ts

end

/-- The node of a dotted name. -/
def QualifiedName.node (q : QualifiedName) : Node :=
  .mk (.qualifiedName q) q.span (q.parts.map Spanned.identifierNode)

/-! ## Annotations and headers -/

mutual

/-- The node of an annotation. -/
def AnnotationMark.node : AnnotationMark → Node
  | .mk span name elements parenthesized =>
    .mk (.annotated (.mk span name elements parenthesized)) span
      (name.identifierNode :: AnnotationElement.nodes elements)

/-- The node of an annotation's argument. -/
def AnnotationElement.node : AnnotationElement → Node
  | .mk span key value comma =>
    .mk (.annotationElement (.mk span key value comma)) span
      ((key.map Spanned.identifierNode).toList ++ [value.node])

/-- The nodes of an annotation's arguments. -/
def AnnotationElement.nodes : List AnnotationElement → List Node
  | [] => []
  | e :: es => e.node :: AnnotationElement.nodes es

/-- The node of the value of an annotation's argument. -/
def AnnotationValue.node : AnnotationValue → Node
  | .literal span value => .leaf (.literal value) span
  | .array span values => .mk (.annotationArray values) span (AnnotationValue.nodes values)
  | .nested inner => inner.node

/-- The nodes of the values of an array. -/
def AnnotationValue.nodes : List AnnotationValue → List Node
  | [] => []
  | v :: vs => v.node :: AnnotationValue.nodes vs

end

/-- The node of a part of a header. -/
def HeaderItem.node : HeaderItem → Node
  | .annotated a => a.node
  | .modifier m => m.modifierNode

/-- The nodes of a header. -/
def Header.nodes (h : Header) : List Node := h.items.map HeaderItem.node

/-! ## Expressions -/

mutual

/-- The node of an expression. -/
def Expr.node : Expr → Node
  | .literal span value => .leaf (.literal value) span
  | .name span text => .leaf (.expr (.name span text)) span
  | .this span => .leaf (.expr (.this span)) span
  | .super span => .leaf (.expr (.super span)) span
  | .paren span inner => .mk (.expr (.paren span inner)) span [inner.node]
  | .member span object part =>
    .mk (.expr (.member span object part)) span [object.node, part.identifierNode]
  | .call span callee args =>
    .mk (.expr (.call span callee args)) span (callee.identifierNode :: Expr.nodes args)
  | .methodCall span receiver callee args =>
    .mk (.expr (.methodCall span receiver callee args)) span
      (receiver.node :: callee.identifierNode :: Expr.nodes args)
  | .index span object position =>
    .mk (.expr (.index span object position)) span [object.node, position.node]
  | .newObject span type args =>
    .mk (.expr (.newObject span type args)) span (type.node :: Expr.nodes args)
  | .newArray span type size =>
    .mk (.expr (.newArray span type size)) span [type.node, size.node]
  | .newArrayOf span type elements =>
    .mk (.expr (.newArrayOf span type elements)) span (type.node :: Expr.nodes elements)
  | .newCollection span type elements =>
    .mk (.expr (.newCollection span type elements)) span (type.node :: Expr.nodes elements)
  | .newMap span type entries =>
    .mk (.expr (.newMap span type entries)) span (type.node :: Expr.entryNodes entries)
  | .cast span type operand =>
    .mk (.expr (.cast span type operand)) span [type.node, operand.node]
  | .unary span op operand => .mk (.expr (.unary span op operand)) span [operand.node]
  | .stepBefore span op operand => .mk (.expr (.stepBefore span op operand)) span [operand.node]
  | .stepAfter span op operand => .mk (.expr (.stepAfter span op operand)) span [operand.node]
  | .binary span left op right =>
    .mk (.expr (.binary span left op right)) span [left.node, right.node]
  | .instanceOf span operand type =>
    .mk (.expr (.instanceOf span operand type)) span [operand.node, type.node]
  | .ternary span condition yes no =>
    .mk (.expr (.ternary span condition yes no)) span [condition.node, yes.node, no.node]
  | .assignment span target op value =>
    .mk (.expr (.assignment span target op value)) span [target.node, value.node]

/-- The nodes of expressions. -/
def Expr.nodes : List Expr → List Node
  | [] => []
  | e :: es => e.node :: Expr.nodes es

/-- The nodes of map entries. -/
def Expr.entryNodes : List (Expr × Expr) → List Node
  | [] => []
  | (key, value) :: entries =>
    .mk (.mapEntry key value) (key.span.merge value.span) [key.node, value.node] ::
      Expr.entryNodes entries

end

/-! ## Statements -/

/-- The node of a variable. -/
def Declarator.node (d : Declarator) : Node :=
  .mk (.declarator d) d.span (d.name.identifierNode :: (d.value.map Expr.node).toList)

/-- The children of a declaration of local variables. -/
def LocalVariables.nodes (v : LocalVariables) : List Node :=
  v.modifiers.map Spanned.modifierNode ++ v.type.node :: v.declarators.map Declarator.node

/-- The nodes of what a `for` loop does first. -/
def ForInit.nodes : ForInit → List Node
  | .nothing => []
  | .declaration span locals => [.mk (.locals locals) span locals.nodes]
  | .expressions values => Expr.nodes values

mutual

/-- The node of a block. -/
def Block.node : Block → Node
  | .mk span statements => .mk (.block (.mk span statements)) span (Statement.nodes statements)

/-- The node of a statement. -/
def Statement.node : Statement → Node
  | .block body => body.node
  | .locals span locals => .mk (.locals locals) span locals.nodes
  | .ifThen span condition yes =>
    .mk (.statement (.ifThen span condition yes)) span [condition.node, yes.node]
  | .ifElse span condition yes no =>
    .mk (.statement (.ifElse span condition yes no)) span [condition.node, yes.node, no.node]
  | .whileLoop span condition body =>
    .mk (.statement (.whileLoop span condition body)) span [condition.node, body.node]
  | .doWhile span body condition =>
    .mk (.statement (.doWhile span body condition)) span [body.node, condition.node]
  | .forLoop span init condition update body =>
    .mk (.statement (.forLoop span init condition update body)) span
      (init.nodes ++ (condition.map Expr.node).toList ++ Expr.nodes update ++ [body.node])
  | .forEach span modifiers type name items body =>
    .mk (.statement (.forEach span modifiers type name items body)) span
      (modifiers.map Spanned.modifierNode ++
        [type.node, name.identifierNode, items.node, body.node])
  | .tryCatch span body catches =>
    .mk (.statement (.tryCatch span body catches)) span (body.node :: CatchClause.nodes catches)
  | .tryFinally span body catches last =>
    .mk (.statement (.tryFinally span body catches last)) span
      (body.node :: CatchClause.nodes catches ++ [last.node])
  | .returns span value =>
    .mk (.statement (.returns span value)) span (value.map Expr.node).toList
  | .throws span value => .mk (.statement (.throws span value)) span [value.node]
  | .breaks span => .leaf (.statement (.breaks span)) span
  | .continues span => .leaf (.statement (.continues span)) span
  | .empty span => .leaf (.statement (.empty span)) span
  | .expression span value => .mk (.statement (.expression span value)) span [value.node]
  | .runAs span user body =>
    .mk (.statement (.runAs span user body)) span [user.node, body.node]
  | .dml span op target => .mk (.statement (.dml span op target)) span [target.node]
  | .upsert span target key =>
    .mk (.statement (.upsert span target key)) span
      (target.node :: (key.map QualifiedName.node).toList)
  | .merge span master duplicate =>
    .mk (.statement (.merge span master duplicate)) span [master.node, duplicate.node]

/-- The nodes of statements. -/
def Statement.nodes : List Statement → List Node
  | [] => []
  | s :: ss => s.node :: Statement.nodes ss

/-- The node of a `catch` clause. -/
def CatchClause.node : CatchClause → Node
  | .mk span modifiers type name body =>
    .mk (.catchClause (.mk span modifiers type name body)) span
      (modifiers.map Spanned.modifierNode ++ [type.node, name.identifierNode, body.node])

/-- The nodes of `catch` clauses. -/
def CatchClause.nodes : List CatchClause → List Node
  | [] => []
  | c :: cs => c.node :: CatchClause.nodes cs

end

/-! ## Declarations -/

/-- The node of a parameter. -/
def Parameter.node (p : Parameter) : Node :=
  .mk (.parameter p) p.span
    (p.modifiers.map Spanned.modifierNode ++ [p.type.node, p.name.identifierNode])

/-- The node of a field declaration. -/
def Field.node (f : Field) (span : Span) : Node :=
  .mk (.field f) span (f.header.nodes ++ f.type.node :: f.declarators.map Declarator.node)

/-- The node of a method. -/
def Method.node (m : Method) (span : Span) : Node :=
  .mk (.method m) span
    (m.header.nodes ++ (m.returnType.map TypeRef.node).toList ++ m.name.identifierNode ::
      m.parameters.map Parameter.node ++ (m.body.map Block.node).toList)

/-- The node of a constructor. -/
def Constructor.node (c : Constructor) (span : Span) : Node :=
  .mk (.constructor c) span
    (c.header.nodes ++ c.name.identifierNode :: c.parameters.map Parameter.node ++ [c.body.node])

/-- The node of an accessor. -/
def Accessor.node (a : Accessor) : Node :=
  .mk (.accessor a) a.span
    (a.modifiers.map Spanned.modifierNode ++ (a.body.map Block.node).toList)

/-- The node of a property. -/
def Property.node (p : Property) (span : Span) : Node :=
  .mk (.property p) span
    (p.header.nodes ++ p.type.node :: p.name.identifierNode :: p.accessors.map Accessor.node)

/-- The node of an initializer block. -/
def Initializer.node (i : Initializer) (span : Span) : Node :=
  .mk (.initializer i) span [i.body.node]

/-- The children of a class before its members. -/
def ClassHead.nodes (c : ClassHead) : List Node :=
  c.header.nodes ++ c.name.identifierNode :: (c.base.map TypeRef.node).toList ++
    c.interfaces.map TypeRef.node

/-- The children of an interface before its methods. -/
def InterfaceHead.nodes (i : InterfaceHead) : List Node :=
  i.header.nodes ++ i.name.identifierNode :: i.bases.map TypeRef.node

/-- The children of an enum. -/
def EnumDeclaration.nodes (e : EnumDeclaration) : List Node :=
  e.header.nodes ++ e.name.identifierNode :: e.constants.map Spanned.identifierNode

/-- The node of a trigger. -/
def Trigger.node (t : Trigger) (span : Span) : Node :=
  .mk (.trigger t) span
    (t.name.identifierNode :: t.object.identifierNode :: t.events.map Spanned.eventNode ++
      [t.body.node])

mutual

/-- The node of a type declaration. -/
def TypeDeclaration.node : TypeDeclaration → Node
  | .classType span head members =>
    .mk (.typeDeclaration (.classType span head members)) span
      (head.nodes ++ Member.nodes members)
  | .interfaceType span head methods =>
    .mk (.typeDeclaration (.interfaceType span head methods)) span
      (head.nodes ++ methods.map fun m => m.value.node m.span)
  | .enumType span declaration =>
    .mk (.typeDeclaration (.enumType span declaration)) span declaration.nodes

/-- The node of a member. -/
def Member.node : Member → Node
  | .field span field => field.node span
  | .method span method => method.node span
  | .constructor span constructor => constructor.node span
  | .property span property => property.node span
  | .initializer span initializer => initializer.node span
  | .type declaration => declaration.node
  | .stray span => .leaf .nothing span

/-- The nodes of members. -/
def Member.nodes : List Member → List Node
  | [] => []
  | m :: ms => m.node :: Member.nodes ms

end

/-- The node of what a file declares. -/
def Declaration.node : Declaration → Node
  | .type declaration => declaration.node
  | .trigger span t => t.node span
  | .nothing span => .leaf .nothing span

/-- The root of the tree of a file. -/
def CompilationUnit.node (u : CompilationUnit) : Node :=
  .mk (.unit u) u.span [u.declaration.node]

end Apex
