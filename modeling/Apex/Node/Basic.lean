import Apex.Node.Kind
import Apex.Tree.Declaration

/-!
# Nodes

The uniform view of a syntax tree: a node is a piece of syntax with its span and its children in
source order. Whatever walks over programs walks over nodes.
-/

namespace Apex

/-- A piece of syntax of any sort. -/
inductive Element where
  | unit (unit : CompilationUnit)
  | typeDeclaration (declaration : TypeDeclaration)
  | trigger (trigger : Trigger)
  /-- A file without a declaration, or a stray semicolon between members. -/
  | nothing
  | annotated (annotationMark : AnnotationMark)
  | annotationElement (element : AnnotationElement)
  | annotationArray (values : List AnnotationValue)
  | modifier (modifier : Modifier)
  | event (event : TriggerEvent)
  | identifier (text : String)
  | type (type : TypeRef)
  | qualifiedName (name : QualifiedName)
  | field (field : Field)
  | declarator (declarator : Declarator)
  | method (method : Method)
  | constructor (constructor : Constructor)
  | parameter (parameter : Parameter)
  | property (property : Property)
  | accessor (accessor : Accessor)
  | initializer (initializer : Initializer)
  | block (block : Block)
  | locals (locals : LocalVariables)
  | statement (statement : Statement)
  | catchClause (clause : CatchClause)
  | literal (literal : Literal)
  | expr (expr : Expr)
  | mapEntry (key value : Expr)

/-- The kind of a type declaration's node. -/
def TypeDeclaration.kind : TypeDeclaration → NodeKind
  | .classType .. => .classDecl
  | .interfaceType .. => .interfaceDecl
  | .enumType .. => .enumDecl

/-- The kind of an accessor's node. -/
def AccessorKind.kind : AccessorKind → NodeKind
  | .get => .propertyGet
  | .set => .propertySet

/-- The kind of a statement's node. -/
def Statement.kind : Statement → NodeKind
  | .block _ => .block
  | .locals .. => .localVariableDecl
  | .ifThen .. | .ifElse .. => .ifStmt
  | .whileLoop .. => .whileStmt
  | .doWhile .. => .doWhileStmt
  | .forLoop .. => .forStmt
  | .forEach .. => .forEachStmt
  | .tryCatch .. | .tryFinally .. => .tryStmt
  | .returns .. => .returnStmt
  | .throws .. => .throwStmt
  | .breaks _ => .breakStmt
  | .continues _ => .continueStmt
  | .empty _ => .emptyStmt
  | .expression .. => .expressionStmt
  | .runAs .. => .runAsStmt
  | .dml .. => .dmlOperation
  | .upsert .. => .dmlUpsert
  | .merge .. => .dmlMerge

/-- The kind of a literal's node. -/
def Literal.kind : Literal → NodeKind
  | .integer _ => .intLiteral
  | .long _ => .longLiteral
  | .decimal _ => .floatLiteral
  | .string _ => .stringLiteral
  | .boolean _ => .booleanLiteral
  | .null => .nullLiteral
  | .soql _ => .soqlLiteral
  | .sosl _ => .soslLiteral

/-- The kind of the nodes of a level of binary operators. -/
def BinaryLevel.kind : BinaryLevel → NodeKind
  | .logicalOr => .logicalOr
  | .logicalAnd => .logicalAnd
  | .bitwiseOr => .bitwiseOr
  | .bitwiseXor => .bitwiseXor
  | .bitwiseAnd => .bitwiseAnd
  | .equality => .equality
  | .comparison => .comparison
  | .shift => .shift
  | .additive => .additive
  | .multiplicative => .multiplicative

/-- The kind of an expression's node. -/
def Expr.kind : Expr → NodeKind
  | .literal _ value => value.kind
  | .name .. => .name
  | .this _ => .this
  | .super _ => .super
  | .paren .. => .paren
  | .member .. => .memberAccess
  | .call .. | .methodCall .. => .methodCall
  | .index .. => .index
  | .newObject .. => .newObject
  | .newArray .. | .newArrayOf .. => .newArray
  | .newCollection .. => .newCollection
  | .newMap .. => .newMap
  | .cast .. => .cast
  | .unary _ .not _ => .negation
  | .unary .. => .unary
  | .stepBefore .. => .preIncrement
  | .stepAfter .. => .postIncrement
  | .binary _ _ op _ => op.level.kind
  | .instanceOf .. => .instanceOf
  | .ternary .. => .ternary
  | .assignment .. => .assignment

/-- The kind of a piece of syntax. -/
def Element.kind : Element → NodeKind
  | .unit _ => .compilationUnit
  | .typeDeclaration d => d.kind
  | .trigger _ => .triggerDecl
  | .nothing => .emptyDecl
  | .annotated _ => .annotationMark
  | .annotationElement _ => .annotationElement
  | .annotationArray _ => .annotationArray
  | .modifier _ => .modifier
  | .event _ => .triggerEvent
  | .identifier _ => .identifier
  | .type _ => .typeRef
  | .qualifiedName _ => .qualifiedName
  | .field _ => .classVariable
  | .declarator _ => .variableDeclarator
  | .method _ => .classMethod
  | .constructor _ => .classConstructor
  | .parameter _ => .methodParameter
  | .property _ => .classProperty
  | .accessor a => a.kind.kind
  | .initializer _ => .initializerBlock
  | .block _ => .block
  | .locals _ => .localVariableDecl
  | .statement s => s.kind
  | .catchClause _ => .catchClause
  | .literal l => l.kind
  | .expr e => e.kind
  | .mapEntry .. => .mapEntry

/-- A piece of syntax in its place, with what it is made of. -/
inductive Node where
  | mk (element : Element) (span : Span) (children : List Node)

namespace Node

/-- The piece of syntax. -/
def element : Node → Element
  | mk element _ _ => element

/-- Where it stands. -/
def span : Node → Span
  | mk _ span _ => span

/-- The nodes it is made of, in source order. -/
def children : Node → List Node
  | mk _ _ children => children

/-- Its kind. -/
def kind (n : Node) : NodeKind := n.element.kind

/-- A node without children. -/
def leaf (element : Element) (span : Span) : Node := mk element span []

/-- The node reached by choosing one child after another, if there are that many. -/
def descend? (n : Node) : (path : List Nat) → Option Node
  | [] => some n
  | i :: path =>
    match n.children[i]? with
    | some child => child.descend? path
    | none => none

/-- What passes from a node to its children is true of whatever is reached from it. -/
theorem descend_induction {motive : Node → Prop} {n m : Node} {path : List Nat}
    (passes : ∀ n : Node, motive n → ∀ child ∈ n.children, motive child) (h : motive n)
    (reached : n.descend? path = some m) : motive m := by
  induction path generalizing n with
  | nil =>
    cases reached
    exact h
  | cons i path ih =>
    rw [descend?] at reached
    split at reached
    · next child found => exact ih (passes n h child (List.mem_of_getElem? found)) reached
    · cases reached

end Node

end Apex
