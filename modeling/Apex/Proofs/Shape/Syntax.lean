import Apex.Proofs.Shape.Ranks

/-!
# Nodes and syntax

Every node of a program is the node of some piece of syntax, so what is known of pieces of syntax
is known of every node.
-/

namespace Apex

/-- The node is that of a piece of syntax. -/
inductive Node.IsSyntax : Node → Prop where
  | unit (u : CompilationUnit) : IsSyntax u.node
  | typeDeclaration (d : TypeDeclaration) : IsSyntax d.node
  | trigger (t : Trigger) (span : Span) : IsSyntax (t.node span)
  | nothing (span : Span) : IsSyntax (.leaf .nothing span)
  | annotated (a : AnnotationMark) : IsSyntax a.node
  | annotationElement (e : AnnotationElement) : IsSyntax e.node
  | annotationValue (v : AnnotationValue) : IsSyntax v.node
  | modifier (m : Spanned Modifier) : IsSyntax m.modifierNode
  | event (e : Spanned TriggerEvent) : IsSyntax e.eventNode
  | identifier (i : Ident) : IsSyntax i.identifierNode
  | type (t : TypeRef) : IsSyntax t.node
  | qualifiedName (q : QualifiedName) : IsSyntax q.node
  | field (f : Field) (span : Span) : IsSyntax (f.node span)
  | declarator (d : Declarator) : IsSyntax d.node
  | method (m : Method) (span : Span) : IsSyntax (m.node span)
  | constructor (c : Constructor) (span : Span) : IsSyntax (c.node span)
  | parameter (p : Parameter) : IsSyntax p.node
  | property (p : Property) (span : Span) : IsSyntax (p.node span)
  | accessor (a : Accessor) : IsSyntax a.node
  | initializer (i : Initializer) (span : Span) : IsSyntax (i.node span)
  | block (b : Block) : IsSyntax b.node
  | locals (v : LocalVariables) (span : Span) : IsSyntax (.mk (.locals v) span v.nodes)
  | statement (s : Statement) : IsSyntax s.node
  | catchClause (c : CatchClause) : IsSyntax c.node
  | expr (e : Expr) : IsSyntax e.node
  | mapEntry (key value : Expr) (span : Span) :
    IsSyntax (.mk (.mapEntry key value) span [key.node, value.node])

namespace Node

open IsSyntax

/-! ## Rows of nodes -/

/-- Each node of a row is that of a piece of syntax. -/
def AllSyntax (ns : List Node) : Prop := ∀ n ∈ ns, n.IsSyntax

@[simp] theorem allSyntax_nil : AllSyntax [] := fun _ hn => nomatch hn

@[simp] theorem allSyntax_cons {n : Node} {ns : List Node} :
    AllSyntax (n :: ns) ↔ n.IsSyntax ∧ AllSyntax ns := List.forall_mem_cons

@[simp] theorem allSyntax_append {ns ms : List Node} :
    AllSyntax (ns ++ ms) ↔ AllSyntax ns ∧ AllSyntax ms := List.forall_mem_append

theorem allSyntax_map {α : Type} {f : α → Node} (h : ∀ x, (f x).IsSyntax) (xs : List α) :
    AllSyntax (xs.map f) := List.forall_mem_map.mpr fun x _ => h x

theorem allSyntax_option {α : Type} {f : α → Node} (h : ∀ x, (f x).IsSyntax) (x : Option α) :
    AllSyntax (x.map f).toList := by
  cases x with
  | none => exact allSyntax_nil
  | some x => exact List.forall_mem_singleton.mpr (h x)

theorem allSyntax_types (ts : List TypeRef) : AllSyntax (TypeRef.nodes ts) := by
  induction ts with
  | nil => exact allSyntax_nil
  | cons t ts ih => exact allSyntax_cons.mpr ⟨.type t, ih⟩

theorem allSyntax_elements (es : List AnnotationElement) :
    AllSyntax (AnnotationElement.nodes es) := by
  induction es with
  | nil => exact allSyntax_nil
  | cons e es ih => exact allSyntax_cons.mpr ⟨.annotationElement e, ih⟩

theorem allSyntax_values (vs : List AnnotationValue) : AllSyntax (AnnotationValue.nodes vs) := by
  induction vs with
  | nil => exact allSyntax_nil
  | cons v vs ih => exact allSyntax_cons.mpr ⟨.annotationValue v, ih⟩

theorem allSyntax_exprs (es : List Expr) : AllSyntax (Expr.nodes es) := by
  induction es with
  | nil => exact allSyntax_nil
  | cons e es ih => exact allSyntax_cons.mpr ⟨.expr e, ih⟩

theorem allSyntax_entries (es : List (Expr × Expr)) : AllSyntax (Expr.entryNodes es) := by
  induction es with
  | nil => exact allSyntax_nil
  | cons e es ih => exact allSyntax_cons.mpr ⟨.mapEntry e.1 e.2 _, ih⟩

theorem allSyntax_statements (ss : List Statement) : AllSyntax (Statement.nodes ss) := by
  induction ss with
  | nil => exact allSyntax_nil
  | cons s ss ih => exact allSyntax_cons.mpr ⟨.statement s, ih⟩

theorem allSyntax_catches (cs : List CatchClause) : AllSyntax (CatchClause.nodes cs) := by
  induction cs with
  | nil => exact allSyntax_nil
  | cons c cs ih => exact allSyntax_cons.mpr ⟨.catchClause c, ih⟩

theorem allSyntax_header (h : Header) : AllSyntax h.nodes := by
  refine allSyntax_map (fun item => ?_) h.items
  cases item with
  | annotated a => exact .annotated a
  | modifier m => exact .modifier m

theorem allSyntax_locals (v : LocalVariables) : AllSyntax v.nodes := by
  simp only [LocalVariables.nodes, allSyntax_append, allSyntax_cons]
  exact ⟨allSyntax_map .modifier _, .type _, allSyntax_map .declarator _⟩

theorem allSyntax_forInit (i : ForInit) : AllSyntax i.nodes := by
  cases i with
  | nothing => exact allSyntax_nil
  | declaration span v => exact List.forall_mem_singleton.mpr (.locals v span)
  | expressions es => exact allSyntax_exprs es

/-! ## Children -/

theorem allSyntax_expr (e : Expr) : AllSyntax e.node.children := by
  cases e <;>
    simp [Expr.node, leaf, children, expr, identifier, type, allSyntax_exprs, allSyntax_entries]

theorem allSyntax_block (b : Block) : AllSyntax b.node.children := by
  obtain ⟨span, statements⟩ := b
  exact allSyntax_statements statements

theorem allSyntax_statement (s : Statement) : AllSyntax s.node.children := by
  cases s with
  | block body => exact allSyntax_block body
  | locals _ v => exact allSyntax_locals v
  | forLoop _ init condition update body =>
    simp [Statement.node, children, statement, allSyntax_forInit, allSyntax_exprs,
      allSyntax_option expr]
  | forEach _ modifiers =>
    simp [Statement.node, children, statement, expr, identifier, type, allSyntax_map modifier]
  | tryCatch => simp [Statement.node, children, block, allSyntax_catches]
  | tryFinally => simp [Statement.node, children, block, allSyntax_catches]
  | returns _ value => exact allSyntax_option expr value
  | upsert _ target key =>
    simp [Statement.node, children, expr, allSyntax_option qualifiedName]
  | _ => simp [Statement.node, leaf, children, statement, expr, block]

theorem allSyntax_member (m : Member) : m.node.IsSyntax := by
  cases m with
  | field span f => exact .field f span
  | method span m => exact .method m span
  | constructor span c => exact .constructor c span
  | property span p => exact .property p span
  | initializer span i => exact .initializer i span
  | type d => exact .typeDeclaration d
  | stray span => exact .nothing span

theorem allSyntax_members (ms : List Member) : AllSyntax (Member.nodes ms) := by
  induction ms with
  | nil => exact allSyntax_nil
  | cons m ms ih => exact allSyntax_cons.mpr ⟨allSyntax_member m, ih⟩

theorem allSyntax_typeDeclaration (d : TypeDeclaration) : AllSyntax d.node.children := by
  cases d with
  | classType _ head members =>
    simp [TypeDeclaration.node, children, ClassHead.nodes, identifier, allSyntax_header,
      allSyntax_members, allSyntax_map type, allSyntax_option type]
  | interfaceType _ head methods =>
    simp [TypeDeclaration.node, children, InterfaceHead.nodes, identifier, allSyntax_header,
      allSyntax_map type, allSyntax_map fun m : Spanned Method => method m.value m.span]
  | enumType _ e =>
    simp [TypeDeclaration.node, children, EnumDeclaration.nodes, identifier, allSyntax_header,
      allSyntax_map identifier]

theorem allSyntax_annotationMark (a : AnnotationMark) : AllSyntax a.node.children := by
  obtain ⟨span, name, elements, parenthesized⟩ := a
  exact allSyntax_cons.mpr ⟨.identifier name, allSyntax_elements elements⟩

/-- Whatever a piece of syntax is made of is a piece of syntax. -/
theorem IsSyntax.children {n : Node} (h : n.IsSyntax) : AllSyntax n.children := by
  cases h with
  | unit u =>
    refine List.forall_mem_singleton.mpr ?_
    cases u.declaration with
    | type d => exact .typeDeclaration d
    | trigger span t => exact .trigger t span
    | nothing span => exact .nothing span
  | typeDeclaration d => exact allSyntax_typeDeclaration d
  | trigger t =>
    simp [Trigger.node, Node.children, identifier, block, allSyntax_map event]
  | annotated a => exact allSyntax_annotationMark a
  | annotationElement e =>
    obtain ⟨span, key, value, comma⟩ := e
    simp [AnnotationElement.node, Node.children, annotationValue, allSyntax_option identifier]
  | annotationValue v =>
    cases v with
    | literal span value => exact allSyntax_nil
    | array span values => exact allSyntax_values values
    | nested inner => exact allSyntax_annotationMark inner
  | nothing | modifier | event | identifier => exact allSyntax_nil
  | type t =>
    obtain ⟨span, segments, arguments, dimensions⟩ := t
    simp [TypeRef.node, Node.children, allSyntax_types, allSyntax_map identifier]
  | qualifiedName q => exact allSyntax_map .identifier q.parts
  | field f =>
    simp [Field.node, Node.children, type, allSyntax_header, allSyntax_map declarator]
  | declarator d => simp [Declarator.node, Node.children, identifier, allSyntax_option expr]
  | method m =>
    simp [Method.node, Node.children, identifier, allSyntax_header, allSyntax_option type,
      allSyntax_map parameter, allSyntax_option block]
  | constructor c =>
    simp [Constructor.node, Node.children, identifier, block, allSyntax_header,
      allSyntax_map parameter]
  | parameter p =>
    simp [Parameter.node, Node.children, identifier, type, allSyntax_map modifier]
  | property p =>
    simp [Property.node, Node.children, identifier, type, allSyntax_header,
      allSyntax_map accessor]
  | accessor a =>
    simp [Accessor.node, Node.children, allSyntax_map modifier, allSyntax_option block]
  | initializer i => exact List.forall_mem_singleton.mpr (.block i.body)
  | block b => exact allSyntax_block b
  | locals v => exact allSyntax_locals v
  | statement s => exact allSyntax_statement s
  | catchClause c =>
    obtain ⟨span, modifiers, type, name, body⟩ := c
    simp [CatchClause.node, Node.children, identifier, IsSyntax.type, block,
      allSyntax_map modifier]
  | expr e => exact allSyntax_expr e
  | mapEntry key value => simp [Node.children, expr]

/-- Every node below a piece of syntax is that of a piece of syntax. -/
theorem IsSyntax.preorder {n m : Node} (h : n.IsSyntax) (hm : m ∈ n.preorder) : m.IsSyntax := by
  induction n using Node.induction with
  | step n ih =>
    rw [preorder_eq] at hm
    rcases List.mem_cons.mp hm with rfl | below
    · exact h
    · obtain ⟨child, hc, hm⟩ := List.mem_flatMap.mp below
      exact ih child hc (h.children child hc) hm

end Node

/-! ## Nodes and their elements -/

/-- The node of a piece of syntax at the given place. -/
def Element.node (span : Span) : Element → Node
  | .unit u => u.node
  | .typeDeclaration d => d.node
  | .trigger t => t.node span
  | .annotated a => a.node
  | .annotationElement e => e.node
  | .annotationArray values => .mk (.annotationArray values) span (AnnotationValue.nodes values)
  | .type t => t.node
  | .qualifiedName q => q.node
  | .field f => f.node span
  | .declarator d => d.node
  | .method m => m.node span
  | .constructor c => c.node span
  | .parameter p => p.node
  | .property p => p.node span
  | .accessor a => a.node
  | .initializer i => i.node span
  | .block b => b.node
  | .locals v => .mk (.locals v) span v.nodes
  | .statement s => s.node
  | .catchClause c => c.node
  | .expr e => e.node
  | .mapEntry key value => .mk (.mapEntry key value) span [key.node, value.node]
  | element => .leaf element span

/-- What is below the node of a piece of syntax is said by the piece itself. -/
theorem Node.IsSyntax.eq_node {n : Node} (h : n.IsSyntax) : n = n.element.node n.span := by
  cases h with
  | typeDeclaration d => cases d <;> rfl
  | annotated a =>
    obtain ⟨span, name, elements, parenthesized⟩ := a
    rfl
  | annotationElement e =>
    obtain ⟨span, key, value, comma⟩ := e
    rfl
  | annotationValue v =>
    cases v with
    | nested a =>
      obtain ⟨span, name, elements, parenthesized⟩ := a
      rfl
    | _ => rfl
  | type t =>
    obtain ⟨span, segments, arguments, dimensions⟩ := t
    rfl
  | block b =>
    obtain ⟨span, statements⟩ := b
    rfl
  | statement s =>
    cases s with
    | block b =>
      obtain ⟨span, statements⟩ := b
      rfl
    | _ => rfl
  | catchClause c =>
    obtain ⟨span, modifiers, type, name, body⟩ := c
    rfl
  | expr e => cases e <;> rfl
  | _ => rfl

end Apex
