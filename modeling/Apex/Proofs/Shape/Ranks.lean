import Apex.Node.View
import Apex.Proofs.Walks.Recursion

/-!
# What stands in what

Pieces of syntax come in ranks: names, types, annotations and expressions; then statements and what
belongs to them; then members and types; and above these what stands only at the top of a file. A
piece of syntax holds nothing of a higher rank.
-/

namespace Apex

/-- The rank of a kind of nodes. -/
def NodeKind.rank : NodeKind → Nat
  | .compilationUnit | .triggerDecl => 3
  | .classDecl | .interfaceDecl | .enumDecl | .emptyDecl | .classVariable | .classMethod
  | .classConstructor | .methodParameter | .classProperty | .propertyGet | .propertySet
  | .initializerBlock => 2
  | .variableDeclarator | .block | .localVariableDecl | .ifStmt | .whileStmt | .doWhileStmt
  | .forStmt | .forEachStmt | .tryStmt | .catchClause | .returnStmt | .throwStmt | .breakStmt
  | .continueStmt | .emptyStmt | .expressionStmt | .runAsStmt | .dmlOperation | .dmlUpsert
  | .dmlMerge => 1
  | _ => 0

/-- Nothing in the tree, the node included, is of a higher rank. -/
def Node.IsWithin (rank : Nat) (n : Node) : Prop := ∀ m ∈ n.preorder, m.kind.rank ≤ rank

namespace Node

variable {rank : Nat}

theorem isWithin_mk {element : Element} {span : Span} {children : List Node} :
    (mk element span children).IsWithin rank ↔
      element.kind.rank ≤ rank ∧ ∀ n ∈ children, n.IsWithin rank := by
  unfold IsWithin
  rw [preorder_eq, List.forall_mem_cons, List.forall_mem_flatMap]
  exact Iff.rfl

theorem isWithin_leaf {element : Element} {span : Span} :
    (leaf element span).IsWithin rank ↔ element.kind.rank ≤ rank := by
  rw [leaf, isWithin_mk]
  exact and_iff_left nofun

/-- Whatever is reached from a node is of no higher rank. -/
theorem IsWithin.descend {n m : Node} {path : List Nat} (h : n.IsWithin rank)
    (reached : n.descend? path = some m) : m.kind.rank ≤ rank := by
  have within : m.IsWithin rank :=
    descend_induction (fun ⟨_, _, _⟩ within => (isWithin_mk.mp within).2) h reached
  obtain ⟨element, span, children⟩ := m
  exact (isWithin_mk.mp within).1

/-- An optional part is of no higher rank if it is not when it is there. -/
theorem isWithin_option {α : Type} {f : α → Node} {x : Option α}
    (h : ∀ a, (f a).IsWithin rank) : ∀ n ∈ (x.map f).toList, n.IsWithin rank := by
  cases x with
  | none => nofun
  | some a => exact List.forall_mem_singleton.mpr (h a)

end Node

open Node

variable {rank : Nat}

/-! ## Names, types and annotations -/

@[simp] theorem isWithin_identifier (i : Ident) : i.identifierNode.IsWithin rank :=
  isWithin_leaf.mpr (Nat.zero_le rank)

@[simp] theorem isWithin_modifier (m : Spanned Modifier) : m.modifierNode.IsWithin rank :=
  isWithin_leaf.mpr (Nat.zero_le rank)

mutual

@[simp] theorem TypeRef.isWithin : (t : TypeRef) → t.node.IsWithin rank
  | ⟨span, segments, arguments, dimensions⟩ => by
    refine isWithin_mk.mpr ⟨Nat.zero_le rank, List.forall_mem_append.mpr ⟨?_, ?_⟩⟩
    · exact List.forall_mem_map.mpr fun i _ => isWithin_identifier i
    · exact TypeRef.nodes_isWithin arguments

theorem TypeRef.nodes_isWithin : (ts : List TypeRef) → ∀ n ∈ TypeRef.nodes ts, n.IsWithin rank
  | [] => nofun
  | t :: ts => List.forall_mem_cons.mpr ⟨t.isWithin, TypeRef.nodes_isWithin ts⟩

end

theorem QualifiedName.isWithin (q : QualifiedName) : q.node.IsWithin rank :=
  isWithin_mk.mpr ⟨Nat.zero_le rank, List.forall_mem_map.mpr fun i _ => isWithin_identifier i⟩

theorem Literal.rank_kind (v : Literal) : v.kind.rank = 0 := by cases v <;> rfl

theorem Literal.isWithin (v : Literal) (span : Span) : (leaf (.literal v) span).IsWithin rank :=
  isWithin_leaf.mpr (v.rank_kind ▸ Nat.zero_le rank)

mutual

theorem AnnotationMark.isWithin : (a : AnnotationMark) → a.node.IsWithin rank
  | .mk span name elements parenthesized => by
    refine isWithin_mk.mpr ⟨Nat.zero_le rank, ?_⟩
    exact List.forall_mem_cons.mpr
      ⟨isWithin_identifier name, AnnotationElement.nodes_isWithin elements⟩

theorem AnnotationElement.isWithin : (e : AnnotationElement) → e.node.IsWithin rank
  | .mk _ key value _ => by
    refine isWithin_mk.mpr ⟨Nat.zero_le rank, List.forall_mem_append.mpr ⟨?_, ?_⟩⟩
    · exact isWithin_option isWithin_identifier
    · exact List.forall_mem_singleton.mpr value.isWithin

theorem AnnotationElement.nodes_isWithin : (es : List AnnotationElement) →
    ∀ n ∈ AnnotationElement.nodes es, n.IsWithin rank
  | [] => nofun
  | e :: es => List.forall_mem_cons.mpr ⟨e.isWithin, AnnotationElement.nodes_isWithin es⟩

theorem AnnotationValue.isWithin : (v : AnnotationValue) → v.node.IsWithin rank
  | .literal span value => value.isWithin span
  | .array _ values =>
    isWithin_mk.mpr ⟨Nat.zero_le rank, AnnotationValue.nodes_isWithin values⟩
  | .nested inner => inner.isWithin

theorem AnnotationValue.nodes_isWithin : (vs : List AnnotationValue) →
    ∀ n ∈ AnnotationValue.nodes vs, n.IsWithin rank
  | [] => nofun
  | v :: vs => List.forall_mem_cons.mpr ⟨v.isWithin, AnnotationValue.nodes_isWithin vs⟩

end

theorem Header.nodes_isWithin (h : Header) : ∀ n ∈ h.nodes, n.IsWithin rank := by
  refine List.forall_mem_map.mpr fun item _ => ?_
  cases item with
  | annotated a => exact a.isWithin
  | modifier m => exact isWithin_modifier m

/-! ## Expressions -/

theorem Expr.rank_kind (e : Expr) : e.kind.rank = 0 := by
  cases e with
  | literal _ value => exact value.rank_kind
  | unary _ op _ => cases op <;> rfl
  | binary _ _ op _ => cases op <;> rfl
  | _ => rfl

theorem isWithin_expr {e : Expr} {span : Span} {children : List Node} :
    (mk (.expr e) span children).IsWithin rank ↔ ∀ n ∈ children, n.IsWithin rank := by
  rw [isWithin_mk]
  exact and_iff_right (e.rank_kind ▸ Nat.zero_le rank)

mutual

@[simp] theorem Expr.isWithin : (e : Expr) → e.node.IsWithin rank
  | .literal span value => value.isWithin span
  | .name .. | .this .. | .super .. => isWithin_leaf.mpr (Nat.zero_le rank)
  | .paren _ e | .unary _ _ e | .stepBefore _ _ e | .stepAfter _ _ e => by
    simp [Expr.node, isWithin_expr, e.isWithin]
  | .member _ e part => by simp [Expr.node, isWithin_expr, e.isWithin]
  | .call _ callee args => by simpa [Expr.node, isWithin_expr] using Expr.nodes_isWithin args
  | .methodCall _ e callee args => by
    simpa [Expr.node, isWithin_expr, e.isWithin] using Expr.nodes_isWithin args
  | .index _ e e' | .binary _ e _ e' | .assignment _ e _ e' => by
    simp [Expr.node, isWithin_expr, e.isWithin, e'.isWithin]
  | .newObject _ type es | .newArrayOf _ type es | .newCollection _ type es => by
    simpa [Expr.node, isWithin_expr] using Expr.nodes_isWithin es
  | .newArray _ type e | .cast _ type e | .instanceOf _ e type => by
    simp [Expr.node, isWithin_expr, e.isWithin]
  | .newMap _ type entries => by
    simpa [Expr.node, isWithin_expr] using Expr.entryNodes_isWithin entries
  | .ternary _ e e' e'' => by
    simp [Expr.node, isWithin_expr, e.isWithin, e'.isWithin, e''.isWithin]

theorem Expr.nodes_isWithin : (es : List Expr) → ∀ n ∈ Expr.nodes es, n.IsWithin rank
  | [] => nofun
  | e :: es => List.forall_mem_cons.mpr ⟨e.isWithin, Expr.nodes_isWithin es⟩

theorem Expr.entryNodes_isWithin : (entries : List (Expr × Expr)) →
    ∀ n ∈ Expr.entryNodes entries, n.IsWithin rank
  | [] => nofun
  | (key, value) :: entries => by
    refine List.forall_mem_cons.mpr ⟨?_, Expr.entryNodes_isWithin entries⟩
    simp [isWithin_mk, Element.kind, NodeKind.rank, key.isWithin, value.isWithin]

end

/-! ## Statements -/

theorem Declarator.isWithin (h : 1 ≤ rank) (d : Declarator) : d.node.IsWithin rank := by
  refine isWithin_mk.mpr ⟨h, List.forall_mem_cons.mpr ⟨isWithin_identifier d.name, ?_⟩⟩
  exact isWithin_option Expr.isWithin

theorem LocalVariables.nodes_isWithin (h : 1 ≤ rank) (v : LocalVariables) :
    ∀ n ∈ v.nodes, n.IsWithin rank := by
  refine List.forall_mem_append.mpr ⟨?_, List.forall_mem_cons.mpr ⟨v.type.isWithin, ?_⟩⟩
  · exact List.forall_mem_map.mpr fun m _ => isWithin_modifier m
  · exact List.forall_mem_map.mpr fun d _ => d.isWithin h

theorem ForInit.nodes_isWithin (h : 1 ≤ rank) : (i : ForInit) → ∀ n ∈ i.nodes, n.IsWithin rank
  | .nothing => nofun
  | .declaration _ locals =>
    List.forall_mem_singleton.mpr (isWithin_mk.mpr ⟨h, locals.nodes_isWithin h⟩)
  | .expressions values => Expr.nodes_isWithin values

theorem Statement.rank_kind (s : Statement) : s.kind.rank = 1 := by cases s <;> rfl

theorem isWithin_statement (h : 1 ≤ rank) {s : Statement} {span : Span} {children : List Node} :
    (mk (.statement s) span children).IsWithin rank ↔ ∀ n ∈ children, n.IsWithin rank := by
  rw [isWithin_mk]
  exact and_iff_right (s.rank_kind ▸ h)

mutual

theorem Block.isWithin (h : 1 ≤ rank) : (b : Block) → b.node.IsWithin rank
  | .mk _ statements => isWithin_mk.mpr ⟨h, Statement.nodes_isWithin h statements⟩

theorem Statement.isWithin (h : 1 ≤ rank) : (s : Statement) → s.node.IsWithin rank
  | .block body => body.isWithin h
  | .locals _ locals => isWithin_mk.mpr ⟨h, locals.nodes_isWithin h⟩
  | .ifThen _ e s | .whileLoop _ e s => by
    simp [Statement.node, isWithin_statement h, s.isWithin h]
  | .ifElse _ e s s' => by
    simp [Statement.node, isWithin_statement h, s.isWithin h, s'.isWithin h]
  | .doWhile _ b e | .runAs _ e b => by
    simp [Statement.node, isWithin_statement h, b.isWithin h]
  | .forLoop _ init condition update s => by
    rw [Statement.node, isWithin_statement h]
    refine List.forall_mem_append.mpr ⟨?_, List.forall_mem_singleton.mpr (s.isWithin h)⟩
    refine List.forall_mem_append.mpr ⟨?_, Expr.nodes_isWithin update⟩
    exact List.forall_mem_append.mpr ⟨init.nodes_isWithin h, isWithin_option Expr.isWithin⟩
  | .forEach _ modifiers type name items s => by
    rw [Statement.node, isWithin_statement h]
    refine List.forall_mem_append.mpr ⟨List.forall_mem_map.mpr fun m _ => isWithin_modifier m, ?_⟩
    simp [s.isWithin h]
  | .tryCatch _ b catches => by
    rw [Statement.node, isWithin_statement h]
    exact List.forall_mem_cons.mpr ⟨b.isWithin h, CatchClause.nodes_isWithin h catches⟩
  | .tryFinally _ b catches last => by
    rw [Statement.node, isWithin_statement h]
    refine List.forall_mem_append.mpr ⟨?_, List.forall_mem_singleton.mpr (last.isWithin h)⟩
    exact List.forall_mem_cons.mpr ⟨b.isWithin h, CatchClause.nodes_isWithin h catches⟩
  | .returns _ value => by
    rw [Statement.node, isWithin_statement h]
    exact isWithin_option Expr.isWithin
  | .breaks _ | .continues _ | .empty _ => isWithin_leaf.mpr h
  | .throws _ e | .expression _ e | .dml _ _ e => by simp [Statement.node, isWithin_statement h]
  | .upsert _ e key => by
    rw [Statement.node, isWithin_statement h]
    exact List.forall_mem_cons.mpr ⟨e.isWithin, isWithin_option QualifiedName.isWithin⟩
  | .merge _ e e' => by simp [Statement.node, isWithin_statement h]

theorem Statement.nodes_isWithin (h : 1 ≤ rank) : (ss : List Statement) →
    ∀ n ∈ Statement.nodes ss, n.IsWithin rank
  | [] => nofun
  | s :: ss => List.forall_mem_cons.mpr ⟨s.isWithin h, Statement.nodes_isWithin h ss⟩

theorem CatchClause.isWithin (h : 1 ≤ rank) : (c : CatchClause) → c.node.IsWithin rank
  | .mk _ modifiers type name body => by
    refine isWithin_mk.mpr ⟨h, List.forall_mem_append.mpr ⟨?_, ?_⟩⟩
    · exact List.forall_mem_map.mpr fun m _ => isWithin_modifier m
    · simp [body.isWithin h]

theorem CatchClause.nodes_isWithin (h : 1 ≤ rank) : (cs : List CatchClause) →
    ∀ n ∈ CatchClause.nodes cs, n.IsWithin rank
  | [] => nofun
  | c :: cs => List.forall_mem_cons.mpr ⟨c.isWithin h, CatchClause.nodes_isWithin h cs⟩

end

/-! ## Declarations -/

theorem Parameter.isWithin (h : 2 ≤ rank) (p : Parameter) : p.node.IsWithin rank := by
  refine isWithin_mk.mpr ⟨h, List.forall_mem_append.mpr ⟨?_, by simp⟩⟩
  exact List.forall_mem_map.mpr fun m _ => isWithin_modifier m

theorem Field.isWithin (h : 2 ≤ rank) (f : Field) (span : Span) : (f.node span).IsWithin rank := by
  refine isWithin_mk.mpr ⟨h, List.forall_mem_append.mpr ⟨f.header.nodes_isWithin, ?_⟩⟩
  refine List.forall_mem_cons.mpr ⟨f.type.isWithin, List.forall_mem_map.mpr fun d _ => ?_⟩
  exact d.isWithin (Nat.le_of_succ_le h)

theorem Method.isWithin (h : 2 ≤ rank) (m : Method) (span : Span) :
    (m.node span).IsWithin rank := by
  refine isWithin_mk.mpr ⟨h, List.forall_mem_append.mpr ⟨List.forall_mem_append.mpr ⟨?_, ?_⟩, ?_⟩⟩
  · exact List.forall_mem_append.mpr ⟨m.header.nodes_isWithin, isWithin_option TypeRef.isWithin⟩
  · exact List.forall_mem_cons.mpr
      ⟨isWithin_identifier m.name, List.forall_mem_map.mpr fun p _ => p.isWithin h⟩
  · exact isWithin_option fun b => b.isWithin (Nat.le_of_succ_le h)

theorem Constructor.isWithin (h : 2 ≤ rank) (c : Constructor) (span : Span) :
    (c.node span).IsWithin rank := by
  refine isWithin_mk.mpr ⟨h, List.forall_mem_append.mpr ⟨List.forall_mem_append.mpr ⟨?_, ?_⟩, ?_⟩⟩
  · exact c.header.nodes_isWithin
  · exact List.forall_mem_cons.mpr
      ⟨isWithin_identifier c.name, List.forall_mem_map.mpr fun p _ => p.isWithin h⟩
  · exact List.forall_mem_singleton.mpr (c.body.isWithin (Nat.le_of_succ_le h))

theorem Accessor.isWithin (h : 2 ≤ rank) (a : Accessor) : a.node.IsWithin rank := by
  have kind : a.kind.kind.rank = 2 := by cases a.kind <;> rfl
  refine isWithin_mk.mpr ⟨kind ▸ h, List.forall_mem_append.mpr ⟨?_, ?_⟩⟩
  · exact List.forall_mem_map.mpr fun m _ => isWithin_modifier m
  · exact isWithin_option fun b => b.isWithin (Nat.le_of_succ_le h)

theorem Property.isWithin (h : 2 ≤ rank) (p : Property) (span : Span) :
    (p.node span).IsWithin rank := by
  refine isWithin_mk.mpr ⟨h, List.forall_mem_append.mpr ⟨p.header.nodes_isWithin, ?_⟩⟩
  refine List.forall_mem_cons.mpr ⟨p.type.isWithin, List.forall_mem_cons.mpr ⟨?_, ?_⟩⟩
  · exact isWithin_identifier p.name
  · exact List.forall_mem_map.mpr fun a _ => a.isWithin h

mutual

theorem TypeDeclaration.isWithin (h : 2 ≤ rank) : (d : TypeDeclaration) → d.node.IsWithin rank
  | .classType _ head members => by
    refine isWithin_mk.mpr ⟨h, List.forall_mem_append.mpr ⟨?_, Member.nodes_isWithin h members⟩⟩
    refine List.forall_mem_append.mpr ⟨?_, List.forall_mem_map.mpr fun t _ => t.isWithin⟩
    refine List.forall_mem_append.mpr ⟨head.header.nodes_isWithin, ?_⟩
    exact List.forall_mem_cons.mpr ⟨isWithin_identifier head.name, isWithin_option TypeRef.isWithin⟩
  | .interfaceType _ head methods => by
    refine isWithin_mk.mpr ⟨h, List.forall_mem_append.mpr ⟨?_, ?_⟩⟩
    · refine List.forall_mem_append.mpr ⟨head.header.nodes_isWithin, ?_⟩
      exact List.forall_mem_cons.mpr
        ⟨isWithin_identifier head.name, List.forall_mem_map.mpr fun t _ => t.isWithin⟩
    · exact List.forall_mem_map.mpr fun m _ => m.value.isWithin h m.span
  | .enumType _ e => by
    refine isWithin_mk.mpr ⟨h, List.forall_mem_append.mpr ⟨e.header.nodes_isWithin, ?_⟩⟩
    exact List.forall_mem_cons.mpr
      ⟨isWithin_identifier e.name, List.forall_mem_map.mpr fun i _ => isWithin_identifier i⟩

theorem Member.isWithin (h : 2 ≤ rank) : (m : Member) → m.node.IsWithin rank
  | .field span field => field.isWithin h span
  | .method span method => method.isWithin h span
  | .constructor span constructor => constructor.isWithin h span
  | .property span property => property.isWithin h span
  | .initializer _ initializer => isWithin_mk.mpr
    ⟨h, List.forall_mem_singleton.mpr (initializer.body.isWithin (Nat.le_of_succ_le h))⟩
  | .type declaration => declaration.isWithin h
  | .stray _ => isWithin_leaf.mpr h

theorem Member.nodes_isWithin (h : 2 ≤ rank) : (ms : List Member) →
    ∀ n ∈ Member.nodes ms, n.IsWithin rank
  | [] => nofun
  | m :: ms => List.forall_mem_cons.mpr ⟨m.isWithin h, Member.nodes_isWithin h ms⟩

end

end Apex
