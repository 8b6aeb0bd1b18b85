import Apex.Proofs.Spans.Declarations

/-!
# Families of spans

The spans of a tree and of an error are those of tokens, or reach from one of them to another. So a
family of spans that has the spans of all tokens of a row, and the joint span of any two of its
spans, has every span that can be made of the row.
-/

namespace Apex

/-- Some spans, with the joint span of any two of them. -/
structure Span.Family where
  /-- Whether a span belongs to the family. -/
  has : Span → Prop
  /-- Joint spans belong to it. -/
  has_merge {s s' : Span} (h : has s) (h' : has s') : has (s.merge s')

instance : Membership Span Span.Family := ⟨fun S s => S.has s⟩

theorem Span.Family.merge_mem {S : Span.Family} {s s' : Span} (h : s ∈ S) (h' : s' ∈ S) :
    s.merge s' ∈ S :=
  S.has_merge h h'

/-! ## What carries spans -/

/-- The variables bound in a query literal. -/
def Literal.binds : Literal → List (Spanned String)
  | .soql query | .sosl query => query.binds
  | _ => []

/-- The variables bound in a token. -/
def TokenKind.binds : TokenKind → List (Spanned String)
  | .soql query | .sosl query => query.binds
  | _ => []

/-- The spans that a token carries: its own and those of the variables bound in it. -/
def Token.spans (t : Token) : List Span := t.span :: t.kind.binds.map (·.span)

/-- The variables bound in a piece of syntax itself, not in its parts. -/
@[simp] def Element.binds : Element → List (Spanned String)
  | .literal value => value.binds
  | _ => []

/-- The spans that a node carries: its own and those of the variables bound in it. -/
def Node.spans (n : Node) : List Span := n.span :: n.element.binds.map (·.span)

variable {S : Span.Family}

/-- All spans of the token belong to the family. -/
def Token.LiesIn (S : Span.Family) (t : Token) : Prop := ∀ s ∈ t.spans, s ∈ S

/-- All spans of the variables belong to the family. -/
def LieIn (S : Span.Family) (binds : List (Spanned String)) : Prop := ∀ b ∈ binds, b.span ∈ S

@[simp] theorem lieIn_nil : LieIn S [] := fun _ mem => nomatch mem

theorem Token.liesIn_iff {t : Token} : t.LiesIn S ↔ t.span ∈ S ∧ LieIn S t.kind.binds := by
  unfold Token.LiesIn Token.spans LieIn
  rw [List.forall_mem_cons, List.forall_mem_map]

theorem Token.LiesIn.span {t : Token} (h : t.LiesIn S) : t.span ∈ S := (liesIn_iff.mp h).1

/-! ## Nodes -/

/-- All spans of the node and of everything below it belong to the family. -/
inductive Node.LiesIn (S : Span.Family) : Node → Prop
  | mk {element : Element} {span : Span} {children : List Node} (own : span ∈ S)
    (binds : LieIn S element.binds) (below : ∀ n ∈ children, Node.LiesIn S n) :
    Node.LiesIn S (.mk element span children)

namespace Node

variable {n m : Node}

theorem LiesIn.span (h : n.LiesIn S) : n.span ∈ S := by
  cases h
  assumption

/-- Everything that is reached from a node lies in the family with it. -/
theorem LiesIn.descend {path : List Nat} (h : n.LiesIn S) (reached : n.descend? path = some m) :
    m.LiesIn S := by
  refine descend_induction (fun n lies => ?_) h reached
  obtain ⟨-, -, below⟩ := lies
  exact below

theorem LiesIn.spans (h : n.LiesIn S) : ∀ s ∈ n.spans, s ∈ S := by
  obtain ⟨own, binds, -⟩ := h
  unfold Node.spans
  rw [List.forall_mem_cons, List.forall_mem_map]
  exact ⟨own, binds⟩

@[simp] theorem liesIn_mk {element : Element} {span : Span} {children : List Node} :
    (Node.mk element span children).LiesIn S ↔
      span ∈ S ∧ LieIn S element.binds ∧ ∀ n ∈ children, n.LiesIn S :=
  ⟨fun ⟨own, binds, below⟩ => ⟨own, binds, below⟩, fun ⟨own, binds, below⟩ => .mk own binds below⟩

@[simp] theorem liesIn_leaf {element : Element} {span : Span} :
    (Node.leaf element span).LiesIn S ↔ span ∈ S ∧ LieIn S element.binds := by
  simp [leaf]

@[simp] theorem liesIn_identifier {name : Ident} : name.identifierNode.LiesIn S ↔ name.span ∈ S := by
  simp [Spanned.identifierNode]

@[simp] theorem liesIn_modifier {m : Spanned Modifier} : m.modifierNode.LiesIn S ↔ m.span ∈ S := by
  simp [Spanned.modifierNode]

@[simp] theorem liesIn_event {e : Spanned TriggerEvent} : e.eventNode.LiesIn S ↔ e.span ∈ S := by
  simp [Spanned.eventNode]

@[simp] theorem liesIn_option {α : Type} {f : α → Node} {x : Option α} :
    (∀ n ∈ (x.map f).toList, n.LiesIn S) ↔ ∀ a ∈ x, (f a).LiesIn S := by
  cases x <;> simp

end Node

theorem TypeRef.span_mem {t : TypeRef} (h : t.node.LiesIn S) : t.span ∈ S := t.node_span ▸ h.span

theorem AnnotationMark.span_mem {a : AnnotationMark} (h : a.node.LiesIn S) : a.span ∈ S :=
  a.node_span ▸ h.span

theorem AnnotationValue.span_mem {v : AnnotationValue} (h : v.node.LiesIn S) : v.span ∈ S :=
  v.node_span ▸ h.span

theorem Expr.span_mem {e : Expr} (h : e.node.LiesIn S) : e.span ∈ S := e.node_span ▸ h.span

end Apex
