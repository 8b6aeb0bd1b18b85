import Apex.Node.View

/-!
# How deep a path goes

Some edges of a tree lead to a construct that is nested in another: a statement under a statement or
in a block, a complete expression in any construct, a type argument, a value or an annotation inside
an annotation, a member type. Others lead on within a construct: along a chain of operators or
postfix operations, from one conditional to the next behind its `else`, to the block that belongs to
a method or a loop. What is counted on a path are edges of the first sort.
-/

namespace Apex

/-! ## Edges -/

namespace Element

/-- An expression. -/
def isExpression : Element → Bool
  | .expr _ | .literal _ => true
  | _ => false

/-- A statement on its own, or a block. -/
def isStatement : Element → Bool
  | .block _ | .locals _ | .statement _ => true
  | _ => false

/-- A conditional. -/
def isConditional : Element → Bool
  | .statement (.ifThen ..) | .statement (.ifElse ..) => true
  | _ => false

/-- A declaration of a type. -/
def isType : Element → Bool
  | .typeDeclaration _ => true
  | _ => false

/-- An annotation. -/
def isAnnotated : Element → Bool
  | .annotated _ => true
  | _ => false

end Element

/-- How many of an expression's first children are operands of a chain. -/
def Expr.chained : Expr → Nat
  | .member .. | .methodCall .. | .index .. | .stepAfter .. | .instanceOf .. | .ternary ..
  | .assignment .. => 1
  | .binary .. => 2
  | _ => 0

/-- Whether a statement has another one under it as its child with the given number. A conditional
behind `else` is another link of the same chain. -/
def Statement.nests : Statement → Nat → Element → Bool
  | .ifThen .., _, child | .whileLoop .., _, child | .forEach .., _, child => child.isStatement
  | .ifElse .., i, child => child.isStatement && !(i == 2 && child.isConditional)
  | .forLoop _ (.declaration ..) _ _ _, i, child => child.isStatement && i != 0
  | .forLoop .., _, child => child.isStatement
  | _, _, _ => false

/-- Whether the edge to the child with the given number leads to a nested construct. -/
def Element.deepens : Element → Nat → Element → Bool
  | .block _, _, _ | .mapEntry .., _, _ | .annotationArray _, _, _ => true
  | .type _, _, .type _ | .annotationElement _, _, .annotated _ => true
  | .typeDeclaration _, _, child => child.isType
  | .declarator _, _, child => child.isExpression
  | .statement s, i, child => child.isExpression || s.nests i child
  | .expr e, i, child => child.isExpression && decide (e.chained ≤ i)
  | _, _, _ => false

namespace Node

/-- How many edges of a path, taken from a node by choosing one child after another, lead to a
nested construct. -/
def crossings (n : Node) : (path : List Nat) → Nat
  | [] => 0
  | i :: path =>
    match n.children[i]? with
    | some child => (n.element.deepens i child.element).toNat + child.crossings path
    | none => 0

/-- Whether a path goes from a node straight into an annotation. -/
def entersAnnotated (n : Node) : (path : List Nat) → Bool
  | [] => false
  | i :: _ => n.children[i]?.any (·.element.isAnnotated)

/-- Whether a path goes through an annotation before a member type. -/
def entersMemberHeader (n : Node) : (path : List Nat) → Bool
  | [] => false
  | i :: path =>
    match n.children[i]? with
    | some child =>
      (n.element.isType && child.element.isType && child.entersAnnotated path) ||
        child.entersMemberHeader path
    | none => false

/-! ## Limits -/

/-- No path from the node crosses more edges than the limit. -/
def FitsIn (limit : Nat) (n : Node) : Prop := ∀ path, n.crossings path ≤ limit

/-- Every path from the node crosses fewer edges than the limit. -/
def FitsBelow (limit : Nat) (n : Node) : Prop := ∀ path, n.crossings path < limit

/-- A node at the end of an edge: if the edge leads to a nested construct, it takes one from the
limit. -/
def FitsBehind (limit : Nat) (deepens : Bool) (n : Node) : Prop :=
  if deepens then n.FitsBelow limit else n.FitsIn limit

/-- Nodes that are children of a piece of syntax, the first of them with the given number, fit
there. -/
def AllFit (limit : Nat) (parent : Element) : (number : Nat) → List Node → Prop
  | _, [] => True
  | i, n :: ns =>
    n.FitsBehind limit (parent.deepens i n.element) ∧ AllFit limit parent (i + 1) ns

variable {limit i : Nat} {n : Node} {ns ms : List Node} {parent : Element} {span : Span}

theorem crossings_cons (path : List Nat) :
    (mk parent span ns).crossings (i :: path) =
      match ns[i]? with
      | some child => (parent.deepens i child.element).toNat + child.crossings path
      | none => 0 :=
  rfl

theorem FitsBelow.fitsIn (h : n.FitsBelow limit) : n.FitsIn limit := fun path => Nat.le_of_lt (h path)

@[simp] theorem fitsBehind_true : n.FitsBehind limit true ↔ n.FitsBelow limit := by
  simp [FitsBehind]

@[simp] theorem fitsBehind_false : n.FitsBehind limit false ↔ n.FitsIn limit := by
  simp [FitsBehind]

/-- What takes one from the limit fits at the end of any edge. -/
theorem FitsBelow.fitsBehind (h : n.FitsBelow limit) (deepens : Bool) :
    n.FitsBehind limit deepens := by
  cases deepens with
  | false => exact fitsBehind_false.mpr h.fitsIn
  | true => exact fitsBehind_true.mpr h

theorem fitsBelow_succ : n.FitsBelow (limit + 1) ↔ n.FitsIn limit :=
  forall_congr' fun _ => Nat.lt_succ_iff

@[simp] theorem allFit_nil : AllFit limit parent i [] := trivial

@[simp] theorem allFit_cons :
    AllFit limit parent i (n :: ns) ↔
      n.FitsBehind limit (parent.deepens i n.element) ∧ AllFit limit parent (i + 1) ns :=
  Iff.rfl

@[simp] theorem allFit_append :
    AllFit limit parent i (ns ++ ms) ↔
      AllFit limit parent i ns ∧ AllFit limit parent (i + ns.length) ms := by
  induction ns generalizing i with
  | nil => simp
  | cons n ns ih =>
    rw [List.cons_append, allFit_cons, allFit_cons, ih, and_assoc, List.length_cons, Nat.add_assoc,
      Nat.add_comm 1]

/-- Nodes fit as children if each does under any number. -/
theorem allFit_of_forall (h : ∀ n ∈ ns, ∀ i, n.FitsBehind limit (parent.deepens i n.element)) :
    AllFit limit parent i ns := by
  induction ns generalizing i with
  | nil => trivial
  | cons n ns ih =>
    obtain ⟨first, rest⟩ := List.forall_mem_cons.mp h
    exact ⟨first i, ih rest⟩

theorem AllFit.getElem? {k : Nat} (h : AllFit limit parent k ns) (found : ns[i]? = some n) :
    n.FitsBehind limit (parent.deepens (k + i) n.element) := by
  induction ns generalizing k i with
  | nil => cases found
  | cons first ns ih =>
    cases i with
    | zero =>
      cases found
      exact h.1
    | succ i =>
      rw [show k + (i + 1) = k + 1 + i by omega]
      exact ih h.2 found

/-- A node fits if its children do. -/
theorem fitsIn_mk (h : AllFit limit parent 0 ns) : (mk parent span ns).FitsIn limit := by
  intro path
  cases path with
  | nil => exact Nat.zero_le limit
  | cons i path =>
    rw [crossings_cons]
    split
    · next child found =>
      have fits := h.getElem? found
      rw [Nat.zero_add] at fits
      cases deepens : parent.deepens i child.element with
      | false =>
        rw [deepens, fitsBehind_false] at fits
        simpa using fits path
      | true =>
        rw [deepens, fitsBehind_true] at fits
        rw [Bool.toNat_true, Nat.add_comm]
        exact fits path
    · exact Nat.zero_le limit

@[simp] theorem fitsIn_leaf {element : Element} : (leaf element span).FitsIn limit := fitsIn_mk trivial

/-- An optional child fits if it does when it is there. -/
theorem allFit_option {α : Type} {f : α → Node} {x : Option α}
    (h : ∀ a ∈ x, ∀ i, (f a).FitsBehind limit (parent.deepens i (f a).element)) :
    AllFit limit parent i (x.map f).toList := by
  cases x with
  | none => trivial
  | some a => exact ⟨h a rfl i, trivial⟩

/-- Children that come from a list fit if each does under any number. -/
theorem allFit_map {α : Type} {f : α → Node} {xs : List α}
    (h : ∀ a ∈ xs, ∀ i, (f a).FitsBehind limit (parent.deepens i (f a).element)) :
    AllFit limit parent i (xs.map f) :=
  allFit_of_forall (List.forall_mem_map.mpr h)

/-- Where no edge leads to a nested construct, nothing is taken from the limit. -/
theorem fitsIn_flat (flat : ∀ i child, parent.deepens i child = false)
    (h : ∀ n ∈ ns, n.FitsIn limit) : (mk parent span ns).FitsIn limit := by
  refine fitsIn_mk (allFit_of_forall fun n hn i => ?_)
  rw [flat]
  exact fitsBehind_false.mpr (h n hn)

/-- An optional part fits if it does when it is there. -/
theorem fitsIn_option {α : Type} {f : α → Node} {x : Option α}
    (h : ∀ a ∈ x, (f a).FitsIn limit) : ∀ n ∈ (x.map f).toList, n.FitsIn limit := by
  cases x with
  | none => nofun
  | some a => exact List.forall_mem_singleton.mpr (h a rfl)

end Node

end Apex
