import Apex.Proofs.Echo.Programs
import Apex.Proofs.Walks.Recursion
import Apex.Proofs.Writing.Balance
import Apex.Proofs.Writing.Expressions
import Apex.Proofs.Writing.Genuine

/-!
# Legible trees

The names in the tree of a source are words of the language, and its decimals are numbers: they were
read from tokens of which this is true. What a tree stands for in the tokens says so for each of its
nodes.
-/

namespace Apex

open Form

/-! ## Nodes -/

/-- A name is a word of the language, and a decimal is a number. -/
def Element.IsLegible : Element → Prop
  | .identifier text | .expr (.name _ text) => IsWord text
  | .literal (.decimal value) => value.isNaN = false
  | _ => True

/-- Every name in the tree is a word of the language, and every decimal in it is a number. -/
def Node.IsLegible (n : Node) : Prop := ∀ m ∈ n.preorder, m.element.IsLegible

namespace Node

/-- All trees of a row are legible. -/
def AreLegible (ns : List Node) : Prop := ∀ n ∈ ns, n.IsLegible

theorem isLegible_mk {element : Element} {span : Span} {children : List Node} :
    (mk element span children).IsLegible ↔ element.IsLegible ∧ AreLegible children := by
  unfold IsLegible AreLegible
  rw [preorder_eq, List.forall_mem_cons, List.forall_mem_flatMap]
  exact Iff.rfl

theorem isLegible_leaf {element : Element} {span : Span} :
    (leaf element span).IsLegible ↔ element.IsLegible := by
  rw [leaf, isLegible_mk]
  exact and_iff_left nofun

/-- Whatever is reached from a legible node is legible. -/
theorem IsLegible.descend {n m : Node} {path : List Nat} (h : n.IsLegible)
    (reached : n.descend? path = some m) : m.IsLegible :=
  descend_induction (fun ⟨_, _, _⟩ legible => (isLegible_mk.mp legible).2) h reached

@[simp] theorem areLegible_nil : AreLegible [] := List.forall_mem_nil _

@[simp] theorem areLegible_cons {n : Node} {ns : List Node} :
    AreLegible (n :: ns) ↔ n.IsLegible ∧ AreLegible ns := List.forall_mem_cons

@[simp] theorem areLegible_append {ns ms : List Node} :
    AreLegible (ns ++ ms) ↔ AreLegible ns ∧ AreLegible ms := List.forall_mem_append

theorem areLegible_map {α : Type} {f : α → Node} {xs : List α} :
    AreLegible (xs.map f) ↔ ∀ x ∈ xs, (f x).IsLegible := List.forall_mem_map

end Node

open Node

/-! ## Names and types -/

theorem isLegible_identifier {i : Ident} (word : IsWord i.value) : i.identifierNode.IsLegible :=
  isLegible_leaf.mpr word

@[simp] theorem isLegible_modifier (m : Spanned Modifier) : m.modifierNode.IsLegible :=
  isLegible_leaf.mpr trivial

theorem areLegible_identifiers {is : List Ident} (words : ∀ i ∈ is, IsWord i.value) :
    AreLegible (is.map Spanned.identifierNode) :=
  areLegible_map.mpr fun i mem => isLegible_identifier (words i mem)

mutual

theorem TypeRef.isLegible : (t : TypeRef) → AllLegible t.forms → t.node.IsLegible
  | ⟨span, segments, arguments, dimensions⟩, legible => by
    simp only [forms, formsOf_eq_map, allLegible_append, allLegible_angled,
      List.forall_mem_map] at legible
    refine isLegible_mk.mpr ⟨trivial, areLegible_append.mpr ⟨?_, ?_⟩⟩
    · exact areLegible_identifiers (legible_dotted legible.1.1 fun _ => id)
    · exact TypeRef.nodes_areLegible arguments legible.1.2

theorem TypeRef.nodes_areLegible : (ts : List TypeRef) → (∀ t ∈ ts, AllLegible t.forms) →
    AreLegible (TypeRef.nodes ts)
  | [], _ => areLegible_nil
  | t :: ts, legible => by
    rw [List.forall_mem_cons] at legible
    exact areLegible_cons.mpr ⟨t.isLegible legible.1, TypeRef.nodes_areLegible ts legible.2⟩

end

theorem TypeRef.map_areLegible {ts : List TypeRef} (legible : ∀ t ∈ ts, AllLegible t.forms) :
    AreLegible (ts.map TypeRef.node) :=
  areLegible_map.mpr fun t mem => t.isLegible (legible t mem)

theorem allLegible_formsBehind {k : Keyword} {ts : List TypeRef}
    (legible : AllLegible (TypeRef.formsBehind k ts)) : ∀ t ∈ ts, AllLegible t.forms := by
  unfold TypeRef.formsBehind at legible
  split at legible
  · next none => simp [List.isEmpty_iff.mp none]
  · simpa using (allLegible_cons.mp legible).2

theorem QualifiedName.isLegible (q : QualifiedName) (legible : AllLegible q.forms) :
    q.node.IsLegible :=
  isLegible_mk.mpr ⟨trivial, areLegible_identifiers (legible_dotted legible fun _ => id)⟩

/-! ## Literals and annotations -/

theorem Literal.isLegible {v : Literal} (legible : AllLegible v.forms) (span : Span) :
    (leaf (.literal v) span).IsLegible := by
  rw [isLegible_leaf]
  cases v with
  | decimal value => exact (allLegible_cons.mp legible).1
  | _ => trivial

/-- A sign in front of a number leaves it a number. -/
theorem Literal.isLegible_signed {v : Literal} (legible : AllLegible v.signedForms) (span : Span) :
    (leaf (.literal v) span).IsLegible := by
  rw [isLegible_leaf]
  cases v with
  | decimal value =>
    simp only [signedForms] at legible
    split at legible
    · next negative =>
      have number : value.neg.isNaN = false := (allLegible_cons.mp (allLegible_cons.mp legible).2).1
      unfold Binary64.isNaN at number
      rwa [Binary64.magnitude_neg negative] at number
    · exact (allLegible_cons.mp legible).1
  | _ => trivial

mutual

/-- An annotation without parentheses has no arguments. All that is in it stands for something. -/
theorem AnnotationMark.isLegible : (a : AnnotationMark) → a.node.IsSound → AllLegible a.forms →
    a.node.IsLegible
  | .mk span name elements parenthesized, sound, legible => by
    simp only [AnnotationMark.forms, allLegible_cons] at legible
    refine isLegible_mk.mpr ⟨trivial, areLegible_cons.mpr ⟨isLegible_identifier legible.2.1, ?_⟩⟩
    cases parenthesized with
    | false =>
      have none : elements = [] := sound.element.1 rfl
      subst none
      exact areLegible_nil
    | true =>
      have below := sound.children
      simp only [AnnotationMark.node, Node.children, allSound_cons, AnnotationElement.nodes_eq_map,
        allSound_map] at below
      simp only [if_true, allLegible_parens, allLegible_flatten,
        AnnotationElement.formsOf_eq_map, List.forall_mem_map] at legible
      exact AnnotationElement.nodes_areLegible elements below.2 legible.2.2

theorem AnnotationElement.isLegible : (e : AnnotationElement) → e.node.IsSound →
    AllLegible e.forms → e.node.IsLegible
  | .mk _ key value comma, sound, legible => by
    have below := sound.children
    simp only [AnnotationElement.node, Node.children, allSound_append, allSound_cons] at below
    simp only [AnnotationElement.forms, allLegible_append] at legible
    have value := value.isLegible below.2.1 legible.1.2
    cases key with
    | none => exact isLegible_mk.mpr ⟨trivial, by simpa using value⟩
    | some key =>
      have word : IsWord key.value := (allLegible_cons.mp legible.1.1).1
      exact isLegible_mk.mpr ⟨trivial, by simpa using ⟨isLegible_identifier word, value⟩⟩

theorem AnnotationElement.nodes_areLegible : (es : List AnnotationElement) →
    (∀ e ∈ es, e.node.IsSound) → (∀ e ∈ es, AllLegible e.forms) →
    AreLegible (AnnotationElement.nodes es)
  | [], _, _ => areLegible_nil
  | e :: es, sound, legible => by
    rw [List.forall_mem_cons] at sound legible
    exact areLegible_cons.mpr ⟨e.isLegible sound.1 legible.1,
      AnnotationElement.nodes_areLegible es sound.2 legible.2⟩

theorem AnnotationValue.isLegible : (v : AnnotationValue) → v.node.IsSound →
    AllLegible v.forms → v.node.IsLegible
  | .literal span value, _, legible => value.isLegible_signed legible span
  | .array _ values, sound, legible => by
    have below := sound.children
    simp only [AnnotationValue.node, Node.children, AnnotationValue.nodes_eq_map,
      allSound_map] at below
    simp only [AnnotationValue.forms, allLegible_braces, allLegible_commas,
      AnnotationValue.formsOf_eq_map, List.forall_mem_map] at legible
    exact isLegible_mk.mpr ⟨trivial, AnnotationValue.nodes_areLegible values below legible⟩
  | .nested inner, sound, legible => inner.isLegible sound legible

theorem AnnotationValue.nodes_areLegible : (vs : List AnnotationValue) →
    (∀ v ∈ vs, v.node.IsSound) → (∀ v ∈ vs, AllLegible v.forms) →
    AreLegible (AnnotationValue.nodes vs)
  | [], _, _ => areLegible_nil
  | v :: vs, sound, legible => by
    rw [List.forall_mem_cons] at sound legible
    exact areLegible_cons.mpr ⟨v.isLegible sound.1 legible.1,
      AnnotationValue.nodes_areLegible vs sound.2 legible.2⟩

end

theorem Header.nodes_areLegible (h : Header) (sound : AllSound h.nodes)
    (legible : AllLegible h.forms) : AreLegible h.nodes := by
  simp only [nodes, allSound_map] at sound
  simp only [forms, allLegible_flatMap] at legible
  refine areLegible_map.mpr fun item mem => ?_
  cases item with
  | annotated a => exact a.isLegible (sound _ mem) (legible _ mem)
  | modifier m => exact isLegible_modifier m

/-! ## Expressions -/

mutual

theorem Expr.isLegible (e : Expr) (legible : AllLegible e.forms) : e.node.IsLegible := by
  cases e with
  | literal span value => exact value.isLegible legible span
  | name _ text => exact isLegible_leaf.mpr (isWord_of_legible_named (allLegible_cons.mp legible).1)
  | this | super => exact isLegible_leaf.mpr trivial
  | paren _ inner =>
    simp only [Expr.forms, allLegible_parens] at legible
    exact isLegible_mk.mpr ⟨trivial, by simp [inner.isLegible legible]⟩
  | member _ object part =>
    simp only [Expr.forms, allLegible_append, allLegible_cons] at legible
    have part := isLegible_identifier legible.2.2.1
    exact isLegible_mk.mpr ⟨trivial, by simp [object.isLegible legible.1, part]⟩
  | call _ callee args =>
    simp only [Expr.forms, allLegible_cons, allLegible_parens, allLegible_commas,
      Expr.formsOf_eq_map, List.forall_mem_map] at legible
    have callee := isLegible_identifier (isWord_of_legible_wordKind legible.1)
    have args := Expr.nodes_areLegible args legible.2
    exact isLegible_mk.mpr ⟨trivial, by simp [callee, args]⟩
  | methodCall _ receiver callee args =>
    simp only [Expr.forms, allLegible_append, allLegible_cons, allLegible_parens, allLegible_commas,
      Expr.formsOf_eq_map, List.forall_mem_map] at legible
    have callee := isLegible_identifier legible.2.2.1
    have args := Expr.nodes_areLegible args legible.2.2.2
    exact isLegible_mk.mpr ⟨trivial, by simp [receiver.isLegible legible.1, callee, args]⟩
  | index _ object position =>
    simp only [Expr.forms, allLegible_append, allLegible_cons] at legible
    have object := object.isLegible legible.1.1
    exact isLegible_mk.mpr ⟨trivial, by simp [object, position.isLegible legible.1.2.2]⟩
  | newObject _ type args =>
    simp only [Expr.forms, allLegible_append, allLegible_cons, allLegible_parens, allLegible_commas,
      Expr.formsOf_eq_map, List.forall_mem_map] at legible
    have args := Expr.nodes_areLegible args legible.2
    exact isLegible_mk.mpr ⟨trivial, by simp [type.isLegible legible.1.2, args]⟩
  | newArray _ type size =>
    simp only [Expr.forms, allLegible_append, allLegible_cons] at legible
    have type := type.isLegible legible.1.1.2
    exact isLegible_mk.mpr ⟨trivial, by simp [type, size.isLegible legible.1.2.2]⟩
  | newArrayOf _ type es =>
    simp only [Expr.forms, allLegible_append, allLegible_cons, allLegible_braces, allLegible_commas,
      Expr.formsOf_eq_map, List.forall_mem_map] at legible
    have elements := Expr.nodes_areLegible es legible.2.2.2
    exact isLegible_mk.mpr ⟨trivial, by simp [type.isLegible legible.1.2, elements]⟩
  | newCollection _ type es =>
    simp only [Expr.forms, allLegible_append, allLegible_cons, allLegible_braces, allLegible_commas,
      Expr.formsOf_eq_map, List.forall_mem_map] at legible
    have elements := Expr.nodes_areLegible es legible.2
    exact isLegible_mk.mpr ⟨trivial, by simp [type.isLegible legible.1.2, elements]⟩
  | newMap _ type entries =>
    simp only [Expr.forms, allLegible_append, allLegible_cons, allLegible_braces, allLegible_commas,
      Expr.formsOfEntries_eq_map, List.forall_mem_map] at legible
    have entries := Expr.entryNodes_areLegible entries legible.2
    exact isLegible_mk.mpr ⟨trivial, by simp [type.isLegible legible.1.2, entries]⟩
  | cast _ type operand =>
    simp only [Expr.forms, allLegible_append, allLegible_parens] at legible
    have type := type.isLegible legible.1
    exact isLegible_mk.mpr ⟨trivial, by simp [type, operand.isLegible legible.2]⟩
  | unary _ op operand =>
    simp only [Expr.forms, allLegible_cons] at legible
    exact isLegible_mk.mpr ⟨trivial, by simp [operand.isLegible legible.2]⟩
  | stepBefore _ op operand =>
    simp only [Expr.forms, allLegible_cons] at legible
    exact isLegible_mk.mpr ⟨trivial, by simp [operand.isLegible legible.2]⟩
  | stepAfter _ op operand =>
    simp only [Expr.forms, allLegible_append] at legible
    exact isLegible_mk.mpr ⟨trivial, by simp [operand.isLegible legible.1]⟩
  | binary _ left op right =>
    simp only [Expr.forms, allLegible_append, allLegible_cons] at legible
    have left := left.isLegible legible.1
    exact isLegible_mk.mpr ⟨trivial, by simp [left, right.isLegible legible.2.2]⟩
  | instanceOf _ operand type =>
    simp only [Expr.forms, allLegible_append, allLegible_cons] at legible
    have operand := operand.isLegible legible.1
    exact isLegible_mk.mpr ⟨trivial, by simp [operand, type.isLegible legible.2.2]⟩
  | ternary _ condition yes no =>
    simp only [Expr.forms, allLegible_append, allLegible_cons] at legible
    have condition := condition.isLegible legible.1.1
    have yes := yes.isLegible legible.1.2.2
    exact isLegible_mk.mpr ⟨trivial, by simp [condition, yes, no.isLegible legible.2.2]⟩
  | assignment _ target op value =>
    simp only [Expr.forms, allLegible_append, allLegible_cons] at legible
    have target := target.isLegible legible.1
    exact isLegible_mk.mpr ⟨trivial, by simp [target, value.isLegible legible.2.2]⟩

theorem Expr.nodes_areLegible : (es : List Expr) → (∀ e ∈ es, AllLegible e.forms) →
    AreLegible (Expr.nodes es)
  | [], _ => areLegible_nil
  | e :: es, legible => by
    rw [List.forall_mem_cons] at legible
    exact areLegible_cons.mpr ⟨e.isLegible legible.1, Expr.nodes_areLegible es legible.2⟩

theorem Expr.entryNodes_areLegible : (entries : List (Expr × Expr)) →
    (∀ e ∈ entries, AllLegible (Expr.entryForms e)) → AreLegible (Expr.entryNodes entries)
  | [], _ => areLegible_nil
  | (key, value) :: entries, legible => by
    rw [List.forall_mem_cons] at legible
    obtain ⟨first, others⟩ := legible
    simp only [Expr.entryForms, allLegible_append, allLegible_cons] at first
    refine areLegible_cons.mpr ⟨?_, Expr.entryNodes_areLegible entries others⟩
    have key := key.isLegible first.1
    exact isLegible_mk.mpr ⟨trivial, by simp [key, value.isLegible first.2.2]⟩

end

/-! ## Statements -/

theorem Declarator.isLegible {d : Declarator} (legible : AllLegible d.forms) :
    d.node.IsLegible := by
  obtain ⟨span, name, value⟩ := d
  simp only [forms, allLegible_cons] at legible
  have word : name.identifierNode.IsLegible := isLegible_identifier legible.1
  cases value with
  | none => exact isLegible_mk.mpr ⟨trivial, by simpa using word⟩
  | some value =>
    have value := value.isLegible (allLegible_cons.mp legible.2).2
    exact isLegible_mk.mpr ⟨trivial, by simp [word, value]⟩

theorem areLegible_modifiers (modifiers : List (Spanned Modifier)) :
    AreLegible (modifiers.map Spanned.modifierNode) :=
  areLegible_map.mpr fun m _ => isLegible_modifier m

theorem LocalVariables.nodes_areLegible {v : LocalVariables} (legible : AllLegible v.forms) :
    AreLegible v.nodes := by
  simp only [forms, allLegible_append, allLegible_commas, List.forall_mem_map] at legible
  have declarators := areLegible_map.mpr fun d mem => Declarator.isLegible (legible.2 d mem)
  exact areLegible_append.mpr ⟨areLegible_modifiers v.modifiers,
    areLegible_cons.mpr ⟨v.type.isLegible legible.1.2, declarators⟩⟩

theorem ForInit.nodes_areLegible : (i : ForInit) → AllLegible i.forms → AreLegible i.nodes
  | .nothing, _ => areLegible_nil
  | .declaration _ _, legible => by
    have locals := LocalVariables.nodes_areLegible legible
    exact areLegible_cons.mpr ⟨isLegible_mk.mpr ⟨trivial, locals⟩, areLegible_nil⟩
  | .expressions values, legible => by
    simp only [forms, allLegible_commas, List.forall_mem_map] at legible
    exact Expr.nodes_areLegible values legible

theorem Expr.option_areLegible {e : Option Expr} (legible : AllLegible (Expr.formsOption e)) :
    AreLegible (e.map Expr.node).toList := by
  cases e with
  | none => exact areLegible_nil
  | some e => exact areLegible_cons.mpr ⟨e.isLegible legible, areLegible_nil⟩

mutual

theorem Block.isLegible : (b : Block) → AllLegible b.forms → b.node.IsLegible
  | .mk _ statements, legible => by
    simp only [Block.forms, allLegible_braces, allLegible_flatten, Statement.formsOf_eq_map,
      List.forall_mem_map] at legible
    exact isLegible_mk.mpr ⟨trivial, Statement.nodes_areLegible statements legible⟩

theorem Statement.isLegible (s : Statement) (legible : AllLegible s.forms) :
    s.node.IsLegible := by
  cases s with
  | block body => exact body.isLegible legible
  | locals _ locals =>
    have locals := LocalVariables.nodes_areLegible (allLegible_append.mp legible).1
    exact isLegible_mk.mpr ⟨trivial, locals⟩
  | ifThen _ condition yes =>
    simp only [Statement.forms, allLegible_append, allLegible_cons, allLegible_parens] at legible
    have condition := condition.isLegible legible.1.2
    exact isLegible_mk.mpr ⟨trivial, by simp [condition, yes.isLegible legible.2]⟩
  | ifElse _ condition yes no =>
    simp only [Statement.forms, allLegible_append, allLegible_cons, allLegible_parens] at legible
    have condition := condition.isLegible legible.1.1.2
    have yes := yes.isLegible legible.1.2
    exact isLegible_mk.mpr ⟨trivial, by simp [condition, yes, no.isLegible legible.2.2]⟩
  | whileLoop _ condition body =>
    simp only [Statement.forms, allLegible_append, allLegible_cons, allLegible_parens] at legible
    have condition := condition.isLegible legible.1.2
    exact isLegible_mk.mpr ⟨trivial, by simp [condition, body.isLegible legible.2]⟩
  | doWhile _ body condition =>
    simp only [Statement.forms, allLegible_append, allLegible_cons, allLegible_parens] at legible
    have body := body.isLegible legible.1.1.2
    exact isLegible_mk.mpr ⟨trivial, by simp [body, condition.isLegible legible.1.2.2]⟩
  | forLoop _ init condition update body =>
    simp only [Statement.forms, allLegible_append, allLegible_cons, allLegible_parens,
      allLegible_commas, List.forall_mem_map] at legible
    have init := init.nodes_areLegible legible.1.2.1.1
    have condition := Expr.option_areLegible legible.1.2.1.2.2
    have update := Expr.nodes_areLegible update legible.1.2.2.2
    refine isLegible_mk.mpr ⟨trivial, ?_⟩
    simp only [areLegible_append, areLegible_cons]
    exact ⟨⟨⟨init, condition⟩, update⟩, body.isLegible legible.2, areLegible_nil⟩
  | forEach _ modifiers type name items body =>
    simp only [Statement.forms, allLegible_append, allLegible_cons, allLegible_parens] at legible
    have type := type.isLegible legible.1.2.1.2
    have name := isLegible_identifier legible.1.2.2.1
    have items := items.isLegible legible.1.2.2.2.2
    refine isLegible_mk.mpr ⟨trivial, areLegible_append.mpr ⟨areLegible_modifiers modifiers, ?_⟩⟩
    simp [type, name, items, body.isLegible legible.2]
  | tryCatch _ body catches =>
    simp only [Statement.forms, allLegible_append, allLegible_cons, CatchClause.formsOf_eq_map,
      allLegible_flatten, List.forall_mem_map] at legible
    have catches := CatchClause.nodes_areLegible catches legible.2
    exact isLegible_mk.mpr ⟨trivial, areLegible_cons.mpr ⟨body.isLegible legible.1.2, catches⟩⟩
  | tryFinally _ body catches last =>
    simp only [Statement.forms, allLegible_append, allLegible_cons, CatchClause.formsOf_eq_map,
      allLegible_flatten, List.forall_mem_map] at legible
    have body := body.isLegible legible.1.1.2
    have catches := CatchClause.nodes_areLegible catches legible.1.2
    exact isLegible_mk.mpr ⟨trivial, by simp [body, catches, last.isLegible legible.2.2]⟩
  | returns _ value =>
    simp only [Statement.forms, allLegible_append, allLegible_cons] at legible
    exact isLegible_mk.mpr ⟨trivial, Expr.option_areLegible legible.1.2⟩
  | throws _ value =>
    simp only [Statement.forms, allLegible_append, allLegible_cons] at legible
    exact isLegible_mk.mpr ⟨trivial, by simp [value.isLegible legible.1.2]⟩
  | breaks _ | continues _ | empty _ => exact isLegible_leaf.mpr trivial
  | expression _ value =>
    simp only [Statement.forms, allLegible_append] at legible
    exact isLegible_mk.mpr ⟨trivial, by simp [value.isLegible legible.1]⟩
  | runAs _ user body =>
    simp only [Statement.forms, allLegible_append, allLegible_cons, allLegible_parens] at legible
    have user := user.isLegible legible.1.2.2.2
    exact isLegible_mk.mpr ⟨trivial, by simp [user, body.isLegible legible.2]⟩
  | dml _ op target =>
    simp only [Statement.forms, allLegible_append, allLegible_cons] at legible
    exact isLegible_mk.mpr ⟨trivial, by simp [target.isLegible legible.1.2]⟩
  | upsert _ target key =>
    cases key with
    | none =>
      simp only [Statement.forms, allLegible_append, allLegible_cons] at legible
      exact isLegible_mk.mpr ⟨trivial, by simp [target.isLegible legible.1.2]⟩
    | some key =>
      simp only [Statement.forms, allLegible_append, allLegible_cons] at legible
      have target := target.isLegible legible.1.1.2
      exact isLegible_mk.mpr ⟨trivial, by simp [target, key.isLegible legible.1.2]⟩
  | merge _ master duplicate =>
    simp only [Statement.forms, allLegible_append, allLegible_cons] at legible
    have master := master.isLegible legible.1.1.2
    exact isLegible_mk.mpr ⟨trivial, by simp [master, duplicate.isLegible legible.1.2]⟩

theorem Statement.nodes_areLegible : (ss : List Statement) → (∀ s ∈ ss, AllLegible s.forms) →
    AreLegible (Statement.nodes ss)
  | [], _ => areLegible_nil
  | s :: ss, legible => by
    rw [List.forall_mem_cons] at legible
    exact areLegible_cons.mpr ⟨s.isLegible legible.1, Statement.nodes_areLegible ss legible.2⟩

theorem CatchClause.isLegible : (c : CatchClause) → AllLegible c.forms → c.node.IsLegible
  | .mk _ modifiers type name body, legible => by
    simp only [CatchClause.forms, allLegible_append, allLegible_cons, allLegible_parens] at legible
    have type := type.isLegible legible.1.2.1.2
    have name := isLegible_identifier legible.1.2.2.1
    refine isLegible_mk.mpr ⟨trivial, areLegible_append.mpr ⟨areLegible_modifiers modifiers, ?_⟩⟩
    simp [type, name, body.isLegible legible.2]

theorem CatchClause.nodes_areLegible : (cs : List CatchClause) →
    (∀ c ∈ cs, AllLegible c.forms) → AreLegible (CatchClause.nodes cs)
  | [], _ => areLegible_nil
  | c :: cs, legible => by
    rw [List.forall_mem_cons] at legible
    exact areLegible_cons.mpr ⟨c.isLegible legible.1, CatchClause.nodes_areLegible cs legible.2⟩

end

/-! ## Parts of declarations -/

theorem Parameter.isLegible {p : Parameter} (legible : AllLegible p.forms) : p.node.IsLegible := by
  simp only [forms, allLegible_append, allLegible_cons] at legible
  have name := isLegible_identifier legible.2.1
  refine isLegible_mk.mpr ⟨trivial, areLegible_append.mpr ⟨areLegible_modifiers p.modifiers, ?_⟩⟩
  simp [p.type.isLegible legible.1.2, name]

theorem Parameter.map_areLegible {parameters : List Parameter}
    (legible : AllLegible (Parameter.formsOf parameters)) :
    AreLegible (parameters.map Parameter.node) := by
  simp only [formsOf, allLegible_parens, allLegible_commas, List.forall_mem_map] at legible
  exact areLegible_map.mpr fun p mem => Parameter.isLegible (legible p mem)

theorem Block.option_areLegible {b : Option Block} (legible : AllLegible (Block.formsOption b)) :
    AreLegible (b.map Block.node).toList := by
  cases b with
  | none => exact areLegible_nil
  | some b => exact areLegible_cons.mpr ⟨b.isLegible legible, areLegible_nil⟩

theorem areLegible_returnType {t : Option TypeRef} (legible : AllLegible (returnForms t)) :
    AreLegible (t.map TypeRef.node).toList := by
  cases t with
  | none => exact areLegible_nil
  | some t => exact areLegible_cons.mpr ⟨t.isLegible legible, areLegible_nil⟩

/-! ## Members -/

theorem Field.isLegible {f : Field} {span : Span} (sound : (f.node span).IsSound)
    (legible : AllLegible f.forms) : (f.node span).IsLegible := by
  have below := sound.children
  simp only [node, Node.children, allSound_append] at below
  simp only [forms, allLegible_append, allLegible_commas, List.forall_mem_map] at legible
  have declarators := areLegible_map.mpr fun d mem => Declarator.isLegible (legible.1.2 d mem)
  refine isLegible_mk.mpr ⟨trivial, areLegible_append.mpr ⟨?_, ?_⟩⟩
  · exact f.header.nodes_areLegible below.1 legible.1.1.1
  · exact areLegible_cons.mpr ⟨f.type.isLegible legible.1.1.2, declarators⟩

theorem Method.isLegible {m : Method} {span : Span} (sound : (m.node span).IsSound)
    (legible : AllLegible m.forms) : (m.node span).IsLegible := by
  have below := sound.children
  simp only [node, Node.children, allSound_append] at below
  simp only [forms, allLegible_append, allLegible_cons] at legible
  obtain ⟨⟨⟨header, result⟩, word, parameters⟩, body⟩ := legible
  refine isLegible_mk.mpr ⟨trivial, ?_⟩
  simp only [areLegible_append, areLegible_cons]
  exact ⟨⟨⟨m.header.nodes_areLegible below.1.1.1 header, areLegible_returnType result⟩,
    isLegible_identifier word, Parameter.map_areLegible parameters⟩, Block.option_areLegible body⟩

theorem Constructor.isLegible {c : Constructor} {span : Span} (sound : (c.node span).IsSound)
    (legible : AllLegible c.forms) : (c.node span).IsLegible := by
  have below := sound.children
  simp only [node, Node.children, allSound_append] at below
  simp only [forms, allLegible_append, allLegible_cons] at legible
  obtain ⟨⟨header, word, parameters⟩, body⟩ := legible
  refine isLegible_mk.mpr ⟨trivial, ?_⟩
  simp only [areLegible_append, areLegible_cons]
  exact ⟨⟨c.header.nodes_areLegible below.1.1 header, isLegible_identifier word,
    Parameter.map_areLegible parameters⟩, c.body.isLegible body, areLegible_nil⟩

theorem Accessor.isLegible {a : Accessor} (legible : AllLegible a.forms) : a.node.IsLegible := by
  simp only [forms, allLegible_append, allLegible_cons] at legible
  exact isLegible_mk.mpr ⟨trivial, areLegible_append.mpr
    ⟨areLegible_modifiers a.modifiers, Block.option_areLegible legible.2.2⟩⟩

theorem Property.isLegible {p : Property} {span : Span} (sound : (p.node span).IsSound)
    (legible : AllLegible p.forms) : (p.node span).IsLegible := by
  have below := sound.children
  simp only [node, Node.children, allSound_append] at below
  simp only [forms, allLegible_append, allLegible_cons, allLegible_braces, allLegible_flatMap]
    at legible
  obtain ⟨⟨header, type⟩, word, accessors⟩ := legible
  have accessors := areLegible_map.mpr fun a mem => Accessor.isLegible (accessors a mem)
  refine isLegible_mk.mpr ⟨trivial, areLegible_append.mpr ⟨?_, ?_⟩⟩
  · exact p.header.nodes_areLegible below.1 header
  · exact areLegible_cons.mpr ⟨p.type.isLegible type,
      areLegible_cons.mpr ⟨isLegible_identifier word, accessors⟩⟩

theorem Initializer.isLegible {i : Initializer} {span : Span} (legible : AllLegible i.forms) :
    (i.node span).IsLegible := by
  have body := i.body.isLegible (allLegible_append.mp legible).2
  exact isLegible_mk.mpr ⟨trivial, areLegible_cons.mpr ⟨body, areLegible_nil⟩⟩

/-! ## Types -/

theorem ClassHead.nodes_areLegible {c : ClassHead} (sound : AllSound c.nodes)
    (legible : AllLegible c.forms) : AreLegible c.nodes := by
  simp only [nodes, allSound_append] at sound
  simp only [forms, allLegible_append, allLegible_cons] at legible
  obtain ⟨⟨header, -, word, base⟩, interfaces⟩ := legible
  have header := c.header.nodes_areLegible sound.1.1 header
  have interfaces := TypeRef.map_areLegible (allLegible_formsBehind interfaces)
  have base : AreLegible (c.base.map TypeRef.node).toList := by
    rw [Option.toList_map]
    exact TypeRef.map_areLegible (allLegible_formsBehind base)
  exact areLegible_append.mpr ⟨areLegible_append.mpr
    ⟨header, areLegible_cons.mpr ⟨isLegible_identifier word, base⟩⟩, interfaces⟩

theorem InterfaceHead.nodes_areLegible {i : InterfaceHead} (sound : AllSound i.nodes)
    (legible : AllLegible i.forms) : AreLegible i.nodes := by
  simp only [nodes, allSound_append] at sound
  simp only [forms, allLegible_append, allLegible_cons] at legible
  obtain ⟨header, -, word, bases⟩ := legible
  have bases := TypeRef.map_areLegible (allLegible_formsBehind bases)
  exact areLegible_append.mpr ⟨i.header.nodes_areLegible sound.1 header,
    areLegible_cons.mpr ⟨isLegible_identifier word, bases⟩⟩

theorem EnumDeclaration.nodes_areLegible {e : EnumDeclaration} (sound : AllSound e.nodes)
    (legible : AllLegible e.forms) : AreLegible e.nodes := by
  simp only [nodes, allSound_append] at sound
  simp only [forms, allLegible_append, allLegible_cons, allLegible_braces, allLegible_commas,
    List.forall_mem_map] at legible
  obtain ⟨header, -, word, constants, -⟩ := legible
  have constants := areLegible_identifiers fun i mem => (constants i mem).1
  exact areLegible_append.mpr ⟨e.header.nodes_areLegible sound.1 header,
    areLegible_cons.mpr ⟨isLegible_identifier word, constants⟩⟩

theorem Trigger.isLegible {t : Trigger} {span : Span} (legible : AllLegible t.forms) :
    (t.node span).IsLegible := by
  simp only [forms, allLegible_append, allLegible_cons] at legible
  obtain ⟨⟨-, word, -, object, -⟩, body⟩ := legible
  have events : AreLegible (t.events.map Spanned.eventNode) :=
    areLegible_map.mpr fun _ _ => isLegible_leaf.mpr trivial
  refine isLegible_mk.mpr ⟨trivial, ?_⟩
  simp only [areLegible_append, areLegible_cons]
  exact ⟨⟨isLegible_identifier word, isLegible_identifier object, events⟩,
    t.body.isLegible body, areLegible_nil⟩

mutual

theorem TypeDeclaration.isLegible : (d : TypeDeclaration) → d.node.IsSound →
    AllLegible d.forms → d.node.IsLegible
  | .classType _ head members, sound, legible => by
    have below := sound.children
    simp only [TypeDeclaration.node, Node.children, allSound_append, Member.nodes_eq_map,
      allSound_map] at below
    simp only [TypeDeclaration.forms, allLegible_append, allLegible_braces, allLegible_flatten,
      Member.formsOf_eq_map, List.forall_mem_map] at legible
    exact isLegible_mk.mpr ⟨trivial, areLegible_append.mpr
      ⟨ClassHead.nodes_areLegible below.1 legible.1,
        Member.nodes_areLegible members below.2 legible.2⟩⟩
  | .interfaceType _ head methods, sound, legible => by
    have below := sound.children
    simp only [TypeDeclaration.node, Node.children, allSound_append, allSound_map] at below
    simp only [TypeDeclaration.forms, allLegible_append, allLegible_braces, allLegible_flatMap]
      at legible
    have methods := areLegible_map.mpr fun m mem =>
      Method.isLegible (below.2 m mem) (legible.2 m mem)
    exact isLegible_mk.mpr ⟨trivial, areLegible_append.mpr
      ⟨InterfaceHead.nodes_areLegible below.1 legible.1, methods⟩⟩
  | .enumType _ _, sound, legible =>
    isLegible_mk.mpr ⟨trivial, EnumDeclaration.nodes_areLegible sound.children legible⟩

theorem Member.isLegible : (m : Member) → m.node.IsSound → AllLegible m.forms → m.node.IsLegible
  | .field _ _, sound, legible => Field.isLegible sound legible
  | .method _ _, sound, legible => Method.isLegible sound legible
  | .constructor _ _, sound, legible => Constructor.isLegible sound legible
  | .property _ _, sound, legible => Property.isLegible sound legible
  | .initializer _ _, _, legible => Initializer.isLegible legible
  | .type declaration, sound, legible => declaration.isLegible sound legible
  | .stray _, _, _ => isLegible_leaf.mpr trivial

theorem Member.nodes_areLegible : (ms : List Member) → (∀ m ∈ ms, m.node.IsSound) →
    (∀ m ∈ ms, AllLegible m.forms) → AreLegible (Member.nodes ms)
  | [], _, _ => areLegible_nil
  | m :: ms, sound, legible => by
    rw [List.forall_mem_cons] at sound legible
    exact areLegible_cons.mpr ⟨m.isLegible sound.1 legible.1,
      Member.nodes_areLegible ms sound.2 legible.2⟩

end

/-! ## Programs -/

theorem Declaration.isLegible : (d : Declaration) → d.node.IsSound → AllLegible d.forms →
    d.node.IsLegible
  | .type declaration, sound, legible => declaration.isLegible sound legible
  | .trigger _ _, _, legible => Trigger.isLegible legible
  | .nothing _, _, _ => isLegible_leaf.mpr trivial

/-- The tree of an accepted source is legible. -/
theorem isLegible_of_parseSource {source : String} {unit : CompilationUnit}
    (accepted : parseSource source = .ok unit) : unit.node.IsLegible := by
  unfold parseSource at accepted
  cases read : lex source with
  | error errors =>
    rw [read] at accepted
    cases errors <;> cases accepted
  | ok tokens =>
    rw [read] at accepted
    obtain ⟨c', stands⟩ := (parse_echoes accepted (sound_of_lex read)).1
    have legible := legible_of_stands stands (sound_of_lex read)
    have below := (isSound_of_parse accepted).children
    simp only [CompilationUnit.node, Node.children, allSound_cons] at below
    have declaration := unit.declaration.isLegible below.1 (allLegible_append.mp legible).1
    exact isLegible_mk.mpr ⟨trivial, areLegible_cons.mpr ⟨declaration, areLegible_nil⟩⟩

end Apex
