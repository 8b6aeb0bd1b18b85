import Apex.Proofs.Depth.Paths
import Apex.Proofs.Shape.Elements
import Apex.Proofs.Spans.Types

/-!
# The depth of types and headers

A level of the grammar takes what is nested in its constructs from the level below. So if what is
nested stays below a limit, a type, an annotation or a header stays within it.
-/

namespace Apex

open Node

/-! ## What may be nested -/

/-- No annotation of the header goes deeper than the limit. -/
def Header.FitsIn (limit : Nat) (h : Header) : Prop := ∀ a ∈ h.annotations, a.node.FitsIn limit

namespace Node

/-- A type's declaration whose header may go deeper than what stands in its body. A path into a
member's header counts the member as well. -/
def FitsType (inside header : Nat) (n : Node) : Prop :=
  ∀ path, n.crossings path ≤
    if n.entersAnnotated path then header else inside + (n.entersMemberHeader path).toNat

end Node

/-- What is read one level down stays below the limit. A member type's header is read before the
member, so it only stays within the limit. -/
structure Deeper.Fits (limit : Nat) (D : Deeper) : Prop where
  typeRef : D.typeRef.Yields (·.node.FitsBelow limit)
  annotationMark : D.annotationMark.Yields (·.node.FitsBelow limit)
  annotationValue : D.annotationValue.Yields (·.node.FitsBelow limit)
  assignment : D.assignment.Yields (·.node.FitsBelow limit)
  ternary : D.ternary.Yields (·.node.FitsBelow limit)
  unary : D.unary.Yields (·.node.FitsBelow limit)
  statement : D.statement.Yields (·.node.FitsBelow limit)
  typeDeclaration : ∀ {read}, read.header.FitsIn limit →
    (D.typeDeclaration read).Yields fun t => ∃ inside, limit = inside + 1 ∧ t.node.FitsType inside limit

section Nodes

variable {limit i : Nat} {parent : Element}

@[simp] theorem element_identifierNode (i : Ident) : i.identifierNode.element = .identifier i.value := rfl

@[simp] theorem element_modifierNode (m : Spanned Modifier) :
    m.modifierNode.element = .modifier m.value := rfl

@[simp] theorem fitsIn_identifier (i : Ident) : i.identifierNode.FitsIn limit := fitsIn_leaf

@[simp] theorem fitsIn_modifier (m : Spanned Modifier) : m.modifierNode.FitsIn limit := fitsIn_leaf

@[simp] theorem element_type (t : TypeRef) : t.node.element = .type t := by
  cases t
  rfl

@[simp] theorem element_annotated (a : AnnotationMark) : a.node.element = .annotated a := by
  cases a
  rfl

theorem allFit_identifiers (h : ∀ i text, parent.deepens i (.identifier text) = false)
    (names : List Ident) : AllFit limit parent i (names.map Spanned.identifierNode) :=
  allFit_map fun name _ i => by simp [h]

theorem allFit_modifiers (h : ∀ i m, parent.deepens i (.modifier m) = false)
    (ms : List (Spanned Modifier)) : AllFit limit parent i (ms.map Spanned.modifierNode) :=
  allFit_map fun m _ i => by simp [h]

end Nodes

namespace Grammar

open Apex.Parser

variable {limit : Nat} {D : Deeper}

/-! ## Types -/

theorem typeArguments_fits {argument : Parser TypeRef} (ha : argument.Yields (·.node.FitsBelow limit)) :
    (typeArguments argument).Yields fun types => ∀ t ∈ types, t.node.FitsBelow limit := by
  intro c types c' h
  rcases typeArguments_ok.mp h with ⟨_, types, _, run, _, done⟩ | ⟨_, done⟩
  · cases done
    exact (commaSeparated_yields ha run).2
  · cases done
    exact fun _ ht => nomatch ht

/-- A type fits if its arguments stay below the limit. -/
theorem fits_type {span : Span} {segments : List Ident} {arguments : List TypeRef}
    {dimensions : Nat} (fits : ∀ t ∈ arguments, t.node.FitsBelow limit) :
    (TypeRef.node ⟨span, segments, arguments, dimensions⟩).FitsIn limit := by
  refine fitsIn_mk (allFit_append.mpr ⟨allFit_identifiers (fun _ _ => rfl) _, ?_⟩)
  rw [TypeRef.nodes_eq_map]
  exact allFit_map fun t ht i => (fits t ht).fitsBehind _

theorem elementType_fits {argument : Parser TypeRef} (ha : argument.Yields (·.node.FitsBelow limit)) :
    (elementType argument).Yields fun t => ∀ a ∈ t.arguments, a.node.FitsBelow limit := by
  intro c t c' h
  obtain ⟨segments, _, types, _, names, args, done⟩ := elementType_ok.mp h
  cases done
  exact typeArguments_fits ha args

theorem typeRef_fits {argument : Parser TypeRef} (ha : argument.Yields (·.node.FitsBelow limit)) :
    (typeRef argument).Yields (·.node.FitsIn limit) := by
  intro c t c' h
  obtain ⟨element, _, dimensions, _, run, _, done⟩ := typeRef_ok.mp h
  cases done
  exact fits_type (elementType_fits ha run)

theorem qualifiedName_fits (q : QualifiedName) : q.node.FitsIn limit :=
  fitsIn_mk (allFit_identifiers (fun _ _ => rfl) _)

/-! ## Annotations -/

/-- A value fits where it is given: an annotation as a value is nested. -/
def ValueFits (limit : Nat) (v : AnnotationValue) : Prop :=
  v.node.FitsBehind limit v.node.element.isAnnotated

theorem literalValue_fits : literalValue.Yields (ValueFits limit) := by
  intro c v c' h
  rcases literalValue_ok.mp h with ⟨_, _, _, done⟩ | ⟨_, _, _, done⟩
  · cases done
    exact fitsBehind_false.mpr fitsIn_leaf
  · cases done
    exact fitsBehind_false.mpr fitsIn_leaf

theorem arrayValues_fits (hD : D.Fits limit) :
    (arrayValues D).Yields fun vs => ∀ v ∈ vs, v.node.FitsBelow limit := by
  have value : (arrayValue D).Yields (·.node.FitsBelow limit) := by
    intro c v c' h
    obtain ⟨_, _, run, _, done⟩ := arrayValue_ok.mp h
    cases done
    exact hD.annotationValue run
  intro c vs c' h
  rcases arrayValues_ok.mp h with ⟨_, done⟩ | ⟨_, run⟩
  · cases done
    exact fun _ hv => nomatch hv
  · exact (commaSeparated_yields value run).2

theorem annotationValue_fits (hD : D.Fits limit) : (annotationValue D).Yields (ValueFits limit) := by
  intro c v c' h
  rcases annotationValue_ok.mp h with
    ⟨_, inner, _, run, done⟩ | ⟨_, values, _, run, _, done⟩ | ⟨_, _, run⟩
  · cases done
    exact (hD.annotationMark run).fitsBehind _
  · cases done
    refine fitsBehind_false.mpr (fitsIn_mk ?_)
    rw [AnnotationValue.nodes_eq_map]
    exact allFit_map fun v hv i => (arrayValues_fits hD run v hv).fitsBehind _
  · exact literalValue_fits run

/-- Whether an argument's value is nested in it. -/
theorem deepens_annotationElement (e : AnnotationElement) (i : Nat) (child : Element) :
    (Element.annotationElement e).deepens i child = child.isAnnotated := by
  cases child <;> rfl

/-- An argument fits if its value does. -/
theorem fits_element {span : Span} {key : Option Ident} {value : AnnotationValue} {comma : Bool}
    (h : ValueFits limit value) : (AnnotationElement.mk span key value comma).node.FitsIn limit := by
  refine fitsIn_mk (allFit_append.mpr ⟨allFit_option fun a _ i => ?_, allFit_cons.mpr ⟨?_, trivial⟩⟩)
  · rw [deepens_annotationElement]
    exact fitsBehind_false.mpr (fitsIn_identifier a)
  · rw [deepens_annotationElement]
    exact h

theorem keyedElement_fits (hD : D.Fits limit) : (keyedElement D).Yields (·.node.FitsIn limit) := by
  intro c e c' h
  obtain ⟨key, _, value, _, _, _, run, _, ends⟩ := keyedElement_ok.mp h
  have fits := annotationValue_fits hD run
  rcases ends with ⟨_, done⟩ | ⟨_, done⟩
  · cases done
    exact fits_element fits
  · cases done
    exact fits_element fits

theorem annotationElements_fits (hD : D.Fits limit) :
    (annotationElements D).Yields fun es => ∀ e ∈ es, e.node.FitsIn limit := by
  intro c es c' h
  rcases annotationElements_ok.mp h with
    ⟨_, run⟩ | ⟨_, _, done⟩ | ⟨_, _, value, _, run, _, done⟩
  · exact itemsUntil_yields (keyedElement_fits hD) _ run
  · cases done
    nofun
  · cases done
    exact List.forall_mem_singleton.mpr (fits_element (annotationValue_fits hD run))

/-- An annotation fits if its arguments do. -/
theorem fits_annotationMark {span : Span} {name : Ident} {elements : List AnnotationElement}
    {parenthesized : Bool} (h : ∀ e ∈ elements, e.node.FitsIn limit) :
    (AnnotationMark.mk span name elements parenthesized).node.FitsIn limit := by
  refine fitsIn_mk ⟨fitsBehind_false.mpr (fitsIn_identifier name), ?_⟩
  rw [AnnotationElement.nodes_eq_map]
  exact allFit_map fun e he i => fitsBehind_false.mpr (h e he)

theorem annotation_fits (hD : D.Fits limit) : (annotationMark D).Yields (·.node.FitsIn limit) := by
  intro c a c' h
  obtain ⟨_, name, _, _, rest⟩ := annotation_ok.mp h
  rcases rest with ⟨_, elements, _, args, _, done⟩ | ⟨_, done⟩
  · cases done
    exact fits_annotationMark (annotationElements_fits hD args)
  · cases done
    exact fits_annotationMark nofun

/-! ## Headers -/

theorem header_fits (hD : D.Fits limit) : (header D).Yields (·.header.FitsIn limit) := by
  intro c read c' h
  rw [header_eq] at h
  obtain ⟨items, _, run, done⟩ := map_ok.mp h
  cases done
  refine yields_of_iterates (I := fun items => (headerOf items).header.FitsIn limit)
    (Q := fun items => (headerOf items).header.FitsIn limit) (iterates_of_iterate run) ?_ ?_
    (fun _ ha => nomatch ha)
  · intro items c next c₁ fits run
    rcases itemStep_ok.mp run with ⟨i, _, read, fresh, turn⟩ | ⟨_, _, turn⟩
    · cases turn
      cases i with
      | annotated a => exact List.forall_mem_cons.mpr ⟨annotation_fits hD read.2, fits⟩
      | modifier m => exact fits
    · cases turn
  · intro items c result c₁ fits run
    rcases itemStep_ok.mp run with ⟨_, _, _, _, turn⟩ | ⟨_, _, turn⟩
    · cases turn
    · cases turn
      intro a ha
      have ha : a ∈ items.reverse.filterMap HeaderItem.annotationMark? := ha
      rw [List.filterMap_reverse] at ha
      exact fits a (List.mem_reverse.mp ha)

/-- What stands in a header fits, and is an annotation or a word. -/
theorem fits_header {h : Header} (fits : h.FitsIn limit) :
    ∀ n ∈ h.nodes, n.FitsIn limit ∧
      ((∃ a, n.element = .annotated a) ∨ ∃ m, n = Spanned.modifierNode m) := by
  intro n hn
  obtain ⟨item, hi, rfl⟩ := List.mem_map.mp hn
  rcases Grammar.mem_foldr_insertItem hi with hi | hi
  · rcases List.mem_append.mp hi with hi | hi
    · obtain ⟨a, ha, rfl⟩ := List.mem_map.mp hi
      exact ⟨fits a ha, .inl ⟨a, element_annotated a⟩⟩
    · obtain ⟨m, _, rfl⟩ := List.mem_map.mp hi
      exact ⟨fitsIn_modifier m, .inr ⟨m, rfl⟩⟩
  · cases hi

end Grammar

end Apex
