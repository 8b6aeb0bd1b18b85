import Apex.Proofs.Shape.Elements
import Apex.Proofs.Spans.Types

/-!
# The shape of types and headers

Types, annotations and headers are read sound: names have parts, no modifier comes twice, and the
arguments of an annotation have keys or are alone.
-/

namespace Apex

open Node

/-! ## What may be nested -/

/-- The header holds no modifier twice, and its annotations are sound. -/
structure Header.IsSound (h : Header) : Prop where
  distinct : Distinct h.modifiers
  annotations : ∀ a ∈ h.annotations, a.node.IsSound

theorem isSound_modifiers (ms : List (Spanned Modifier)) :
    AllSound (ms.map Spanned.modifierNode) :=
  allSound_map.mpr fun _ _ => isSound_leaf trivial

theorem isSound_identifiers (names : List Ident) : AllSound (names.map Spanned.identifierNode) :=
  allSound_map.mpr fun _ _ => isSound_leaf trivial

@[simp] theorem isSound_identifier (i : Ident) : i.identifierNode.IsSound := isSound_leaf trivial

theorem Header.IsSound.nodes {h : Header} (hh : h.IsSound) : AllSound h.nodes := by
  intro n hn
  obtain ⟨item, hi, rfl⟩ := List.mem_map.mp hn
  rcases Grammar.mem_foldr_insertItem hi with hi | hi
  · rcases List.mem_append.mp hi with hi | hi
    · obtain ⟨a, ha, rfl⟩ := List.mem_map.mp hi
      exact hh.annotations a ha
    · obtain ⟨m, _, rfl⟩ := List.mem_map.mp hi
      exact isSound_leaf trivial
  · cases hi

/-- The constructs one level down are read sound, and operands bind as tightly as they must. -/
structure Deeper.Sound (D : Deeper) : Prop where
  typeRef : D.typeRef.Yields (·.node.IsSound)
  annotationMark : D.annotationMark.Yields (·.node.IsSound)
  annotationValue : D.annotationValue.Yields (·.node.IsSound)
  assignment : D.assignment.Yields (·.node.IsSound)
  ternary : D.ternary.Yields fun e => e.node.IsSound ∧ Binding.conditional ≤ e.binding
  unary : D.unary.Yields fun e => e.node.IsSound ∧ Binding.before ≤ e.binding
  statement : D.statement.Yields (·.node.IsSound)
  typeDeclaration : ∀ {read}, read.header.IsSound →
    (D.typeDeclaration read).Yields (·.node.IsSound)

namespace Grammar

open Apex.Parser

variable {D : Deeper}

/-! ## Types -/

theorem typeSegments_ne_nil : typeSegments.Yields (· ≠ []) := by
  intro c segments c' h
  obtain ⟨first, _, more, rfl, _⟩ := typeSegments_ok.mp h
  exact List.cons_ne_nil _ _

theorem typeArguments_yields {argument : Parser TypeRef} (ha : argument.Yields (·.node.IsSound)) :
    (typeArguments argument).Yields fun types => ∀ t ∈ types, t.node.IsSound := by
  intro c types c' h
  rcases typeArguments_ok.mp h with ⟨_, types, _, run, _, done⟩ | ⟨_, done⟩
  · cases done
    exact (commaSeparated_yields ha run).2
  · cases done
    exact fun _ ht => nomatch ht

/-- A type is sound if its name has a part and its arguments are sound. -/
theorem isSound_type {span : Span} {segments : List Ident} {arguments : List TypeRef}
    {dimensions : Nat} (named : segments ≠ []) (sound : ∀ t ∈ arguments, t.node.IsSound) :
    (TypeRef.node ⟨span, segments, arguments, dimensions⟩).IsSound := by
  refine .mk named (allSound_append.mpr ⟨isSound_identifiers _, ?_⟩)
  rw [TypeRef.nodes_eq_map]
  exact allSound_map.mpr sound

theorem elementType_yields {argument : Parser TypeRef} (ha : argument.Yields (·.node.IsSound)) :
    (elementType argument).Yields fun t =>
      t.dimensions = 0 ∧ t.segments ≠ [] ∧ ∀ a ∈ t.arguments, a.node.IsSound := by
  intro c t c' h
  obtain ⟨segments, _, types, _, names, args, done⟩ := elementType_ok.mp h
  cases done
  exact ⟨rfl, typeSegments_ne_nil names, typeArguments_yields ha args⟩

theorem typeRef_yields {argument : Parser TypeRef} (ha : argument.Yields (·.node.IsSound)) :
    (typeRef argument).Yields (·.node.IsSound) := by
  intro c t c' h
  obtain ⟨element, _, dimensions, _, run, _, done⟩ := typeRef_ok.mp h
  cases done
  obtain ⟨_, named, sound⟩ := elementType_yields ha run
  exact isSound_type named sound

theorem qualifiedName_yields : qualifiedName.Yields (·.node.IsSound) := by
  intro c q c' h
  obtain ⟨first, _, parts, _, _, loop, done⟩ := qualifiedName_ok.mp h
  cases done
  obtain ⟨more, rfl, _⟩ := parts_ok.mp loop
  exact .mk (List.cons_ne_nil _ _) (isSound_identifiers _)

/-! ## Modifiers -/

theorem modifiers_distinct : modifiers.Yields Distinct := by
  intro c ms c' h
  refine yields_of_iterates (I := Distinct) (iterates_of_iterate h) ?_ ?_ .nil
  · intro read c next c₁ distinct run
    rcases modifierStep_ok.mp run with ⟨m, _, _, fresh, turn⟩ | ⟨_, _, turn⟩
    · cases turn
      exact distinct.cons fresh
    · cases turn
  · intro read c ms c₁ distinct run
    rcases modifierStep_ok.mp run with ⟨_, _, _, _, turn⟩ | ⟨_, _, turn⟩
    · cases turn
    · cases turn
      exact distinct.reverse

/-! ## Annotations -/

theorem literalValue_yields : literalValue.Yields (·.node.IsSound) := by
  intro c v c' h
  rcases literalValue_ok.mp h with ⟨_, _, _, done⟩ | ⟨_, _, _, done⟩
  · cases done
    exact isSound_leaf trivial
  · cases done
    exact isSound_leaf trivial

theorem arrayValues_yields (hD : D.Sound) :
    (arrayValues D).Yields fun vs => ∀ v ∈ vs, v.node.IsSound := by
  have value : (arrayValue D).Yields (·.node.IsSound) := by
    intro c v c' h
    obtain ⟨_, _, run, _, done⟩ := arrayValue_ok.mp h
    cases done
    exact hD.annotationValue run
  intro c vs c' h
  rcases arrayValues_ok.mp h with ⟨_, done⟩ | ⟨_, run⟩
  · cases done
    exact fun _ hv => nomatch hv
  · exact (commaSeparated_yields value run).2

theorem annotationValue_yields (hD : D.Sound) : (annotationValue D).Yields (·.node.IsSound) := by
  intro c v c' h
  rcases annotationValue_ok.mp h with
    ⟨_, inner, _, run, done⟩ | ⟨_, values, _, run, _, done⟩ | ⟨_, _, run⟩
  · cases done
    exact hD.annotationMark run
  · cases done
    refine .mk trivial ?_
    rw [AnnotationValue.nodes_eq_map]
    exact allSound_map.mpr (arrayValues_yields hD run)
  · exact literalValue_yields run

/-- An argument is sound if its value is. -/
theorem isSound_element {span : Span} {key : Option Ident} {value : AnnotationValue}
    {comma : Bool} (h : value.node.IsSound) :
    (AnnotationElement.mk span key value comma).node.IsSound := by
  refine .mk trivial (allSound_append.mpr ⟨?_, ?_⟩)
  · exact allSound_option.mpr fun _ _ => isSound_leaf trivial
  · simpa using h

theorem keyedElement_yields (hD : D.Sound) :
    (keyedElement D).Yields fun e => e.key ≠ none ∧ e.node.IsSound := by
  intro c e c' h
  obtain ⟨key, _, value, _, _, _, run, _, ends⟩ := keyedElement_ok.mp h
  have sound := annotationValue_yields hD run
  rcases ends with ⟨_, done⟩ | ⟨_, done⟩
  · cases done
    exact ⟨nofun, isSound_element sound⟩
  · cases done
    exact ⟨nofun, isSound_element sound⟩

/-- Arguments have keys, or there is one alone. -/
theorem annotationElements_yields (hD : D.Sound) :
    (annotationElements D).Yields fun es =>
      (∀ e ∈ es, e.key = none → es = [e] ∧ e.comma = false) ∧ ∀ e ∈ es, e.node.IsSound := by
  intro c es c' h
  rcases annotationElements_ok.mp h with
    ⟨_, run⟩ | ⟨_, _, done⟩ | ⟨_, _, value, _, run, _, done⟩
  · have keyed := itemsUntil_yields (keyedElement_yields hD) _ run
    exact ⟨fun e he none => absurd none (keyed e he).1, fun e he => (keyed e he).2⟩
  · cases done
    exact ⟨nofun, nofun⟩
  · cases done
    have sound : (AnnotationElement.mk value.span none value false).node.IsSound :=
      isSound_element (annotationValue_yields hD run)
    constructor
    · intro e he _
      cases List.mem_singleton.mp he
      exact ⟨rfl, rfl⟩
    · intro e he
      cases List.mem_singleton.mp he
      exact sound

theorem annotation_yields (hD : D.Sound) : (annotationMark D).Yields (·.node.IsSound) := by
  intro c a c' h
  obtain ⟨_, name, _, _, rest⟩ := annotation_ok.mp h
  rcases rest with ⟨_, elements, _, args, _, done⟩ | ⟨_, done⟩
  · cases done
    obtain ⟨alone, sound⟩ := annotationElements_yields hD args
    refine .mk ⟨nofun, alone⟩ ?_
    rw [AnnotationElement.nodes_eq_map]
    exact allSound_cons.mpr ⟨isSound_leaf trivial, allSound_map.mpr sound⟩
  · cases done
    exact .mk ⟨fun _ => rfl, nofun⟩
      (allSound_cons.mpr ⟨isSound_leaf trivial, allSound_nil⟩)

/-! ## Headers -/

theorem header_yields (hD : D.Sound) : (header D).Yields (·.header.IsSound) := by
  intro c read c' h
  rw [header_eq] at h
  obtain ⟨items, _, run, done⟩ := map_ok.mp h
  cases done
  refine yields_of_iterates (I := fun items => (headerOf items).header.IsSound)
    (Q := fun items => (headerOf items).header.IsSound) (iterates_of_iterate run) ?_ ?_
    ⟨.nil, fun _ ha => nomatch ha⟩
  · intro items c next c₁ sound run
    rcases itemStep_ok.mp run with ⟨i, _, read, fresh, turn⟩ | ⟨_, _, turn⟩
    · cases turn
      cases i with
      | annotated a =>
        exact ⟨sound.distinct,
          List.forall_mem_cons.mpr ⟨annotation_yields hD read.2, sound.annotations⟩⟩
      | modifier m =>
        have fresh : (items.filterMap HeaderItem.modifier?).any (·.value == m.value) = false := by
          simpa only [HeaderItem.freshAmong, Bool.not_eq_true'] using fresh
        exact ⟨sound.distinct.cons fresh, sound.annotations⟩
    · cases turn
  · intro items c result c₁ sound run
    rcases itemStep_ok.mp run with ⟨_, _, _, _, turn⟩ | ⟨_, _, turn⟩
    · cases turn
    · cases turn
      constructor
      · show Distinct (items.reverse.filterMap HeaderItem.modifier?)
        rw [List.filterMap_reverse]
        exact sound.distinct.reverse
      · intro a ha
        have ha : a ∈ items.reverse.filterMap HeaderItem.annotationMark? := ha
        rw [List.filterMap_reverse] at ha
        exact sound.annotations a (List.mem_reverse.mp ha)

end Grammar

end Apex
