import Apex.Grammar.Header
import Apex.Grammar.Type
import Apex.Proofs.Safety.Parsers

/-!
# Types and headers in a family of spans

Types, modifiers and annotations are read without leaving a family of spans, and so are the errors
of annotations, which reach from a value to what stands behind it.
-/

namespace Apex

variable {S : Span.Family} {D : Deeper}

/-- Everything in the header lies in the family. -/
structure Header.LiesIn (S : Span.Family) (h : Header) : Prop where
  annotations : ∀ a ∈ h.annotations, a.node.LiesIn S
  modifiers : ∀ m ∈ h.modifiers, m.span ∈ S

theorem Header.LiesIn.nodes {h : Header} (lies : h.LiesIn S) : ∀ n ∈ h.nodes, n.LiesIn S := by
  intro n mem
  obtain ⟨item, found, rfl⟩ := List.mem_map.mp mem
  rcases Grammar.mem_foldr_insertItem found with mem | mem
  · rcases List.mem_append.mp mem with mem | mem
    · obtain ⟨a, given, rfl⟩ := List.mem_map.mp mem
      exact lies.annotations a given
    · obtain ⟨m, given, rfl⟩ := List.mem_map.mp mem
      exact Node.liesIn_modifier.mpr (lies.modifiers m given)
  · cases mem

/-- A header that has been read lies in the family with its place. -/
structure ReadHeader.LiesIn (S : Span.Family) (read : ReadHeader) : Prop where
  header : read.header.LiesIn S
  start : ∀ s ∈ read.start, s ∈ S

/-- The constructs one level down stay in the family. -/
structure Deeper.StaysIn (S : Span.Family) (D : Deeper) : Prop where
  typeRef : D.typeRef.StaysIn S (·.node.LiesIn S)
  annotationMark : D.annotationMark.StaysIn S (·.node.LiesIn S)
  annotationValue : D.annotationValue.StaysIn S (·.node.LiesIn S)
  assignment : D.assignment.StaysIn S (·.node.LiesIn S)
  ternary : D.ternary.StaysIn S (·.node.LiesIn S)
  unary : D.unary.StaysIn S (·.node.LiesIn S)
  statement : D.statement.StaysIn S (·.node.LiesIn S)
  typeDeclaration : ∀ {read}, read.LiesIn S →
    (D.typeDeclaration read).StaysIn S (·.node.LiesIn S)
  ahead : ∀ look, (D.ahead look).StaysIn S fun _ => True

namespace Grammar

open Apex.Parser (StaysIn Turn)
open Apex.Parser.StaysIn

/-! ## Types -/

theorem typeSegments_staysIn :
    StaysIn S (fun names : List Ident => ∀ name ∈ names, name.span ∈ S) typeSegments := by
  refine identifier.bind fun first hf => collect (fun names all => ?_)
    (List.forall_mem_singleton.mpr hf)
  refine (isAt _).bind fun _ _ => (kindAt 1).bind fun _ _ => ite ?_ (doneReverse all)
  exact advance.bind fun _ _ => againCons identifier all

theorem typeArguments_staysIn {argument : Parser TypeRef}
    (h : StaysIn S (·.node.LiesIn S) argument) :
    StaysIn S (fun types => ∀ t ∈ types, t.node.LiesIn S) (typeArguments argument) := by
  refine (accept _).bind fun _ _ => ite ?_ (pure (List.forall_mem_nil _))
  refine (commaSeparated h).bind fun types all => (accept _).bind fun _ _ => ?_
  exact ite (pure all) (fail _)

theorem elementType_staysIn {argument : Parser TypeRef}
    (h : StaysIn S (·.node.LiesIn S) argument) :
    StaysIn S (·.node.LiesIn S) (elementType argument) := by
  refine here.bind fun start hs => typeSegments_staysIn.bind fun segments hseg => ?_
  refine (typeArguments_staysIn h).bind fun types ht => ?_
  refine (spanFrom hs).bind fun span own => pure ?_
  simp only [TypeRef.node, TypeRef.nodes_eq_map, Node.liesIn_mk, Element.binds, lieIn_nil,
    List.forall_mem_append, List.forall_mem_map, Node.liesIn_identifier]
  exact ⟨own, trivial, hseg, ht⟩

theorem arrayBrackets_staysIn : StaysIn S (fun _ => True) arrayBrackets := by
  refine iterate (I := fun _ => True) (fun count _ => ?_) trivial
  refine (isAt _).bind fun _ _ => (kindAt 1).bind fun _ _ => ite ?_ (pure trivial)
  exact advance.bind fun _ _ => advance.bind fun _ _ => pure trivial

theorem typeRef_staysIn {argument : Parser TypeRef} (h : StaysIn S (·.node.LiesIn S) argument) :
    StaysIn S (·.node.LiesIn S) (typeRef argument) := by
  refine here.bind fun start hs => (elementType_staysIn h).bind fun type ht => ?_
  refine arrayBrackets_staysIn.bind fun dimensions _ => (spanFrom hs).bind fun span own => pure ?_
  obtain ⟨_, segments, types, _⟩ := type
  obtain ⟨-, binds, below⟩ := ht
  exact .mk own binds below

/-! ## Modifiers -/

theorem sharingModifier_staysIn (m : Modifier) :
    StaysIn S (fun found : Option (Spanned Modifier) => ∀ m ∈ found, m.span ∈ S)
      (sharingModifier m) := by
  refine here.bind fun start hs => (skip 2).bind fun _ _ => (spanFrom hs).bind fun span own => ?_
  exact pure (by simpa using own)

theorem modifier?_staysIn :
    StaysIn S (fun found : Option (Spanned Modifier) => ∀ m ∈ found, m.span ∈ S) modifier? := by
  have none : StaysIn S (fun found : Option (Spanned Modifier) => ∀ m ∈ found, m.span ∈ S)
      (Pure.pure none) := pure fun _ mem => nomatch mem
  refine (kindAt 1).bind fun ahead _ => kind.bind fun k _ => ?_
  split
  · refine ite (sharingModifier_staysIn _) ?_
    exact advance.bind fun _ _ => fail _
  · split
    · exact next.bind fun t ht => pure (by simpa using ht.span)
    · exact none
  · exact ite (sharingModifier_staysIn _) (ite (sharingModifier_staysIn _) none)

theorem checkFresh_staysIn (earlier : List (Spanned Modifier)) {m : Spanned Modifier}
    (h : m.span ∈ S) : StaysIn S (fun _ => True) (checkFresh earlier m) :=
  ite (throw h) (pure trivial)

theorem modifiers_staysIn :
    StaysIn S (fun ms : List (Spanned Modifier) => ∀ m ∈ ms, m.span ∈ S) modifiers := by
  refine collect (fun ms all => modifier?_staysIn.bind fun found hm => ?_) (List.forall_mem_nil _)
  cases found with
  | none => exact doneReverse all
  | some m =>
    have own : m.span ∈ S := hm m rfl
    refine (checkFresh_staysIn ms own).bind fun _ _ => pure ?_
    exact List.forall_mem_cons.mpr ⟨own, all⟩

/-! ## Annotations -/

theorem checkValueEnds_staysIn {value : Span} (h : value ∈ S) (followers : List Punctuation) :
    StaysIn S (fun _ => True) (checkValueEnds value followers) :=
  current.bind fun _ ht => ite (throw (Span.Family.merge_mem h ht.span)) (pure trivial)

theorem binds_of_annotationLiteral? {k : TokenKind} {v : Literal}
    (found : annotationLiteral? k = some v) : v.binds = [] := by
  unfold annotationLiteral? at found
  split at found <;> cases found <;> rfl

theorem binds_of_negatedLiteral? {k : TokenKind} {v : Literal}
    (found : negatedLiteral? k = some v) : v.binds = [] := by
  unfold negatedLiteral? at found
  split at found <;> cases found <;> rfl

theorem literalValue_staysIn : StaysIn S (·.node.LiesIn S) literalValue := by
  refine here.bind fun start hs => (isAt _).bind fun negative _ => (kindAt _).bind fun k _ => ?_
  split
  · next v found =>
    have bindless : v.binds = [] := by
      split at found
      · exact binds_of_negatedLiteral? found
      · exact binds_of_annotationLiteral? found
    refine (skip _).bind fun _ _ => (spanFrom hs).bind fun span own => pure ?_
    simp [AnnotationValue.node, own, bindless]
  · exact getBind fun c row => throw (Span.Family.merge_mem (row.peek _).span hs)

theorem arrayValues_staysIn (hD : D.StaysIn S) :
    StaysIn S (fun vs => ∀ v ∈ vs, v.node.LiesIn S) (arrayValues D) := by
  refine (isAt _).bind fun _ _ => ite (pure (List.forall_mem_nil _)) (commaSeparated ?_)
  refine hD.annotationValue.bind fun v hv => ?_
  exact (checkValueEnds_staysIn (AnnotationValue.span_mem hv) _).bind fun _ _ => pure hv

theorem annotationValue_staysIn (hD : D.StaysIn S) :
    StaysIn S (·.node.LiesIn S) (annotationValue D) := by
  refine here.bind fun start hs => (isAt _).bind fun _ _ => ite ?_ ?_
  · exact hD.annotationMark.bind fun a ha => pure ha
  refine (accept _).bind fun _ _ => ite ?_ literalValue_staysIn
  refine (arrayValues_staysIn hD).bind fun values hv => (expect _).bind fun _ _ => ?_
  refine (spanFrom hs).bind fun span own => pure ?_
  simpa [AnnotationValue.node, AnnotationValue.nodes_eq_map, own] using hv

theorem keyAhead_staysIn : StaysIn S (fun _ => True) keyAhead :=
  kind.bind fun _ _ => (kindAt 1).bind fun _ _ => pure trivial

theorem keyedElement_staysIn (hD : D.StaysIn S) :
    StaysIn S (·.node.LiesIn S) (keyedElement D) := by
  refine identifier.bind fun key hk => (expect _).bind fun _ _ => ?_
  refine (annotationValue_staysIn hD).bind fun value hv => ?_
  have own := AnnotationValue.span_mem hv
  refine keyAhead_staysIn.bind fun ahead _ => check (checkValueEnds_staysIn own _) ?_
  refine (accept _).bind fun comma _ => pure ?_
  simp [AnnotationElement.node, Span.Family.merge_mem hk own, hk, hv]

theorem annotationElements_staysIn (hD : D.StaysIn S) :
    StaysIn S (fun es => ∀ e ∈ es, e.node.LiesIn S) (annotationElements D) := by
  refine keyAhead_staysIn.bind fun _ _ => ite (itemsUntil (keyedElement_staysIn hD) _) ?_
  refine (isAt _).bind fun _ _ => ite (pure (List.forall_mem_nil _)) ?_
  refine (annotationValue_staysIn hD).bind fun value hv => ?_
  have own := AnnotationValue.span_mem hv
  refine (checkValueEnds_staysIn own _).bind fun _ _ => pure (List.forall_mem_singleton.mpr ?_)
  simp [AnnotationElement.node, own, hv]

theorem annotation_staysIn (hD : D.StaysIn S) : StaysIn S (·.node.LiesIn S) (annotationMark D) := by
  refine (expect _).bind fun start hs => identifier.bind fun name hn => ?_
  have close {elements : List AnnotationElement} (all : ∀ e ∈ elements, e.node.LiesIn S)
      (parenthesized : Bool) :
      StaysIn S (fun a : AnnotationMark => a.node.LiesIn S)
        (do return .mk (← Parser.spanFrom start) name elements parenthesized) := by
    refine (spanFrom hs).bind fun span own => pure ?_
    simpa [AnnotationMark.node, AnnotationElement.nodes_eq_map, own, hn] using all
  refine (accept _).bind fun _ _ => ite ?_ (close (List.forall_mem_nil _) _)
  refine (annotationElements_staysIn hD).bind fun elements all => ?_
  exact (expect _).bind fun _ _ => close all _

/-! ## Headers -/

theorem header_staysIn (hD : D.StaysIn S) : StaysIn S (ReadHeader.LiesIn S) (header D) := by
  have start {read : Option Span} {s : Span} (h : ∀ s ∈ read, s ∈ S) (own : s ∈ S) :
      ∀ s' ∈ read.or (some s), s' ∈ S := by
    cases read with
    | none => simpa using own
    | some first => simpa using h
  have empty : ReadHeader.LiesIn S ⟨⟨[], []⟩, none⟩ :=
    ⟨⟨List.forall_mem_nil _, List.forall_mem_nil _⟩, fun _ mem => nomatch mem⟩
  refine iterate (fun read lies => ?_) empty
  obtain ⟨⟨annotations, modifiers⟩, first⟩ := read
  obtain ⟨⟨ha, hm⟩, hs⟩ := lies
  refine (isAt _).bind fun _ _ => ite ?_ (modifier?_staysIn.bind fun found holds => ?_)
  · refine (annotation_staysIn hD).bind fun a own => pure ?_
    exact ⟨⟨List.forall_mem_cons.mpr ⟨own, ha⟩, hm⟩, start hs (AnnotationMark.span_mem own)⟩
  cases found with
  | none =>
    refine pure ⟨⟨fun a mem => ha a ?_, fun m mem => hm m ?_⟩, hs⟩
    · exact List.mem_reverse.mp mem
    · exact List.mem_reverse.mp mem
  | some m =>
    have own : m.span ∈ S := holds m rfl
    refine (checkFresh_staysIn modifiers own).bind fun _ _ => pure ?_
    exact ⟨⟨ha, List.forall_mem_cons.mpr ⟨own, hm⟩⟩, start hs own⟩

theorem declarationStart_staysIn {read : ReadHeader} (h : read.LiesIn S) :
    StaysIn S (· ∈ S) (declarationStart read) := by
  refine here.bind fun s hs => pure ?_
  cases first : read.start with
  | none => exact hs
  | some s' => exact h.start s' first

end Grammar

end Apex
