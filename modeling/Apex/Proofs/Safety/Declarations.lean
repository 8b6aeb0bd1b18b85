import Apex.Grammar.Declaration
import Apex.Proofs.Safety.Statements

/-!
# Declarations in a family of spans

The members of a class, types and triggers are read without leaving a family of spans.
-/

namespace Apex.Grammar

open Apex.Parser (StaysIn Turn)
open Apex.Parser.StaysIn

variable {S : Span.Family} {D : Deeper}

/-! ## Members -/

theorem liesIn_some {α : Type} {f : α → Node} {a : α} (h : (f a).LiesIn S) :
    ∀ x ∈ some a, (f x).LiesIn S := by
  simpa using h

theorem parameter_staysIn (hD : D.StaysIn S) : StaysIn S (·.node.LiesIn S) (parameter D) := by
  refine here.bind fun start hs => modifiers_staysIn.bind fun ms hm => ?_
  refine (typeRef_staysIn hD.typeRef).bind fun type ht => identifier.bind fun name hn => ?_
  refine (spanFrom hs).bind fun span own => pure ?_
  simp only [Parameter.node, Node.liesIn_mk, Element.binds, lieIn_nil, List.forall_mem_append,
    List.forall_mem_map, Node.liesIn_modifier]
  exact ⟨own, trivial, hm, by simp [ht, hn]⟩

theorem parameters_staysIn (hD : D.StaysIn S) :
    StaysIn S (fun ps => ∀ p ∈ ps, p.node.LiesIn S) (parameters D) := by
  refine (expect _).bind fun _ _ => bind ?_ fun ps all => (expect _).bind fun _ _ => pure all
  refine (isAt _).bind fun _ _ => ite (pure (List.forall_mem_nil _)) ?_
  exact commaSeparated (parameter_staysIn hD)

theorem methodBody_staysIn (hD : D.StaysIn S) :
    StaysIn S (fun body => ∀ b ∈ body, b.node.LiesIn S) (methodBody D) := by
  refine (isAt _).bind fun _ _ => ite ?_ ((accept _).bind fun _ _ => ite ?_ (fail _))
  · exact (block_staysIn hD).bind fun body hb => pure (liesIn_some hb)
  · exact pure fun _ mem => nomatch mem

theorem noBody_staysIn : StaysIn S (fun body => ∀ b ∈ body, b.node.LiesIn S) noBody :=
  (expect _).bind fun _ _ => pure fun _ mem => nomatch mem

theorem methodRest_staysIn (hD : D.StaysIn S) {header : Header} (hh : header.LiesIn S)
    {type : Option TypeRef} (ht : ∀ t ∈ type, t.node.LiesIn S) {body : Parser (Option Block)}
    (hb : StaysIn S (fun body => ∀ b ∈ body, b.node.LiesIn S) body) :
    StaysIn S (fun m => ∀ span ∈ S, (m.node span).LiesIn S) (methodRest D header type body) := by
  refine identifier.bind fun name hn => (parameters_staysIn hD).bind fun ps hp => ?_
  refine hb.bind fun body hb => pure fun span own => ?_
  simp only [Method.node, Node.liesIn_mk, Element.binds, lieIn_nil, List.forall_mem_append,
    List.forall_mem_cons, List.forall_mem_map, Node.liesIn_identifier, Node.liesIn_option]
  exact ⟨own, trivial, ⟨⟨hh.nodes, ht⟩, hn, hp⟩, hb⟩

theorem returnType_staysIn (hD : D.StaysIn S) :
    StaysIn S (fun type => ∀ t ∈ type, t.node.LiesIn S) (returnType D) := by
  refine (accept _).bind fun _ _ => ite (pure fun _ mem => nomatch mem) ?_
  exact (typeRef_staysIn hD.typeRef).bind fun type ht => pure (liesIn_some ht)

theorem constructorRest_staysIn (hD : D.StaysIn S) {header : Header} (hh : header.LiesIn S) :
    StaysIn S (fun c => ∀ span ∈ S, (c.node span).LiesIn S) (constructorRest D header) := by
  refine identifier.bind fun name hn => (parameters_staysIn hD).bind fun ps hp => ?_
  refine (block_staysIn hD).bind fun body hb => pure fun span own => ?_
  simp only [Constructor.node, Node.liesIn_mk, Element.binds, lieIn_nil, List.forall_mem_append,
    List.forall_mem_cons, List.forall_mem_map, Node.liesIn_identifier]
  exact ⟨own, trivial, ⟨hh.nodes, hn, hp⟩, hb, List.forall_mem_nil _⟩

theorem accessorKind_staysIn : StaysIn S (fun _ => True) accessorKind :=
  kind.bind fun _ _ => ite (pure trivial) (ite (pure trivial) (fail _))

theorem accessorBody_staysIn (hD : D.StaysIn S) :
    StaysIn S (fun body => ∀ b ∈ body, b.node.LiesIn S) (accessorBody D) := by
  refine (accept _).bind fun _ _ => ite ?_ ((isAt _).bind fun _ _ => ite ?_ (fail _))
  · exact pure fun _ mem => nomatch mem
  · exact (block_staysIn hD).bind fun body hb => pure (liesIn_some hb)

theorem accessor_staysIn (hD : D.StaysIn S) (earlier : List Accessor) :
    StaysIn S (·.node.LiesIn S) (accessor D earlier) := by
  refine here.bind fun start hs => modifiers_staysIn.bind fun ms hm => ?_
  refine accessorKind_staysIn.bind fun kind _ => check (fail _) (advance.bind fun _ _ => ?_)
  refine (accessorBody_staysIn hD).bind fun body hb => (spanFrom hs).bind fun span own => pure ?_
  simp only [Accessor.node, Node.liesIn_mk, Element.binds, lieIn_nil, List.forall_mem_append,
    List.forall_mem_map, Node.liesIn_modifier, Node.liesIn_option]
  exact ⟨own, trivial, hm, hb⟩

theorem accessors_staysIn (hD : D.StaysIn S) :
    StaysIn S (fun as => ∀ a ∈ as, a.node.LiesIn S) (accessors D) := by
  refine collect (fun read all => ?_) (List.forall_mem_nil _)
  exact (isAt _).bind fun _ _ => ite (doneReverse all) (againCons (accessor_staysIn hD read) all)

theorem propertyRest_staysIn (hD : D.StaysIn S) {header : Header} (hh : header.LiesIn S)
    {type : TypeRef} (ht : type.node.LiesIn S) {name : Ident} (hn : name.span ∈ S) :
    StaysIn S (fun p => ∀ span ∈ S, (p.node span).LiesIn S) (propertyRest D header type name) := by
  refine (expect _).bind fun _ _ => (accessors_staysIn hD).bind fun accessors all => ?_
  refine check (fail _) ((expect _).bind fun _ _ => pure fun span own => ?_)
  simp only [Property.node, Node.liesIn_mk, Element.binds, lieIn_nil, List.forall_mem_append,
    List.forall_mem_cons, List.forall_mem_map, Node.liesIn_identifier]
  exact ⟨own, trivial, hh.nodes, ht, hn, all⟩

theorem initializerRest_staysIn (hD : D.StaysIn S) (header : Header) :
    StaysIn S (fun i => ∀ span ∈ S, (i.node span).LiesIn S) (initializerRest D header) := by
  unfold initializerRest
  refine check (fail _) ?_
  refine (block_staysIn hD).bind fun body hb => pure fun span own => ?_
  simp [Initializer.node, own, hb]

theorem variableMember_staysIn (hD : D.StaysIn S) {header : Header} (hh : header.LiesIn S)
    {start : Span} (hs : start ∈ S) {type : TypeRef} (ht : type.node.LiesIn S) {name : Ident}
    (hn : name.span ∈ S) :
    StaysIn S (·.node.LiesIn S) (variableMember D header start type name) := by
  have field : StaysIn S (fun m : Member => m.node.LiesIn S)
      (do let declarators ← declarators D name
          let _ ← Parser.expect (.punctuation .semicolon)
          return .field (← Parser.spanFrom start) ⟨header, type, declarators⟩) := by
    refine (declarators_staysIn hD hn).bind fun ds hd => (expect _).bind fun _ _ => ?_
    refine (spanFrom hs).bind fun span own => pure ?_
    simp only [Member.node, Field.node, Node.liesIn_mk, Element.binds, lieIn_nil,
      List.forall_mem_append, List.forall_mem_cons, List.forall_mem_map]
    exact ⟨own, trivial, hh.nodes, ht, hd⟩
  refine kind.bind fun k _ => ?_
  split
  · refine (propertyRest_staysIn hD hh ht hn).bind fun property hp => ?_
    exact (spanFrom hs).bind fun span own => pure (hp span own)
  · exact field
  · exact field
  · exact field
  · exact fail _

theorem typedMember_staysIn (hD : D.StaysIn S) {header : Header} (hh : header.LiesIn S)
    {start : Span} (hs : start ∈ S) : StaysIn S (·.node.LiesIn S) (typedMember D header start) := by
  refine (typeRef_staysIn hD.typeRef).bind fun type ht => (kindAt 1).bind fun _ _ => ite ?_ ?_
  · refine (methodRest_staysIn hD hh (liesIn_some ht) (methodBody_staysIn hD)).bind fun m hm => ?_
    exact (spanFrom hs).bind fun span own => pure (hm span own)
  · exact identifier.bind fun name hn => variableMember_staysIn hD hh hs ht hn

theorem classMember_staysIn (hD : D.StaysIn S) (className : String) :
    StaysIn S (·.node.LiesIn S) (classMember D className) := by
  refine (header_staysIn hD).bind fun read hr => (declarationStart_staysIn hr).bind fun start hs => ?_
  have type : StaysIn S (fun m : Member => m.node.LiesIn S)
      (do return .type (← D.typeDeclaration read)) :=
    (hD.typeDeclaration hr).bind fun _ hd => pure hd
  refine kind.bind fun k _ => ?_
  split
  · refine (initializerRest_staysIn hD _).bind fun i hi => ?_
    exact (spanFrom hs).bind fun span own => pure (hi span own)
  · exact type
  · exact type
  · exact type
  · have void : ∀ t ∈ (none : Option TypeRef), t.node.LiesIn S := fun _ mem => nomatch mem
    refine advance.bind fun _ _ => ?_
    refine (methodRest_staysIn hD hr.header void (methodBody_staysIn hD)).bind fun m hm => ?_
    exact (spanFrom hs).bind fun span own => pure (hm span own)
  · refine (kindAt 1).bind fun _ _ => ite ?_ (typedMember_staysIn hD hr.header hs)
    refine (constructorRest_staysIn hD hr.header).bind fun c hc => ?_
    exact (spanFrom hs).bind fun span own => pure (hc span own)
  · exact typedMember_staysIn hD hr.header hs

theorem memberOrStray_staysIn (hD : D.StaysIn S) (className : String) :
    StaysIn S (·.node.LiesIn S) (memberOrStray D className) := by
  refine (isAt _).bind fun _ _ => ite ?_ (classMember_staysIn hD className)
  exact next.bind fun t ht => pure (by simp [Member.node, ht.span])

theorem interfaceMethod_staysIn (hD : D.StaysIn S) :
    StaysIn S (fun m => (m.value.node m.span).LiesIn S) (interfaceMethod D) := by
  refine (header_staysIn hD).bind fun read hr => (declarationStart_staysIn hr).bind fun start hs => ?_
  refine (returnType_staysIn hD).bind fun type ht => ?_
  refine (methodRest_staysIn hD hr.header ht noBody_staysIn).bind fun m hm => ?_
  exact (spanFrom hs).bind fun span own => pure (hm span own)

/-! ## Types -/

theorem braced_staysIn {α : Type} {Q : α → Prop} {item : Parser α} (h : StaysIn S Q item) :
    StaysIn S (fun items => ∀ x ∈ items, Q x) (braced item) := by
  refine (expect _).bind fun _ _ => (itemsUntil h _).bind fun items all => ?_
  exact (expect _).bind fun _ _ => pure all

theorem typesBehind_staysIn (hD : D.StaysIn S) (k : Keyword) :
    StaysIn S (fun types => ∀ t ∈ types, t.node.LiesIn S) (typesBehind D k) := by
  refine (accept _).bind fun _ _ => ite ?_ (pure (List.forall_mem_nil _))
  exact commaSeparated (typeRef_staysIn hD.typeRef)

theorem baseType_staysIn (hD : D.StaysIn S) :
    StaysIn S (fun type => ∀ t ∈ type, t.node.LiesIn S) (baseType D) := by
  refine (accept _).bind fun _ _ => ite ?_ (pure fun _ mem => nomatch mem)
  exact map (typeRef_staysIn hD.typeRef) fun _ ht => liesIn_some ht

theorem classHead_staysIn (hD : D.StaysIn S) {header : Header} (hh : header.LiesIn S) :
    StaysIn S (fun head => ∀ n ∈ head.nodes, n.LiesIn S) (classHead D header) := by
  refine identifier.bind fun name hn => (baseType_staysIn hD).bind fun base hb => ?_
  refine (typesBehind_staysIn hD _).bind fun interfaces hi => pure ?_
  simp only [ClassHead.nodes, List.forall_mem_append, List.forall_mem_cons, List.forall_mem_map,
    Node.liesIn_identifier, Node.liesIn_option]
  exact ⟨⟨hh.nodes, hn, hb⟩, hi⟩

theorem interfaceHead_staysIn (hD : D.StaysIn S) {header : Header} (hh : header.LiesIn S) :
    StaysIn S (fun head => ∀ n ∈ head.nodes, n.LiesIn S) (interfaceHead D header) := by
  refine identifier.bind fun name hn => (typesBehind_staysIn hD _).bind fun bases hb => pure ?_
  simp only [InterfaceHead.nodes, List.forall_mem_append, List.forall_mem_cons,
    List.forall_mem_map, Node.liesIn_identifier]
  exact ⟨hh.nodes, hn, hb⟩

theorem enumConstants_staysIn :
    StaysIn S (fun read => ∀ name ∈ read.1, name.span ∈ S) enumConstants := by
  have none : ∀ name ∈ ([] : List Ident), name.span ∈ S := List.forall_mem_nil _
  refine iterate (I := fun read => ∀ name ∈ read.1, name.span ∈ S) (fun read all => ?_) none
  obtain ⟨constants, comma⟩ := read
  have reversed {names : List Ident} (all : ∀ name ∈ names, name.span ∈ S) :
      ∀ name ∈ names.reverse, name.span ∈ S := fun name mem => all name (List.mem_reverse.mp mem)
  refine (isAt _).bind fun _ _ => ite (pure (reversed all)) ?_
  refine identifier.bind fun constant hc => ?_
  have more : ∀ name ∈ constant :: constants, name.span ∈ S :=
    List.forall_mem_cons.mpr ⟨hc, all⟩
  exact (accept _).bind fun _ _ => ite (pure more) (pure (reversed more))

theorem enumRest_staysIn {header : Header} (hh : header.LiesIn S) :
    StaysIn S (fun e => ∀ n ∈ e.nodes, n.LiesIn S) (enumRest header) := by
  refine identifier.bind fun name hn => (expect _).bind fun _ _ => ?_
  refine enumConstants_staysIn.bind fun read all => (expect _).bind fun _ _ => pure ?_
  simp only [EnumDeclaration.nodes, List.forall_mem_append, List.forall_mem_cons,
    List.forall_mem_map, Node.liesIn_identifier]
  exact ⟨hh.nodes, hn, all⟩

theorem typeDeclaration_staysIn (hD : D.StaysIn S) {read : ReadHeader} (hr : read.LiesIn S) :
    StaysIn S (·.node.LiesIn S) (typeDeclaration D read) := by
  refine (declarationStart_staysIn hr).bind fun start hs => kind.bind fun k _ => ?_
  split
  · refine advance.bind fun _ _ => (classHead_staysIn hD hr.header).bind fun head hh => ?_
    refine (braced_staysIn (memberOrStray_staysIn hD _)).bind fun members hm => ?_
    refine (spanFrom hs).bind fun span own => pure ?_
    simp only [TypeDeclaration.node, Member.nodes_eq_map, Node.liesIn_mk, Element.binds, lieIn_nil,
      List.forall_mem_append, List.forall_mem_map]
    exact ⟨own, trivial, hh, hm⟩
  · refine advance.bind fun _ _ => (interfaceHead_staysIn hD hr.header).bind fun head hh => ?_
    refine (braced_staysIn (interfaceMethod_staysIn hD)).bind fun methods hm => ?_
    refine (spanFrom hs).bind fun span own => pure ?_
    simp only [TypeDeclaration.node, Node.liesIn_mk, Element.binds, lieIn_nil,
      List.forall_mem_append, List.forall_mem_map]
    exact ⟨own, trivial, hh, hm⟩
  · refine advance.bind fun _ _ => (enumRest_staysIn hr.header).bind fun e he => ?_
    refine (spanFrom hs).bind fun span own => pure ?_
    simpa [TypeDeclaration.node, own] using he
  · exact fail _

/-! ## Triggers -/

theorem anyWord_staysIn (expected : List String) : StaysIn S (fun _ => True) (anyWord expected) := by
  intro c row
  unfold anyWord
  split
  · exact .ok trivial row.advance
  · exact fail _ c row

theorem triggerEvent_staysIn :
    StaysIn S (fun e : Spanned TriggerEvent => e.span ∈ S) triggerEvent := by
  refine here.bind fun start hs => (anyWord_staysIn _).bind fun timing _ => check (throw hs) ?_
  refine (anyWord_staysIn _).bind fun operation _ => (spanFrom hs).bind fun span own => ?_
  split
  · exact pure own
  · exact throw own

theorem triggerDeclaration_staysIn (hD : D.StaysIn S) :
    StaysIn S (·.node.LiesIn S) (triggerDeclaration D) := by
  refine (expect _).bind fun start hs => identifier.bind fun name hn => ?_
  refine (expectWord _).bind fun _ _ => identifier.bind fun object ho => (expect _).bind fun _ _ => ?_
  refine (commaSeparated triggerEvent_staysIn).bind fun events he => (expect _).bind fun _ _ => ?_
  refine (block_staysIn hD).bind fun body hb => (spanFrom hs).bind fun span own => pure ?_
  simp only [Declaration.node, Trigger.node, Node.liesIn_mk, Element.binds, lieIn_nil,
    List.forall_mem_append, List.forall_mem_cons, List.forall_mem_map, Node.liesIn_identifier,
    Node.liesIn_event]
  exact ⟨own, trivial, ⟨hn, ho, he⟩, hb, List.forall_mem_nil _⟩

theorem declaration_staysIn (hD : D.StaysIn S) : StaysIn S (·.node.LiesIn S) (declaration D) := by
  refine (isAt _).bind fun _ _ => ite (triggerDeclaration_staysIn hD) ?_
  refine (header_staysIn hD).bind fun read hr => ?_
  exact (typeDeclaration_staysIn hD hr).bind fun d hd => pure hd

end Apex.Grammar
