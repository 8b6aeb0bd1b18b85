import Apex.Proofs.Depth.Statements
import Apex.Proofs.Shape.Declarations

/-!
# The depth of declarations

Members stay at the level of their class, but for types. A member type comes from the level below;
its header, which is read before it is known what it stands in front of, does not.
-/

namespace Apex

open Node

namespace Node

variable {inside header limit : Nat} {ns : List Node} {span : Span}

/-- How a child of a type's declaration fits: an annotation of the header, a member type, or
anything else. -/
inductive FitsInType (inside header : Nat) (n : Node) : Prop
  | annotated (a : AnnotationMark) (annotates : n.element = .annotated a) (fits : n.FitsIn header)
  | member (t : TypeDeclaration) (isMember : n.element = .typeDeclaration t) (below : Nat)
    (limit : inside = below + 1) (fits : n.FitsType below inside)
  | part (notAnnotated : n.element.isAnnotated = false) (noMember : n.element.isType = false)
    (fits : n.FitsIn inside)

theorem entersAnnotated_cons {parent : Element} (i : Nat) (path : List Nat) :
    (mk parent span ns).entersAnnotated (i :: path) = ns[i]?.any (·.element.isAnnotated) := rfl

theorem entersMemberHeader_cons {parent : Element} (i : Nat) (path : List Nat) :
    (mk parent span ns).entersMemberHeader (i :: path) =
      match ns[i]? with
      | some child =>
        (parent.isType && child.element.isType && child.entersAnnotated path) ||
          child.entersMemberHeader path
      | none => false := rfl

/-- A type's declaration fits if its children do. A path into the header of a member is the only
one that may go one edge too deep. -/
theorem fitsType_mk {t : TypeDeclaration} (h : ∀ n ∈ ns, n.FitsInType inside header) :
    (mk (.typeDeclaration t) span ns).FitsType inside header := by
  intro path
  cases path with
  | nil => exact Nat.zero_le _
  | cons i path =>
    rw [crossings_cons, entersAnnotated_cons, entersMemberHeader_cons]
    cases found : ns[i]? with
    | none => exact Nat.zero_le _
    | some child =>
      rw [Option.any_some]
      dsimp only
      cases h child (List.mem_of_getElem? found) with
      | annotated a annotates fits =>
        rw [annotates]
        show 0 + child.crossings path ≤ header
        rw [Nat.zero_add]
        exact fits path
      | member t' isMember below limit fits =>
        subst limit
        have deep := fits path
        rw [isMember]
        show 1 + child.crossings path ≤ below + 1 +
          (child.entersAnnotated path || child.entersMemberHeader path).toNat
        cases enters : child.entersAnnotated path with
        | true =>
          rw [enters, if_pos rfl] at deep
          rw [Bool.true_or, Bool.toNat_true]
          omega
        | false =>
          rw [enters, if_neg Bool.false_ne_true] at deep
          rw [Bool.false_or]
          omega
      | part notAnnotated noMember fits =>
        have within := fits path
        rw [notAnnotated, if_neg Bool.false_ne_true]
        show (child.element.isType).toNat + child.crossings path ≤ _
        rw [noMember, Bool.toNat_false, Nat.zero_add]
        exact Nat.le_add_right_of_le within

end Node

namespace Grammar

open Apex.Parser

variable {limit : Nat} {D : Deeper}

/-! ## Methods and constructors -/

theorem Header.nodes_fit {h : Header} (fits : h.FitsIn limit) : ∀ n ∈ h.nodes, n.FitsIn limit :=
  fun n hn => (fits_header fits n hn).1

theorem modifiers_fit (ms : List (Spanned Modifier)) :
    ∀ n ∈ ms.map Spanned.modifierNode, n.FitsIn limit :=
  List.forall_mem_map.mpr fun m _ => fitsIn_modifier m

theorem parameter_fits (hD : D.Fits limit) : (parameter D).Yields (·.node.FitsIn limit) := by
  intro c p c' h
  obtain ⟨mods, _, type, _, name, _, hm, run, _, done⟩ := parameter_ok.mp h
  cases done
  have ht := typeRef_fits hD.typeRef run
  exact fitsIn_flat (fun _ _ => rfl)
    (List.forall_mem_append.mpr ⟨modifiers_fit _, by simpa using ht⟩)

theorem parameters_fits (hD : D.Fits limit) :
    (parameters D).Yields fun ps => ∀ p ∈ ps, p.node.FitsIn limit := by
  intro c ps c' h
  obtain ⟨_, params, _, run, _, done⟩ := parameters_ok.mp h
  cases done
  rcases parameterList_ok.mp run with ⟨_, done⟩ | ⟨_, run⟩
  · cases done
    exact fun _ hp => nomatch hp
  · exact (commaSeparated_yields (parameter_fits hD) run).2

/-- A body fits if it is there. -/
theorem fits_some {b : Block} (h : b.node.FitsIn limit) : ∀ a ∈ some b, a.node.FitsIn limit := by
  intro a ha
  cases ha
  exact h

theorem methodBody_fits (hD : D.Fits limit) :
    (methodBody D).Yields fun body => ∀ b ∈ body, b.node.FitsIn limit := by
  intro c body c' h
  rcases methodBody_ok.mp h with ⟨_, b, _, run, done⟩ | ⟨_, done⟩
  · cases done
    exact fits_some (block_fits hD run)
  · cases done
    exact nofun

theorem noBody_fits : noBody.Yields fun body => ∀ b ∈ body, b.node.FitsIn limit := by
  intro c body c' h
  cases noBody_yields h
  exact nofun

theorem methodRest_fits (hD : D.Fits limit) {head : Header} (hh : head.FitsIn limit)
    {type : Option TypeRef} (ht : ∀ t ∈ type, t.node.FitsIn limit) {body : Parser (Option Block)}
    (hb : body.Yields fun body => ∀ b ∈ body, b.node.FitsIn limit) :
    (methodRest D head type body).Yields fun m => ∀ span, (m.node span).FitsIn limit := by
  intro c m c' h
  obtain ⟨name, _, params, _, read, _, _, run, run', done⟩ := methodRest_ok.mp h
  cases done
  have hp := List.forall_mem_map.mpr (parameters_fits hD run)
  have hr := fitsIn_option (hb run')
  intro span
  have front := List.forall_mem_append.mpr ⟨Header.nodes_fit hh, fitsIn_option ht⟩
  have named := List.forall_mem_cons.mpr ⟨fitsIn_identifier name, hp⟩
  exact fitsIn_flat (fun _ _ => rfl)
    (List.forall_mem_append.mpr ⟨List.forall_mem_append.mpr ⟨front, named⟩, hr⟩)

theorem returnType_fits (hD : D.Fits limit) :
    (returnType D).Yields fun type => ∀ t ∈ type, t.node.FitsIn limit := by
  intro c type c' h
  rcases returnType_ok.mp h with ⟨_, done⟩ | ⟨_, t, _, run, done⟩
  · cases done
    exact nofun
  · cases done
    intro t ht
    cases ht
    exact typeRef_fits hD.typeRef run

theorem constructorRest_fits (hD : D.Fits limit) {head : Header} (hh : head.FitsIn limit) :
    (constructorRest D head).Yields fun m => ∀ span, (m.node span).FitsIn limit := by
  intro c m c' h
  obtain ⟨name, _, params, _, body, _, _, run, run', done⟩ := constructorRest_ok.mp h
  cases done
  have hp := List.forall_mem_map.mpr (parameters_fits hD run)
  have hb := List.forall_mem_singleton.mpr (block_fits hD run')
  have named := List.forall_mem_cons.mpr ⟨fitsIn_identifier name, hp⟩
  intro span
  refine fitsIn_flat (fun _ _ => rfl) (List.forall_mem_append.mpr ⟨?_, hb⟩)
  exact List.forall_mem_append.mpr ⟨Header.nodes_fit hh, named⟩

/-! ## Properties and fields -/

theorem accessor_fits (hD : D.Fits limit) {earlier : List Accessor} :
    (accessor D earlier).Yields (·.node.FitsIn limit) := by
  have body : (accessorBody D).Yields fun body => ∀ b ∈ body, b.node.FitsIn limit := by
    intro c body c' h
    rcases accessorBody_ok.mp h with ⟨_, b, _, run, done⟩ | ⟨_, done⟩
    · cases done
      exact fits_some (block_fits hD run)
    · cases done
      exact nofun
  intro c a c' h
  obtain ⟨mods, _, kind, hm, _, fresh, read, _, run, done⟩ := accessor_ok.mp h
  cases done
  exact fitsIn_flat (fun _ _ => rfl)
    (List.forall_mem_append.mpr ⟨modifiers_fit _, fitsIn_option (body run)⟩)

theorem accessors_fits (hD : D.Fits limit) :
    (accessors D).Yields fun as => ∀ a ∈ as, a.node.FitsIn limit := by
  intro c as c' h
  refine yields_of_iterates (I := fun as => ∀ a ∈ as, a.node.FitsIn limit)
    (Q := fun as => ∀ a ∈ as, a.node.FitsIn limit)
    (iterates_of_iterate h) ?_ ?_ (fun _ ha => nomatch ha)
  · rintro read c next c₁ fits run
    rcases accessorStep_ok.mp run with ⟨_, turn⟩ | ⟨_, a, _, run, turn⟩
    · cases turn
    · cases turn
      exact List.forall_mem_cons.mpr ⟨accessor_fits hD run, fits⟩
  · rintro read c as c₁ fits run
    rcases accessorStep_ok.mp run with ⟨_, turn⟩ | ⟨_, _, _, _, turn⟩
    · cases turn
      exact fun a ha => fits a (List.mem_reverse.mp ha)
    · cases turn

/-- A member fits in a class whose header may go to any depth. -/
def MemberFits (limit : Nat) (m : Member) : Prop := ∀ header, m.node.FitsInType limit header

theorem variableMember_fits (hD : D.Fits limit) {head : Header} (hh : head.FitsIn limit)
    {start : Span} {type : TypeRef} (ht : type.node.FitsIn limit) {name : Ident} :
    (variableMember D head start type name).Yields (MemberFits limit) := by
  intro c m c' h header
  rcases variableMember_ok.mp h with ⟨property, _, run, done⟩ | ⟨_, declared, _, run, _, done⟩
  · cases done
    obtain ⟨_, read, _, inner, some, _, done⟩ := propertyRest_ok.mp run
    cases done
    have rest := List.forall_mem_cons.mpr
      ⟨fitsIn_identifier name, List.forall_mem_map.mpr (accessors_fits hD inner)⟩
    refine .part rfl rfl (fitsIn_flat (fun _ _ => rfl) (List.forall_mem_append.mpr ⟨?_, ?_⟩))
    · exact Header.nodes_fit hh
    · exact List.forall_mem_cons.mpr ⟨ht, rest⟩
  · cases done
    have rest := List.forall_mem_map.mpr (declarators_fits hD run)
    refine .part rfl rfl (fitsIn_flat (fun _ _ => rfl) (List.forall_mem_append.mpr ⟨?_, ?_⟩))
    · exact Header.nodes_fit hh
    · exact List.forall_mem_cons.mpr ⟨ht, rest⟩

theorem typedMember_fits (hD : D.Fits limit) {head : Header} (hh : head.FitsIn limit) {start : Span} :
    (typedMember D head start).Yields (MemberFits limit) := by
  intro c m c' h
  obtain ⟨type, _, run, rest⟩ := typedMember_ok.mp h
  have ht := typeRef_fits hD.typeRef run
  rcases rest with ⟨_, method, _, run, done⟩ | ⟨_, name, _, _, run⟩
  · cases done
    have some : ∀ t ∈ some type, t.node.FitsIn limit := by
      intro t ht'
      cases ht'
      exact ht
    exact fun header => .part rfl rfl (methodRest_fits hD hh some (methodBody_fits hD) run _)
  · exact variableMember_fits hD hh ht run

/-! ## Members -/

theorem element_typeDeclaration (t : TypeDeclaration) : t.node.element = .typeDeclaration t := by
  cases t <;> rfl

theorem memberOrStray_fits (hD : D.Fits limit) {className : String} :
    (memberOrStray D className).Yields (MemberFits limit) := by
  intro c m c' h
  rcases memberOrStray_ok.mp h with ⟨_, done⟩ | ⟨_, run⟩
  · cases done
    exact fun header => .part rfl rfl fitsIn_leaf
  · obtain ⟨read, c₁, headed, rest⟩ := classMember_ok.mp run
    clear run
    have hh := header_fits hD headed
    cases sort : memberSort className c₁ with
    | initializer =>
      simp only [sort] at rest
      obtain ⟨initializer, _, run, done⟩ := rest
      cases done
      obtain ⟨_, _, body, _, inner, done⟩ := initializerRest_ok.mp run
      cases done
      exact fun header => .part rfl rfl
        (fitsIn_flat (fun _ _ => rfl) (List.forall_mem_singleton.mpr (block_fits hD inner)))
    | type =>
      simp only [sort] at rest
      obtain ⟨type, _, run, done⟩ := rest
      cases done
      obtain ⟨below, same, fits⟩ := hD.typeDeclaration hh run
      exact fun header => .member type (element_typeDeclaration type) below same fits
    | void =>
      simp only [sort] at rest
      obtain ⟨method, _, run, done⟩ := rest
      cases done
      have none : ∀ t ∈ (none : Option TypeRef), t.node.FitsIn limit := nofun
      exact fun header => .part rfl rfl (methodRest_fits hD hh none (methodBody_fits hD) run _)
    | constructor =>
      simp only [sort] at rest
      obtain ⟨constructor, _, run, done⟩ := rest
      cases done
      exact fun header => .part rfl rfl (constructorRest_fits hD hh run _)
    | typed =>
      simp only [sort] at rest
      exact typedMember_fits hD hh rest

theorem interfaceMethod_fits (hD : D.Fits limit) :
    (interfaceMethod D).Yields fun m => (m.value.node m.span).FitsIn limit := by
  intro c m c' h
  obtain ⟨read, _, type, _, method, _, headed, typed, run, done⟩ := interfaceMethod_ok.mp h
  cases done
  exact methodRest_fits hD (header_fits hD headed) (returnType_fits hD typed) noBody_fits run _

/-! ## Types -/

theorem typesBehind_fits (hD : D.Fits limit) {k : Keyword} :
    (typesBehind D k).Yields fun ts => ∀ t ∈ ts, t.node.FitsIn limit := by
  intro c ts c' h
  rcases typesBehind_ok.mp h with ⟨_, run⟩ | ⟨_, done⟩
  · exact (commaSeparated_yields (typeRef_fits hD.typeRef) run).2
  · cases done
    exact fun _ ht => nomatch ht

theorem baseType_fits (hD : D.Fits limit) :
    (baseType D).Yields fun type => ∀ t ∈ type, t.node.FitsIn limit := by
  intro c type c' h
  rcases baseType_ok.mp h with ⟨_, t, _, run, done⟩ | ⟨_, done⟩
  · cases done
    intro t ht
    cases ht
    exact typeRef_fits hD.typeRef run
  · cases done
    exact nofun

/-- A type's header fits in front of it, whatever its limit. -/
theorem fits_head {inside header : Nat} {h : Header} (fits : h.FitsIn header) :
    ∀ n ∈ h.nodes, n.FitsInType inside header := by
  intro n hn
  obtain ⟨within, ⟨a, same⟩ | ⟨m, rfl⟩⟩ := fits_header fits n hn
  · exact .annotated a same within
  · exact .part rfl rfl (fitsIn_modifier m)

theorem fits_types {header : Nat} {ts : List TypeRef} (h : ∀ t ∈ ts, t.node.FitsIn limit) :
    ∀ n ∈ ts.map TypeRef.node, n.FitsInType limit header :=
  List.forall_mem_map.mpr fun t ht =>
    .part (by simp [Element.isAnnotated]) (by simp [Element.isType]) (h t ht)

theorem fits_name {header : Nat} (name : Ident) : name.identifierNode.FitsInType limit header :=
  .part rfl rfl (fitsIn_identifier name)

theorem classHead_fits (hD : D.Fits limit) {header : Nat} {head : Header} (hh : head.FitsIn header) :
    (classHead D head).Yields fun c => ∀ n ∈ c.nodes, n.FitsInType limit header := by
  intro c x c' h
  obtain ⟨name, _, base, _, interfaces, _, _, based, listed, done⟩ := classHead_ok.mp h
  cases done
  refine List.forall_mem_append.mpr ⟨List.forall_mem_append.mpr ⟨fits_head hh, ?_⟩, ?_⟩
  · refine List.forall_mem_cons.mpr ⟨fits_name name, ?_⟩
    have hb := baseType_fits hD based
    cases base with
    | none => nofun
    | some t => exact fits_types (List.forall_mem_singleton.mpr (hb t rfl))
  · exact fits_types (typesBehind_fits hD listed)

theorem interfaceHead_fits (hD : D.Fits limit) {header : Nat} {head : Header}
    (hh : head.FitsIn header) :
    (interfaceHead D head).Yields fun i => ∀ n ∈ i.nodes, n.FitsInType limit header := by
  intro c x c' h
  obtain ⟨name, _, bases, _, _, listed, done⟩ := interfaceHead_ok.mp h
  cases done
  refine List.forall_mem_append.mpr ⟨fits_head hh, List.forall_mem_cons.mpr ⟨fits_name name, ?_⟩⟩
  exact fits_types (typesBehind_fits hD listed)

theorem typeDeclaration_fits (hD : D.Fits limit) {header : Nat} {read : ReadHeader}
    (hh : read.header.FitsIn header) :
    (typeDeclaration D read).Yields (·.node.FitsType limit header) := by
  intro c t c' h
  rcases typeDeclaration_ok.mp h with ⟨_, head, _, members, _, headed, run, done⟩ |
    ⟨_, head, _, methods, _, headed, run, done⟩ | ⟨_, declaration, _, run, done⟩
  · cases done
    have hm := braced_yields (memberOrStray_fits hD) run
    refine fitsType_mk (List.forall_mem_append.mpr ⟨classHead_fits hD hh headed, ?_⟩)
    rw [Member.nodes_eq_map]
    exact List.forall_mem_map.mpr fun m mem => hm m mem header
  · cases done
    have hm := braced_yields (interfaceMethod_fits hD) run
    refine fitsType_mk (List.forall_mem_append.mpr ⟨interfaceHead_fits hD hh headed, ?_⟩)
    exact List.forall_mem_map.mpr fun m mem => .part rfl rfl (hm m mem)
  · cases done
    obtain ⟨name, _, _, _, constants, _, inner, _, done⟩ := enumRest_ok.mp run
    cases done
    refine fitsType_mk (List.forall_mem_append.mpr ⟨fits_head hh, ?_⟩)
    exact List.forall_mem_cons.mpr ⟨fits_name name, List.forall_mem_map.mpr fun i _ => fits_name i⟩

end Grammar

end Apex
