import Apex.Proofs.Shape.Statements
import Apex.Proofs.Spans.Declarations

/-!
# The shape of programs

Declarations are read sound, and with them whole programs, at whatever depth the grammar is built.
So everything that is reached from the root of an accepted program keeps what the grammar promises
of it; for expressions this is that every operand binds as tightly as its operator asks for.
-/

namespace Apex

open Node

namespace Grammar

open Apex.Parser

variable {D : Deeper}

/-! ## Methods and constructors -/

theorem parameter_yields (hD : D.Sound) : (parameter D).Yields (·.node.IsSound) := by
  intro c p c' h
  obtain ⟨mods, _, type, _, name, _, hm, run, _, done⟩ := parameter_ok.mp h
  cases done
  have ht := typeRef_yields hD.typeRef run
  exact .mk (modifiers_distinct hm)
    (allSound_append.mpr ⟨isSound_modifiers _, by simpa using ht⟩)

theorem parameters_yields (hD : D.Sound) :
    (parameters D).Yields fun ps => ∀ p ∈ ps, p.node.IsSound := by
  intro c ps c' h
  obtain ⟨_, params, _, run, _, done⟩ := parameters_ok.mp h
  cases done
  rcases parameterList_ok.mp run with ⟨_, done⟩ | ⟨_, run⟩
  · cases done
    exact fun _ hp => nomatch hp
  · exact (commaSeparated_yields (parameter_yields hD) run).2

/-- A body is sound if it is there. -/
theorem isSound_some {b : Block} (h : b.node.IsSound) : ∀ a ∈ some b, a.node.IsSound := by
  intro a ha
  cases ha
  exact h

theorem methodBody_yields (hD : D.Sound) :
    (methodBody D).Yields fun body => ∀ b ∈ body, b.node.IsSound := by
  intro c body c' h
  rcases methodBody_ok.mp h with ⟨_, b, _, run, done⟩ | ⟨_, done⟩
  · cases done
    exact isSound_some (block_yields hD run)
  · cases done
    exact nofun

theorem noBody_yields : noBody.Yields (· = none) := by
  intro c body c' h
  obtain ⟨_, done⟩ := noBody_ok.mp h
  cases done
  rfl

theorem methodRest_yields (hD : D.Sound) {head : Header} (hh : head.IsSound)
    {type : Option TypeRef} (ht : ∀ t ∈ type, t.node.IsSound) {body : Parser (Option Block)}
    (hb : body.Yields fun body => ∀ b ∈ body, b.node.IsSound) :
    (methodRest D head type body).Yields fun m => ∀ span, (m.node span).IsSound := by
  intro c m c' h
  obtain ⟨name, _, params, _, read, _, _, run, run', done⟩ := methodRest_ok.mp h
  cases done
  have hp := allSound_map.mpr (parameters_yields hD run)
  have hr := allSound_option.mpr (hb run')
  intro span
  have hn : AllSound (name.identifierNode :: params.map Parameter.node) :=
    allSound_cons.mpr ⟨isSound_leaf trivial, hp⟩
  have front := allSound_append.mpr ⟨hh.nodes, allSound_option.mpr ht⟩
  exact .mk hh.distinct (allSound_append.mpr ⟨allSound_append.mpr ⟨front, hn⟩, hr⟩)

theorem returnType_yields (hD : D.Sound) :
    (returnType D).Yields fun type => ∀ t ∈ type, t.node.IsSound := by
  intro c type c' h
  rcases returnType_ok.mp h with ⟨_, done⟩ | ⟨_, t, _, run, done⟩
  · cases done
    exact nofun
  · cases done
    intro t ht
    cases ht
    exact typeRef_yields hD.typeRef run

theorem constructorRest_yields (hD : D.Sound) {head : Header} (hh : head.IsSound) :
    (constructorRest D head).Yields fun m => ∀ span, (m.node span).IsSound := by
  intro c m c' h
  obtain ⟨name, _, params, _, body, _, _, run, run', done⟩ := constructorRest_ok.mp h
  cases done
  have hp := allSound_map.mpr (parameters_yields hD run)
  have hb : AllSound [body.node] := by simpa using block_yields hD run'
  intro span
  refine .mk hh.distinct (allSound_append.mpr ⟨allSound_append.mpr ⟨hh.nodes, ?_⟩, hb⟩)
  exact allSound_cons.mpr ⟨isSound_leaf trivial, hp⟩

/-! ## Properties and fields -/

theorem accessor_yields (hD : D.Sound) {earlier : List Accessor} :
    (accessor D earlier).Yields fun a =>
      earlier.any (·.kind == a.kind) = false ∧ a.node.IsSound := by
  have body : (accessorBody D).Yields fun body => ∀ b ∈ body, b.node.IsSound := by
    intro c body c' h
    rcases accessorBody_ok.mp h with ⟨_, b, _, run, done⟩ | ⟨_, done⟩
    · cases done
      exact isSound_some (block_yields hD run)
    · cases done
      exact nofun
  intro c a c' h
  obtain ⟨mods, _, kind, hm, _, fresh, read, _, run, done⟩ := accessor_ok.mp h
  cases done
  have hb := allSound_option.mpr (body run)
  exact ⟨fresh, .mk (modifiers_distinct hm) (allSound_append.mpr ⟨isSound_modifiers _, hb⟩)⟩

/-- No two accessors are of one kind. -/
abbrev DistinctAccessors (as : List Accessor) : Prop := (as.map (·.kind)).Nodup

theorem accessors_yields (hD : D.Sound) :
    (accessors D).Yields fun as => DistinctAccessors as ∧ ∀ a ∈ as, a.node.IsSound := by
  intro c as c' h
  refine yields_of_iterates (I := fun as => DistinctAccessors as ∧ ∀ a ∈ as, a.node.IsSound)
    (Q := fun as => DistinctAccessors as ∧ ∀ a ∈ as, a.node.IsSound)
    (iterates_of_iterate h) ?_ ?_ ⟨.nil, fun _ ha => nomatch ha⟩
  · rintro read c next c₁ ⟨distinct, sound⟩ run
    rcases accessorStep_ok.mp run with ⟨_, turn⟩ | ⟨_, a, _, run, turn⟩
    · cases turn
    · cases turn
      obtain ⟨fresh, ha⟩ := accessor_yields hD run
      refine ⟨List.nodup_cons.mpr ⟨fun given => ?_, distinct⟩, List.forall_mem_cons.mpr ⟨ha, sound⟩⟩
      obtain ⟨other, mem, same⟩ := List.mem_map.mp given
      have := List.any_eq_false.mp fresh other mem
      simp [same] at this
  · rintro read c as c₁ ⟨distinct, sound⟩ run
    rcases accessorStep_ok.mp run with ⟨_, turn⟩ | ⟨_, _, _, _, turn⟩
    · cases turn
      refine ⟨?_, fun a ha => sound a (List.mem_reverse.mp ha)⟩
      rw [DistinctAccessors, List.map_reverse]
      exact List.pairwise_reverse.mpr (List.Pairwise.imp Ne.symm distinct)
    · cases turn

/-- A member that is sound and no constructor. -/
abbrev PlainMember (m : Member) : Prop := m.node.IsSound ∧ ∀ className, m.IsNamed className

theorem variableMember_yields (hD : D.Sound) {head : Header} (hh : head.IsSound) {start : Span}
    {type : TypeRef} (ht : type.node.IsSound) {name : Ident} :
    (variableMember D head start type name).Yields PlainMember := by
  intro c m c' h
  rcases variableMember_ok.mp h with ⟨property, _, run, done⟩ | ⟨_, declared, _, run, _, done⟩
  · cases done
    obtain ⟨_, read, _, inner, some, _, done⟩ := propertyRest_ok.mp run
    cases done
    obtain ⟨distinct, sound⟩ := accessors_yields hD inner
    have nonempty : read ≠ [] := by simpa using some
    refine ⟨.mk ⟨hh.distinct, nonempty, distinct⟩ ?_, fun _ => trivial⟩
    refine allSound_append.mpr ⟨hh.nodes, allSound_cons.mpr ⟨ht, ?_⟩⟩
    exact allSound_cons.mpr ⟨isSound_leaf trivial, allSound_map.mpr sound⟩
  · cases done
    obtain ⟨some, sound⟩ := declarators_yields hD run
    refine ⟨.mk ⟨hh.distinct, some⟩ ?_, fun _ => trivial⟩
    exact allSound_append.mpr ⟨hh.nodes, allSound_cons.mpr ⟨ht, allSound_map.mpr sound⟩⟩

theorem typedMember_yields (hD : D.Sound) {head : Header} (hh : head.IsSound) {start : Span} :
    (typedMember D head start).Yields PlainMember := by
  intro c m c' h
  obtain ⟨type, _, run, rest⟩ := typedMember_ok.mp h
  have ht := typeRef_yields hD.typeRef run
  rcases rest with ⟨_, method, _, run, done⟩ | ⟨_, name, _, _, run⟩
  · cases done
    have some : ∀ t ∈ some type, t.node.IsSound := by
      intro t ht'
      cases ht'
      exact ht
    exact ⟨methodRest_yields hD hh some (methodBody_yields hD) run _, fun _ => trivial⟩
  · exact variableMember_yields hD hh ht run

/-! ## Members -/

/-- The name under the cursor before a constructor is the name of the class. -/
theorem named_of_memberSort {className : String} {c c' : Cursor} {head : Header}
    {m : Constructor} (sort : memberSort className c = .constructor)
    (h : constructorRest D head c = .ok (m, c')) : sameWord m.name.value className = true := by
  obtain ⟨name, _, _, _, _, _, named, _, _, done⟩ := constructorRest_ok.mp h
  cases done
  obtain ⟨text, kind, done⟩ := identifier_ok.mp named
  cases done
  unfold memberSort at sort
  simp only [kind] at sort
  split at sort
  · next same => exact (Bool.and_eq_true_iff.mp same).1
  · cases sort

theorem memberOrStray_yields (hD : D.Sound) {className : String} :
    (memberOrStray D className).Yields fun m => m.node.IsSound ∧ m.IsNamed className := by
  intro c m c' h
  rcases memberOrStray_ok.mp h with ⟨_, done⟩ | ⟨_, run⟩
  · cases done
    exact ⟨isSound_leaf trivial, trivial⟩
  · obtain ⟨read, c₁, headed, rest⟩ := classMember_ok.mp run
    clear run
    have hh := header_yields hD headed
    cases sort : memberSort className c₁ with
    | initializer =>
      simp only [sort] at rest
      obtain ⟨initializer, _, run, done⟩ := rest
      cases done
      obtain ⟨_, _, body, _, inner, done⟩ := initializerRest_ok.mp run
      cases done
      exact ⟨.mk trivial (by simpa using block_yields hD inner), trivial⟩
    | type =>
      simp only [sort] at rest
      obtain ⟨type, _, run, done⟩ := rest
      cases done
      exact ⟨hD.typeDeclaration hh run, trivial⟩
    | void =>
      simp only [sort] at rest
      obtain ⟨method, _, run, done⟩ := rest
      cases done
      have none : ∀ t ∈ (none : Option TypeRef), t.node.IsSound := nofun
      exact ⟨methodRest_yields hD hh none (methodBody_yields hD) run _, trivial⟩
    | constructor =>
      simp only [sort] at rest
      obtain ⟨constructor, _, run, done⟩ := rest
      cases done
      exact ⟨constructorRest_yields hD hh run _, named_of_memberSort sort run⟩
    | typed =>
      simp only [sort] at rest
      obtain ⟨sound, plain⟩ := typedMember_yields hD hh rest
      exact ⟨sound, plain className⟩

theorem interfaceMethod_yields (hD : D.Sound) :
    (interfaceMethod D).Yields fun m => m.value.body = none ∧ (m.value.node m.span).IsSound := by
  intro c m c' h
  obtain ⟨read, _, type, _, method, _, headed, typed, run, done⟩ := interfaceMethod_ok.mp h
  cases done
  have hh := header_yields hD headed
  have ht := returnType_yields hD typed
  have none : method.body = none := by
    obtain ⟨_, _, _, _, _, _, _, _, run, done⟩ := methodRest_ok.mp run
    cases done
    exact noBody_yields run
  have empty : noBody.Yields fun body => ∀ b ∈ body, b.node.IsSound := by
    intro c body c' h
    cases noBody_yields h
    exact nofun
  exact ⟨none, methodRest_yields hD hh ht empty run _⟩

/-! ## Types -/

theorem braced_yields {α : Type} {item : Parser α} {P : α → Prop} (h : item.Yields P) :
    (braced item).Yields fun xs => ∀ x ∈ xs, P x := by
  intro c xs c' run
  obtain ⟨_, items, _, inner, _, done⟩ := braced_ok.mp run
  cases done
  exact itemsUntil_yields h _ inner

theorem typesBehind_yields (hD : D.Sound) {k : Keyword} :
    (typesBehind D k).Yields fun ts => ∀ t ∈ ts, t.node.IsSound := by
  intro c ts c' h
  rcases typesBehind_ok.mp h with ⟨_, run⟩ | ⟨_, done⟩
  · exact (commaSeparated_yields (typeRef_yields hD.typeRef) run).2
  · cases done
    exact fun _ ht => nomatch ht

theorem baseType_yields (hD : D.Sound) :
    (baseType D).Yields fun type => ∀ t ∈ type, t.node.IsSound := by
  intro c type c' h
  rcases baseType_ok.mp h with ⟨_, t, _, run, done⟩ | ⟨_, done⟩
  · cases done
    intro t ht
    cases ht
    exact typeRef_yields hD.typeRef run
  · cases done
    exact nofun

theorem classHead_yields (hD : D.Sound) {head : Header} (hh : head.IsSound) :
    (classHead D head).Yields fun c => Distinct c.header.modifiers ∧ AllSound c.nodes := by
  intro c x c' h
  obtain ⟨name, _, base, _, interfaces, _, _, based, listed, done⟩ := classHead_ok.mp h
  cases done
  have hb := allSound_option.mpr (baseType_yields hD based)
  have hi := allSound_map.mpr (typesBehind_yields hD listed)
  refine ⟨hh.distinct, allSound_append.mpr ⟨allSound_append.mpr ⟨hh.nodes, ?_⟩, hi⟩⟩
  exact allSound_cons.mpr ⟨isSound_leaf trivial, hb⟩

theorem interfaceHead_yields (hD : D.Sound) {head : Header} (hh : head.IsSound) :
    (interfaceHead D head).Yields fun i => Distinct i.header.modifiers ∧ AllSound i.nodes := by
  intro c x c' h
  obtain ⟨name, _, bases, _, _, listed, done⟩ := interfaceHead_ok.mp h
  cases done
  have hb := allSound_map.mpr (typesBehind_yields hD listed)
  refine ⟨hh.distinct, allSound_append.mpr ⟨hh.nodes, ?_⟩⟩
  exact allSound_cons.mpr ⟨isSound_leaf trivial, hb⟩

/-- A comma at the end follows a constant. -/
theorem enumConstants_yields :
    enumConstants.Yields fun read => read.2 = true → read.1 ≠ [] := by
  intro c read c' h
  refine yields_of_iterates (I := fun read : List Ident × Bool => read.2 = true → read.1 ≠ [])
    (Q := fun read : List Ident × Bool => read.2 = true → read.1 ≠ [])
    (iterates_of_iterate h) ?_ ?_ nofun
  · intro read c next c₁ _ run
    rcases constantStep_ok.mp run with ⟨_, turn⟩ | ⟨_, _, _, _, ⟨_, turn⟩ | ⟨_, turn⟩⟩
    · cases turn
    · cases turn
      exact fun _ => List.cons_ne_nil _ _
    · cases turn
  · intro read c result c₁ kept run
    rcases constantStep_ok.mp run with ⟨_, turn⟩ | ⟨_, _, _, _, ⟨_, turn⟩ | ⟨_, turn⟩⟩
    · cases turn
      simpa using kept
    · cases turn
    · cases turn
      exact nofun

theorem typeDeclaration_yields (hD : D.Sound) {read : ReadHeader} (hh : read.header.IsSound) :
    (typeDeclaration D read).Yields (·.node.IsSound) := by
  intro c t c' h
  rcases typeDeclaration_ok.mp h with ⟨_, head, _, members, _, headed, run, done⟩ |
    ⟨_, head, _, methods, _, headed, run, done⟩ | ⟨_, declaration, _, run, done⟩
  · cases done
    obtain ⟨distinct, sound⟩ := classHead_yields hD hh headed
    have hm := braced_yields (memberOrStray_yields hD) run
    refine .mk ⟨distinct, fun m mem => (hm m mem).2⟩ (allSound_append.mpr ⟨sound, ?_⟩)
    rw [Member.nodes_eq_map]
    exact allSound_map.mpr fun m mem => (hm m mem).1
  · cases done
    obtain ⟨distinct, sound⟩ := interfaceHead_yields hD hh headed
    have hm := braced_yields (interfaceMethod_yields hD) run
    refine .mk ⟨distinct, fun m mem => (hm m mem).1⟩ (allSound_append.mpr ⟨sound, ?_⟩)
    exact allSound_map.mpr fun m mem => (hm m mem).2
  · cases done
    obtain ⟨name, _, _, _, constants, _, inner, _, done⟩ := enumRest_ok.mp run
    cases done
    refine .mk ⟨hh.distinct, enumConstants_yields inner⟩ (allSound_append.mpr ⟨hh.nodes, ?_⟩)
    exact allSound_cons.mpr ⟨isSound_leaf trivial, isSound_identifiers _⟩

/-! ## Programs -/

theorem triggerDeclaration_yields (hD : D.Sound) :
    (triggerDeclaration D).Yields (·.node.IsSound) := by
  intro c d c' h
  obtain ⟨_, name, _, _, _, object, _, _, _, events, _, run, _, body, _, run', done⟩ :=
    triggerDeclaration_ok.mp h
  cases done
  have any : triggerEvent.Yields fun _ => True := fun _ _ _ _ => trivial
  have some := (commaSeparated_yields any run).1
  have he : AllSound (events.map Spanned.eventNode) :=
    allSound_map.mpr fun _ _ => isSound_leaf trivial
  have hb : AllSound [body.node] := by simpa using block_yields hD run'
  refine .mk some (allSound_append.mpr ⟨?_, hb⟩)
  exact allSound_cons.mpr ⟨isSound_leaf trivial, allSound_cons.mpr ⟨isSound_leaf trivial, he⟩⟩

theorem declaration_yields (hD : D.Sound) : (declaration D).Yields (·.node.IsSound) := by
  intro c d c' h
  rcases declaration_ok.mp h with ⟨_, run⟩ | ⟨_, read, _, type, _, headed, run, done⟩
  · exact triggerDeclaration_yields hD run
  · cases done
    exact typeDeclaration_yields hD (header_yields hD headed) run

theorem compilationUnit_yields (hD : D.Sound) : (compilationUnit D).Yields (·.node.IsSound) := by
  intro c u c' h
  obtain ⟨⟨found, _⟩, _, run, _, done⟩ := compilationUnit_ok.mp h
  cases done
  have hf : found.node.IsSound := by
    rcases declarationAndSemicolons_ok.mp run with ⟨_, _, _, _, done⟩ | ⟨_, _, _, _, _, run, _, done⟩
    · cases done
      exact isSound_leaf trivial
    · cases done
      exact declaration_yields hD run
  exact .mk trivial (by simpa using hf)

theorem sound_bottom : Deeper.bottom.Sound where
  typeRef _ _ _ := nofun
  annotationMark _ _ _ := nofun
  annotationValue _ _ _ := nofun
  assignment _ _ _ := nofun
  ternary _ _ _ := nofun
  unary _ _ _ := nofun
  statement _ _ _ := nofun
  typeDeclaration _ _ _ _ := nofun

theorem sound_above (hD : D.Sound) : (above D).Sound where
  typeRef := typeRef_yields hD.typeRef
  annotationMark := annotation_yields hD
  annotationValue := annotationValue_yields hD
  assignment := assignment_yields hD
  ternary := ternary_yields hD
  unary := unary_yields hD
  statement := statement_yields hD
  typeDeclaration := typeDeclaration_yields hD

theorem sound_levels (depth : Nat) : (levels depth).Sound := by
  induction depth with
  | zero => exact sound_bottom
  | succ depth ih => exact sound_above ih

end Grammar

/-- Every accepted program is sound, from its root down. -/
theorem isSound_of_parse {tokens : List Token} {unit : CompilationUnit}
    (accepted : parse tokens = .ok unit) : unit.node.IsSound := by
  unfold parse parseWithin parseWith at accepted
  dsimp only at accepted
  split at accepted
  · cases accepted
  · cases run : Grammar.compilationUnit (Grammar.levels maxNesting) (Cursor.ofTokens tokens) with
    | error e =>
      rw [run] at accepted
      cases accepted
    | ok r =>
      rw [run] at accepted
      cases accepted
      exact Grammar.compilationUnit_yields (Grammar.sound_levels maxNesting) run

/-- In an accepted program no operand of an expression binds more loosely than its operator lets
it: on the scale of the register of operators, the operands of one level stand as the chain of the
level, grouped from the left, puts them. -/
theorem isGrouped_of_parse {tokens : List Token} {unit : CompilationUnit} {path : List Nat}
    {n : Node} {e : Expr} (accepted : parse tokens = .ok unit)
    (reached : unit.node.descend? path = some n) (expr : n.element = .expr e) : e.IsGrouped := by
  have sound := ((isSound_of_parse accepted).descend reached).element
  rw [expr] at sound
  exact sound.1

/-- The initial value of a field: a shift whose left operand is a difference with a product and a
negative number in it. -/
theorem isGrouped_field_value :
    ∃ tokens unit n span left right,
      lex "class C { Integer x = a - b * -c >> 1 + (Integer) d.e; }" = .ok tokens ∧
      parse tokens = .ok unit ∧ unit.node.descend? [0, 1, 1, 1] = some n ∧
      n.element = .expr (.binary span left .shiftRight right) ∧
      (Expr.binary span left .shiftRight right).IsGrouped := by
  have found : ((lex "class C { Integer x = a - b * -c >> 1 + (Integer) d.e; }").toOption.bind
      fun tokens => (parse tokens).toOption.bind fun unit =>
        (unit.node.descend? [0, 1, 1, 1]).map fun n =>
          match n.element with
          | .expr (.binary _ _ .shiftRight _) => true
          | _ => false) = some true := by decide +kernel
  cases lexed : lex "class C { Integer x = a - b * -c >> 1 + (Integer) d.e; }" with
  | error e => simp [lexed, Except.toOption] at found
  | ok tokens =>
    cases accepted : parse tokens with
    | error e => simp [lexed, accepted, Except.toOption] at found
    | ok unit =>
      cases reached : unit.node.descend? [0, 1, 1, 1] with
      | none => simp [lexed, accepted, reached, Except.toOption] at found
      | some n =>
        simp only [lexed, accepted, reached, Except.toOption, Option.bind_some, Option.map_some,
          Option.some.injEq] at found
        split at found
        · next span left right expr =>
          exact ⟨tokens, unit, n, span, left, right, rfl, accepted, reached, expr,
            isGrouped_of_parse accepted reached expr⟩
        · cases found

end Apex
