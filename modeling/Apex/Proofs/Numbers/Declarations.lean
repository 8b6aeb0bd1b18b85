import Apex.Proofs.Numbers.Statements
import Apex.Proofs.Spans.Declarations

/-!
# Whole numbers of declarations

A declaration holds the numbers of its header and of what stands behind it.
-/

namespace Apex

/-- A node that starts with its header. -/
theorem Node.Tally.with_header {isValue : Bool} {read : ReadHeader} {element : Element}
    {span : Span} {ns children : List Node} {c₀ c c' : Cursor}
    (hr : Tally false read.header.nodes c₀ c) (h : Tally false ns c c')
    (plain : element.isPlain = true) (eq : children = read.header.nodes ++ ns) :
    Tally isValue [.mk element span children] c₀ c' := by
  rw [eq]
  exact (hr.append h).around plain

namespace Grammar

open Apex.Parser Node

variable {D : Deeper} {c c₀ c₁ c₂ c' : Cursor}

/-! ## Members -/

theorem parameter_tallies (hD : D.Tallies) : (parameter D).Tallies fun p => [p.node] := by
  intro c p c' h
  obtain ⟨mods, c₁, type, c₂, name, c₃, hm, ht, hn, done⟩ := parameter_ok.mp h
  cases done
  have named := (typeRef_tallies hD.typeRef ht).cons (identifier_tallies hn)
  exact ((modifiers_tallies hm).append named).around rfl

theorem parameters_tallies (hD : D.Tallies) : (parameters D).Tallies (·.map Parameter.node) := by
  intro c ps c' h
  obtain ⟨opened, params, c₁, run, closed, done⟩ := parameters_ok.mp h
  cases done
  have before := Cursor.silent_advance opened rfl
  have behind := Cursor.silent_advance closed rfl
  rcases parameterList_ok.mp run with ⟨_, done⟩ | ⟨_, run⟩
  · cases done
    exact .nil (before.trans behind).numberless
  · exact ((commaSeparated_tallies (parameter_tallies hD) run).after before).before behind

theorem methodBody_tallies (hD : D.Tallies) :
    (methodBody D).Tallies fun b => (b.map Block.node).toList := by
  intro c b c' h
  rcases methodBody_ok.mp h with ⟨_, body, c₁, run, done⟩ | ⟨ends, done⟩
  · cases done
    exact block_tallies hD run
  · cases done
    exact .nil (Cursor.numberless_advance ends rfl)

theorem noBody_tallies : noBody.Tallies fun b => (b.map Block.node).toList := by
  intro c b c' h
  obtain ⟨ends, done⟩ := noBody_ok.mp h
  cases done
  exact .nil (Cursor.numberless_advance ends rfl)

theorem methodRest_tally (hD : D.Tallies) {read : ReadHeader} {span : Span}
    {returnType : Option TypeRef} {body : Parser (Option Block)} {m : Method}
    (hb : body.Tallies fun b => (b.map Block.node).toList)
    (hr : Tally false read.header.nodes c₀ c₁)
    (ht : Tally false (returnType.map TypeRef.node).toList c₁ c)
    (h : methodRest D read.header returnType body c = .ok (m, c')) :
    Tally false [m.node span] c₀ c' := by
  obtain ⟨name, c₂, params, c₃, last, c₄, hn, hp, run, done⟩ := methodRest_ok.mp h
  cases done
  have named := (identifier_tallies hn).cons (parameters_tallies hD hp)
  exact hr.with_header (ht.append (named.append (hb run))) rfl (by simp)

theorem constructorRest_tally (hD : D.Tallies) {read : ReadHeader} {span : Span} {k : Constructor}
    (hr : Tally false read.header.nodes c₀ c)
    (h : constructorRest D read.header c = .ok (k, c')) : Tally false [k.node span] c₀ c' := by
  obtain ⟨name, c₂, params, c₃, body, c₄, hn, hp, hb, done⟩ := constructorRest_ok.mp h
  cases done
  have named := (identifier_tallies hn).cons (parameters_tallies hD hp)
  exact hr.with_header (named.append (block_tallies hD hb)) rfl (by simp)

theorem accessor_tallies (hD : D.Tallies) {earlier : List Accessor} :
    (accessor D earlier).Tallies fun a => [a.node] := by
  intro c a c' h
  obtain ⟨mods, c₁, kind, hm, word, _, body, c₂, run, done⟩ := accessor_ok.mp h
  cases done
  have gap := Cursor.numberless_of_spells (accessorAhead?_spells word)
  have hb : Tally false (body.map Block.node).toList c₁.advance c' := by
    rcases accessorBody_ok.mp run with ⟨_, b, _, run, done⟩ | ⟨ends, done⟩
    · cases done
      exact block_tallies hD run
    · cases done
      exact .nil (Cursor.numberless_advance ends rfl)
  exact ((modifiers_tallies hm).append (hb.mono gap (.refl _))).around rfl

theorem accessors_tallies (hD : D.Tallies) : (accessors D).Tallies (·.map Accessor.node) := by
  intro c as c' h
  have collected := items_of_iterates (fun c a c₁ => ∃ earlier, accessor D earlier c = .ok (a, c₁))
    (fun _ => True) List.reverse ?_ (iterates_of_iterate h)
  · obtain ⟨as, items, _, rfl⟩ := collected
    have tally : Tally false (as.map Accessor.node) c c' :=
      tally_of_items items fun ⟨_, run⟩ => accessor_tallies hD run
    simpa using tally
  · intro earlier c turn c₁ run
    rcases accessorStep_ok.mp run with ⟨_, turn⟩ | ⟨_, a, _, read, turn⟩
    · cases turn
      exact .inr ⟨rfl, rfl, trivial⟩
    · cases turn
      exact .inl ⟨a, rfl, earlier, read⟩

theorem initializerRest_tally (hD : D.Tallies) {read : ReadHeader} {span : Span} {i : Initializer}
    (run : header D c₀ = .ok (read, c)) (h : initializerRest D read.header c = .ok (i, c')) :
    Tally false [i.node span] c₀ c' := by
  obtain ⟨plain, static, body, c₁, block, done⟩ := initializerRest_ok.mp h
  cases done
  have gap := staticHeader_silent run (List.isEmpty_iff.mp plain)
    fun m hm => by simpa using List.all_eq_true.mp static m hm
  exact ((block_tallies hD block).after gap).around rfl

theorem variableMember_tally (hD : D.Tallies) {read : ReadHeader} {start : Span} {type : TypeRef}
    {name : Ident} {m : Member} (hr : Tally false read.header.nodes c₀ c₁)
    (ht : Tally false [type.node] c₁ c₂) (hn : Tally false [name.identifierNode] c₂ c)
    (h : variableMember D read.header start type name c = .ok (m, c')) :
    Tally false [m.node] c₀ c' := by
  rcases variableMember_ok.mp h with ⟨property, c₃, run, done⟩ | ⟨_, ds, c₃, run, ends, done⟩
  · cases done
    obtain ⟨opened, accessors, c₃, read, _, closed, done⟩ := propertyRest_ok.mp run
    cases done
    have inside := (accessors_tallies hD read).after (Cursor.silent_advance opened rfl)
    have named := hn.cons (inside.before (Cursor.silent_advance closed rfl))
    exact hr.with_header (ht.cons named) rfl rfl
  · cases done
    have declared := (declarators_tally hD hn run).before (Cursor.silent_advance ends rfl)
    exact hr.with_header (ht.cons declared) rfl rfl

theorem typedMember_tally (hD : D.Tallies) {read : ReadHeader} {start : Span} {m : Member}
    (hr : Tally false read.header.nodes c₀ c)
    (h : typedMember D read.header start c = .ok (m, c')) : Tally false [m.node] c₀ c' := by
  obtain ⟨type, c₁, ht, rest⟩ := typedMember_ok.mp h
  have ht := typeRef_tallies hD.typeRef ht
  rcases rest with ⟨_, method, c₂, run, done⟩ | ⟨_, name, c₂, hn, run⟩
  · cases done
    have result : Tally false ((some type).map TypeRef.node).toList c c₁ := ht
    exact methodRest_tally hD (methodBody_tallies hD) hr result run
  · exact variableMember_tally hD hr ht (identifier_tallies hn) run

theorem classMember_tallies (hD : D.Tallies) (className : String) :
    (classMember D className).Tallies fun m => [m.node] := by
  intro c m c' h
  obtain ⟨read, c₁, header, rest⟩ := classMember_ok.mp h
  have hr := header_tallies hD header
  dsimp only at rest
  split at rest
  · obtain ⟨initializer, c₂, run, done⟩ := rest
    cases done
    exact initializerRest_tally hD header run
  · obtain ⟨type, c₂, run, done⟩ := rest
    cases done
    exact hD.typeDeclaration hr run
  · next sort =>
    obtain ⟨method, c₂, run, done⟩ := rest
    cases done
    have void : Tally false ((none : Option TypeRef).map TypeRef.node).toList c₁ c₁.advance :=
      .nil (Cursor.numberless_advance (void_of_memberSort sort) rfl)
    exact methodRest_tally hD (methodBody_tallies hD) hr void run
  · obtain ⟨constructor, c₂, run, done⟩ := rest
    cases done
    exact constructorRest_tally hD hr run
  · exact typedMember_tally hD hr rest

theorem memberOrStray_tallies (hD : D.Tallies) (className : String) :
    (memberOrStray D className).Tallies fun m => [m.node] := by
  intro c m c' h
  rcases memberOrStray_ok.mp h with ⟨hk, done⟩ | ⟨_, run⟩
  · cases done
    exact .leaf rfl (Cursor.numberless_advance hk rfl)
  · exact classMember_tallies hD className run

theorem interfaceMethod_tallies (hD : D.Tallies) :
    (interfaceMethod D).Tallies fun m => [m.value.node m.span] := by
  intro c m c' h
  obtain ⟨read, c₁, type, c₂, method, c₃, hr, ht, run, done⟩ := interfaceMethod_ok.mp h
  cases done
  have ht : Tally false (type.map TypeRef.node).toList c₁ c₂ := by
    rcases returnType_ok.mp ht with ⟨void, done⟩ | ⟨_, t, _, run, done⟩
    · cases done
      exact .nil (Cursor.numberless_advance void rfl)
    · cases done
      exact typeRef_tallies hD.typeRef run
  exact methodRest_tally hD noBody_tallies (header_tallies hD hr) ht run

/-! ## Types -/

theorem braced_tallies {α : Type} {item : Parser α} {node : α → Node}
    (hi : item.Tallies fun x => [node x]) : (braced item).Tallies (·.map node) := by
  intro c xs c' h
  obtain ⟨opened, xs, c₁, run, closed, done⟩ := braced_ok.mp h
  cases done
  have inner := (itemsUntil_tallies hi _ run).after (Cursor.silent_advance opened rfl)
  exact inner.before (Cursor.silent_advance closed rfl)

theorem typesBehind_tallies (hD : D.Tallies) (k : Keyword) :
    (typesBehind D k).Tallies (·.map TypeRef.node) := by
  intro c types c' h
  rcases typesBehind_ok.mp h with ⟨hk, run⟩ | ⟨_, done⟩
  · exact (commaSeparated_tallies (typeRef_tallies hD.typeRef) run).after
      (Cursor.silent_advance hk rfl)
  · cases done
    exact .nil (.refl _)

theorem baseType_tallies (hD : D.Tallies) :
    (baseType D).Tallies fun t => (t.map TypeRef.node).toList := by
  intro c base c' h
  rcases baseType_ok.mp h with ⟨hk, type, c₁, run, done⟩ | ⟨_, done⟩
  · cases done
    exact (typeRef_tallies hD.typeRef run).after (Cursor.silent_advance hk rfl)
  · cases done
    exact .nil (.refl _)

theorem enumConstants_tallies :
    enumConstants.Tallies fun read => read.1.map Spanned.identifierNode := by
  have loop : ∀ {state result : List Ident × Bool} {c c' : Cursor},
      Iterates constantStep state c result c' → ∃ more, result.1 = state.1.reverse ++ more ∧
        Tally false (more.map Spanned.identifierNode) c c' := by
    intro state result c c' run
    induction run with
    | done run =>
      rcases constantStep_ok.mp run with ⟨_, turn⟩ | ⟨_, x, _, name, ⟨_, turn⟩ | ⟨_, turn⟩⟩
      · cases turn
        exact ⟨[], by simp, .nil (.refl _)⟩
      · cases turn
      · cases turn
        exact ⟨[x], by simp, identifier_tallies name⟩
    | again run _ ih =>
      rcases constantStep_ok.mp run with ⟨_, turn⟩ | ⟨_, x, _, name, ⟨comma, turn⟩ | ⟨_, turn⟩⟩
      · cases turn
      · cases turn
        obtain ⟨more, eq, tally⟩ := ih
        have tally := tally.after (Cursor.silent_advance comma rfl)
        exact ⟨x :: more, by simp [eq], (identifier_tallies name).cons tally⟩
      · cases turn
  intro c read c' h
  obtain ⟨more, eq, tally⟩ := loop (iterates_of_iterate h)
  show Tally false (read.1.map Spanned.identifierNode) c c'
  rw [eq]
  exact tally

theorem typeDeclaration_tally (hD : D.Tallies) {read : ReadHeader} {t : TypeDeclaration}
    (hr : Tally false read.header.nodes c₀ c) (h : typeDeclaration D read c = .ok (t, c')) :
    Tally false [t.node] c₀ c' := by
  rcases typeDeclaration_ok.mp h with ⟨hk, head, c₁, members, c₂, hh, hm, done⟩ |
    ⟨hk, head, c₁, methods, c₂, hh, hm, done⟩ | ⟨hk, declaration, c₁, hd, done⟩
  · cases done
    obtain ⟨name, c₃, base, c₄, interfaces, c₅, hn, hb, hi, done⟩ := classHead_ok.mp hh
    cases done
    have named := (identifier_tallies hn).cons (baseType_tallies hD hb)
    have parts := (named.append (typesBehind_tallies hD .kwImplements hi)).append
      (braced_tallies (memberOrStray_tallies hD _) hm)
    exact hr.with_header (parts.after (Cursor.silent_advance hk rfl)) rfl
      (by simp [ClassHead.nodes, Member.nodes_eq_map])
  · cases done
    obtain ⟨name, c₃, bases, c₄, hn, hb, done⟩ := interfaceHead_ok.mp hh
    cases done
    have named := (identifier_tallies hn).cons (typesBehind_tallies hD .kwExtends hb)
    have parts := named.append (braced_tallies (interfaceMethod_tallies hD) hm)
    exact hr.with_header (parts.after (Cursor.silent_advance hk rfl)) rfl
      (by simp [InterfaceHead.nodes])
  · cases done
    obtain ⟨name, c₃, hn, opened, constants, c₄, hc, closed, done⟩ := enumRest_ok.mp hd
    cases done
    have hc := (enumConstants_tallies hc).after (Cursor.silent_advance opened rfl)
    have named := (identifier_tallies hn).cons (hc.before (Cursor.silent_advance closed rfl))
    exact hr.with_header (named.after (Cursor.silent_advance hk rfl)) rfl rfl

/-! ## Triggers -/

theorem triggerEvent_tallies : triggerEvent.Tallies fun e => [e.eventNode] := by
  intro c e c' h
  obtain ⟨timing, operation, event, first, second, _, done⟩ := triggerEvent_ok.mp h
  cases done
  have gap := (Cursor.numberless_advance rfl (TokenKind.whole?_of_word? first)).trans
    (Cursor.numberless_advance rfl (TokenKind.whole?_of_word? second))
  exact .leaf rfl gap

theorem triggerDeclaration_tallies (hD : D.Tallies) :
    (triggerDeclaration D).Tallies fun d => [d.node] := by
  intro c d c' h
  obtain ⟨hk, name, c₁, hn, on, object, c₂, ho, opened, events, c₃, he, closed, body, c₄, hb,
    done⟩ := triggerDeclaration_ok.mp h
  cases done
  have hn := (identifier_tallies hn).after (Cursor.silent_advance hk rfl)
  have ho := (identifier_tallies ho).mono (Cursor.numberless_of_spells on) (.refl _)
  have he := (commaSeparated_tallies triggerEvent_tallies he).after
    (Cursor.silent_advance opened rfl)
  have hb := (block_tallies hD hb).after (Cursor.silent_advance closed rfl)
  exact (hn.cons (ho.cons (he.append hb))).around rfl

theorem declaration_tallies (hD : D.Tallies) : (declaration D).Tallies fun d => [d.node] := by
  intro c d c' h
  rcases declaration_ok.mp h with ⟨_, run⟩ | ⟨_, read, c₁, type, c₂, hr, run, done⟩
  · exact triggerDeclaration_tallies hD run
  · cases done
    exact typeDeclaration_tally hD (header_tallies hD hr) run

end Grammar

end Apex
