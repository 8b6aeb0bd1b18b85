import Apex.Proofs.Reading.Declarations
import Apex.Proofs.Spans.Statements

/-!
# Where declarations sit

The node of a declaration sits from its header on, whose items come in the order in which they
were read.
-/

namespace Apex

theorem Member.nodes_eq_map (ms : List Member) : Member.nodes ms = ms.map Member.node := by
  induction ms with
  | nil => rfl
  | cons m ms ih => rw [Member.nodes, ih, List.map_cons]

namespace Grammar

open Apex.Parser Node

variable {D : Deeper} {c c₀ c₁ c₂ c' : Cursor}

/-! ## Members -/

theorem parameter_sits (hD : D.Sits) : (parameter D).Sits Parameter.node := by
  intro c p c' s h
  obtain ⟨mods, c₁, type, c₂, name, c₃, hm, ht, hn, done⟩ := parameter_ok.mp h
  cases done
  have hm := modifiers_rows s hm
  have s₁ := hm.upto.sorted s
  have ht := typeRef_sits hD.typeRef s₁ ht
  have hn := identifier_sits (ht.before.sorted s₁) hn
  have before := hm.upto.trans_before (ht.before.trans hn.before)
  exact sits_of_row rfl before (Cursor.spanFrom_current before s) (hm.append (ht.cons hn.row))

theorem parameters_rows (hD : D.Sits) : (parameters D).Rows (·.map Parameter.node) := by
  intro c ps c' s h
  obtain ⟨opened, params, c₁, run, closed, done⟩ := parameters_ok.mp h
  cases done
  have before := Cursor.silent_advance opened rfl
  have behind := Cursor.silent_advance closed rfl
  rcases parameterList_ok.mp run with ⟨_, done⟩ | ⟨_, run⟩
  · cases done
    exact .nil (before.trans behind)
  · exact (commaSeparated_rows (parameter_sits hD).rows s.advance run).mono before behind

theorem methodBody_rows (hD : D.Sits) :
    (methodBody D).Rows fun b => (b.map Block.node).toList := by
  intro c b c' s h
  rcases methodBody_ok.mp h with ⟨_, body, c₁, run, done⟩ | ⟨ends, done⟩
  · cases done
    exact (block_sits hD s run).row
  · cases done
    exact .nil (Cursor.silent_advance ends rfl)

theorem noBody_rows : noBody.Rows fun b => (b.map Block.node).toList := by
  intro c b c' s h
  obtain ⟨ends, done⟩ := noBody_ok.mp h
  cases done
  exact .nil (Cursor.silent_advance ends rfl)

theorem methodRest_sits (hD : D.Sits) {read : ReadHeader} {start : Span}
    {returnType : Option TypeRef} {body : Parser (Option Block)} {m : Method}
    (hb : body.Rows fun b => (b.map Block.node).toList) (hr : read.Sits c₀ c₁) (s : c₀.Sorted)
    (hstart : start = read.start.getD c₁.current.span)
    (ht : Row (returnType.map TypeRef.node).toList c₁ c)
    (h : methodRest D read.header returnType body c = .ok (m, c')) :
    (m.node (c'.spanFrom start)).Sits c₀ c' := by
  obtain ⟨name, c₂, params, c₃, last, c₄, hn, hp, run, done⟩ := methodRest_ok.mp h
  cases done
  have s₁ := ht.upto.sorted (hr.row.upto.sorted s)
  have hn := identifier_sits s₁ hn
  have s₂ := hn.before.sorted s₁
  have hp := parameters_rows hD s₂ hp
  have hb := hb (hp.upto.sorted s₂) run
  have before := ht.upto.trans_before (hn.before.trans_upto (hp.upto.trans hb.upto))
  have row := ht.append ((hn.cons hp).append hb)
  exact hr.with_header rfl hstart before row (by simp)

theorem constructorRest_sits (hD : D.Sits) {read : ReadHeader} {start : Span} {k : Constructor}
    (hr : read.Sits c₀ c) (s : c₀.Sorted) (hstart : start = read.start.getD c.current.span)
    (h : constructorRest D read.header c = .ok (k, c')) :
    (k.node (c'.spanFrom start)).Sits c₀ c' := by
  obtain ⟨name, c₂, params, c₃, body, c₄, hn, hp, hb, done⟩ := constructorRest_ok.mp h
  cases done
  have s₁ := hr.row.upto.sorted s
  have hn := identifier_sits s₁ hn
  have s₂ := hn.before.sorted s₁
  have hp := parameters_rows hD s₂ hp
  have hb := block_sits hD (hp.upto.sorted s₂) hb
  have before := hn.before.trans_upto (hp.upto.trans hb.before.upto)
  exact hr.with_header rfl hstart before ((hn.cons hp).append hb.row) (by simp)

theorem accessorAhead?_spells {t : Token} {kind : AccessorKind}
    (h : accessorAhead? t = some kind) : t.kind.spells kind.keyword = true := by
  unfold accessorAhead? at h
  split at h
  · next get =>
    cases h
    exact get
  · split at h
    · next set =>
      cases h
      exact set
    · cases h

theorem accessor_sits (hD : D.Sits) {earlier : List Accessor} :
    (accessor D earlier).Sits Accessor.node := by
  intro c a c' s h
  obtain ⟨mods, c₁, kind, hm, word, _, body, c₂, run, done⟩ := accessor_ok.mp h
  cases done
  have hm := modifiers_rows s hm
  have spells := accessorAhead?_spells word
  have first := Cursor.before_advance (isEnd_of_spells spells)
  have s₁ := (hm.upto.sorted s).advance
  have hb : Row (body.map Block.node).toList c₁.advance c' := by
    rcases accessorBody_ok.mp run with ⟨_, b, _, run, done⟩ | ⟨ends, done⟩
    · cases done
      exact (block_sits hD s₁ run).row
    · cases done
      exact .nil (Cursor.silent_advance ends rfl)
  have before := hm.upto.trans_before (first.trans_upto hb.upto)
  have inner : kind.kind.isLeaf = false := by cases kind <;> rfl
  -- The word of the accessor belongs to the accessor itself.
  have gap : c₁.Gap (Element.accessor ⟨c'.spanFrom c.current.span, kind, mods, body⟩).keeps
      c₁.advance :=
    Cursor.gap_advance (Element.keeps_of_spells (List.mem_singleton_self _) spells)
  refine .mk (fun leaf => ?_) before (Cursor.spanFrom_current before s)
    ((Row.keeps hm _).append ((Row.keeps hb _).mono gap (.refl _)))
  rw [Element.kind, inner] at leaf
  cases leaf

theorem accessors_rows (hD : D.Sits) : (accessors D).Rows (·.map Accessor.node) := by
  intro c as c' s h
  have collected := items_of_iterates (fun c a c₁ => ∃ earlier, accessor D earlier c = .ok (a, c₁))
    (fun _ => True) List.reverse ?_ (iterates_of_iterate h)
  · obtain ⟨as, items, _, rfl⟩ := collected
    have row : Row (as.map Accessor.node) c c' :=
      row_of_items items s fun s ⟨_, run⟩ => (accessor_sits hD s run).row
    simpa using row
  · intro earlier c turn c₁ run
    rcases accessorStep_ok.mp run with ⟨_, turn⟩ | ⟨_, a, _, read, turn⟩
    · cases turn
      exact .inr ⟨rfl, rfl, trivial⟩
    · cases turn
      exact .inl ⟨a, rfl, earlier, read⟩

/-- The modifier `static` is a single keyword. -/
theorem modifier?_static_silent {m : Spanned Modifier} (h : modifier? c = .ok (some m, c'))
    (static : m.value = .isStatic) : c.Silent c' := by
  rcases modifier?_ok.mp h with ⟨⟨value, n⟩, found, done⟩ | ⟨_, _, done⟩
  · cases done
    obtain rfl : value = .isStatic := static
    unfold modifierAhead? at found
    repeat' split at found
    any_goals cases found
    next hk =>
      obtain ⟨_, _, done⟩ := Option.map_eq_some_iff.mp found
      cases done
      exact Cursor.silent_advance hk rfl
  · cases done

/-- A header of nothing but `static` holds keywords only. -/
theorem staticHeader_silent {read : ReadHeader} (h : header D c = .ok (read, c'))
    (plain : read.header.annotations = [])
    (static : ∀ m ∈ read.header.modifiers, m.value = .isStatic) : c.Silent c' := by
  obtain ⟨items, rfl, found⟩ := header_items h
  clear h
  induction found with
  | nil => exact .refl _
  | @cons _ i _ _ _ first _ ih =>
    cases i with
    | annotated a => cases plain
    | modifier m =>
      obtain ⟨head, tail⟩ := List.forall_mem_cons.mp static
      exact (modifier?_static_silent first.2 head).trans (ih plain tail)

theorem initializerRest_sits (hD : D.Sits) {read : ReadHeader} {start : Span} {i : Initializer}
    (hr : read.Sits c₀ c) (run : header D c₀ = .ok (read, c)) (s : c₀.Sorted)
    (hstart : start = read.start.getD c.current.span)
    (h : initializerRest D read.header c = .ok (i, c')) :
    (i.node (c'.spanFrom start)).Sits c₀ c' := by
  obtain ⟨plain, static, body, c₁, block, done⟩ := initializerRest_ok.mp h
  cases done
  have hb := block_sits hD (hr.row.upto.sorted s) block
  have gap := staticHeader_silent run (List.isEmpty_iff.mp plain)
    fun m hm => by simpa using List.all_eq_true.mp static m hm
  have before := hr.row.upto.trans_before hb.before
  refine sits_of_row rfl before ?_ (hb.row.mono gap (.refl _))
  rw [hstart]
  exact hr.span_eq hb.before

theorem variableMember_sits (hD : D.Sits) {read : ReadHeader} {start : Span} {type : TypeRef}
    {name : Ident} {m : Member} (hr : read.Sits c₀ c₁) (s : c₀.Sorted)
    (hstart : start = read.start.getD c₁.current.span) (ht : type.node.Sits c₁ c₂)
    (hn : name.identifierNode.Sits c₂ c)
    (h : variableMember D read.header start type name c = .ok (m, c')) : m.node.Sits c₀ c' := by
  have s₂ := ht.before.sorted (hr.row.upto.sorted s)
  have sorted := hn.before.sorted s₂
  rcases variableMember_ok.mp h with ⟨property, c₃, run, done⟩ | ⟨_, ds, c₃, run, ends, done⟩
  · cases done
    obtain ⟨opened, accessors, c₃, read, _, closed, done⟩ := propertyRest_ok.mp run
    cases done
    have inside := (accessors_rows hD sorted.advance read).mono
      (Cursor.silent_advance opened rfl) (Cursor.silent_advance closed rfl)
    have row := ht.cons (hn.cons inside)
    exact hr.with_header rfl hstart (ht.before.trans (hn.before.trans_upto inside.upto)) row rfl
  · cases done
    have row := (declarators_row hD s₂ hn run).mono (.refl _) (Cursor.silent_advance ends rfl)
    exact hr.with_header rfl hstart (ht.before.trans_upto row.upto) (ht.cons row) rfl

theorem typedMember_sits (hD : D.Sits) {read : ReadHeader} {start : Span} {m : Member}
    (hr : read.Sits c₀ c) (s : c₀.Sorted) (hstart : start = read.start.getD c.current.span)
    (h : typedMember D read.header start c = .ok (m, c')) : m.node.Sits c₀ c' := by
  have sorted := hr.row.upto.sorted s
  obtain ⟨type, c₁, ht, rest⟩ := typedMember_ok.mp h
  have ht := typeRef_sits hD.typeRef sorted ht
  rcases rest with ⟨_, method, c₂, run, done⟩ | ⟨_, name, c₂, hn, run⟩
  · cases done
    have row : Row ((some type).map TypeRef.node).toList c c₁ := ht.row
    exact methodRest_sits hD (methodBody_rows hD) hr s hstart row run
  · exact variableMember_sits hD hr s hstart ht (identifier_sits (ht.before.sorted sorted) hn) run

theorem void_of_memberSort {className : String} (sort : memberSort className c = .void) :
    c.current.kind = .keyword .kwVoid := by
  unfold memberSort at sort
  repeat' split at sort
  any_goals cases sort
  assumption

theorem classMember_sits (hD : D.Sits) (className : String) :
    (classMember D className).Sits Member.node := by
  intro c m c' s h
  obtain ⟨read, c₁, header, rest⟩ := classMember_ok.mp h
  have hr := header_sits hD s header
  dsimp only at rest
  split at rest
  · obtain ⟨initializer, c₂, run, done⟩ := rest
    cases done
    exact initializerRest_sits hD hr header s rfl run
  · obtain ⟨type, c₂, run, done⟩ := rest
    cases done
    exact hD.typeDeclaration s hr run
  · next sort =>
    obtain ⟨method, c₂, run, done⟩ := rest
    cases done
    have gap : Row ((none : Option TypeRef).map TypeRef.node).toList c₁ c₁.advance :=
      .nil (Cursor.silent_advance (void_of_memberSort sort) rfl)
    exact methodRest_sits hD (methodBody_rows hD) hr s rfl gap run
  · obtain ⟨constructor, c₂, run, done⟩ := rest
    cases done
    exact constructorRest_sits hD hr s rfl run
  · exact typedMember_sits hD hr s rfl rest

theorem memberOrStray_sits (hD : D.Sits) (className : String) :
    (memberOrStray D className).Sits Member.node := by
  intro c m c' s h
  rcases memberOrStray_ok.mp h with ⟨hk, done⟩ | ⟨_, run⟩
  · cases done
    exact current_sits rfl (isEnd_of_kind hk nofun)
  · exact classMember_sits hD className s run

theorem interfaceMethod_sits (hD : D.Sits) :
    (interfaceMethod D).Sits fun m => m.value.node m.span := by
  intro c m c' s h
  obtain ⟨read, c₁, type, c₂, method, c₃, hr, ht, run, done⟩ := interfaceMethod_ok.mp h
  cases done
  have hr := header_sits hD s hr
  have s₁ := hr.row.upto.sorted s
  have ht : Row (type.map TypeRef.node).toList c₁ c₂ := by
    rcases returnType_ok.mp ht with ⟨void, done⟩ | ⟨_, t, _, run, done⟩
    · cases done
      exact .nil (Cursor.silent_advance void rfl)
    · cases done
      exact (typeRef_sits hD.typeRef s₁ run).row
  exact methodRest_sits hD noBody_rows hr s rfl ht run

/-! ## Types -/

theorem braced_rows {α : Type} {item : Parser α} {node : α → Node} (hi : item.Sits node) :
    (braced item).Rows (·.map node) := by
  intro c xs c' s h
  obtain ⟨opened, xs, c₁, run, closed, done⟩ := braced_ok.mp h
  cases done
  exact (itemsUntil_rows hi.rows _ s.advance run).mono (Cursor.silent_advance opened rfl)
    (Cursor.silent_advance closed rfl)

theorem typesBehind_rows (hD : D.Sits) (k : Keyword) :
    (typesBehind D k).Rows (·.map TypeRef.node) := by
  intro c types c' s h
  rcases typesBehind_ok.mp h with ⟨hk, run⟩ | ⟨_, done⟩
  · exact (commaSeparated_rows (typeRef_sits hD.typeRef).rows s.advance run).mono
      (Cursor.silent_advance hk rfl) (.refl _)
  · cases done
    exact .nil (.refl _)

theorem baseType_rows (hD : D.Sits) :
    (baseType D).Rows fun t => (t.map TypeRef.node).toList := by
  intro c base c' s h
  rcases baseType_ok.mp h with ⟨hk, type, c₁, run, done⟩ | ⟨_, done⟩
  · cases done
    exact (typeRef_sits hD.typeRef s.advance run).row.mono (Cursor.silent_advance hk rfl)
      (.refl _)
  · cases done
    exact .nil (.refl _)

/-- The constants of an enum come one behind the other. -/
theorem enumConstants_row {read : List Ident × Bool} (s : c.Sorted)
    (h : enumConstants c = .ok (read, c')) :
    Row (read.1.map Spanned.identifierNode) c c' := by
  have loop : ∀ {state result : List Ident × Bool} {c c' : Cursor},
      Iterates constantStep state c result c' → c.Sorted →
      ∃ more, result.1 = state.1.reverse ++ more ∧ Row (more.map Spanned.identifierNode) c c' := by
    intro state result c c' run
    induction run with
    | done run =>
      intro s
      rcases constantStep_ok.mp run with ⟨_, turn⟩ | ⟨_, x, _, name, ⟨_, turn⟩ | ⟨_, turn⟩⟩
      · cases turn
        exact ⟨[], by simp, .nil (.refl _)⟩
      · cases turn
      · cases turn
        exact ⟨[x], by simp, (identifier_sits s name).row⟩
    | again run _ ih =>
      intro s
      rcases constantStep_ok.mp run with ⟨_, turn⟩ | ⟨_, x, _, name, ⟨comma, turn⟩ | ⟨_, turn⟩⟩
      · cases turn
      · cases turn
        have hx := identifier_sits s name
        obtain ⟨more, eq, row⟩ := ih (hx.before.sorted s).advance
        have row := row.mono (Cursor.silent_advance comma rfl) (.refl _)
        exact ⟨x :: more, by simp [eq], hx.cons row⟩
      · cases turn
  obtain ⟨more, eq, row⟩ := loop (iterates_of_iterate h) s
  rw [eq]
  exact row

theorem typeDeclaration_sits (hD : D.Sits) {read : ReadHeader} {t : TypeDeclaration}
    (s : c₀.Sorted) (hr : read.Sits c₀ c) (h : typeDeclaration D read c = .ok (t, c')) :
    t.node.Sits c₀ c' := by
  have sorted := (hr.row.upto.sorted s).advance
  rcases typeDeclaration_ok.mp h with ⟨hk, head, c₁, members, c₂, hh, hm, done⟩ |
    ⟨hk, head, c₁, methods, c₂, hh, hm, done⟩ | ⟨hk, declaration, c₁, hd, done⟩
  · cases done
    have first := lead_of_kind hk rfl nofun
    obtain ⟨name, c₃, base, c₄, interfaces, c₅, hn, hb, hi, done⟩ := classHead_ok.mp hh
    cases done
    have hn := identifier_sits sorted hn
    have s₃ := hn.before.sorted sorted
    have hb := baseType_rows hD s₃ hb
    have s₄ := hb.upto.sorted s₃
    have hi := typesBehind_rows hD .kwImplements s₄ hi
    have hm := braced_rows (memberOrStray_sits hD _) (hi.upto.sorted s₄) hm
    have row := ((hn.cons hb).append hi).append hm
    have row := row.mono first.silent (.refl _)
    have before := first.before.trans_upto
      (hn.before.upto.trans (hb.upto.trans (hi.upto.trans hm.upto)))
    exact hr.with_header rfl rfl before row (by simp [ClassHead.nodes, Member.nodes_eq_map])
  · cases done
    have first := lead_of_kind hk rfl nofun
    obtain ⟨name, c₃, bases, c₄, hn, hb, done⟩ := interfaceHead_ok.mp hh
    cases done
    have hn := identifier_sits sorted hn
    have s₃ := hn.before.sorted sorted
    have hb := typesBehind_rows hD .kwExtends s₃ hb
    have hm := braced_rows (interfaceMethod_sits hD) (hb.upto.sorted s₃) hm
    have row := ((hn.cons hb).append hm).mono first.silent (.refl _)
    have before := first.before.trans_upto (hn.before.upto.trans (hb.upto.trans hm.upto))
    exact hr.with_header rfl rfl before row (by simp [InterfaceHead.nodes])
  · cases done
    have first := lead_of_kind hk rfl nofun
    obtain ⟨name, c₃, hn, opened, constants, c₄, hc, closed, done⟩ := enumRest_ok.mp hd
    cases done
    have hn := identifier_sits sorted hn
    have s₃ := (hn.before.sorted sorted).advance
    have hc := (enumConstants_row s₃ hc).mono (Cursor.silent_advance opened rfl)
      (Cursor.silent_advance closed rfl)
    have row := (hn.cons hc).mono first.silent (.refl _)
    have before := first.before.trans_upto (hn.before.upto.trans hc.upto)
    exact hr.with_header rfl rfl before row rfl

/-! ## Triggers -/

theorem triggerEvent_sits : triggerEvent.Sits Spanned.eventNode := by
  intro c e c' s h
  obtain ⟨timing, operation, event, first, _, _, done⟩ := triggerEvent_ok.mp h
  cases done
  have inside : c.current.isEnd = false := by
    refine isEnd_of_kind rfl fun ends => ?_
    rw [ends] at first
    cases first
  have before := (Cursor.before_advance inside).trans_upto (Cursor.upto_advance _)
  exact sits_leaf rfl before (Cursor.spanFrom_current before s)

theorem triggerDeclaration_sits (hD : D.Sits) : (triggerDeclaration D).Sits Declaration.node := by
  intro c d c' s h
  obtain ⟨hk, name, c₁, hn, on, object, c₂, ho, opened, events, c₃, he, closed, body, c₄, hb,
    done⟩ := triggerDeclaration_ok.mp h
  cases done
  have first := lead_of_kind hk rfl nofun
  have hn := identifier_sits s.advance hn
  have s₁ := (hn.before.sorted s.advance).advance
  have ho := identifier_sits s₁ ho
  have s₂ := (ho.before.sorted s₁).advance
  have he := commaSeparated_rows triggerEvent_sits.rows s₂ he
  have hb := block_sits hD (he.upto.sorted s₂).advance hb
  have row := (he.mono (Cursor.silent_advance opened rfl) (.refl _)).append
    (hb.row.mono (Cursor.silent_advance closed rfl) (.refl _))
  have row := ho.cons row
  have before := first.before.trans_upto
    (hn.before.upto.trans ((Cursor.upto_advance c₁).trans row.upto))
  -- The word `on` belongs to the trigger itself.
  have gap : c₁.Gap (Element.trigger ⟨name, object, events, body⟩).keeps c₁.advance :=
    Cursor.gap_advance (Element.keeps_of_spells (List.mem_singleton_self _) on)
  have named := Row.keeps (hn.row.mono first.silent (.refl _))
    (.trigger ⟨name, object, events, body⟩)
  exact .mk nofun before (Cursor.spanFrom_current before s)
    (named.append ((Row.keeps row _).mono gap (.refl _)))

theorem declaration_sits (hD : D.Sits) : (declaration D).Sits Declaration.node := by
  intro c d c' s h
  rcases declaration_ok.mp h with ⟨_, run⟩ | ⟨_, read, c₁, type, c₂, hr, run, done⟩
  · exact triggerDeclaration_sits hD s run
  · cases done
    exact typeDeclaration_sits hD s (header_sits hD s hr) run

end Grammar

end Apex
