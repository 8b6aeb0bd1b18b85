import Apex.Proofs.Echo.Statements
import Apex.Proofs.Reading.Declarations
import Apex.Proofs.Shape.Types
import Apex.Proofs.Spans.Declarations
import Apex.Proofs.Writing.Erasing

/-!
# Reading members again

The members of a class are read again from any row in which their forms stand, and what is read
again is written as what was read before.
-/

namespace Apex

/-! ## What declarations have in common -/

/-- What two methods have in common: what they say, and how they are written. -/
def Method.view (m : Method) : Method × List Mark := (m.blur .erasing, m.marks)

/-- What two members have in common: what they say, and how they are written. -/
def Member.view (m : Member) : Member × List Mark := (m.blur .erasing, m.marks)

theorem Method.view_eq {m m' : Method} (header : m.header.view = m'.header.view)
    (same : m.blur .erasing = m'.blur .erasing) : m.view = m'.view :=
  Prod.ext same (Method.marks_eq (congrArg Prod.snd header) same)

/-- What values have in common in two ways they have in common in each. -/
theorem maps_of_views {α β γ : Type} {f : α → β} {g : α → γ} {xs ys : List α}
    (same : (xs.map fun x => (f x, g x)) = ys.map fun x => (f x, g x)) :
    xs.map f = ys.map f ∧ xs.map g = ys.map g := by
  have first := congrArg (List.map Prod.fst) same
  have second := congrArg (List.map Prod.snd) same
  rw [List.map_map, List.map_map] at first second
  exact ⟨first, second⟩

theorem Header.blur_of_view {h h' : Header} (same : h.view = h'.view) :
    h.blur .erasing = h'.blur .erasing := congrArg Prod.fst same

open Grammar Apex.Parser

namespace Parser.EchoesAt

variable {α γ : Type} {e₀ e₁ : Edge} {read : List Form} {c : Cursor} {forms : α → List Form}
  {view : α → γ}

/-- A check that stops both parsers or none, and what follows it. -/
theorem check {stops stops' : Bool} {error error' : Parser PUnit} {f g : PUnit → Parser α}
    (agree : stops = stops') (fails : ∀ {c r}, error c ≠ .ok r)
    (h : EchoesAt e₀ e₁ read c (f ⟨⟩) (g ⟨⟩) forms view) :
    EchoesAt e₀ e₁ read c (if stops then error >>= f else f ⟨⟩)
      (if stops' then error' >>= g else g ⟨⟩) forms view := by
  subst agree
  cases stops with
  | false => exact h
  | true =>
    intro _ x c' run
    obtain ⟨_, _, run, _⟩ := bind_ok.mp run
    exact (fails run).elim

end Parser.EchoesAt

namespace Grammar

variable {D : Deeper} {c : Cursor}

theorem fail_ne_ok {α : Type} {expected : List String} {r : α × Cursor} :
    (fail expected : Parser α) c ≠ .ok r := fun run => fail_ok.mp run

/-! ## Members -/

theorem parameter_echoes (hD : D.Echoes) :
    Echoes .loose .loose (parameter D) Parameter.forms (Parameter.blur .erasing) := by
  intro c
  refine .here fun {s t} => .bind (modifiers_echoes c) fun {ms ms' c₁} mods => ?_
  refine .bind ((typeRef_echoes hD.typeRef _).begin _) fun {x y c₂} type => ?_
  refine .bind ((identifier_echoes _).begin _) fun {n m c₃} name => .spanFrom fun {s t} => ?_
  refine .pure (by simp [Parameter.forms]) ?_
  simp only [Parameter.blur, Blur.erasing_span, mods, type, name]

theorem parameters_echoes (hD : D.Echoes) :
    Echoes .loose .loose (parameters D) Parameter.formsOf (List.map (Parameter.blur .erasing)) := by
  have list : Echoes .loose .loose (parameterList D)
      (fun ps => Form.commas (ps.map Parameter.forms)) (List.map (Parameter.blur .erasing)) :=
    fun c => .isAt rfl rfl (fun _ => .pure rfl rfl)
      fun _ => .commaSeparated (parameter_echoes hD _)
  intro c
  refine .expect rfl (by simp) (by simp) fun {s t} => ?_
  refine .bind (list _).atValue fun {ps qs c₁} same => ?_
  refine .expect rfl (by simp) (by simp) fun {s t} => .pure ?_ same
  simp [Parameter.formsOf, Form.parens]

theorem methodBody_echoes (hD : D.Echoes) :
    Echoes .loose .loose (methodBody D) Block.formsOption (Option.map (Block.blur .erasing)) := by
  intro c
  refine .isAt rfl rfl (fun _ => ?_) (fun _ => ?_)
  · exact .bind ((block_echoes hD c).begin _) fun same => .pure rfl (congrArg some same)
  · exact .accept rfl rfl (by simp) (by simp) (fun _ => .pure rfl rfl) (fun _ => .fail)

theorem noBody_echoes :
    Echoes .loose .loose noBody Block.formsOption (Option.map (Block.blur .erasing)) :=
  fun _ => .expect rfl (by simp) (by simp) fun {_ _} => .pure rfl rfl

theorem methodRest_echoes (hD : D.Echoes) {header header' : Header}
    {type type' : Option TypeRef} {body : Parser (Option Block)}
    (same : header.view = header'.view)
    (result : type.map (TypeRef.blur .erasing) = type'.map (TypeRef.blur .erasing))
    (hb : Echoes .loose .loose body Block.formsOption (Option.map (Block.blur .erasing))) :
    EchoesAt .loose .loose (header.forms ++ returnForms type) c (methodRest D header type body)
      (methodRest D header' type' body) Method.forms Method.view := by
  refine .bind ((identifier_echoes c).begin _) fun {n m c₁} name => ?_
  refine .bind (parameters_echoes hD c₁) fun {ps qs c₂} params => ?_
  refine .bind (hb c₂) fun {b b' c₃} body => .pure (by simp [Method.forms]) ?_
  refine Method.view_eq same ?_
  simp only [Method.blur, Header.blur_of_view same, result, name, params, body]

theorem returnType_echoes (hD : D.Echoes) :
    Echoes .loose .loose (returnType D) returnForms (Option.map (TypeRef.blur .erasing)) := by
  intro c
  refine .accept rfl rfl (by simp) (by simp) (fun _ => .pure rfl rfl) (fun _ => ?_)
  exact .bind ((typeRef_echoes hD.typeRef c).begin _) fun same => .pure rfl (congrArg some same)

/-- A method as a member of a class. -/
theorem methodMember_echoes {method method' : Parser Method} {read : List Form} {s t : Span}
    (h : EchoesAt .loose .loose read c method method' Method.forms Method.view) :
    EchoesAt .loose .loose read c
      (do let method ← method; return .method (← Parser.spanFrom s) method)
      (do let method ← method'; return .method (← Parser.spanFrom t) method)
      Member.forms Member.view := by
  refine .bindOn h fun {m m' c₁} same => .spanFrom fun {s t} => .pure rfl ?_
  obtain ⟨same, marks⟩ := Prod.mk.inj same
  simp only [Member.view, Member.blur, Member.marks, Blur.erasing_span, same, marks]

theorem constructorMember_echoes (hD : D.Echoes) {header header' : Header} {s t : Span}
    (same : header.view = header'.view) :
    EchoesAt .loose .loose header.forms c
      (do let constructor ← constructorRest D header
          return .constructor (← Parser.spanFrom s) constructor)
      (do let constructor ← constructorRest D header'
          return .constructor (← Parser.spanFrom t) constructor)
      Member.forms Member.view := by
  have rest : EchoesAt .loose .loose header.forms c (constructorRest D header)
      (constructorRest D header') Constructor.forms
      fun k => (k.blur .erasing, k.marks) := by
    refine .bind ((identifier_echoes c).begin _) fun {n m c₁} name => ?_
    refine .bind (parameters_echoes hD c₁) fun {ps qs c₂} params => ?_
    refine .bind ((block_echoes hD c₂).begin _) fun {b b' c₃} body => ?_
    refine .pure (by simp [Constructor.forms]) ?_
    have blurred : Constructor.blur .erasing ⟨header, n, ps, b⟩ =
        Constructor.blur .erasing ⟨header', m, qs, b'⟩ := by
      simp only [Constructor.blur, Header.blur_of_view same, name, params, body]
    exact Prod.ext blurred (Constructor.marks_eq (congrArg Prod.snd same) blurred)
  refine .bindOn rest fun {k k' c₁} same => .spanFrom fun {s t} => .pure rfl ?_
  obtain ⟨same, marks⟩ := Prod.mk.inj same
  simp only [Member.view, Member.blur, Member.marks, Blur.erasing_span, same, marks]

/-! ## Properties -/

theorem accessorAhead?_eq_of_shape_eq {s t : Token} (h : s.kind.shape = t.kind.shape) :
    accessorAhead? s = accessorAhead? t := by
  unfold accessorAhead?
  rw [TokenKind.spells_eq_of_shape_eq h, TokenKind.spells_eq_of_shape_eq h]

/-- The word of an accessor that is not of the kind of an earlier one. -/
def accessorWord (earlier : List Accessor) : Parser AccessorKind := do
  let kind ← accessorKind
  if earlier.any (·.kind == kind) then fail [(TokenKind.punctuation .closeBrace).description]
  advance
  return kind

theorem accessorWord_ok {earlier : List Accessor} {r : AccessorKind × Cursor} :
    accessorWord earlier c = .ok r ↔
      ∃ kind, accessorAhead? c.current = some kind ∧
        earlier.any (·.kind == kind) = false ∧ (kind, c.advance) = r := by
  simp [accessorWord]

@[simp] theorem accessorWord_bind_ok {earlier : List Accessor} {β : Type}
    {f : AccessorKind → Parser β} {r : β × Cursor} :
    (accessorWord earlier >>= f) c = .ok r ↔
      ∃ kind, accessorAhead? c.current = some kind ∧
        earlier.any (·.kind == kind) = false ∧ f kind c.advance = .ok r := by
  rw [bind_ok]
  constructor
  · rintro ⟨kind, _, word, run⟩
    obtain ⟨_, ahead, fresh, done⟩ := accessorWord_ok.mp word
    cases done
    exact ⟨kind, ahead, fresh, run⟩
  · rintro ⟨kind, ahead, fresh, run⟩
    exact ⟨kind, _, accessorWord_ok.mpr ⟨kind, ahead, fresh, rfl⟩, run⟩

theorem accessorWord_echoes {earlier earlier' : List Accessor}
    (same : earlier.map (Accessor.blur .erasing) = earlier'.map (Accessor.blur .erasing)) :
    EchoesAt .loose .loose [] c (accessorWord earlier) (accessorWord earlier')
      (fun kind => [.spelled kind.keyword]) id := by
  have kinds (accessors : List Accessor) (kind : AccessorKind) :
      accessors.any (·.kind == kind) =
        (accessors.map (Accessor.blur .erasing)).any (·.kind == kind) := by
    rw [List.any_map]
    rfl
  intro sound kind c' run
  obtain ⟨kind, ahead, fresh, done⟩ := accessorWord_ok.mp run
  cases done
  have spells := accessorAhead?_spells ahead
  refine ⟨[.spelled kind.keyword], rfl, stands_single.mpr ⟨spells, rfl⟩, ?_⟩
  intro d d' sorted stands meets
  have contextual : kind.keyword.isReserved = false := by cases kind <;> rfl
  have reads := stands_single.mp stands
  have steady : (Form.spelled kind.keyword).isSteady = true := by simp [Form.isSteady, contextual]
  have alike : c.Alike d := Form.Reads.alike steady ⟨spells, rfl⟩ reads meets
  obtain ⟨_, rfl⟩ := reads
  refine ⟨alike, kind, accessorWord_ok.mpr ⟨kind, ?_, ?_, rfl⟩, rfl⟩
  · rw [← accessorAhead?_eq_of_shape_eq alike.shape, ahead]
  · rw [kinds, ← same, ← kinds, fresh]

theorem accessorBody_echoes (hD : D.Echoes) :
    Echoes .loose .loose (accessorBody D) Block.formsOption
      (Option.map (Block.blur .erasing)) := by
  intro c
  refine .accept rfl rfl (by simp) (by simp) (fun _ => .pure rfl rfl) (fun _ => ?_)
  refine .isAt rfl rfl (fun _ => ?_) (fun _ => .fail)
  exact .bind ((block_echoes hD c).begin _) fun same => .pure rfl (congrArg some same)

theorem accessor_echoes (hD : D.Echoes) {earlier earlier' : List Accessor}
    (same : earlier.map (Accessor.blur .erasing) = earlier'.map (Accessor.blur .erasing)) :
    EchoesAt .loose .loose [] c (accessor D earlier) (accessor D earlier') Accessor.forms
      (Accessor.blur .erasing) := by
  -- The word is read in one step, so that the two rows need to agree on it only once.
  let parts (earlier : List Accessor) : Parser Accessor := do
    let start ← Parser.here
    let modifiers ← modifiers
    let kind ← accessorWord earlier
    let body ← accessorBody D
    return ⟨← Parser.spanFrom start, kind, modifiers, body⟩
  have runs : ∀ {earlier : List Accessor} {c : Cursor} {r : Accessor × Cursor},
      accessor D earlier c = .ok r ↔ parts earlier c = .ok r := by
    intro earlier c r
    simp [parts, accessor_ok]
  have whole : EchoesAt .loose .loose [] c (parts earlier) (parts earlier') Accessor.forms
      (Accessor.blur .erasing) := by
    refine .here fun {s t} => .bind (modifiers_echoes c) fun {ms ms' c₁} mods => ?_
    refine .bind (accessorWord_echoes same) fun {kind kind' c₂} word => ?_
    refine .bind (accessorBody_echoes hD c₂) fun {b b' c₃} body => .spanFrom fun {s t} => ?_
    refine .pure (by simp [Accessor.forms]) ?_
    obtain rfl : kind = kind' := word
    simp only [Accessor.blur, Blur.erasing_span, mods, body]
  exact whole.instead runs.mp fun _ run => runs.mpr run

theorem accessors_echoes (hD : D.Echoes) :
    Echoes .loose .loose (accessors D) (fun as => as.flatMap Accessor.forms)
      (List.map (Accessor.blur .erasing)) := by
  intro c
  refine .iterate (fun as => as.reverse.flatMap Accessor.forms) (List.map (Accessor.blur .erasing))
    (s := []) (fun {s t c} same => ?_) (fun {s c s' c₁} sound run => ?_) rfl
  · refine .isAt rfl rfl (fun _ => .pure rfl ?_) (fun _ => ?_)
    · simp only [Turn.map, List.map_reverse, same]
    · refine .bind (accessor_echoes hD same) fun {a a' c₁} head => .pure ?_ ?_
      · simp [Turn.forms]
      · simp only [Turn.map, List.map_cons, same, head]
  · rcases accessorStep_ok.mp run with ⟨_, turn⟩ | ⟨_, a, _, run, turn⟩
    · cases turn
    · cases turn
      refine (accessor_echoes hD rfl).before run sound ?_
      simp [Accessor.forms]

theorem propertyMember_echoes (hD : D.Echoes) {header header' : Header} {s t : Span}
    {type type' : TypeRef} {name name' : Ident} (same : header.view = header'.view)
    (sameType : type.blur .erasing = type'.blur .erasing)
    (sameName : Ident.blur .erasing name = Ident.blur .erasing name') :
    EchoesAt .loose .loose (header.forms ++ type.forms ++ [.ident name]) c
      (do let property ← propertyRest D header type name
          return .property (← Parser.spanFrom s) property)
      (do let property ← propertyRest D header' type' name'
          return .property (← Parser.spanFrom t) property)
      Member.forms Member.view := by
  have rest : EchoesAt .loose .loose (header.forms ++ type.forms ++ [.ident name]) c
      (propertyRest D header type name) (propertyRest D header' type' name') Property.forms
      fun p => (p.blur .erasing, p.marks) := by
    refine .expect rfl (by simp) (by simp) fun {s t} => ?_
    refine .bind (accessors_echoes hD _).atValue fun {as bs c₁} accessors => ?_
    have empty : as.isEmpty = bs.isEmpty := by
      rw [← List.isEmpty_map (f := Accessor.blur .erasing), accessors, List.isEmpty_map]
    refine .check empty fail_ne_ok (.expect rfl (by simp) (by simp) fun {s t} => .pure ?_ ?_)
    · simp [Property.forms, Form.braces]
    have blurred : Property.blur .erasing ⟨header, type, name, as⟩ =
        Property.blur .erasing ⟨header', type', name', bs⟩ := by
      simp only [Property.blur, Header.blur_of_view same, sameType, sameName, accessors]
    exact Prod.ext blurred (Property.marks_eq (congrArg Prod.snd same) blurred)
  refine .bindOn rest fun {p p' c₁} same => .spanFrom fun {s t} => .pure rfl ?_
  obtain ⟨same, marks⟩ := Prod.mk.inj same
  simp only [Member.view, Member.blur, Member.marks, Blur.erasing_span, same, marks]

/-! ## Initializers and fields -/

/-- A header of nothing but `static` stands for the word, if it is there. -/
theorem staticHeader_forms {h : Header} (plain : h.annotations.isEmpty = true)
    (static : h.modifiers.all (·.value == .isStatic) = true) (distinct : Distinct h.modifiers) :
    h.forms = if h.has .isStatic then [.keyword .kwStatic] else [] := by
  obtain ⟨annotations, modifiers⟩ := h
  obtain rfl : annotations = [] := List.isEmpty_iff.mp plain
  have static : ∀ m ∈ modifiers, m.value = .isStatic := by simpa using static
  cases modifiers with
  | nil => rfl
  | cons m ms =>
    obtain ⟨head, tail⟩ := List.forall_mem_cons.mp static
    cases ms with
    | nil => simp [Header.forms, Header.items, Header.insertItem, Header.has, HeaderItem.forms, head,
        Modifier.forms, Modifier.keyword?]
    | cons m' ms =>
      -- A second one would be given twice.
      have other := tail m' (List.mem_cons_self ..)
      simp [Distinct, head, other] at distinct

theorem initializerMember_echoes (hD : D.Echoes) {header header' : Header} {s t : Span}
    (same : header.view = header'.view) (distinct : Distinct header.modifiers) :
    EchoesAt .loose .loose header.forms c
      (do let initializer ← initializerRest D header
          return .initializer (← Parser.spanFrom s) initializer)
      (do let initializer ← initializerRest D header'
          return .initializer (← Parser.spanFrom t) initializer)
      Member.forms Member.view := by
  have blurred := Header.blur_of_view same
  have bare (h : Header) : (h.annotations.isEmpty && h.modifiers.all (·.value == .isStatic)) =
      ((h.blur .erasing).annotations.isEmpty &&
        (h.blur .erasing).modifiers.all (·.value == .isStatic)) := by
    simp only [Header.blur, List.isEmpty_map, List.all_map]
    rfl
  have static : header.has .isStatic = header'.has .isStatic :=
    any_value_like (congrArg Header.modifiers blurred) _
  have rest : EchoesAt .loose .loose header.forms c (initializerRest D header)
      (initializerRest D header') Initializer.forms (Initializer.blur .erasing) := by
    cases stops : header.annotations.isEmpty && header.modifiers.all (·.value == .isStatic) with
    | false =>
      intro _ x c' run
      obtain ⟨plain, all, _⟩ := initializerRest_ok.mp run
      rw [plain, all] at stops
      cases stops
    | true =>
      obtain ⟨plain, all⟩ := Bool.and_eq_true_iff.mp stops
      have agree : (!(header.annotations.isEmpty && header.modifiers.all (·.value == .isStatic))) =
          !(header'.annotations.isEmpty && header'.modifiers.all (·.value == .isStatic)) := by
        rw [bare header, blurred, ← bare header']
      unfold initializerRest
      refine .check agree fail_ne_ok ?_
      refine .bind ((block_echoes hD c).begin _) fun {b b' c₁} body => .pure ?_ ?_
      · rw [staticHeader_forms plain all distinct, Initializer.forms]
      · simp only [Initializer.blur, static, body]
  refine .bindOn rest fun {i i' c₁} same => .spanFrom fun {s t} => .pure rfl ?_
  have marks := eq_of_erased Initializer.marks_erasing same
  simp only [Member.view, Member.blur, Member.marks, Blur.erasing_span, same, marks]

theorem fieldMember_echoes (hD : D.Echoes) {header header' : Header} {s t : Span}
    {type type' : TypeRef} {name name' : Ident} (same : header.view = header'.view)
    (sameType : type.blur .erasing = type'.blur .erasing)
    (sameName : Ident.blur .erasing name = Ident.blur .erasing name') :
    EchoesAt .loose .loose (header.forms ++ type.forms ++ [.ident name]) c
      (do let declarators ← declarators D name
          let _ ← Parser.expect (.punctuation .semicolon)
          return .field (← Parser.spanFrom s) ⟨header, type, declarators⟩)
      (do let declarators ← declarators D name'
          let _ ← Parser.expect (.punctuation .semicolon)
          return .field (← Parser.spanFrom t) ⟨header', type', declarators⟩)
      Member.forms Member.view := by
  refine .bindOn ((declarators_echoes hD sameName).behind _) fun {ds ds' c₁} vars => ?_
  refine .expect rfl (by simp) (by simp) fun {s t} => .spanFrom fun {s t} => .pure ?_ ?_
  · simp [Member.forms, Field.forms]
  let f : Field := ⟨header, type, ds⟩
  let f' : Field := ⟨header', type', ds'⟩
  have blurred : f.blur .erasing = f'.blur .erasing := by
    simp only [f, f', Field.blur, Header.blur_of_view same, sameType, vars]
  have marks : f.marks = f'.marks := Field.marks_eq (congrArg Prod.snd same) blurred
  simp only [f, f'] at blurred marks
  simp only [Member.view, Member.blur, Member.marks, Blur.erasing_span, blurred, marks]

theorem variableMember_echoes (hD : D.Echoes) {header header' : Header} {s t : Span}
    {type type' : TypeRef} {name name' : Ident} (same : header.view = header'.view)
    (sameType : type.blur .erasing = type'.blur .erasing)
    (sameName : Ident.blur .erasing name = Ident.blur .erasing name') :
    EchoesAt .loose .loose (header.forms ++ type.forms ++ [.ident name]) c
      (variableMember D header s type name) (variableMember D header' t type' name')
      Member.forms Member.view := by
  have property := propertyMember_echoes hD (c := c) (s := s) (t := t) same sameType sameName
  have field := fieldMember_echoes hD (c := c) (s := s) (t := t) same sameType sameName
  refine .kind (by simp) fun {k} shape => ?_
  cases hk : c.current.kind with
  | punctuation p =>
    obtain rfl : k = .punctuation p := TokenKind.eq_of_shape_eq (by rw [← shape, hk]) rfl
    cases p <;> first | exact property | exact field | exact .fail
  | operator o =>
    obtain rfl : k = .operator o := TokenKind.eq_of_shape_eq (by rw [← shape, hk]) rfl
    cases o <;> first | exact field | exact .fail
  | _ => exact .fail

/-! ## Members of a class -/

/-- The token behind a name looks alike in both rows. -/
theorem kindBehindName_echoes {α γ : Type} {e₁ : Edge} {read : List Form} {forms : α → List Form}
    {view : α → γ} {f g : TokenKind → Parser α} (name : c.current.kind.isName = true)
    (h : ∀ {k}, (c.peek 1).kind.shape = k.shape →
      EchoesAt .loose e₁ read c (f (c.peek 1).kind) (g k) forms view) :
    EchoesAt .loose e₁ read c (kindAt 1 >>= f) (kindAt 1 >>= g) forms view := by
  refine .depends (p := f (c.peek 1).kind) (fun d => (d.peek 1).kind)
    (R := fun k => (c.peek 1).kind.shape = k.shape) rfl (fun {d} alike => ?_) h
  refine Cursor.Alike.peek_one alike (Token.isEnd_of_holds _ name rfl) ?_
  cases hk : c.current.kind <;> simp_all [TokenKind.isName, TokenKind.opensValue]

theorem eq_openParen_iff {j k : TokenKind} (shape : j.shape = k.shape) :
    j = .punctuation .openParen ↔ k = .punctuation .openParen :=
  ⟨fun hj => TokenKind.eq_of_shape_eq (hj ▸ shape.symm) rfl,
    fun hk => TokenKind.eq_of_shape_eq (hk ▸ shape) rfl⟩

theorem typedMember_echoes (hD : D.Echoes) {header header' : Header} {s t : Span}
    (same : header.view = header'.view) :
    EchoesAt .loose .loose header.forms c (typedMember D header s) (typedMember D header' t)
      Member.forms Member.view := by
  refine .bind ((typeRef_echoes hD.typeRef c).begin _) fun {x y c₁} type => ?_
  -- A name stands behind the type, whatever the member is.
  cases name : c₁.current.kind.isName with
  | false =>
    have none : ∀ {i c₂}, identifier c₁ ≠ .ok (i, c₂) := by
      intro i c₂ run
      obtain ⟨text, found, _⟩ := identifier_ok.mp run
      simp [found, TokenKind.isName] at name
    intro _ m c' run
    rw [kindAt_bind_ok] at run
    rcases ite_ok.mp run with ⟨_, run⟩ | ⟨_, run⟩
    · obtain ⟨_, _, run, _⟩ := bind_ok.mp run
      obtain ⟨_, _, _, _, _, _, run, _⟩ := methodRest_ok.mp run
      exact (none run).elim
    · obtain ⟨_, _, run, _⟩ := bind_ok.mp run
      exact (none run).elim
  | true =>
    refine kindBehindName_echoes name fun {k} shape => ?_
    by_cases paren : (c₁.peek 1).kind = .punctuation .openParen
    · rw [if_pos paren, if_pos ((eq_openParen_iff shape).mp paren)]
      exact methodMember_echoes
        (methodRest_echoes hD same (congrArg some type) (methodBody_echoes hD))
    · rw [if_neg paren, if_neg (mt (eq_openParen_iff shape).mpr paren)]
      exact .bind ((identifier_echoes c₁).begin _) fun name =>
        variableMember_echoes hD same type name

theorem declarationStart_echoes {α γ : Type} {e₀ e₁ : Edge} {fs : List Form}
    {forms : α → List Form} {view : α → γ} {f g : Span → Parser α} {read read' : ReadHeader}
    (h : ∀ {s t}, EchoesAt e₀ e₁ fs c (f s) (g t) forms view) :
    EchoesAt e₀ e₁ fs c (declarationStart read >>= f) (declarationStart read' >>= g) forms
      view := by
  intro sound x c' run
  have run := declarationStart_bind_ok.mp run
  obtain ⟨F, all, stands, again⟩ := h (t := default) sound run
  refine ⟨F, all, stands, fun d d' sorted standsD meets => ?_⟩
  obtain ⟨F', all', _, again'⟩ := h (t := read'.start.getD d.current.span) sound run
  obtain rfl : F' = F := List.append_cancel_left (all'.trans all.symm)
  obtain ⟨begin, y, run', same⟩ := again' sorted standsD meets
  exact ⟨begin, y, declarationStart_bind_ok.mpr run', same⟩

theorem classMember_echoes (hD : D.Echoes) (hS : D.Sits) (hF : D.Sound) (className : String) :
    Echoes .loose .loose (classMember D className) Member.forms Member.view := by
  intro c
  refine .bindRun (header_echoes hD hS c) fun {read read' c₁} run same => ?_
  have distinct := (header_yields hF run).distinct
  refine declarationStart_echoes fun {s t} => ?_
  have typed := typedMember_echoes hD (c := c₁) (s := s) (t := t) same
  have nested : EchoesAt .loose .loose read.header.forms c₁
      (do return .type (← D.typeDeclaration read)) (do return .type (← D.typeDeclaration read'))
      Member.forms Member.view := by
    refine .bindOn (hD.typeDeclaration same) fun {x y c₂} same => .pure rfl ?_
    obtain ⟨same, marks⟩ := Prod.mk.inj same
    simp only [Member.view, Member.blur, Member.marks, same, marks]
  refine .kind (by simp) fun {k} shape => ?_
  cases hk : c₁.current.kind with
  | punctuation p =>
    obtain rfl : k = .punctuation p := TokenKind.eq_of_shape_eq (by rw [← shape, hk]) rfl
    cases p <;> first | exact initializerMember_echoes hD same distinct | exact typed
  | keyword kw =>
    obtain rfl : k = .keyword kw := TokenKind.eq_of_shape_eq (by rw [← shape, hk]) rfl
    have method : c₁.current.kind = .keyword .kwVoid → EchoesAt .loose .loose read.header.forms c₁
        (do advance
            let method ← methodRest D read.header none (methodBody D)
            return .method (← Parser.spanFrom s) method)
        (do advance
            let method ← methodRest D read'.header none (methodBody D)
            return .method (← Parser.spanFrom t) method) Member.forms Member.view :=
      fun void => .token void (by simp) (by simp)
        (methodMember_echoes (methodRest_echoes hD same rfl (methodBody_echoes hD)))
    cases kw <;> first | exact nested | exact method hk | exact typed
  | name text =>
    rw [hk] at shape
    have name : k.isName = true := (TokenKind.isName_eq_of_shape_eq shape).symm
    cases k with
    | name text' =>
      have word := TokenKind.sameWord_of_shape_eq shape
      have word : sameWord text className = sameWord text' className := by
        simp only [sameWord, beq_iff_eq] at word ⊢
        rw [word]
      refine kindBehindName_echoes (by rw [hk]; rfl) fun {j} behind => ?_
      have paren : ((c₁.peek 1).kind == .punctuation .openParen) = (j == .punctuation .openParen) := by
        rw [Bool.eq_iff_iff, beq_iff_eq, beq_iff_eq]
        exact eq_openParen_iff behind
      rw [word, paren]
      cases sameWord text' className && j == .punctuation .openParen with
      | true => exact constructorMember_echoes hD same
      | false => exact typed
    | _ => cases name
  | _ =>
    rw [hk] at shape
    cases k with
    | name => cases TokenKind.isName_eq_of_shape_eq shape
    | keyword | punctuation => cases TokenKind.eq_of_shape_eq shape rfl
    | _ => exact typed

theorem Member.forms_ne_nil (m : Member) : m.forms ≠ [] := by
  cases m with
  | field _ f => simp [Member.forms, Field.forms]
  | method _ m => simp [Member.forms, Method.forms]
  | constructor _ k => simp [Member.forms, Constructor.forms]
  | property _ p => simp [Member.forms, Property.forms]
  | initializer _ i =>
    obtain ⟨_, _, _⟩ := i
    simp [Member.forms, Initializer.forms, Block.forms, Form.braces]
  | type t => cases t <;> simp [Member.forms, TypeDeclaration.forms, ClassHead.forms,
      InterfaceHead.forms, EnumDeclaration.forms]
  | stray => simp [Member.forms]

theorem memberOrStray_echoes (hD : D.Echoes) (hS : D.Sits) (hF : D.Sound) (className : String) :
    Echoes .loose .loose (memberOrStray D className) Member.forms Member.view :=
  fun _ => .isAt rfl rfl
    (fun stray => .next stray (by simp) (by simp) fun {_ _} => .pure rfl rfl)
    (fun _ => classMember_echoes hD hS hF className _)

end Grammar

end Apex
