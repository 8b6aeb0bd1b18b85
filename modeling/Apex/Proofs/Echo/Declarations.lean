import Apex.Proofs.Echo.Members

/-!
# Reading declarations again

Types, triggers and whole files are read again from any row in which their forms stand, and what is
read again is written as what was read before.
-/

namespace Apex

theorem interfaceMarks_eq {ms ms' : List (Spanned Method)}
    (same : (ms.map fun m => m.value.marks) = ms'.map fun m => m.value.marks) :
    interfaceMarks ms = interfaceMarks ms' := by
  cases ms with
  | nil =>
    obtain rfl : ms' = [] := by simpa using same.symm
    rfl
  | cons m ms =>
    cases ms' with
    | nil => cases same
    | cons m' ms' =>
      obtain ⟨head, tail⟩ := List.cons.inj same
      have behind := congrArg (List.flatMap (Mark.gap :: ·)) tail
      rw [List.flatMap_map, List.flatMap_map] at behind
      simp only [interfaceMarks, head, behind]

open Grammar Apex.Parser

namespace Grammar

variable {D : Deeper} {c : Cursor}

/-! ## Types -/

theorem interfaceMethod_echoes (hD : D.Echoes) (hS : D.Sits) :
    Echoes .loose .loose (interfaceMethod D) (fun m => m.value.forms) fun m => m.value.view := by
  intro c
  refine .bind (header_echoes hD hS c) fun {read read' c₁} same => ?_
  refine declarationStart_echoes fun {s t} => ?_
  refine .bind (returnType_echoes hD c₁) fun {x y c₂} type => ?_
  refine .bindOn (methodRest_echoes hD same type noBody_echoes) fun {m m' c₃} same => ?_
  exact .spanFrom fun {s t} => .pure rfl same

theorem braced_echoes {α γ : Type} {item item' : Parser α} {forms : α → List Form} {view : α → γ}
    (h : ∀ {c}, EchoesAt .loose .loose [] c item item' forms view)
    (some : ∀ x, forms x ≠ []) :
    EchoesAt .loose .loose [] c (braced item) (braced item')
      (fun xs => Form.braces (xs.flatMap forms)) (List.map view) := by
  refine .expect rfl (by simp) (by simp) fun {s t} => ?_
  have items := EchoesAt.itemsUntil (c := c.advance) (k := .punctuation .closeBrace) rfl rfl h
    fun sound run => h.before run sound (some _)
  refine .bind items.atValue fun {xs ys c₁} same => ?_
  refine .expect rfl (by simp) (by simp) fun {s t} => .pure ?_ same
  simp [Form.braces]

theorem typesBehind_echoes (hD : D.Echoes) (k : Keyword) :
    Echoes .loose .loose (typesBehind D k) (TypeRef.formsBehind k)
      (List.map (TypeRef.blur .erasing)) := by
  intro c
  refine .accept rfl rfl (by simp) (by simp) (fun _ => ?_) (fun _ => .pure rfl rfl)
  have types := EchoesAt.commaSeparated (c := c.advance) fun {c} =>
    (typeRef_echoes hD.typeRef c).begin .loose
  refine (types.behind [.keyword k]).reform fun run => ?_
  obtain ⟨first, _, more, rfl, _⟩ := commaSeparated_items run
  simp [TypeRef.formsBehind]

theorem baseType_echoes (hD : D.Echoes) :
    Echoes .loose .loose (baseType D) (fun base => TypeRef.formsBehind .kwExtends base.toList)
      (Option.map (TypeRef.blur .erasing)) := by
  intro c
  refine .accept rfl rfl (by simp) (by simp) (fun _ => ?_) (fun _ => .pure rfl rfl)
  have type := ((typeRef_echoes hD.typeRef c.advance).begin .loose).behind [.keyword .kwExtends]
  refine type.map (fun x => ?_) fun same => congrArg some same
  simp [TypeRef.formsBehind, Form.commas]

theorem classHead_echoes (hD : D.Echoes) {header header' : Header}
    (same : header.view = header'.view) :
    EchoesAt .loose .loose (header.forms ++ [.keyword .kwClass]) c (classHead D header)
      (classHead D header') ClassHead.forms fun h => (h.blur .erasing, h.marks) := by
  refine .bind ((identifier_echoes c).begin _) fun {n m c₁} name => ?_
  refine .bind (baseType_echoes hD c₁) fun {x y c₂} base => ?_
  refine .bind (typesBehind_echoes hD _ c₂) fun {xs ys c₃} interfaces => .pure ?_ ?_
  · simp [ClassHead.forms]
  have blurred : ClassHead.blur .erasing ⟨header, n, x, xs⟩ =
      ClassHead.blur .erasing ⟨header', m, y, ys⟩ := by
    simp only [ClassHead.blur, Header.blur_of_view same, name, base, interfaces]
  exact Prod.ext blurred (ClassHead.marks_eq (congrArg Prod.snd same) blurred)

theorem interfaceHead_echoes (hD : D.Echoes) {header header' : Header}
    (same : header.view = header'.view) :
    EchoesAt .loose .loose (header.forms ++ [.keyword .kwInterface]) c (interfaceHead D header)
      (interfaceHead D header') InterfaceHead.forms fun h => (h.blur .erasing, h.marks) := by
  refine .bind ((identifier_echoes c).begin _) fun {n m c₁} name => ?_
  refine .bind (typesBehind_echoes hD _ c₁) fun {xs ys c₂} bases => .pure ?_ ?_
  · simp [InterfaceHead.forms]
  have blurred : InterfaceHead.blur .erasing ⟨header, n, xs⟩ =
      InterfaceHead.blur .erasing ⟨header', m, ys⟩ := by
    simp only [InterfaceHead.blur, Header.blur_of_view same, name, bases]
  exact Prod.ext blurred (InterfaceHead.marks_eq (congrArg Prod.snd same) blurred)

/-- The step of an enum's constants on those read alone: a comma stands behind all of them for as
long as more are read. -/
def constantsStep (read : List Ident) : Parser (Turn (List Ident) (List Ident × Bool)) := do
  if ← Parser.isAt (.punctuation .closeBrace) then return .done (read.reverse, !read.isEmpty)
  let constant ← identifier
  if ← Parser.accept (.punctuation .comma) then return .again (constant :: read)
  return .done ((constant :: read).reverse, false)

theorem constantStep_eq (read : List Ident) :
    constantStep (read, !read.isEmpty) =
      Turn.map (fun read => (read, !read.isEmpty)) id <$> constantsStep read := by
  unfold constantStep constantsStep
  simp only [map_bind]
  congr 1
  funext closed
  cases closed with
  | true => simp [Turn.map]
  | false =>
    simp only [Bool.false_eq_true, if_false, map_bind]
    congr 1
    funext constant
    congr 1
    funext comma
    cases comma <;> simp [Turn.map]

theorem enumConstants_eq : enumConstants = iterate constantsStep [] := by
  have loop := iterate_eq_map _ id constantStep_eq []
  rw [id_map] at loop
  exact loop

theorem constantsStep_ok {read : List Ident}
    {r : Turn (List Ident) (List Ident × Bool) × Cursor} :
    constantsStep read c = .ok r ↔
      (c.current.kind = .punctuation .closeBrace ∧ (.done (read.reverse, !read.isEmpty), c) = r) ∨
      (c.current.kind ≠ .punctuation .closeBrace ∧
        ∃ constant c₁, identifier c = .ok (constant, c₁) ∧
          ((c₁.current.kind = .punctuation .comma ∧
            (.again (constant :: read), c₁.advance) = r) ∨
          (c₁.current.kind ≠ .punctuation .comma ∧
            (.done ((constant :: read).reverse, false), c₁) = r))) := by
  simp [constantsStep]

/-- What the constants of an enum stand for, and the comma behind the last one. -/
def constantForms (read : List Ident × Bool) : List Form :=
  Form.commas (read.1.map fun i => [.ident i]) ++ if read.2 then [.mark .comma] else []

theorem constantForms_last (read : List Ident) (n : Ident) :
    (read.flatMap fun i => [.ident i, .mark .comma]) ++ [.ident n] =
      constantForms (read ++ [n], false) := by
  -- The commas stand behind the constants before the last one, or before those behind the first.
  have shifted : ∀ is : List Ident,
      Form.mark .comma :: ((is.flatMap fun i => [.ident i, .mark .comma]) ++ [.ident n]) =
        (is ++ [n]).flatMap fun i => [.mark .comma, .ident i] := by
    intro is
    induction is with
    | nil => rfl
    | cons i is ih => simp [← ih]
  cases read with
  | nil => rfl
  | cons i is => simpa [constantForms, Form.commas, List.flatMap_map] using shifted is

theorem constantForms_again (read : List Ident) :
    (read.flatMap fun i => [.ident i, .mark .comma]) = constantForms (read, !read.isEmpty) := by
  rcases List.eq_nil_or_concat read with rfl | ⟨is, n, rfl⟩
  · rfl
  · simpa [constantForms] using congrArg (· ++ [Form.mark .comma]) (constantForms_last is n)

theorem enumConstants_echoes :
    Echoes .loose .loose enumConstants constantForms
      fun read => (read.1.map (Ident.blur .erasing), read.2) := by
  intro c
  rw [enumConstants_eq]
  refine .iterate (fun read => read.reverse.flatMap fun i => [.ident i, .mark .comma])
    (List.map (Ident.blur .erasing)) (s := []) (fun {s t c} same => ?_)
    (fun {s c s' c₁} sound run => ?_) rfl
  · have empty : s.isEmpty = t.isEmpty := by
      rw [← List.isEmpty_map (f := Ident.blur .erasing), same, List.isEmpty_map]
    refine .isAt rfl rfl (fun _ => .pure ?_ ?_) (fun _ => ?_)
    · simpa [Turn.forms] using constantForms_again s.reverse
    · simp only [Turn.map, List.map_reverse, same, empty]
    refine .bind ((identifier_echoes c).begin _) fun {n m c₁} name => ?_
    refine .accept rfl rfl (by simp) (by simp) (fun _ => ?_) (fun _ => .pure ?_ ?_)
    · refine EchoesAt.atValue (EchoesAt.pure (e := .loose) ?_ ?_)
      · simp [Turn.forms]
      · simp only [Turn.map, List.map_cons, same, name]
    · simpa [Turn.forms] using constantForms_last s.reverse n
    · simp only [Turn.map, List.map_reverse, List.map_cons, same, name]
  · rcases constantsStep_ok.mp run with ⟨_, turn⟩ | ⟨_, n, _, name, ⟨comma, turn⟩ | ⟨_, turn⟩⟩
    · cases turn
    · cases turn
      exact (identifier_before name).trans (before_of_kind comma (by simp))
    · cases turn

theorem enumRest_echoes {header header' : Header} (same : header.view = header'.view) :
    EchoesAt .loose .loose (header.forms ++ [.keyword .kwEnum]) c (enumRest header)
      (enumRest header') EnumDeclaration.forms fun e => (e.blur .erasing, e.marks) := by
  refine .bind ((identifier_echoes c).begin _) fun {n m c₁} name => ?_
  refine .expect rfl (by simp) (by simp) fun {s t} => ?_
  refine .bind (enumConstants_echoes _).atValue fun {read read' c₂} constants => ?_
  obtain ⟨each, comma⟩ := Prod.mk.inj constants
  refine .expect rfl (by simp) (by simp) fun {s t} => .pure ?_ ?_
  · simp [EnumDeclaration.forms, constantForms, Form.braces]
  have blurred : EnumDeclaration.blur .erasing ⟨header, n, read.1, read.2⟩ =
      EnumDeclaration.blur .erasing ⟨header', m, read'.1, read'.2⟩ := by
    simp only [EnumDeclaration.blur, Header.blur_of_view same, name, each, comma]
  exact Prod.ext blurred (EnumDeclaration.marks_eq (congrArg Prod.snd same) blurred)

theorem classDeclaration_echoes (hD : D.Echoes) (hS : D.Sits) (hF : D.Sound)
    {header header' : Header} {s t : Span} (same : header.view = header'.view) :
    EchoesAt .loose .loose (header.forms ++ [.keyword .kwClass]) c
      (do let head ← classHead D header
          let members ← braced (memberOrStray D head.name.value)
          return .classType (← Parser.spanFrom s) head members)
      (do let head ← classHead D header'
          let members ← braced (memberOrStray D head.name.value)
          return .classType (← Parser.spanFrom t) head members)
      TypeDeclaration.forms TypeDeclaration.view := by
  refine .bindOn (classHead_echoes hD same) fun {h h' c₁} same => ?_
  obtain ⟨head, marks⟩ := Prod.mk.inj same
  have name : h.name.value = h'.name.value :=
    eq_of_erased Ident.value_erasing (congrArg ClassHead.name head)
  rw [← name]
  refine .bind (braced_echoes (fun {c} => memberOrStray_echoes hD hS hF _ c) Member.forms_ne_nil)
    fun {ms ms' c₂} same => .spanFrom fun {s t} => .pure ?_ ?_
  · simp [TypeDeclaration.forms, List.flatMap_def]
  obtain ⟨members, each⟩ := maps_of_views same
  simp only [TypeDeclaration.view, TypeDeclaration.blur, TypeDeclaration.marks,
    Member.blurAll_eq_map, Blur.erasing_span, head, marks, members,
    Member.marksOf_eq each members rfl]

theorem interfaceDeclaration_echoes (hD : D.Echoes) (hS : D.Sits) {header header' : Header}
    {s t : Span} (same : header.view = header'.view) :
    EchoesAt .loose .loose (header.forms ++ [.keyword .kwInterface]) c
      (do let head ← interfaceHead D header
          let methods ← braced (interfaceMethod D)
          return .interfaceType (← Parser.spanFrom s) head methods)
      (do let head ← interfaceHead D header'
          let methods ← braced (interfaceMethod D)
          return .interfaceType (← Parser.spanFrom t) head methods)
      TypeDeclaration.forms TypeDeclaration.view := by
  refine .bindOn (interfaceHead_echoes hD same) fun {h h' c₁} same => ?_
  obtain ⟨head, marks⟩ := Prod.mk.inj same
  have some : ∀ m : Spanned Method, m.value.forms ≠ [] := fun m => by simp [Method.forms]
  refine .bind (braced_echoes (fun {c} => interfaceMethod_echoes hD hS c) some)
    fun {ms ms' c₂} same => .spanFrom fun {s t} => .pure ?_ ?_
  · simp [TypeDeclaration.forms]
  obtain ⟨methods, each⟩ := maps_of_views same
  have methods : ms.map (Method.blurSpanned .erasing) = ms'.map (Method.blurSpanned .erasing) := by
    have spanned := congrArg (List.map fun m => (⟨m, .point 0⟩ : Spanned Method)) methods
    rw [List.map_map, List.map_map] at spanned
    exact spanned
  simp only [TypeDeclaration.view, TypeDeclaration.blur, TypeDeclaration.marks,
    Blur.erasing_span, head, marks, methods, interfaceMarks_eq each]

/-- A declaration of a type is read again, behind a header with the same items, from any row in
which its forms stand. -/
theorem typeDeclaration_echoes (hD : D.Echoes) (hS : D.Sits) (hF : D.Sound)
    {read read' : ReadHeader} (same : read.header.view = read'.header.view) :
    EchoesAt .loose .loose read.header.forms c (typeDeclaration D read) (typeDeclaration D read')
      TypeDeclaration.forms TypeDeclaration.view := by
  refine declarationStart_echoes fun {s t} => .kind (by simp) fun {k} shape => ?_
  cases hk : c.current.kind with
  | keyword kw =>
    obtain rfl : k = .keyword kw := TokenKind.eq_of_shape_eq (by rw [← shape, hk]) rfl
    cases kw with
    | kwClass => exact .token hk (by simp) (by simp) (classDeclaration_echoes hD hS hF same)
    | kwInterface => exact .token hk (by simp) (by simp) (interfaceDeclaration_echoes hD hS same)
    | kwEnum =>
      refine .token hk (by simp) (by simp) (.bindOn (enumRest_echoes same) fun {e e' c₁} same => ?_)
      obtain ⟨blurred, marks⟩ := Prod.mk.inj same
      refine .spanFrom fun {s t} => .pure rfl ?_
      simp only [TypeDeclaration.view, TypeDeclaration.blur, TypeDeclaration.marks,
        Blur.erasing_span, blurred, marks]
    | _ => exact .fail
  | _ => exact .fail

/-! ## Triggers -/

/-- A word of a source that spells a contextual keyword is a name. -/
theorem spells_of_word? {t : Token} (h : t.Genuine) {w : String} {k : Keyword}
    (word : t.kind.word? = some w) (spelled : k.isSpelledBy w = true)
    (contextual : k.isReserved = false) : t.kind.spells k = true := by
  unfold Token.Genuine at h
  cases hk : t.kind with
  | name v =>
    rw [hk] at word
    cases word
    exact spelled
  | keyword j =>
    simp only [hk] at h
    rw [hk] at word
    cases word
    obtain ⟨_, _, _, found⟩ := h
    have reserved := (Option.filter_eq_some_iff.mp found).2
    have same := Keyword.ofWord?_of_isSpelledBy spelled
    rw [Keyword.ofWord?_word, Option.some.injEq] at same
    rw [same, contextual] at reserved
    cases reserved
  | _ => simp [hk, TokenKind.word?] at word

/-- A word of a source that spells a reserved keyword is that keyword. -/
theorem kind_of_word? {t : Token} (h : t.Genuine) {w : String} {k : Keyword}
    (word : t.kind.word? = some w) (spelled : k.isSpelledBy w = true)
    (reserved : k.isReserved = true) : t.kind = .keyword k := by
  have same := Keyword.ofWord?_of_isSpelledBy spelled
  unfold Token.Genuine at h
  cases hk : t.kind with
  | name v =>
    simp only [hk] at h
    rw [hk] at word
    obtain rfl : v = w := Option.some.inj word
    have found : Keyword.reservedOfWord? v = some k :=
      Option.filter_eq_some_iff.mpr ⟨same, reserved⟩
    rw [h.2] at found
    cases found
  | keyword j =>
    rw [hk] at word
    cases word
    rw [Keyword.ofWord?_word, Option.some.injEq] at same
    rw [same]
  | _ => simp [hk, TokenKind.word?] at word

theorem ofWords?_some {timing operation : String} {e : TriggerEvent}
    (h : TriggerEvent.ofWords? timing operation = some e) :
    sameWord e.timing.word timing = true ∧ sameWord e.operation operation = true := by
  unfold TriggerEvent.ofWords? TriggerTiming.ofWord? at h
  split at h
  · cases h
  · next t found =>
    have event := List.find?_some h
    simp only [Bool.and_eq_true, beq_iff_eq] at event
    refine ⟨?_, event.2⟩
    rw [event.1]
    split at found
    · next same =>
      cases found
      exact same
    · split at found
      · next same =>
        cases found
        exact same
      · cases found

theorem ofWords?_of_spelled {timing : String} (e : TriggerEvent)
    (h : sameWord e.timing.word timing = true) :
    TriggerEvent.ofWords? timing e.operation = some e := by
  have lower : lowerWord timing = lowerWord e.timing.word := (beq_iff_eq.mp h).symm
  have found : TriggerTiming.ofWord? timing = some e.timing := by
    unfold TriggerTiming.ofWord? sameWord
    rw [lower]
    cases e <;> decide +kernel
  unfold TriggerEvent.ofWords?
  rw [found]
  cases e <;> decide +kernel

theorem stands_of_triggerEvent {e : Spanned TriggerEvent} {c' : Cursor} (sound : c.Sound)
    (run : triggerEvent c = .ok (e, c')) : Stands .source e.value.forms c c' := by
  obtain ⟨timing, operation, event, first, second, found, done⟩ := triggerEvent_ok.mp run
  cases done
  obtain ⟨before, behind⟩ := ofWords?_some found
  have time : c.current.kind.spells event.timing.keyword = true := by
    refine spells_of_word? sound.current first ?_ ?_
    all_goals cases event <;> first | rfl | exact before
  have act : c.advance.current.kind = .keyword event.keyword := by
    refine kind_of_word? sound.advance.current second ?_ ?_
    all_goals cases event <;> first | rfl | exact behind
  have inside := isEnd_of_kind act (by simp)
  exact ⟨c.advance, ⟨time, rfl⟩, stands_single.mpr ⟨by rw [act], inside, rfl⟩⟩

theorem triggerEvent_of_stands {side : Side} {e : TriggerEvent} {c' : Cursor}
    (h : Stands side e.forms c c') :
    triggerEvent c = .ok (⟨e, c'.spanFrom c.current.span⟩, c') := by
  obtain ⟨_, ⟨time, rfl⟩, act⟩ := h
  obtain ⟨kinds, _, rfl⟩ := stands_single.mp act
  have act := TokenKind.eq_of_blur_eq kinds rfl
  have word : e.keyword.word = e.operation := by cases e <;> rfl
  have timing : ∃ w, c.current.kind = .name w ∧ e.timing.keyword.isSpelledBy w = true := by
    cases hk : c.current.kind <;> simp_all [TokenKind.spells]
  obtain ⟨w, name, spelled⟩ := timing
  have same : sameWord e.timing.word w = true := by cases e <;> exact spelled
  refine triggerEvent_ok.mpr ⟨w, e.operation, e, by rw [name]; rfl, ?_,
    ofWords?_of_spelled e same, rfl⟩
  rw [act, TokenKind.word?, word]

theorem isSteady_triggerEvent (e : TriggerEvent) : ∀ form ∈ e.forms, form.isSteady = true := by
  cases e <;> decide

theorem triggerEvent_echoes :
    Echoes .loose .loose triggerEvent (fun e => e.value.forms) (Spanned.blur .erasing) := by
  intro c sound e c' run
  have stands := stands_of_triggerEvent sound run
  refine ⟨e.value.forms, rfl, stands, fun d d' sorted standsD meets => ?_⟩
  exact ⟨stands.alike (isSteady_triggerEvent _) standsD meets, _,
    triggerEvent_of_stands standsD, rfl⟩

end Grammar

/-- What two declarations of a file have in common: what they say, and how they are written. -/
def Declaration.view (d : Declaration) : Declaration × List Mark := (d.blur .erasing, d.marks)

/-- What two files have in common: what they say, and how they are written. -/
def CompilationUnit.view (u : CompilationUnit) : CompilationUnit × List Mark :=
  (u.blur .erasing, u.marks)

namespace Grammar

variable {D : Deeper} {c : Cursor}

theorem triggerDeclaration_echoes (hD : D.Echoes) :
    Echoes .loose .loose (triggerDeclaration D) Declaration.forms Declaration.view := by
  intro c
  refine .expect rfl (by simp) (by simp) fun {s t} => ?_
  refine .bind ((identifier_echoes _).begin _) fun {n m c₁} name => ?_
  refine .bind (expectWord_echoes rfl _ |>.begin _) fun {s t c₂} on => ?_
  refine .bind ((identifier_echoes _).begin _) fun {o p c₃} object => ?_
  refine .expect rfl (by simp) (by simp) fun {s t} => ?_
  refine .bind (EchoesAt.commaSeparated fun {c} => triggerEvent_echoes c).atValue
    fun {es fs c₄} events => ?_
  refine .expect rfl (by simp) (by simp) fun {s t} => ?_
  refine .bind ((block_echoes hD _).begin _) fun {b b' c₅} body => .spanFrom fun {s t} => ?_
  refine .pure ?_ ?_
  · simp [Declaration.forms, Trigger.forms, Form.parens]
  have blurred : Trigger.blur .erasing ⟨n, o, es, b⟩ = Trigger.blur .erasing ⟨m, p, fs, b'⟩ := by
    simp only [Trigger.blur, name, object, events, body]
  have marks := eq_of_erased Trigger.marks_erasing blurred
  simp only [Declaration.view, Declaration.blur, Declaration.marks, Blur.erasing_span, blurred,
    marks]

/-! ## Files -/

theorem declaration_echoes (hD : D.Echoes) (hS : D.Sits) (hF : D.Sound) :
    Echoes .loose .loose (declaration D) Declaration.forms Declaration.view := by
  intro c
  refine .isAt rfl rfl (fun _ => triggerDeclaration_echoes hD c) (fun _ => ?_)
  refine .bind (header_echoes hD hS c) fun {read read' c₁} same => ?_
  refine .bindOn (typeDeclaration_echoes hD hS hF same) fun {x y c₂} same => .pure rfl ?_
  obtain ⟨blurred, marks⟩ := Prod.mk.inj same
  simp only [Declaration.view, Declaration.blur, Declaration.marks, blurred, marks]

theorem semicolons_echoes :
    Echoes .loose .loose semicolons (fun n => List.replicate n (.mark .semicolon)) id := by
  intro c
  refine .iterate (fun n => List.replicate n (.mark .semicolon)) id (s := 0)
    (fun {s t c} same => ?_) (fun {s c s' c₁} sound run => ?_) rfl
  · obtain rfl : s = t := same
    refine .accept rfl rfl (by simp) (by simp) (fun _ => .pure ?_ rfl) (fun _ => .pure rfl rfl)
    simp [Turn.forms, List.replicate_succ']
  · rcases semicolonStep_ok.mp run with ⟨semicolon, turn⟩ | ⟨_, turn⟩
    · cases turn
      exact before_of_kind semicolon (by simp)
    · cases turn

theorem nothingAhead_eq {d : Cursor} (alike : c.Alike d) : nothingAhead c = nothingAhead d := by
  have semicolon : (c.current.kind == .punctuation .semicolon) =
      (d.current.kind == .punctuation .semicolon) := by
    rw [Bool.eq_iff_iff, beq_iff_eq, beq_iff_eq]
    exact Edge.Meets.kind_iff (e := .loose) alike rfl rfl
  unfold nothingAhead Cursor.atEnd
  rw [Token.isEnd_eq_of_shape_eq alike.shape, semicolon]

theorem throughPrevious_echoes {α γ : Type} {e₀ e₁ : Edge} {read : List Form}
    {forms : α → List Form} {view : α → γ} {f g : Span → Parser α} {start start' : Span}
    (h : ∀ {s t}, EchoesAt e₀ e₁ read c (f s) (g t) forms view) :
    EchoesAt e₀ e₁ read c (throughPrevious start >>= f) (throughPrevious start' >>= g) forms
      view := by
  intro sound x c' run
  have run := throughPrevious_bind_ok.mp run
  obtain ⟨F, all, stands, again⟩ := h (t := default) sound run
  refine ⟨F, all, stands, fun d d' sorted standsD meets => ?_⟩
  obtain ⟨F', all', _, again'⟩ := h (t := spanThrough d start') sound run
  obtain rfl : F' = F := List.append_cancel_left (all'.trans all.symm)
  obtain ⟨begin, y, run', same⟩ := again' sorted standsD meets
  exact ⟨begin, y, throughPrevious_bind_ok.mpr run', same⟩

theorem declarationAndSemicolons_echoes (hD : D.Echoes) (hS : D.Sits) (hF : D.Sound) :
    Echoes .loose .loose (declarationAndSemicolons D)
      (fun found => found.1.forms ++ List.replicate found.2 (.mark .semicolon))
      fun found => (found.1.view, found.2) := by
  intro c
  refine .here fun {s t} => ?_
  have nothing : EchoesAt .loose .loose [] c
      (do let count ← semicolons
          return (Declaration.nothing (← throughPrevious s), count))
      (do let count ← semicolons
          return (Declaration.nothing (← throughPrevious t), count))
      (fun found => found.1.forms ++ List.replicate found.2 (.mark .semicolon))
      fun found => (found.1.view, found.2) := by
    refine .bind (semicolons_echoes c) fun {n m c₁} same => ?_
    obtain rfl : n = m := same
    exact throughPrevious_echoes fun {s t} => .pure rfl rfl
  have some : EchoesAt .loose .loose [] c
      (do let found ← declaration D
          return (found, ← semicolons))
      (do let found ← declaration D
          return (found, ← semicolons))
      (fun found => found.1.forms ++ List.replicate found.2 (.mark .semicolon))
      fun found => (found.1.view, found.2) := by
    refine .bind (declaration_echoes hD hS hF c) fun {x y c₁} found => ?_
    refine .bind (semicolons_echoes c₁) fun {n m c₂} same => .pure rfl ?_
    obtain rfl : n = m := same
    rw [found]
  exact .getIf nothingAhead_eq (fun _ => nothing) (fun _ => some)

/-- A file is read again from any row that consists of its forms. -/
theorem compilationUnit_echoes (hD : D.Echoes) (hS : D.Sits) (hF : D.Sound) {u : CompilationUnit}
    {c' : Cursor} (sound : c.Sound) (run : compilationUnit D c = .ok (u, c')) :
    Stands .source u.forms c c' ∧ ∀ {d d' : Cursor}, d.Sorted → Stands .text u.forms d d' →
      d'.atEnd = true → ∃ v, compilationUnit D d = .ok (v, d') ∧ u.view = v.view := by
  obtain ⟨found, _, runs, ends, done⟩ := compilationUnit_ok.mp run
  cases done
  obtain ⟨F, all, stands, again⟩ := declarationAndSemicolons_echoes hD hS hF c sound runs
  have whole : F = found.1.forms ++ List.replicate found.2 (.mark .semicolon) := all
  subst whole
  refine ⟨stands, fun {d d'} sorted standsD endsD => ?_⟩
  obtain ⟨_, found', runD, same⟩ := again sorted standsD (.last ends endsD)
  obtain ⟨first, second⟩ := Prod.mk.inj same
  obtain ⟨blurred, marks⟩ := Prod.mk.inj first
  refine ⟨_, compilationUnit_ok.mpr ⟨found', d', runD, endsD, rfl⟩, ?_⟩
  simp only [CompilationUnit.view, CompilationUnit.blur, CompilationUnit.marks, Blur.erasing_span,
    blurred, marks, second]

end Grammar

end Apex
